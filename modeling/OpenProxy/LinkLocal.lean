import OpenProxy.Config
import OpenProxy.Lib.Uri

/-!
# Link-local base URLs (`check_base_url` of `config.rs`)

The check looks for the text of a link-local host behind the scheme, up to the first colon or inside brackets. A
userinfo stands there too, and most of `fe80::/10` is written otherwise.
-/

namespace OpenProxy.LinkLocal

open Text Uri

def Schemed (base : String) : Prop := startsWith base "http://" = true ∨ startsWith base "https://" = true

theorem Schemed.exists_rest {base : String} (h : Schemed base) :
    ∃ rest, base.toList = "http://".toList ++ rest ∨ base.toList = "https://".toList ++ rest := by
  rcases h with h | h
  · obtain ⟨rest, hrest⟩ := List.isPrefixOf_iff_prefix.1 h
    exact ⟨rest, .inl hrest.symm⟩
  · obtain ⟨rest, hrest⟩ := List.isPrefixOf_iff_prefix.1 h
    exact ⟨rest, .inr hrest.symm⟩

theorem checkBaseUrl_schemed {base : String} (h : checkBaseUrl base = .ok ()) : Schemed base := by
  unfold checkBaseUrl stripPrefix at h
  split at h
  · cases h
  · rename_i rest hrest
    by_cases hhttp : startsWith base "http://" = true
    · exact .inl hhttp
    · refine .inr ?_
      by_contra hhttps
      unfold startsWith at hhttp hhttps
      rw [if_neg hhttp, if_neg hhttps] at hrest
      cases hrest

/-- The check looks at the host: there is no userinfo, and the first group of an IPv6 address is `fe80` itself. A
userinfo that looks like a link-local host is refused in its place. -/
def Visible (a : Authority) : Prop :=
  match a.userinfo with
  | some userinfo => "169.254.".toList <+: userinfo
  | none =>
    match a.host with
    | .ipv6 groups => groups.head? = some 0xfe80
    | _ => True

/-! ### What the check looks at -/

/-- The host of the check, in lower case. -/
def seen (rest : List Char) : List Char := (hostOf (before (.ofList rest) '/')).toList.map Char.toLower

theorem checkBaseUrl_eq_ok {base : String} {rest : List Char}
    (h : base.toList = "http://".toList ++ rest ∨ base.toList = "https://".toList ++ rest) :
    checkBaseUrl base = .ok () ↔ ¬ ("169.254.".toList <+: seen rest ∨ "fe80:".toList <+: seen rest) := by
  have hstrip : ((stripPrefix base "http://").orElse fun _ => stripPrefix base "https://") = some (.ofList rest) := by
    rcases h with h | h
    · have hhttp : stripPrefix base "http://" = some (.ofList rest) := by
        rw [stripPrefix, h, if_pos (List.isPrefixOf_iff_prefix.2 (List.prefix_append _ _)), List.drop_left]
      rw [hhttp]
      rfl
    · have hhttp : stripPrefix base "http://" = none := by
        rw [stripPrefix, h, if_neg]
        simp
      have hhttps : stripPrefix base "https://" = some (.ofList rest) := by
        rw [stripPrefix, h, if_pos (List.isPrefixOf_iff_prefix.2 (List.prefix_append _ _)), List.drop_left]
      rw [hhttp, hhttps]
      rfl
  have hlower (pat : String) :
      startsWith (toAsciiLowercase (hostOf (before (.ofList rest) '/'))) pat = pat.toList.isPrefixOf (seen rest) := by
    rw [startsWith, toAsciiLowercase, String.toList_ofList, seen]
  rw [checkBaseUrl, hstrip]
  dsimp only
  rw [hlower, hlower, ensure, ← List.isPrefixOf_iff_prefix, ← List.isPrefixOf_iff_prefix]
  generalize "169.254.".toList.isPrefixOf (seen rest) = ipv4
  generalize "fe80:".toList.isPrefixOf (seen rest) = ipv6
  cases ipv4 <;> cases ipv6 <;> simp

theorem authority_eq {base : String} {rest : List Char}
    (h : base.toList = "http://".toList ++ rest ∨ base.toList = "https://".toList ++ rest) :
    authority base.toList = parseAuthority (rest.takeWhile fun c => c ∉ ['/', '?', '#']) := by
  have hsplit (scheme : List Char) (hcolon : ':' ∉ scheme) (hscheme : isScheme scheme = true)
      (hbase : base.toList = scheme ++ ':' :: '/' :: '/' :: rest) :
      authority base.toList = parseAuthority (rest.takeWhile fun c => c ∉ ['/', '?', '#']) := by
    rw [authority, hbase, splitFirst_append hcolon]
    exact if_pos ⟨hscheme, rfl⟩
  rcases h with h | h
  · exact hsplit "http".toList (by decide) (by decide) h
  · exact hsplit "https".toList (by decide) (by decide) h

section
variable {rest : List Char}

/-- The check cuts at the first slash, so it looks at the authority and perhaps at a query or a fragment behind it. -/
theorem takeWhile_slash (rest : List Char) :
    ∃ tail, rest.takeWhile (· != '/') = (rest.takeWhile fun c => c ∉ ['/', '?', '#']) ++ tail := by
  induction rest with
  | nil => exact ⟨[], rfl⟩
  | cons c rest ih =>
    obtain ⟨tail, ih⟩ := ih
    rw [List.takeWhile_cons, List.takeWhile_cons]
    by_cases hc : c ∈ ['/', '?', '#']
    · have hstop : decide (c ∉ ['/', '?', '#']) = false := decide_eq_false fun h => h hc
      rw [hstop]
      exact ⟨_, (List.nil_append _).symm⟩
    · have hslash : (c != '/') = true := by
        rw [bne_iff_ne]
        rintro rfl
        exact hc List.mem_cons_self
      exact ⟨tail, by rw [if_pos hslash, if_pos (decide_eq_true hc), ih, List.cons_append]⟩

theorem seen_literal {literal more : List Char} (h : rest.takeWhile (· != '/') = '[' :: (literal ++ ']' :: more))
    (hliteral : ']' ∉ literal) : seen rest = literal.map Char.toLower := by
  have hbefore : (literal ++ ']' :: more).takeWhile (· != ']') = literal := by
    have hall : ∀ c ∈ literal, (c != ']') = true := by
      intro c hc
      rw [bne_iff_ne]
      rintro rfl
      exact hliteral hc
    rw [List.takeWhile_append_of_pos hall]
    simp
  have hstrip : stripPrefix (String.ofList ('[' :: (literal ++ ']' :: more))) "[" = some (.ofList (literal ++ ']' :: more)) := by
    rw [stripPrefix, String.toList_ofList, String.toList_ofList]
    rfl
  rw [seen, before, String.toList_ofList, h, hostOf, hstrip]
  dsimp only
  rw [before, String.toList_ofList, String.toList_ofList, hbefore]

theorem seen_name (h : (rest.takeWhile (· != '/')).head? ≠ some '[') :
    seen rest = ((rest.takeWhile (· != '/')).takeWhile (· != ':')).map Char.toLower := by
  have hstrip : stripPrefix (String.ofList (rest.takeWhile (· != '/'))) "[" = none := by
    rw [stripPrefix, String.toList_ofList, String.toList_ofList, if_neg]
    intro hprefix
    obtain ⟨tail, htail⟩ := List.isPrefixOf_iff_prefix.1 hprefix
    rw [← htail] at h
    exact h rfl
  rw [seen, before, String.toList_ofList, hostOf, hstrip]
  dsimp only
  rw [before, String.toList_ofList, String.toList_ofList]

end

/-! ### Prefixes -/

section
variable {p l : List Char}

/-- Lower case makes no difference for a prefix without letters. -/
theorem prefix_map_toLower (hp : ∀ c ∈ p, c.isAlpha = false) : p <+: l.map Char.toLower ↔ p <+: l := by
  induction p generalizing l with
  | nil => simp
  | cons c p ih =>
    cases l with
    | nil => simp
    | cons d l =>
      rw [List.map_cons, List.cons_prefix_cons, List.cons_prefix_cons, ih fun c hc => hp c (List.mem_cons_of_mem _ hc),
        eq_comm, toLower_eq_iff (hp c List.mem_cons_self), eq_comm]

theorem prefix_takeWhile {c : Char} (hp : c ∉ p) : p <+: l.takeWhile (· != c) ↔ p <+: l := by
  induction p generalizing l with
  | nil => simp
  | cons a p ih =>
    obtain ⟨ha, hp⟩ := not_or.1 (mt List.mem_cons.2 hp)
    cases l with
    | nil => simp
    | cons b l =>
      rw [List.takeWhile_cons]
      by_cases hb : b = c
      · subst hb
        have hba : a ≠ b := Ne.symm ha
        simp [hba]
      · rw [if_pos (bne_iff_ne.2 hb), List.cons_prefix_cons, List.cons_prefix_cons, ih hp]

end

/-! ### The hosts that the check misses -/

section
variable {rest : List Char}

theorem linkLocal_chars : (∀ c ∈ "169.254.".toList, c.isAlpha = false) ∧ ':' ∉ "169.254.".toList ∧
    '@' ∉ "169.254.".toList := by
  simp

/-- Behind a userinfo the host is not looked at. -/
theorem seen_userinfo {userinfo more : List Char} (h : rest.takeWhile (· != '/') = userinfo ++ '@' :: more)
    (huserinfo : isUserinfo userinfo = true) (hat : '@' ∉ userinfo) :
    ("169.254.".toList <+: seen rest ∨ "fe80:".toList <+: seen rest) ↔ "169.254.".toList <+: userinfo := by
  have hbracket : (rest.takeWhile (· != '/')).head? ≠ some '[' := by
    rw [h]
    cases userinfo with
    | nil => exact fun hc => absurd (Option.some.inj hc) (by decide)
    | cons c userinfo =>
      intro hc
      obtain rfl : c = '[' := Option.some.inj hc
      rcases isEncoded_head huserinfo with hc | hc <;> revert hc <;> decide
  have hipv6 : ¬ "fe80:".toList <+: seen rest := by
    intro hprefix
    have hmem : ':' ∈ seen rest := hprefix.subset (by decide)
    rw [seen_name hbracket, List.mem_map] at hmem
    obtain ⟨c, hc, hlower⟩ := hmem
    obtain rfl := (toLower_eq_iff (by decide)).1 hlower
    exact absurd (List.mem_takeWhile_imp hc) (by decide)
  have huser : (userinfo ++ '@' :: more).takeWhile (· != '@') = userinfo := by
    have hall : ∀ c ∈ userinfo, (c != '@') = true := by
      intro c hc
      rw [bne_iff_ne]
      rintro rfl
      exact hat hc
    rw [List.takeWhile_append_of_pos hall]
    simp
  rw [or_iff_left hipv6, seen_name hbracket, prefix_map_toLower linkLocal_chars.1, prefix_takeWhile linkLocal_chars.2.1, h,
    ← prefix_takeWhile linkLocal_chars.2.2, huser]

/-- The groups that begin `fe80::/10` are written with four digits. -/
theorem group_linkLocal {group : List Char} {g : ℕ} (h : parseGroup group = some g) (hg : g / 64 = 0xfe80 / 64) :
    ∃ m n, group.map Char.toLower = ['f', 'e', m, n] ∧ (m = '8' ∧ n = '0' ↔ g = 0xfe80) := by
  obtain ⟨k, l, m, n, hk, hl, hm, hn, hsum, htext⟩ := parseGroup_eq_some h (by omega)
  obtain rfl : k = 15 := by omega
  obtain rfl : l = 14 := by omega
  refine ⟨m.digitChar, n.digitChar, htext, ?_⟩
  have hm8 : m.digitChar = '8' ↔ m = 8 := by interval_cases m <;> decide
  have hn0 : n.digitChar = '0' ↔ n = 0 := by interval_cases n <;> decide
  rw [hm8, hn0]
  omega

/-- Without a userinfo every link-local IPv4 host is refused, and an IPv6 host where the first group is `fe80`. -/
theorem seen_linkLocal {authority more : List Char} {host : Host} (h : rest.takeWhile (· != '/') = authority ++ more)
    (hhost : parseHost authority = some host) (hlocal : host.isLinkLocal = true) :
    ("169.254.".toList <+: seen rest ∨ "fe80:".toList <+: seen rest) ↔ Visible ⟨none, host⟩ := by
  rcases parseHost_cases hhost with ⟨literal, port, rfl, hbracket, hliteral⟩ | ⟨hbracket, hname⟩
  · obtain ⟨groups, rfl, hgroups⟩ := parseLiteral_linkLocal hliteral hlocal
    cases groups with
    | nil => cases hlocal
    | cons g groups =>
      have hg : g / 64 = 0xfe80 / 64 := of_decide_eq_true hlocal
      obtain ⟨group, tail, rfl, -, hgroup⟩ := parseIpv6_head hgroups (by omega)
      obtain ⟨m, n, htext, hmn⟩ := group_linkLocal hgroup hg
      have hrest : rest.takeWhile (· != '/') = '[' :: ((group ++ ':' :: tail) ++ ']' :: (port ++ more)) := by
        rw [h]
        simp
      rw [seen_literal hrest hbracket, List.map_append, htext]
      simp [Visible, List.cons_prefix_cons, ← hmn, eq_comm]
  · obtain ⟨k, l, rfl, haddress⟩ := parseName_linkLocal hname hlocal
    have htext : "169.254.".toList <+: authority := by
      have htake : "169.254.".toList <+: authority.takeWhile (· ≠ ':') := by
        rw [parseIpv4_eq_some haddress]
        exact List.prefix_append "169.254.".toList _
      exact htake.trans (List.takeWhile_prefix _)
    have hbracket' : (authority ++ more).head? ≠ some '[' := by
      obtain ⟨tail, rfl⟩ := htext
      exact hbracket
    rw [seen_name (h ▸ hbracket'), h, prefix_map_toLower linkLocal_chars.1, prefix_takeWhile linkLocal_chars.2.1]
    exact ⟨fun _ => trivial, fun _ => .inl (htext.trans (List.prefix_append _ _))⟩

end

/-- An accepted base URL has no link-local host exactly if the check looks at the host. -/
theorem linkLocal_refused_iff (base : String) :
    (checkBaseUrl base = .ok () → ∀ a, authority base.toList = some a → a.host.isLinkLocal = false) ↔
      (Schemed base → ∀ a, authority base.toList = some a → a.host.isLinkLocal = true → Visible a) := by
  by_cases hscheme : Schemed base
  · obtain ⟨rest, hrest⟩ := hscheme.exists_rest
    have hseen (a : Authority) (ha : authority base.toList = some a) (hlocal : a.host.isLinkLocal = true) :
        checkBaseUrl base = .ok () ↔ ¬ Visible a := by
      rw [authority_eq hrest] at ha
      obtain ⟨tail, htail⟩ := takeWhile_slash rest
      rw [checkBaseUrl_eq_ok hrest, not_iff_not]
      unfold parseAuthority at ha
      split at ha
      · rename_i userinfo cs hsplit
        obtain ⟨hcs, hat⟩ := splitFirst_eq_some hsplit
        split at ha
        · rename_i huserinfo
          obtain ⟨host, -, rfl⟩ := Option.map_eq_some_iff.1 ha
          exact seen_userinfo (by rw [htail, hcs, List.append_assoc, List.cons_append]) huserinfo hat
        · cases ha
      · obtain ⟨host, hhost, rfl⟩ := Option.map_eq_some_iff.1 ha
        exact seen_linkLocal htail hhost hlocal
    constructor
    · intro h _ a ha hlocal
      by_contra hvisible
      rw [h ((hseen a ha hlocal).2 hvisible) a ha] at hlocal
      cases hlocal
    · intro h hok a ha
      rw [← Bool.not_eq_true]
      exact fun hlocal => (hseen a ha hlocal).1 hok (h hscheme a ha hlocal)
  · refine iff_of_true (fun hok => absurd (checkBaseUrl_schemed hok) hscheme) fun h => absurd h hscheme

/-- The metadata address behind a userinfo. -/
theorem not_linkLocal_refused_userinfo :
    ¬ (checkBaseUrl "http://x@169.254.169.254/" = .ok () →
      ∀ a, authority "http://x@169.254.169.254/".toList = some a → a.host.isLinkLocal = false) := by
  intro h
  have hlocal := h (by decide) ⟨some ['x'], .ipv4 169 254 169 254⟩ (by decide)
  revert hlocal
  decide

example : checkBaseUrl "http://[fe90::1]/" = .ok () ∧
    authority "http://[fe90::1]/".toList = some ⟨none, .ipv6 [0xfe90, 0, 0, 0, 0, 0, 0, 1]⟩ := by
  decide

end OpenProxy.LinkLocal
