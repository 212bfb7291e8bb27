import OpenProxy.Config

/-!
# Normalized base URLs (`normalize_base_url` of `config.rs`)

Version segments are trimmed first and slashes second, so slashes hide a version segment in front of them.
-/

namespace OpenProxy.BaseUrl

open Text

/-- The URL of `upstream_request`. -/
def upstreamUrl (baseUrl pathQuery : String) : String := normalizeBaseUrl baseUrl ++ pathQuery

/-- What the trimming is for. -/
structure Normalized (url : String) : Prop where
  idempotent : normalizeBaseUrl (normalizeBaseUrl url) = normalizeBaseUrl url
  noSlash : ¬ "/".toList <:+ (normalizeBaseUrl url).toList
  noVersion : ¬ "/v1".toList <:+ (normalizeBaseUrl url).toList
  /-- A request path that begins with a version does not stand behind another one. -/
  single (rest : String) : ¬ ∃ u, upstreamUrl url ("/v1/" ++ rest) = u ++ "/v1/v1/" ++ rest

/-- A version segment, slashes behind it, and then only version segments. -/
def HidesVersion (url : String) : Prop :=
  ∃ u k m, url.toList =
    u ++ "/v1".toList ++ List.replicate (k + 1) '/' ++ (List.replicate m "/v1".toList).flatten

/-! ### What is trimmed -/

section
variable {pat cs r : List Char}

theorem dropPrefixes_of_not_leading (h : ¬ pat <+: r) (fuel : ℕ) : dropPrefixes pat fuel r = r := by
  cases fuel with
  | zero => rfl
  | succ fuel => rw [dropPrefixes, if_neg (mt List.isPrefixOf_iff_prefix.1 h)]

theorem dropPrefixes_replicate (h : ¬ pat <+: r) {m fuel : ℕ} (hfuel : m ≤ fuel) :
    dropPrefixes pat fuel ((List.replicate m pat).flatten ++ r) = r := by
  induction m generalizing fuel with
  | zero => exact dropPrefixes_of_not_leading h fuel
  | succ m ih =>
    obtain ⟨fuel, rfl⟩ := Nat.exists_eq_succ_of_ne_zero (by omega : fuel ≠ 0)
    rw [List.replicate_succ, List.flatten_cons, List.append_assoc, dropPrefixes,
      if_pos (List.isPrefixOf_iff_prefix.2 (List.prefix_append _ _)), List.drop_left, ih (by omega)]

theorem exists_dropPrefixes (hpat : pat ≠ []) {fuel : ℕ} (hfuel : cs.length ≤ fuel) :
    ∃ m, cs = (List.replicate m pat).flatten ++ dropPrefixes pat fuel cs ∧ ¬ pat <+: dropPrefixes pat fuel cs := by
  induction fuel generalizing cs with
  | zero =>
    obtain rfl := List.eq_nil_of_length_eq_zero (Nat.le_zero.1 hfuel)
    exact ⟨0, rfl, fun h => hpat (List.prefix_nil.1 h)⟩
  | succ fuel ih =>
    by_cases h : pat <+: cs
    · obtain ⟨tail, rfl⟩ := h
      have hlen : 0 < pat.length := List.length_pos_iff.2 hpat
      rw [List.length_append] at hfuel
      have htail : tail.length ≤ fuel := by omega
      obtain ⟨m, hm, hstop⟩ := ih htail
      have hdrop : dropPrefixes pat (fuel + 1) (pat ++ tail) = dropPrefixes pat fuel tail := by
        rw [dropPrefixes, if_pos (List.isPrefixOf_iff_prefix.2 (List.prefix_append _ _)), List.drop_left]
      refine ⟨m + 1, ?_, hdrop ▸ hstop⟩
      rw [hdrop, List.replicate_succ, List.flatten_cons, List.append_assoc, ← hm]
    · rw [dropPrefixes_of_not_leading h]
      exact ⟨0, rfl, h⟩

end

theorem flatten_replicate_reverse (m : ℕ) (pat : List Char) :
    ((List.replicate m pat).flatten).reverse = (List.replicate m pat.reverse).flatten := by
  rw [List.reverse_flatten, List.map_replicate, List.reverse_replicate]

/-- The rest is what stands before the trimmed patterns and does not end with one. -/
theorem trimEndMatches_eq_iff {s pat : String} {r : List Char} (hpat : pat.toList ≠ []) :
    (trimEndMatches s pat).toList = r ↔
      ∃ m, s.toList = r ++ (List.replicate m pat.toList).flatten ∧ ¬ pat.toList <:+ r := by
  rw [trimEndMatches, String.toList_ofList]
  constructor
  · rintro rfl
    have hlen : s.toList.reverse.length ≤ s.toList.length := List.length_reverse.le
    obtain ⟨m, hm, hstop⟩ := exists_dropPrefixes (List.reverse_ne_nil_iff.2 hpat) hlen
    refine ⟨m, ?_, ?_⟩
    · have htext := congrArg List.reverse hm
      rwa [List.reverse_reverse, List.reverse_append, flatten_replicate_reverse, List.reverse_reverse] at htext
    · rwa [← List.reverse_prefix, List.reverse_reverse]
  · rintro ⟨m, hm, hstop⟩
    rw [← List.reverse_prefix] at hstop
    have hlen : 0 < pat.toList.length := List.length_pos_iff.2 hpat
    have hfuel : m ≤ s.toList.length := by
      rw [hm, List.length_append, List.length_flatten, List.map_replicate, List.sum_replicate, smul_eq_mul]
      exact (Nat.le_mul_of_pos_right m hlen).trans (Nat.le_add_left _ _)
    rw [hm, List.reverse_append, flatten_replicate_reverse, ← hm, dropPrefixes_replicate hstop hfuel,
      List.reverse_reverse]

theorem trimEndMatches_of_not_suffix {s pat : String} (hpat : pat.toList ≠ []) (h : ¬ pat.toList <:+ s.toList) :
    trimEndMatches s pat = s :=
  String.toList_injective ((trimEndMatches_eq_iff hpat).2 ⟨0, by simp, h⟩)

/-! ### What is left -/

theorem normalizeBaseUrl_noSlash (url : String) : ¬ "/".toList <:+ (normalizeBaseUrl url).toList :=
  ((trimEndMatches_eq_iff (by decide)).1 rfl).choose_spec.2

/-- A version segment is left only where slashes hid it. -/
theorem normalizeBaseUrl_version_iff (url : String) :
    "/v1".toList <:+ (normalizeBaseUrl url).toList ↔ HidesVersion url := by
  have hver : "/v1".toList ≠ [] := by decide
  constructor
  · rintro ⟨u, hu⟩
    obtain ⟨m, hm, hstop⟩ := (trimEndMatches_eq_iff (s := url) hver).1 rfl
    have hslash : "/".toList ≠ [] := by decide
    obtain ⟨j, hj, -⟩ := (trimEndMatches_eq_iff (s := trimEndMatches url "/v1") hslash).1 rfl
    rw [normalizeBaseUrl] at hu
    rw [← hu] at hj
    cases j with
    | zero =>
      rw [List.replicate_zero, List.flatten_nil, List.append_nil] at hj
      exact absurd ⟨u, hj.symm⟩ hstop
    | succ k =>
      refine ⟨u, k, m, ?_⟩
      rw [hm, hj]
      simp
  · rintro ⟨u, k, m, hurl⟩
    have hversions : (trimEndMatches url "/v1").toList = u ++ "/v1".toList ++ List.replicate (k + 1) '/' := by
      refine (trimEndMatches_eq_iff hver).2 ⟨m, hurl, ?_⟩
      rw [List.replicate_succ', ← List.append_assoc]
      rintro ⟨v, hv⟩
      have hlast : (v ++ "/v1".toList).getLast? = some '/' := by rw [hv, List.getLast?_concat]
      simp at hlast
    have hslashes : (normalizeBaseUrl url).toList = u ++ "/v1".toList := by
      refine (trimEndMatches_eq_iff (by decide)).2 ⟨k + 1, ?_, ?_⟩
      · rw [hversions]
        simp
      · rintro ⟨v, hv⟩
        have hlast := congrArg List.getLast? hv
        simp at hlast
    exact ⟨u, hslashes.symm⟩

/-- The trimming does what it is for exactly on URLs without a hidden version segment. -/
theorem normalized_iff (url : String) : Normalized url ↔ ¬ HidesVersion url := by
  rw [← normalizeBaseUrl_version_iff]
  constructor
  · exact fun h => h.noVersion
  · intro h
    refine ⟨?_, normalizeBaseUrl_noSlash url, h, fun rest => ?_⟩
    · rw [normalizeBaseUrl, trimEndMatches_of_not_suffix (by decide) h,
        trimEndMatches_of_not_suffix (by decide) (normalizeBaseUrl_noSlash url)]
    · rintro ⟨u, hu⟩
      have htext := congrArg String.toList hu
      simp only [upstreamUrl, String.toList_append] at htext
      have hfront : (u.toList ++ "/v1".toList) ++ ("/v1/".toList ++ rest.toList) =
          (normalizeBaseUrl url).toList ++ ("/v1/".toList ++ rest.toList) := by
        rw [htext]
        simp
      exact h ⟨u.toList, List.append_cancel_right hfront⟩

/-- A slash behind the version. -/
theorem not_normalized_slash : ¬ Normalized "http://x/v1/" := by
  intro h
  exact h.noVersion (by decide)

example : upstreamUrl "http://x/v1/" "/v1/models" = "http://x/v1/v1/models" := by decide

end OpenProxy.BaseUrl
