import OpenProxy.Authority
import OpenProxy.Handle

/-!
# API keys (client auth in `handle` of `proxy.rs`, `clients`, `users` and `setup_submit` of `settings.rs`)

A client presents the secret of an API key; the store has its digest only. A key is minted in a commit and revoked in
another, by its name or with the user who owns it.
-/

namespace OpenProxy.Clients

open AppState Transition Settings Text

section
variable (sha256Hex : String → String)

def token (authorization : Option String) : String := (authorization.bind (stripPrefix · "Bearer ")).getD ""

/-- The client that a request is from, by its `Authorization` header. All keys are compared. -/
def client (clients : Option (List (String × String))) (authorization : Option String) : Option String :=
  match clients with
  | none => some "local"
  | some clients =>
    let digest := sha256Hex (token authorization)
    clients.foldl (fun matched c => if digest = c.1 then some c.2 else matched) none

/-- What is stored of a key that does not depend on who owns it. -/
def mark (c : ClientKey) : String × String := (c.name, c.secretSha256)

def marks (sc : StoredConfig) : List (String × String) := sc.clientAuth.keys.map mark

/-- The key that a save mints. -/
def mints : Save → Option (String × String)
  | .setup req _ secret => req.createClientKey.map fun name => (trim name, sha256Hex secret)
  | .edit _ (.clients req secret) => req.add.map fun name => (trim name, sha256Hex secret)
  | _ => none

/-- A save removes the key of this name, or the user who owns it. -/
def Revokes (before : StoredConfig) (name : String) : Save → Prop
  | .edit _ (.clients req _) => req.remove = some name
  | .users _ req _ => ∃ c ∈ before.clientAuth.keys, c.name = name ∧ req.remove = some c.owner
  | _ => False

/-- The key was there at the start, or was minted, and nothing has revoked it since. -/
def InForce (sc : StoredConfig) (log : List Event) (m : String × String) : Prop :=
  (m ∈ marks sc ∧ ∀ e ∈ log, ¬ Revokes e.before m.1 e.save) ∨
    ∃ (i : Nat) (e : Event), log[i]? = some e ∧ mints sha256Hex e.save = some m ∧
      ∀ (j : Nat) (e' : Event), i < j → log[j]? = some e' → ¬ Revokes e'.before m.1 e'.save

end

section
variable {sha256Hex : String → String} {guard cand : StoredConfig}

/-! ### One commit -/

/-- A save that leaves the client keys alone. -/
theorem mem_marks_of_eq {save : Save} {m : String × String} (hkeys : cand.clientAuth.keys = guard.clientAuth.keys)
    (hmints : mints sha256Hex save = none) (hrevokes : ¬ Revokes guard m.1 save) :
    m ∈ marks cand ↔ mints sha256Hex save = some m ∨ m ∈ marks guard ∧ ¬ Revokes guard m.1 save := by
  simp [marks, hkeys, hmints, hrevokes]

theorem mem_marks_mint {save : Save} {name secret : String} {m : String × String}
    (hcand : cand.clientAuth.keys.map mark = marks guard ++ [(trim name, sha256Hex secret)])
    (hmints : mints sha256Hex save = some (trim name, sha256Hex secret)) (hrevokes : ¬ Revokes guard m.1 save) :
    m ∈ marks cand ↔ mints sha256Hex save = some m ∨ m ∈ marks guard ∧ ¬ Revokes guard m.1 save := by
  rw [marks, hcand, hmints, List.mem_append, List.mem_singleton, Option.some.injEq]
  constructor
  · rintro (h | rfl)
    · exact .inr ⟨h, hrevokes⟩
    · exact .inl rfl
  · rintro (rfl | ⟨h, -⟩)
    · exact .inr rfl
    · exact .inl h

theorem marks_setup {req : SetupReq} {hash secret : String} (h : setupSubmit sha256Hex guard req hash secret = .ok cand) :
    marks cand = marks guard ++ (mints sha256Hex (.setup req hash secret)).toList := by
  have hpopulate (sc : StoredConfig) : (req.populate sc).clientAuth = sc.clientAuth := by
    unfold SetupReq.populate
    split <;> rfl
  have hadopt : (req.adopt hash guard).clientAuth.keys.map mark = marks guard := by
    rw [SetupReq.adopt, List.map_map]
    rfl
  unfold setupSubmit at h
  split at h
  · cases h
  · cases h
    cases hname : req.createClientKey with
    | none => simp only [marks, hpopulate, hadopt, mints, hname, Option.map_none, Option.toList_none, List.append_nil]
    | some name => simp [marks, mintClientKey, hpopulate, hadopt, mints, hname, mark]

theorem mem_eraseP_marks {keys : List ClientKey} {name : String} (hnames : (keys.map (·.name)).Nodup)
    {m : String × String} : m ∈ (keys.eraseP (·.name == name)).map mark ↔ m ∈ keys.map mark ∧ name ≠ m.1 := by
  induction keys with
  | nil => simp
  | cons c keys ih =>
    rw [List.map_cons, List.nodup_cons] at hnames
    by_cases hc : c.name = name
    · have hrest : ∀ c' ∈ keys, name ≠ c'.name := fun c' hc' he =>
        hnames.1 (List.mem_map.2 ⟨c', hc', (he.symm.trans hc.symm)⟩)
      rw [List.eraseP_cons_of_pos (by simpa using hc), List.map_cons, List.mem_cons]
      constructor
      · intro hm
        obtain ⟨c', hc', rfl⟩ := List.mem_map.1 hm
        exact ⟨.inr hm, hrest c' hc'⟩
      · rintro ⟨rfl | hm, hne⟩
        · exact absurd hc.symm hne
        · exact hm
    · rw [List.eraseP_cons_of_neg (by simpa using hc), List.map_cons, List.map_cons, List.mem_cons, List.mem_cons,
        ih hnames.2]
      constructor
      · rintro (rfl | ⟨hm, hne⟩)
        · exact ⟨.inl rfl, Ne.symm hc⟩
        · exact ⟨.inr hm, hne⟩
      · rintro ⟨rfl | hm, hne⟩
        · exact .inl rfl
        · exact .inr ⟨hm, hne⟩

theorem mem_marks_clients {username : String} {req : ClientsReq} {secret : String} {m : String × String}
    (hnames : (guard.clientAuth.keys.map (·.name)).Nodup)
    (h : clients sha256Hex guard username req secret = .ok cand) :
    m ∈ marks cand ↔ mints sha256Hex (.edit username (.clients req secret)) = some m ∨
      m ∈ marks guard ∧ ¬ Revokes guard m.1 (.edit username (.clients req secret)) := by
  unfold clients at h
  split at h
  · cases h
  split at h
  · rename_i name hadd hremove _
    cases h
    refine mem_marks_mint ?_ (by rw [mints, hadd]; rfl) (by simp [Revokes, hremove])
    simp [mintClientKey, marks, mark]
  · rename_i name hadd hremove _
    split at h
    · cases h
    split at h
    · cases h
    cases h
    simp only [marks, mem_eraseP_marks hnames, mints, hadd, Option.map_none, Revokes, hremove, Option.some.injEq,
      reduceCtorEq, false_or, ne_eq]
  · rename_i hadd hremove _
    have hsame : cand.clientAuth.keys = guard.clientAuth.keys := by
      split at h
      · cases h
      split at h
      · cases h
        rfl
      split at h
      · cases h
        rfl
      · cases h
    exact mem_marks_of_eq hsame (by rw [mints, hadd]; rfl) (by simp [Revokes, hremove])
  · cases h

theorem mem_marks_users {username newHash : String} {req : UsersReq} {m : String × String}
    (hnames : (guard.clientAuth.keys.map (·.name)).Nodup) (h : users guard username req newHash = .ok cand) :
    m ∈ marks cand ↔ mints sha256Hex (.users username req newHash) = some m ∨
      m ∈ marks guard ∧ ¬ Revokes guard m.1 (.users username req newHash) := by
  cases (users_cases h).2 with
  | adds _ _ _ _ hremove _ _ _ hcand =>
    subst hcand
    exact mem_marks_of_eq rfl rfl (by simp [Revokes, hremove])
  | resets _ _ _ hremove _ _ _ _ hcand =>
    subst hcand
    exact mem_marks_of_eq rfl rfl (by simp [Revokes, hremove])
  | setsRole _ _ _ _ _ hremove _ _ _ _ _ hcand =>
    subst hcand
    exact mem_marks_of_eq rfl rfl (by simp [Revokes, hremove])
  | removes target user hadd hremove hreset hset huser hrole hcand =>
    subst hcand
    simp only [marks, mints, reduceCtorEq, false_or, Revokes, hremove, Option.some.injEq]
    constructor
    · intro hm
      obtain ⟨c, hc, rfl⟩ := List.mem_map.1 hm
      obtain ⟨hc, howner⟩ := List.mem_filter.1 hc
      refine ⟨List.mem_map_of_mem hc, ?_⟩
      rintro ⟨c', hc', hname, htarget⟩
      rw [List.inj_on_of_nodup_map hnames hc' hc hname] at htarget
      simp [htarget] at howner
    · rintro ⟨hm, hkept⟩
      obtain ⟨c, hc, rfl⟩ := List.mem_map.1 hm
      refine List.mem_map_of_mem (List.mem_filter.2 ⟨hc, ?_⟩)
      simpa using fun howner => hkept ⟨c, hc, rfl, howner.symm⟩

theorem clientAuth_nimKeys {fp : String → String} {username : String} {req : NimKeysReq}
    (h : nimKeys fp guard username req = .ok cand) : cand.clientAuth = guard.clientAuth := by
  obtain ⟨_, -, hedit⟩ := nimKeys_cases h
  cases hedit with
  | adds add hcand => rw [editGroup_frame hcand]
  | removes fp' k hk hown hcand => rw [updateGroups_frame hcand]
  | sets set k hk hown hcand => rw [updateGroups_frame hcand]

theorem clientAuth_admin {username msg : String} {body : Unit → Except ApiError StoredConfig}
    (hbody : ∀ {cand}, body () = .ok cand → cand.clientAuth = guard.clientAuth)
    (h : (requireAdmin guard username msg >>= body) = .ok cand) : cand.clientAuth = guard.clientAuth := by
  obtain ⟨_, -, h⟩ := bind_eq_ok.1 h
  exact hbody h

theorem clientAuth_upstreams {username : String} {req : UpstreamsReq} (h : upstreams guard username req = .ok cand) :
    cand.clientAuth = guard.clientAuth := by
  cases (upstreams_cases h).2 <;> subst cand <;> rfl

theorem mem_marks_edit {username : String} {e : Edit} {m : String × String}
    (hnames : (guard.clientAuth.keys.map (·.name)).Nodup) (h : e.candidate sha256Hex guard username = .ok cand) :
    m ∈ marks cand ↔ mints sha256Hex (.edit username e) = some m ∨
      m ∈ marks guard ∧ ¬ Revokes guard m.1 (.edit username e) := by
  have hkept (hauth : cand.clientAuth = guard.clientAuth) (hmints : mints sha256Hex (.edit username e) = none)
      (hrevokes : ¬ Revokes guard m.1 (.edit username e)) :=
    mem_marks_of_eq (congrArg ClientAuth.keys hauth) hmints hrevokes
  cases e with
  | clients req secret => exact mem_marks_clients hnames h
  | nimKeys req => exact hkept (clientAuth_nimKeys h) rfl nofun
  | upstreams req => exact hkept (clientAuth_upstreams h) rfl nofun
  | upstream baseUrl => exact hkept (clientAuth_admin (fun h => by cases h; rfl) h) rfl nofun
  | models disabled => exact hkept (clientAuth_admin (fun h => by cases h; rfl) h) rfl nofun
  | server baseUrl l => exact hkept (clientAuth_admin (fun h => by cases h; rfl) h) rfl nofun
  | limits req => exact hkept (clientAuth_admin (fun h => by cases h; rfl) h) rfl nofun
  | history req => exact hkept (clientAuth_admin (fun h => by cases h; rfl) h) rfl nofun
  | governor req => exact hkept (clientAuth_admin (fun h => by cases h; rfl) h) rfl nofun

/-- After a commit there are the key that it minted and the keys that it did not revoke. -/
theorem mem_marks {save : Save} {m : String × String} (hnames : (guard.clientAuth.keys.map (·.name)).Nodup)
    (h : save.candidate sha256Hex guard = .ok cand) :
    m ∈ marks cand ↔ mints sha256Hex save = some m ∨ m ∈ marks guard ∧ ¬ Revokes guard m.1 save := by
  cases save with
  | setup req hash secret =>
    rw [marks_setup h, List.mem_append, Option.mem_toList, or_comm]
    exact or_congr_right ⟨fun hm => ⟨hm, nofun⟩, And.left⟩
  | edit username e => exact mem_marks_edit hnames h
  | users username req newHash => exact mem_marks_users hnames h
  | password username current verifiedHash newHash =>
    obtain ⟨user, -, -, rfl⟩ := applyPasswordChange_ok (mapError_eq_ok.1 h)
    exact mem_marks_of_eq rfl rfl nofun
  | accountLocale username l =>
    obtain ⟨user, -, rfl⟩ := accountLocale_ok h
    exact mem_marks_of_eq rfl rfl nofun
  | locale username l =>
    exact mem_marks_of_eq (congrArg ClientAuth.keys (clientAuth_admin (fun h => by cases h; rfl) h)) rfl nofun

/-! ### Runs -/

theorem inForce_nil {sc : StoredConfig} {m : String × String} : InForce sha256Hex sc [] m ↔ m ∈ marks sc := by
  simp [InForce]

theorem inForce_concat {sc : StoredConfig} {log : List Event} {e : Event} {m : String × String} :
    InForce sha256Hex sc (log ++ [e]) m ↔
      mints sha256Hex e.save = some m ∨ InForce sha256Hex sc log m ∧ ¬ Revokes e.before m.1 e.save := by
  have hold {i : Nat} {e' : Event} (h : log[i]? = some e') : (log ++ [e])[i]? = some e' := by
    rw [List.getElem?_append_left (List.getElem?_eq_some_iff.1 h).1, h]
  have hlast : (log ++ [e])[log.length]? = some e := List.getElem?_concat_length
  have hcases {i : Nat} {e' : Event} (h : (log ++ [e])[i]? = some e') :
      log[i]? = some e' ∨ i = log.length ∧ e' = e := by
    rcases Nat.lt_or_ge i log.length with hi | hi
    · rw [List.getElem?_append_left hi] at h
      exact .inl h
    · have hlt := (List.getElem?_eq_some_iff.1 h).1
      simp only [List.length_append, List.length_singleton] at hlt
      obtain rfl : i = log.length := by omega
      exact .inr ⟨rfl, (Option.some.inj (hlast.symm.trans h)).symm⟩
  constructor
  · rintro (⟨hm, hall⟩ | ⟨i, e', he', hmint, hall⟩)
    · exact .inr ⟨.inl ⟨hm, fun e' he' => hall e' (List.mem_append_left _ he')⟩, hall e (by simp)⟩
    · rcases hcases he' with he' | ⟨-, rfl⟩
      · have hi := (List.getElem?_eq_some_iff.1 he').1
        exact .inr ⟨.inr ⟨i, e', he', hmint, fun j e'' hj h => hall j e'' hj (hold h)⟩, hall _ e hi hlast⟩
      · exact .inl hmint
  · rintro (hmint | ⟨⟨hm, hall⟩ | ⟨i, e', he', hmint, hall⟩, hkept⟩)
    · refine .inr ⟨log.length, e, hlast, hmint, fun j e' hj h => ?_⟩
      rcases hcases h with h | ⟨rfl, -⟩
      · have := (List.getElem?_eq_some_iff.1 h).1
        omega
      · omega
    · refine .inl ⟨hm, fun e' he' => ?_⟩
      rcases List.mem_append.1 he' with he' | he'
      · exact hall e' he'
      · rw [List.mem_singleton.1 he']
        exact hkept
    · refine .inr ⟨i, e', hold he', hmint, fun j e'' hj h => ?_⟩
      rcases hcases h with h | ⟨-, rfl⟩
      · exact hall j e'' hj h
      · exact hkept

theorem nodup_names (hv : guard.validate = .ok ()) : (guard.clientAuth.keys.map (·.name)).Nodup := by
  obtain ⟨-, -, -, -, -, hclients, -⟩ := validate_iff.1 hv
  exact (checkClients_iff.1 hclients).2

/-- The store has the keys in force. -/
structure Inv (sha256Hex : String → String) (sc : StoredConfig) (s : State) : Prop where
  app : AppState.Inv s
  keys : ∀ m, m ∈ marks s.store ↔ InForce sha256Hex sc s.log m

variable {verifyPassword : String → String → Bool} {sc : StoredConfig} {s s' : State}

theorem Inv.step {op : Op} {r : Answer} (h : Inv sha256Hex sc s) (hs : Step sha256Hex verifyPassword s op r s') :
    Inv sha256Hex sc s' := by
  refine ⟨h.app.step hs, fun m => ?_⟩
  cases hs with
  | refused _ | deferred _ _ | cleared _ _ _ | traffic _ _ => exact h.keys m
  | commits _ hcand _ _ _ =>
    rename_i save since _ cand _ _ _ _ _
    show m ∈ marks cand ↔ InForce sha256Hex sc (s.log ++ [⟨save, since, s.store, cand⟩]) m
    rw [inForce_concat, mem_marks (nodup_names h.app.valid) hcand, h.keys m]

theorem exec_inv {now : Nat} {ops : List Op} (hv : sc.validate = .ok ())
    (hrun : exec (AppState.step sha256Hex verifyPassword) (boot sc now) ops = some s) : Inv sha256Hex sc s := by
  refine exec_invariant (fun s op s' hi hs => ?_) ⟨boot_inv hv now, fun m => ?_⟩ hrun
  · obtain ⟨r, hs⟩ := step_cases hs
    exact hi.step hs
  · exact inForce_nil.symm

theorem client_keyed {keys : List ClientKey} {authorization : Option String} :
    (∀ name, client sha256Hex (some (keys.map fun k => (k.secretSha256, k.name))) authorization = some name →
      (name, sha256Hex (token authorization)) ∈ keys.map mark) ∧
    ∀ name, (name, sha256Hex (token authorization)) ∈ keys.map mark →
      (client sha256Hex (some (keys.map fun k => (k.secretSha256, k.name))) authorization).isSome = true := by
  rw [client]
  induction keys using List.reverseRecOn with
  | nil => exact ⟨nofun, nofun⟩
  | append_singleton keys k ih =>
    simp only [List.map_append, List.map_cons, List.map_nil, List.foldl_append, List.foldl_cons, List.foldl_nil,
      List.mem_append, List.mem_singleton]
    split
    · rename_i hdigest
      refine ⟨fun name hname => ?_, fun _ _ => rfl⟩
      cases hname
      exact .inr (by rw [hdigest, mark])
    · rename_i hdigest
      refine ⟨fun name hname => .inl (ih.1 name hname), ?_⟩
      rintro name (hmem | hmem)
      · exact ih.2 name hmem
      · exact absurd (congrArg Prod.snd hmem) hdigest

end

/-- In every run of the handlers: the API keys in the store are the ones that were there or minted and not revoked
since, and each belongs to a user. In keyed mode they, and nothing else, let a request pass, as the client named by
the key; in open mode every request is the local client's. -/
theorem api_keys {sha256Hex : String → String} {verifyPassword : String → String → Bool} {sc : StoredConfig} {now : Nat}
    {ops : List Op} {s : State} (hv : sc.validate = .ok ())
    (hrun : exec (AppState.step sha256Hex verifyPassword) (boot sc now) ops = some s) :
    (∀ m, m ∈ marks s.store ↔ InForce sha256Hex sc s.log m) ∧
    (s.store.superuser.isSome = true → ∀ c ∈ s.store.clientAuth.keys, (s.store.user c.owner).isSome = true) ∧
    (s.store.clientAuth.mode = .opened → ∀ authorization, client sha256Hex s.cfg.clients authorization = some "local") ∧
    (s.store.clientAuth.mode = .keyed → ∀ authorization,
      (∀ name, InForce sha256Hex sc s.log (name, sha256Hex (token authorization)) →
        (client sha256Hex s.cfg.clients authorization).isSome = true) ∧
      ∀ a : Handle.Arrival, a.client = client sha256Hex s.cfg.clients authorization → Handle.handle a ≠ .refused →
        ∃ name, a.client = some name ∧ InForce sha256Hex sc s.log (name, sha256Hex (token authorization))) := by
  have h := exec_inv hv hrun
  refine ⟨h.keys, fun hsu c hc => ?_, fun hmode authorization => ?_, fun hmode authorization => ?_⟩
  · obtain ⟨su, hsu⟩ := Option.isSome_iff_exists.1 hsu
    exact (validateOwners_iff.1 (StoredConfig.validateOwners_of_validate h.app.valid hsu)).2.1 c hc
  · simp only [h.app.cfg, StoredConfig.runtime, hmode]
    rfl
  · have hclients : s.cfg.clients = some (s.store.clientAuth.keys.map fun k => (k.secretSha256, k.name)) := by
      simp only [h.app.cfg, StoredConfig.runtime, hmode]
    obtain ⟨hname, hsome⟩ := @client_keyed sha256Hex s.store.clientAuth.keys authorization
    rw [← hclients] at hname hsome
    refine ⟨fun name hforce => hsome name ((h.keys _).2 hforce), fun a ha hpass => ?_⟩
    cases hclient : a.client with
    | none => simp [Handle.handle, hclient] at hpass
    | some name => exact ⟨name, rfl, (h.keys _).1 (hname name (ha.symm.trans hclient))⟩

/-- A digest of 64 digits for short secrets. -/
def padded (secret : String) : String := .ofList (List.replicate (64 - secret.toList.length) '0' ++ secret.toList)

abbrev paddedStep : State → Op → Option State := step padded fun password hash => password == hash

def mintCi : List Op := [.request "bob" (.edit (.clients { add := some " ci " } "ab")) ⟨none, 1⟩]

def removeBob : List Op :=
  [.request "ann" (.users { remove := some "bob" } "") ⟨none, 2⟩, .resume 0 "" "" ⟨none, 3⟩]

/-- A key goes with its owner. -/
theorem api_keys_removeBob : ∃ s s', exec paddedStep (boot household 0) mintCi = some s ∧
    exec paddedStep (boot household 0) (mintCi ++ removeBob) = some s' ∧
    InForce padded household s.log ("ci", padded "ab") ∧ ¬ InForce padded household s'.log ("ci", padded "ab") := by
  have hmint : ((exec paddedStep (boot household 0) mintCi).any fun s => marks s.store == [("ci", padded "ab")]) = true := by
    decide +kernel
  have hremove : ((exec paddedStep (boot household 0) (mintCi ++ removeBob)).any fun s => marks s.store == []) = true := by
    decide +kernel
  obtain ⟨s, hs, hkeys⟩ := (Option.any_eq_true ..).1 hmint
  obtain ⟨s', hs', hkeys'⟩ := (Option.any_eq_true ..).1 hremove
  refine ⟨s, s', hs, hs', ((api_keys validate_household hs).1 _).1 ?_, fun hforce => ?_⟩
  · rw [eq_of_beq hkeys]
    exact List.mem_singleton_self _
  · have hmem := ((api_keys validate_household hs').1 _).2 hforce
    rw [eq_of_beq hkeys'] at hmem
    cases hmem

end OpenProxy.Clients
