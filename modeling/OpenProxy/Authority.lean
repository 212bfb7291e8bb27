import OpenProxy.Coherence

/-!
# Who may change what (`settings.rs`)

Two consequences of what a save can do (`Effect`), over every interleaving of the handlers. The superuser's
record answers to the superuser alone, a `user` reaches only what they own, and a proxy is claimed once. And no
password change rests on a hash that is no longer the stored one: `account` verifies outside the lock, so a
reset may commit meanwhile, and then the change is refused.
-/

namespace OpenProxy.AppState

open Text Transition Settings

def Task.caller : Task → Option String
  | .users username _ | .password username _ _ _ | .locale username _ => some username
  | .setup _ | .setupDone => none

/-- On whose behalf an operation runs. -/
def State.caller (s : State) : Op → Option String
  | .request username _ _ => some username
  | .resume n _ _ _ => (s.tasks[n]?).bind Task.caller
  | .setup _ _ | .reserve _ _ _ | .release _ _ | .penalize _ _ _ => none

/-- The first-run claim. -/
def claims : Save → Bool
  | .setup _ _ _ => true
  | .edit _ _ | .users _ _ _ | .password _ _ _ _ | .accountLocale _ _ | .locale _ _ => false

section
variable {sha256Hex : String → String} {verifyPassword : String → String → Bool} {s s' : State} {op : Op}

theorem Origin.caller {save : Save} {since : Nat} (h : Origin verifyPassword s op save since) :
    save.caller = s.caller op := by
  cases h with
  | edit => rfl
  | accountLocale => rfl
  | task htask hsave _ hnew =>
    clear hnew
    rename_i n newHash secret env t _
    rw [State.caller, htask, Option.bind_some]
    cases t <;> cases hsave <;> rfl

theorem not_account {save : Save} {username : String} (h : save.caller ≠ some username) :
    save.account ≠ some username := by
  cases save <;> simp_all [Save.caller, Save.account]

theorem Step.superuser {r : Answer} (hi : Inv s) (hs : Step sha256Hex verifyPassword s op r s') {su : User}
    (hsu : s.store.superuser = some su) (hop : s.caller op ≠ some su.username) :
    s'.store.superuser = some su := by
  cases hs with
  | refused _ | deferred _ _ | cleared _ _ _ | traffic _ _ => exact hsu
  | commits horigin hcand _ _ _ =>
    refine (Save.effect hcand).superuser (usersValid_of_validate hi.valid) hsu (not_account ?_)
    rwa [horigin.caller]

theorem Step.foreign {r : Answer} (hs : Step sha256Hex verifyPassword s op r s') {username : String}
    (hcaller : s.caller op = some username) (hrole : roleOf s.store username = some .user) :
    s'.store.foreign username = s.store.foreign username := by
  cases hs with
  | refused _ | deferred _ _ | cleared _ _ _ | traffic _ _ => rfl
  | commits horigin hcand _ _ _ => exact (Save.effect hcand).foreign (horigin.caller.trans hcaller) hrole

/-- A claim ends in a superuser and needs a store without one. -/
theorem claims_ok {guard cand : StoredConfig} {save : Save} (h : save.candidate sha256Hex guard = .ok cand)
    (hc : claims save = true) : guard.superuser = none ∧ cand.superuser.isSome = true := by
  cases save with
  | setup req hash secret =>
    obtain ⟨hnone, husers⟩ := setupSubmit_ok h
    exact ⟨hnone, by simp [StoredConfig.superuser, husers]⟩
  | _ => cases hc

/-- Once there is a superuser, every commit keeps one and none is a claim. -/
structure Claimed (log : List Event) (s : State) : Prop where
  inv : Inv s
  superuser : s.store.superuser.isSome = true
  later : ∃ more, s.log = log ++ more ∧ ∀ e ∈ more, claims e.save = false

theorem Claimed.step {log : List Event} {r : Answer} (h : Claimed log s)
    (hs : Step sha256Hex verifyPassword s op r s') : Claimed log s' := by
  refine ⟨h.inv.step hs, ?_, ?_⟩
  · cases hs with
    | refused _ | deferred _ _ | cleared _ _ _ | traffic _ _ => exact h.superuser
    | commits _ hcand _ _ _ =>
      exact (Save.effect hcand).isSome_superuser (usersValid_of_validate h.inv.valid) h.superuser
  · cases hs with
    | refused _ | deferred _ _ | cleared _ _ _ | traffic _ _ => exact h.later
    | commits _ hcand _ _ _ =>
      rename_i save since _ cand _ _ _ _ _
      obtain ⟨more, hlog, hmore⟩ := h.later
      refine ⟨more ++ [⟨save, since, s.store, cand⟩], by simp [hlog], fun e he => ?_⟩
      rcases List.mem_append.1 he with he | he
      · exact hmore e he
      · rw [List.mem_singleton.1 he, Bool.eq_false_iff]
        intro hclaims
        have hsu := h.superuser
        rw [(claims_ok hcand hclaims).1] at hsu
        cases hsu

/-- A claim among the commits leaves a superuser. -/
theorem Inv.superuser_of_claims {sc : StoredConfig} {now : Nat} {ops : List Op} (hv : sc.validate = .ok ())
    (hrun : exec (AppState.step sha256Hex verifyPassword) (boot sc now) ops = some s) :
    sc.superuser.isSome = true ∨ (∃ e ∈ s.log, claims e.save = true) → s.store.superuser.isSome = true := by
  have hI : Inv s ∧ (sc.superuser.isSome = true ∨ (∃ e ∈ s.log, claims e.save = true) →
      s.store.superuser.isSome = true) := by
    refine exec_invariant (I := fun s => Inv s ∧ (sc.superuser.isSome = true ∨
      (∃ e ∈ s.log, claims e.save = true) → s.store.superuser.isSome = true))
      (fun s op s' hi hs => ?_) ⟨boot_inv hv now, fun h => ?_⟩ hrun
    · obtain ⟨r, hs⟩ := step_cases hs
      refine ⟨hi.1.step hs, fun h => ?_⟩
      cases hs with
      | refused _ | deferred _ _ | cleared _ _ _ | traffic _ _ => exact hi.2 h
      | commits _ hcand _ _ _ =>
        have hkept := (Save.effect hcand).isSome_superuser (usersValid_of_validate hi.1.valid)
        rcases h with h | ⟨e, he, hclaims⟩
        · exact hkept (hi.2 (.inl h))
        · rcases List.mem_append.1 he with he | he
          · exact hkept (hi.2 (.inr ⟨e, he, hclaims⟩))
          · rw [List.mem_singleton.1 he] at hclaims
            exact (claims_ok hcand hclaims).2
    · rcases h with h | ⟨e, he, -⟩
      · exact h
      · cases he
  exact hI.2

end

/-- Along any run from a valid store: requests of others leave the superuser's record alone, a request of a
`user` changes nothing foreign to them, and after setup no claim commits. -/
theorem superuser_inviolable {sha256Hex : String → String} {verifyPassword : String → String → Bool}
    {sc : StoredConfig} {now : Nat} {ops : List Op} {s : State} (hv : sc.validate = .ok ())
    (hrun : exec (step sha256Hex verifyPassword) (boot sc now) ops = some s) :
    (∀ su, sc.superuser = some su →
      Meets (step sha256Hex verifyPassword) (fun s op => s.caller op ≠ some su.username) (boot sc now) ops →
      s.store.superuser = some su) ∧
    (∀ op s' username, step sha256Hex verifyPassword s op = some s' → s.caller op = some username →
      roleOf s.store username = some .user → s'.store.foreign username = s.store.foreign username) ∧
    (sc.superuser.isSome = true ∨ (∃ e ∈ s.log, claims e.save = true) → ∀ after s',
      exec (step sha256Hex verifyPassword) s after = some s' → ∀ e ∈ s'.log.drop s.log.length,
        claims e.save = false) := by
  refine ⟨fun su hsu hothers => ?_, fun op s' username hs hcaller hrole => ?_, fun hclaimed after s' hafter => ?_⟩
  · have hI : Inv s ∧ s.store.superuser = some su := by
      refine exec_invariant_of_meets (I := fun s => Inv s ∧ s.store.superuser = some su) (fun s op s' hi hop hs => ?_)
        ⟨boot_inv hv now, hsu⟩ hothers hrun
      obtain ⟨r, hs⟩ := step_cases hs
      exact ⟨hi.1.step hs, hs.superuser hi.1 hi.2 hop⟩
    exact hI.2
  · obtain ⟨r, hs⟩ := step_cases hs
    exact hs.foreign hcaller hrole
  · have hstart : Claimed s.log s :=
      ⟨exec_inv hv hrun, Inv.superuser_of_claims hv hrun hclaimed, [], by simp, by simp⟩
    have hend : Claimed s.log s' := by
      refine exec_invariant (fun s₁ op s₂ hi hs => ?_) hstart hafter
      obtain ⟨r, hs⟩ := step_cases hs
      exact hi.step hs
    obtain ⟨more, hlog, hmore⟩ := hend.later
    rw [hlog, List.drop_left]
    exact hmore

/-- A superuser, an admin and a user, each with an API key. -/
def household : StoredConfig where
  upstream := { nimKeys := [⟨"nvapi-1", "root", true, 40⟩, ⟨"nvapi-2", "ann", true, 40⟩, ⟨"nvapi-3", "bob", true, 40⟩] }
  users := [⟨"root", "hash-root", .superuser, none⟩, ⟨"ann", "hash-ann", .admin, none⟩,
    ⟨"bob", "hash-bob", .user, none⟩]

theorem validate_household : household.validate = .ok () := toOption_eq_some (by decide +kernel)

abbrev plainStep : State → Op → Option State := step id fun password hash => password == hash

/-- An admin tries to reset the superuser's password and demotes nobody; a user adds a key and sets a locale. -/
def withoutRoot : List Op :=
  [.request "ann" (.users { resetPassword := some "root" } "0123456789") ⟨none, 1⟩,
    .resume 0 "taken-over" "" ⟨none, 2⟩,
    .request "bob" (.edit (.nimKeys { add := some ⟨"nvapi-4", none, none⟩ })) ⟨none, 3⟩,
    .request "bob" (.account (.locale (some "en-us"))) ⟨none, 4⟩]

theorem superuser_inviolable_withoutRoot : ∃ s, exec plainStep (boot household 0) withoutRoot = some s ∧
    s.configRevision = 3 ∧ s.store.superuser = some ⟨"root", "hash-root", .superuser, none⟩ := by
  have hrun : ((exec plainStep (boot household 0) withoutRoot).any fun s => s.configRevision == 3) = true := by
    decide +kernel
  obtain ⟨s, hs, hrev⟩ := (Option.any_eq_true ..).1 hrun
  have hothers : Meets plainStep (fun s op => s.caller op ≠ some "root") (boot household 0) withoutRoot := by
    decide +kernel
  exact ⟨s, hs, by simpa using hrev, (superuser_inviolable validate_household hs).1 _ rfl hothers⟩

/-! ### Password changes -/

/-- The stores a run has gone through, the one it booted from first. -/
def stores (sc : StoredConfig) (log : List Event) : List StoredConfig := sc :: log.map (·.after)

/-- The hash that an operation generates is none that was stored or generated before. -/
def Fresh (verifyPassword : String → String → Bool) (s : State) (op : Op) : Prop :=
  ∀ hash, s.newHash verifyPassword op = some hash → hash ∉ s.hashes

instance (verifyPassword : String → String → Bool) (s : State) (op : Op) : Decidable (Fresh verifyPassword s op) :=
  decidable_of_iff (∀ hash ∈ s.newHash verifyPassword op, hash ∉ s.hashes) Iff.rfl

/-- The hash `stored` of `username` was the stored one after the first `since` of these commits, and none of the
commits since then set or deleted it. -/
structure HeldSince (sc : StoredConfig) (log : List Event) (username stored : String) (since : Nat) : Prop where
  read : ((stores sc log)[since]?).bind (·.hashOf username) = some stored
  kept : ∀ j e, since ≤ j → log[j]? = some e →
    e.save.rehashes ≠ some username ∧ e.after.hashOf username = some stored

/-- The `i`-th commit was made on authority that was not stale. -/
def Authorized (verifyPassword : String → String → Bool) (sc : StoredConfig) (log : List Event) (i : Nat)
    (e : Event) : Prop :=
  (stores sc log)[i]? = some e.before ∧
  match e.save with
  | .password username current verifiedHash newHash =>
    verifyPassword current verifiedHash = true ∧ e.before.hashOf username = some verifiedHash ∧
      e.after = { e.before with users := editUser e.before.users username ({ · with passwordHash := newHash }) } ∧
      e.since ≤ i ∧ HeldSince sc (log.take i) username verifiedHash e.since
  | .users username _ _ => IsAdmin e.before username ∧ e.after.superuser = e.before.superuser
  | .setup _ _ _ | .edit _ _ | .accountLocale _ _ | .locale _ _ => True

section
variable {verifyPassword : String → String → Bool} {sc : StoredConfig} {log : List Event}

theorem length_stores (sc : StoredConfig) (log : List Event) : (stores sc log).length = log.length + 1 := by
  simp [stores]

theorem stores_append (sc : StoredConfig) (log : List Event) (e : Event) :
    stores sc (log ++ [e]) = stores sc log ++ [e.after] := by
  simp [stores]

theorem getElem?_stores_append {e : Event} {i : Nat} (hi : i ≤ log.length) :
    (stores sc (log ++ [e]))[i]? = (stores sc log)[i]? := by
  rw [stores_append, List.getElem?_append_left (by rw [length_stores]; omega)]

theorem Authorized.append {i : Nat} {e e' : Event} (hi : i < log.length)
    (h : Authorized verifyPassword sc log i e) : Authorized verifyPassword sc (log ++ [e']) i e := by
  refine ⟨(getElem?_stores_append hi.le).trans h.1, ?_⟩
  rw [List.take_append_of_le_length hi.le]
  exact h.2

/-- What a task relies on, in the middle of a run: if the hash is still the stored one, it never changed. -/
structure Relies (sc : StoredConfig) (s : State) (username stored : String) (since : Nat) : Prop where
  le : since ≤ s.log.length
  known : stored ∈ s.hashes
  read : ((stores sc s.log)[since]?).bind (·.hashOf username) = some stored
  kept : s.store.hashOf username = some stored → ∀ j e, since ≤ j → s.log[j]? = some e →
    e.save.rehashes ≠ some username ∧ e.after.hashOf username = some stored

/-- The invariant of a run whose hashes are fresh. -/
structure AuthInv (verifyPassword : String → String → Bool) (sc : StoredConfig) (s : State) : Prop where
  inv : Inv s
  store : (stores sc s.log)[s.log.length]? = some s.store
  hashes : ∀ username hash, s.store.hashOf username = some hash → hash ∈ s.hashes
  tasks : ∀ username current stored since, .password username current stored since ∈ s.tasks →
    Relies sc s username stored since
  log : ∀ i e, s.log[i]? = some e → Authorized verifyPassword sc s.log i e

theorem Relies.frame {s s' : State} {username stored : String} {since : Nat} (h : Relies sc s username stored since)
    (hlog : s'.log = s.log) (hstore : s'.store = s.store) (hhashes : ∀ x ∈ s.hashes, x ∈ s'.hashes) :
    Relies sc s' username stored since :=
  ⟨hlog ▸ h.le, hhashes _ h.known, hlog ▸ h.read, by rw [hlog, hstore]; exact h.kept⟩

/-- Operations that commit nothing. -/
theorem AuthInv.frame {s s' : State} (h : AuthInv verifyPassword sc s) (hi : Inv s') (hlog : s'.log = s.log)
    (hstore : s'.store = s.store) (hhashes : ∀ x ∈ s.hashes, x ∈ s'.hashes)
    (htasks : ∀ username current stored since, .password username current stored since ∈ s'.tasks →
      .password username current stored since ∈ s.tasks ∨ Relies sc s username stored since) :
    AuthInv verifyPassword sc s' := by
  refine ⟨hi, by rw [hlog, hstore]; exact h.store, fun u x hx => hhashes _ (h.hashes u x (hstore ▸ hx)), ?_,
    by rw [hlog]; exact h.log⟩
  intro username current stored since ht
  rcases htasks _ _ _ _ ht with ht | hr
  · exact (h.tasks _ _ _ _ ht).frame hlog hstore hhashes
  · exact hr.frame hlog hstore hhashes

/-- A commit that leaves the relied-on hash the stored one is not about that user's password. -/
theorem Relies.commit {sha256Hex : String → String} {s s' : State} {save : Save} {since₀ since : Nat}
    {cand : StoredConfig} {username stored : String} (h : Relies sc s username stored since)
    (hcand : save.candidate sha256Hex s.store = .ok cand) (hvalid : cand.validate = .ok ())
    (hfresh : ∀ hash, save.newHash = some hash → hash ∉ s.hashes)
    (hlog : s'.log = s.log ++ [⟨save, since₀, s.store, cand⟩]) (hstore : s'.store = cand)
    (hhashes : ∀ x ∈ s.hashes, x ∈ s'.hashes) : Relies sc s' username stored since := by
  refine ⟨by rw [hlog]; exact h.le.trans (by simp), hhashes _ h.known, ?_, ?_⟩
  · rw [hlog, getElem?_stores_append h.le]
    exact h.read
  · rw [hlog, hstore]
    intro hnow j e hj he
    have hcases := (Save.effect hcand).hashOf (usersValid_of_validate hvalid).distinct username
    rw [hnow] at hcases
    -- a deleted hash is none, and a new one is not the one relied on
    rcases hcases with ⟨hsave, hkept⟩ | hnone | ⟨hash, hnew, hhash⟩
    · rw [List.getElem?_append] at he
      split at he
      · exact h.kept hkept.symm j e hj he
      · obtain rfl : e = ⟨save, since₀, s.store, cand⟩ := by
          have := List.mem_of_getElem? he
          simpa using this
        exact ⟨hsave, hnow⟩
    · cases hnone
    · cases hhash
      exact absurd h.known (hfresh _ hnew)

theorem hashOf_mem_users {sc : StoredConfig} {username hash : String} (h : sc.hashOf username = some hash) :
    hash ∈ sc.users.map (·.passwordHash) := by
  obtain ⟨user, huser, rfl⟩ := Option.map_eq_some_iff.1 h
  exact List.mem_map_of_mem (List.mem_of_find?_eq_some huser)

theorem boot_authInv (hv : sc.validate = .ok ()) (now : Nat) : AuthInv verifyPassword sc (boot sc now) :=
  ⟨boot_inv hv now, rfl, fun _ _ h => hashOf_mem_users h, fun _ _ _ _ h => (by cases h), fun _ _ h => (by cases h)⟩

theorem superuser_editUser_none {f : User → User} {users : List User} {name : String}
    (hf : ∀ u, u.role ≠ .superuser → (f u).role ≠ .superuser)
    (h : users.find? (·.role == .superuser) = none) :
    (editUser users name f).find? (·.role == .superuser) = none := by
  induction users with
  | nil => rfl
  | cons u users ih =>
    obtain ⟨hu, h⟩ : u.role ≠ .superuser ∧ users.find? (·.role == .superuser) = none := by
      rw [List.find?_cons] at h
      split at h
      · cases h
      · exact ⟨by simp_all, h⟩
    by_cases hname : u.username = name
    · simpa [hname, hf u hu] using h
    · simpa [hname, hu] using ih h

/-- User management leaves the superuser alone. -/
theorem superuser_users {guard cand : StoredConfig} {username newHash : String} {req : UsersReq}
    (hv : UsersValid guard) (h : Settings.users guard username req newHash = .ok cand) :
    cand.superuser = guard.superuser := by
  have heffect := users_effect h
  cases hsu : guard.superuser with
  | some su => exact heffect.superuser hv hsu (by simp [Save.account])
  | none =>
    rw [StoredConfig.superuser] at hsu ⊢
    cases heffect with
    | administers _ _ _ husers => rw [husers, hsu]
    | adds _ _ _ hrole _ husers => simp [husers, List.find?_append, hsu, hrole]
    | removes _ _ _ _ husers =>
      rw [husers, List.find?_eq_none]
      intro u hu
      exact List.find?_eq_none.1 hsu u (List.mem_filter.1 hu).1
    | resets _ _ _ _ _ husers =>
      rw [husers]
      exact superuser_editUser_none (fun _ h => h) hsu
    | setsRole _ _ _ _ hnew husers =>
      rw [husers]
      exact superuser_editUser_none (fun _ _ => hnew) hsu

/-- A password change comes from the task that read and verified the hash. -/
theorem Origin.password {s : State} {op : Op} {username current verifiedHash newHash : String} {since : Nat}
    (h : Origin verifyPassword s op (.password username current verifiedHash newHash) since) :
    .password username current verifiedHash since ∈ s.tasks ∧ verifyPassword current verifiedHash = true := by
  generalize hs : Save.password username current verifiedHash newHash = save at h
  cases h with
  | edit | accountLocale => cases hs
  | task htask hsave hverify hnew =>
    clear hnew
    rename_i n newHash' secret env t
    subst hs
    cases t with
    | password username' current' stored since =>
      cases hsave
      exact ⟨List.mem_of_getElem? htask, hverify rfl⟩
    | _ => cases hsave

/-- The event of a commit is authorized. -/
theorem AuthInv.authorized {sha256Hex : String → String} {s : State} {op : Op} {save : Save} {since : Nat}
    {cand : StoredConfig} (h : AuthInv verifyPassword sc s) (horigin : Origin verifyPassword s op save since)
    (hcand : save.candidate sha256Hex s.store = .ok cand) :
    Authorized verifyPassword sc (s.log ++ [⟨save, since, s.store, cand⟩]) s.log.length
      ⟨save, since, s.store, cand⟩ := by
  refine ⟨(getElem?_stores_append le_rfl).trans h.store, ?_⟩
  rw [List.take_left]
  cases save with
  | users username req newHash =>
    obtain ⟨_, hadmin, -⟩ := bind_eq_ok.1 hcand
    exact ⟨requireAdmin_ok hadmin, superuser_users (usersValid_of_validate h.inv.valid) hcand⟩
  | password username current verifiedHash newHash =>
    obtain ⟨user, huser, hhash, rfl⟩ := applyPasswordChange_ok (mapError_eq_ok.1 hcand)
    have hheld : s.store.hashOf username = some verifiedHash := by simp [StoredConfig.hashOf, huser, hhash]
    obtain ⟨htask, hverify⟩ := horigin.password
    have hrelies := h.tasks _ _ _ _ htask
    exact ⟨hverify, hheld, rfl, hrelies.le, hrelies.read, hrelies.kept hheld⟩
  | setup _ _ _ | edit _ _ | accountLocale _ _ | locale _ _ => trivial

theorem Origin.newHash {s : State} {op : Op} {save : Save} {since : Nat}
    (h : Origin verifyPassword s op save since) : save.newHash = s.newHash verifyPassword op := by
  cases h with
  | edit => rfl
  | accountLocale => rfl
  | task _ _ _ hnew => exact hnew

theorem AuthInv.step {sha256Hex : String → String} {s s' : State} {op : Op} {r : Answer}
    (h : AuthInv verifyPassword sc s) (hfresh : Fresh verifyPassword s op)
    (hs : Step sha256Hex verifyPassword s op r s') : AuthInv verifyPassword sc s' := by
  have hi := h.inv.step hs
  cases hs with
  | refused htasks =>
    exact h.frame hi rfl rfl (fun _ => List.mem_append_left _) fun _ _ _ _ ht => .inl (htasks _ ht)
  | cleared htasks _ _ => exact h.frame hi rfl rfl (fun _ hx => hx) fun _ _ _ _ ht => .inl (htasks _ ht)
  | traffic _ _ => exact h.frame hi rfl rfl (fun _ hx => hx) fun _ _ _ _ ht => .inl ht
  | deferred htask _ =>
    refine h.frame hi rfl rfl (fun _ hx => hx) fun username current stored since ht => ?_
    rcases List.mem_append.1 ht with ht | ht
    · exact .inl ht
    · obtain rfl := List.mem_singleton.1 ht
      cases htask with
      | password huser =>
        have hread : s.store.hashOf username = some _ := congrArg (Option.map User.passwordHash) huser
        refine .inr ⟨le_rfl, h.hashes _ _ hread, by rw [h.store]; exact hread, fun _ j e hj he => ?_⟩
        rw [List.getElem?_eq_none hj] at he
        cases he
  | commits horigin hcand hvalid _ htasks =>
    rename_i save since now cand tasks hr
    have hnew : ∀ hash, save.newHash = some hash → hash ∉ s.hashes := by
      rw [horigin.newHash]
      exact hfresh
    have hknown : ∀ x ∈ s.hashes, x ∈ s.hashes ++ (s.newHash verifyPassword op).toList :=
      fun _ => List.mem_append_left _
    refine ⟨hi, ?_, fun username hash hh => ?_, fun username current stored since' ht => ?_, fun i e he => ?_⟩
    · show (stores sc (s.log ++ [⟨save, since, s.store, cand⟩]))[(s.log ++ [_]).length]? = some cand
      rw [stores_append, List.length_append, List.length_singleton, ← length_stores sc s.log,
        List.getElem?_concat_length]
    · rcases (Save.effect hcand).hashOf (usersValid_of_validate hvalid).distinct username with
        ⟨-, hkept⟩ | hnone | ⟨hash', hhash', hset⟩
      · exact hknown _ (h.hashes username hash (hkept.symm.trans hh))
      · exact absurd (hnone.symm.trans hh) (by simp)
      · obtain rfl : hash' = hash := Option.some.inj (hset.symm.trans hh)
        rw [horigin.newHash] at hhash'
        exact List.mem_append_right _ (by simp [hhash'])
    · rcases htasks _ ht with ht | ⟨ht, -⟩
      · exact (h.tasks _ _ _ _ ht).commit hcand hvalid hnew rfl rfl hknown
      · cases ht
    · by_cases hlt : i < s.log.length
      · rw [show _ = s.log ++ [_] from rfl, List.getElem?_append_left hlt] at he
        exact (h.log i e he).append hlt
      · obtain rfl : i = s.log.length := by
          have := (List.getElem?_eq_some_iff.1 he).1
          simp only [List.length_append, List.length_singleton] at this
          omega
        rw [List.getElem?_concat_length] at he
        cases he
        exact h.authorized horigin hcand

end

/-- In every interleaving whose new hashes are fresh, an own-password change replaces exactly the hash that its
current password was verified against, nobody having set or deleted it since; and a change to users is made by
an admin and leaves the superuser alone. -/
theorem no_stale_authority {sha256Hex : String → String} {verifyPassword : String → String → Bool}
    {sc : StoredConfig} {now : Nat} {ops : List Op} {s : State} (hv : sc.validate = .ok ())
    (hrun : exec (step sha256Hex verifyPassword) (boot sc now) ops = some s)
    (hfresh : Meets (step sha256Hex verifyPassword) (Fresh verifyPassword) (boot sc now) ops) :
    (∀ i e, s.log[i]? = some e → Authorized verifyPassword sc s.log i e) ∧
      (stores sc s.log)[s.log.length]? = some s.store := by
  have h : AuthInv verifyPassword sc s := by
    refine exec_invariant_of_meets (fun s op s' hi hC hs => ?_) (boot_authInv hv now) hfresh hrun
    obtain ⟨r, hs⟩ := step_cases hs
    exact hi.step hC hs
  exact ⟨h.log, h.store⟩

/-- A user's own change and an admin's reset cross: the reset commits first, and the change is refused. The user
then changes the password the admin chose. -/
def crossing : List Op :=
  [.request "bob" (.account (.password "hash-bob" "fresh password")) ⟨none, 1⟩,
    .request "ann" (.users { resetPassword := some "bob" } "from the admin") ⟨none, 2⟩,
    .resume 1 "hash-reset" "" ⟨none, 3⟩, .resume 0 "hash-stale" "" ⟨none, 4⟩,
    .request "bob" (.account (.password "hash-reset" "fresh password")) ⟨none, 5⟩,
    .resume 0 "hash-own" "" ⟨none, 6⟩]

theorem no_stale_authority_crossing : ∃ s, exec plainStep (boot household 0) crossing = some s ∧
    s.log.length = 2 ∧ s.store.hashOf "bob" = some "hash-own" ∧
    ∀ i e, s.log[i]? = some e → Authorized (fun password hash => password == hash) household s.log i e := by
  have hrun : ((exec plainStep (boot household 0) crossing).any fun s =>
      s.log.length == 2 && s.store.hashOf "bob" == some "hash-own") = true := by decide +kernel
  obtain ⟨s, hs, hok⟩ := (Option.any_eq_true ..).1 hrun
  obtain ⟨hlog, hhash⟩ := Bool.and_eq_true_iff.1 hok
  have hfresh : Meets plainStep (Fresh fun password hash => password == hash) (boot household 0) crossing := by
    decide +kernel
  exact ⟨s, hs, by simpa using hlog, by simpa using hhash, (no_stale_authority validate_household hs hfresh).1⟩

end OpenProxy.AppState
