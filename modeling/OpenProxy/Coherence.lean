import OpenProxy.AppState

/-!
# Store, runtime configuration and pool agree

What every reachable state of the configuration satisfies (`Coherent`): the store passes validation, the
runtime snapshot and the pool's lanes are the ones it describes, and once setup is over it has exactly one
superuser and the pool an active lane. Only `commit` touches the four together, so a refused request leaves
them as they were.
-/

namespace OpenProxy

/-- The lanes of a pool as blueprints: the first `active` ones are the enabled ones. -/
def Pool.specs (p : Pool) : List LaneSpec :=
  p.lanes.zipIdx.map fun (l, i) =>
    ⟨l.key, l.rpm, decide (i < p.active), l.endpoint, l.baseUrl, l.upstream, l.supportsStreamOptions⟩

namespace Pool

theorem enabled_enabledFirst {specs : List LaneSpec} {i : Nat} {s : LaneSpec}
    (h : (enabledFirst specs)[i]? = some s) :
    s.enabled = decide (i < (enabledFirst specs).countP (·.enabled)) := by
  have hcount : (enabledFirst specs).countP (·.enabled) = (specs.filter (·.enabled)).length := by
    rw [enabledFirst_eq, List.countP_append, ← List.countP_eq_length_filter, List.countP_filter,
      List.countP_filter]
    simp
  rw [hcount]
  rw [enabledFirst_eq] at h
  by_cases hi : i < (specs.filter (·.enabled)).length
  · rw [List.getElem?_append_left hi] at h
    simpa [hi] using (List.mem_filter.1 (List.mem_of_getElem? h)).2
  · rw [List.getElem?_append_right (by omega)] at h
    simpa [hi] using (List.mem_filter.1 (List.mem_of_getElem? h)).2

/-- The pool's lanes are the configured ones, enabled first. -/
theorem Fits.specs_eq {specs : List LaneSpec} {p : Pool} (h : Fits specs p) : p.specs = enabledFirst specs := by
  refine List.ext_getElem? fun i => ?_
  have hb := congrArg (·[i]?) h.bare_eq
  simp only [List.getElem?_map] at hb
  rw [Pool.specs, List.getElem?_map, List.getElem?_zipIdx]
  cases hl : p.lanes[i]? with
  | none =>
    rw [hl] at hb
    simpa using hb
  | some l =>
    rw [hl] at hb
    obtain ⟨s, hs, hbare⟩ := Option.map_eq_some_iff.1 hb.symm
    have hen := enabled_enabledFirst hs
    rw [← h.active_eq] at hen
    rw [hs]
    simp only [LaneSpec.bare, Lane.bare, Lane.mk.injEq] at hbare
    obtain ⟨hk, hr, he, hu, hn, ho, -⟩ := hbare
    simp [← hk, ← hr, ← he, ← hu, ← hn, ← ho, ← hen]

/-- An enabled spec gives the pool an active lane. -/
theorem Fits.active_pos {specs : List LaneSpec} {p : Pool} (h : Fits specs p) {s : LaneSpec} (hs : s ∈ specs)
    (hen : s.enabled = true) : 1 ≤ p.active := by
  rw [h.active_eq]
  exact List.countP_pos_iff.2 ⟨s, (perm_enabledFirst specs).mem_iff.2 hs, hen⟩

end Pool

namespace StoredConfig

theorem exists_enabled_of_poolFloor {sc : StoredConfig} {su : User} (h : sc.poolFloor su = true) :
    ∃ spec ∈ sc.poolSpecs, spec.enabled = true := by
  rw [poolFloor, Bool.or_eq_true] at h
  rcases h with h | h
  · obtain ⟨hg, hk⟩ := Bool.and_eq_true_iff.1 h
    obtain ⟨k, hk, hok⟩ := List.any_eq_true.1 hk
    obtain ⟨spec, hspec, -, -, -, hen⟩ := mem_poolSpecs_upstream hk
    exact ⟨spec, hspec, by rw [hen, hg, (Bool.and_eq_true_iff.1 hok).1]; rfl⟩
  · obtain ⟨ep, hep, hok⟩ := List.any_eq_true.1 h
    obtain ⟨hg, hk⟩ := Bool.and_eq_true_iff.1 hok
    obtain ⟨k, hk, hok⟩ := List.any_eq_true.1 hk
    obtain ⟨i, hi⟩ := List.mem_iff_getElem?.1 hep
    obtain ⟨spec, hspec, -, -, -, hen⟩ := mem_poolSpecs_upstreams hi hk
    exact ⟨spec, hspec, by rw [hen, hg, (Bool.and_eq_true_iff.1 hok).1]; rfl⟩

theorem validateOwners_of_validate {sc : StoredConfig} {su : User} (h : sc.validate = .ok ())
    (hsu : sc.superuser = some su) : sc.validateOwners su = .ok () := by
  obtain ⟨-, -, -, -, -, -, -, howners⟩ := validate_iff.1 h
  exact howners su hsu

theorem poolFloor_of_validate {sc : StoredConfig} {su : User} (h : sc.validate = .ok ())
    (hsu : sc.superuser = some su) : sc.poolFloor su = true := by
  obtain ⟨-, -, hfloor⟩ := validateOwners_iff.1 (validateOwners_of_validate h hsu)
  exact hfloor

end StoredConfig

/-- What `affinity` reads of a request body: the texts of its `messages`, if they are an array, and its
`model`, if that is a string. -/
structure Conversation where
  messages : Option (List String)
  model : Option String

/-- `finish` is the hasher's value for the strings fed to it. Dividing by zero panics. -/
def affinity (finish : List String → Nat) (body : Conversation) (lanes : Nat) : Except String (Option Nat) :=
  match body.messages with
  | none => .ok none
  | some messages =>
    if lanes = 0 then .error "attempt to calculate the remainder with a divisor of zero"
    else .ok (some (finish (body.model.getD "" :: messages.take 2) % lanes))

namespace AppState

open Text Transition Settings

structure Coherent (s : State) : Prop where
  valid : s.store.validate = .ok ()
  cfg : s.cfg = s.store.runtime
  pool : s.pool.specs = Pool.enabledFirst s.store.poolSpecs
  claimed : s.setupRequired = false →
    (s.store.users.filter (·.role == .superuser)).length = 1 ∧ 1 ≤ s.pool.len

/-- The invariant of a run. -/
structure Inv (s : State) : Prop where
  valid : s.store.validate = .ok ()
  cfg : s.cfg = s.store.runtime
  fits : Pool.Fits s.store.poolSpecs s.pool
  superuser : s.setupRequired = false ∨ .setupDone ∈ s.tasks → s.store.superuser.isSome = true

theorem Inv.isCoherent {s : State} (h : Inv s) : Coherent s := by
  refine ⟨h.valid, h.cfg, h.fits.specs_eq, fun hreq => ?_⟩
  obtain ⟨su, hsu⟩ := Option.isSome_iff_exists.1 (h.superuser (.inl hreq))
  constructor
  · have hle := (usersValid_of_validate h.valid).superusers
    have hmem : su ∈ s.store.users.filter (·.role == .superuser) :=
      List.mem_filter.2 ⟨List.mem_of_find?_eq_some hsu, by simpa using List.find?_some hsu⟩
    have hpos := List.length_pos_of_mem hmem
    omega
  · obtain ⟨spec, hspec, hen⟩ := StoredConfig.exists_enabled_of_poolFloor
      (StoredConfig.poolFloor_of_validate h.valid hsu)
    exact h.fits.active_pos hspec hen

theorem boot_inv {sc : StoredConfig} (h : sc.validate = .ok ()) (now : Nat) : Inv (boot sc now) := by
  refine ⟨h, rfl, .assemble .., fun hreq => ?_⟩
  rcases hreq with hreq | hreq
  · simpa [boot] using hreq
  · cases hreq

section
variable {sha256Hex : String → String} {verifyPassword : String → String → Bool}

theorem Inv.step {s s' : State} {op : Op} {r : Answer} (h : Inv s)
    (hs : Step sha256Hex verifyPassword s op r s') : Inv s' := by
  cases hs with
  | refused htasks => exact ⟨h.valid, h.cfg, h.fits, fun hreq => h.superuser (hreq.imp_right (htasks _))⟩
  | deferred htask _ =>
    refine ⟨h.valid, h.cfg, h.fits, fun hreq => h.superuser (hreq.imp_right fun hmem => ?_)⟩
    rcases List.mem_append.1 hmem with hmem | hmem
    · exact hmem
    · obtain rfl := List.mem_singleton.1 hmem
      cases htask
  | cleared _ hdone _ => exact ⟨h.valid, h.cfg, h.fits, fun _ => h.superuser (.inr hdone)⟩
  | commits _ hcand hvalid _ htasks =>
    refine ⟨hvalid, rfl, .assemble .., fun hreq => ?_⟩
    have hkept : s.store.superuser.isSome = true → _ :=
      (Save.effect hcand).isSome_superuser (usersValid_of_validate h.valid)
    rcases hreq with hreq | hreq
    · exact hkept (h.superuser (.inl hreq))
    · rcases htasks _ hreq with hmem | ⟨-, req, hash, secret, rfl⟩
      · exact hkept (h.superuser (.inr hmem))
      · obtain ⟨-, husers⟩ := setupSubmit_ok hcand
        simp [State.published, StoredConfig.superuser, husers]
  | traffic hpool _ => exact ⟨h.valid, h.cfg, h.fits.sameLanes hpool, h.superuser⟩

theorem exec_inv {sc : StoredConfig} {now : Nat} {ops : List Op} {s : State} (h : sc.validate = .ok ())
    (hrun : exec (step sha256Hex verifyPassword) (boot sc now) ops = some s) : Inv s := by
  refine exec_invariant (fun s op s' hi hs => ?_) (boot_inv h now) hrun
  obtain ⟨r, hs⟩ := step_cases hs
  exact hi.step hs

/-- A refusal leaves everything but the waiting tasks as it was. -/
theorem Step.error {s s' : State} {op : Op} {e : ApiError}
    (hs : Step sha256Hex verifyPassword s op (some (.error e)) s') :
    s'.store = s.store ∧ s'.cfg = s.cfg ∧ s'.pool = s.pool ∧ s'.configRevision = s.configRevision := by
  cases hs with
  | refused _ => exact ⟨rfl, rfl, rfl, rfl⟩
  | commits _ _ _ hr _ => exact absurd rfl (hr e)

end

/-- The store of a first start passes its own check. -/
theorem validate_default : ({} : StoredConfig).validate = .ok () := toOption_eq_some (by decide +kernel)

theorem validate_of_load {path : String} {file stored : Option StoredConfig} (h : load path file = .ok stored) :
    (stored.getD {}).validate = .ok () := by
  cases file with
  | none =>
    cases h
    exact validate_default
  | some sc =>
    obtain ⟨_, -, h⟩ := bind_eq_ok.1 h
    obtain ⟨_, hvalid, h⟩ := bind_eq_ok.1 h
    cases h
    exact hvalid

/-- Boot from a store that `load` accepts and run any operations: store, runtime configuration and pool agree,
a refusal leaves them alone, and after setup the affinity hint of a request never divides by zero. -/
theorem coherent {sha256Hex : String → String} {verifyPassword : String → String → Bool} {path : String}
    {file stored : Option StoredConfig} {now : Nat} {ops : List Op} {s : State}
    (hload : load path file = .ok stored)
    (hrun : exec (step sha256Hex verifyPassword) (boot (stored.getD {}) now) ops = some s) :
    Coherent s ∧
    (∀ op e s', s.handle sha256Hex verifyPassword op = some (s', some (.error e)) →
      s'.store = s.store ∧ s'.cfg = s.cfg ∧ s'.pool = s.pool ∧ s'.configRevision = s.configRevision) ∧
    (s.setupRequired = false → ∀ finish body, ∃ hint, affinity finish body s.pool.len = .ok hint) := by
  have hcoherent := (exec_inv (validate_of_load hload) hrun).isCoherent
  refine ⟨hcoherent, fun op e s' hs => (handle_step hs).error, fun hreq finish body => ?_⟩
  have hlen := (hcoherent.claimed hreq).2
  unfold affinity
  split
  · exact ⟨none, rfl⟩
  · rw [if_neg (by omega)]
    exact ⟨_, rfl⟩

/-- A first start is claimed with the native form. Then the superuser adds a key, which the disk refuses, and a
user. -/
def firstRun : List Op :=
  [.setup (.form { username := "root", password := "correct horse", nimKey := some "nvapi-1" }) true,
    .resume 0 "hash-root" "" ⟨none, 1⟩, .resume 0 "" "" ⟨none, 2⟩,
    .request "root" (.edit (.nimKeys { add := some ⟨"nvapi-2", none, none⟩ })) ⟨some "disk full", 3⟩,
    .request "root" (.users { add := some ("bob", "user") } "battery staple") ⟨none, 4⟩,
    .resume 0 "hash-bob" "" ⟨none, 5⟩]

theorem coherent_firstRun : ∃ s, exec (step id fun password hash => password == hash) (boot {} 0) firstRun = some s ∧
    s.setupRequired = false ∧ s.configRevision = 3 ∧ Coherent s := by
  have hrun : ((exec (step id fun password hash => password == hash) (boot {} 0) firstRun).any fun s =>
      !s.setupRequired && s.configRevision == 3) = true := by decide +kernel
  obtain ⟨s, hs, hok⟩ := (Option.any_eq_true ..).1 hrun
  obtain ⟨hreq, hrev⟩ := Bool.and_eq_true_iff.1 hok
  have hload : load "config.json" none = .ok none := rfl
  exact ⟨s, hs, by simpa using hreq, by simpa using hrev, (coherent hload hs).1⟩

end AppState

end OpenProxy
