import OpenProxy.Catalog
import OpenProxy.Authority

/-!
# The catalog cache and settings saves (`catalog_body`, the flushes of `settings.rs`)

A request for the catalog takes a snapshot of the configuration, and later the cache lock; it holds the lock from
the look at the cache until it has stored what it fetched. A save that concerns the upstreams or the models commits
under the store lock, and takes the cache lock afterwards to flush. Any other step may come in between.
-/

namespace OpenProxy.CatalogCache

open Transition Catalog Settings
open Json (Value)

/-- A request, as its snapshot was taken. -/
structure Request where
  cfg : Config
  /-- The models that were disabled since the start, or ever since a save that had been answered. -/
  announced : List String
  /-- No save was between its commit and its answer. -/
  settled : Bool

structure State (B : Type) where
  app : AppState.State
  cache : Cache B
  /-- Requests between their snapshot and the lock. -/
  waiting : List Request
  /-- The request that holds the lock while it fetches, and the pool it has read. -/
  fetching : Option (Request × Pool)
  /-- For each save between its commit and its flush, the models disabled ever since that commit. -/
  flushes : List (List String)
  /-- The models disabled since the start, or ever since a save that has been answered. -/
  announced : List String
  answers : List (Request × Except (Failure B) B)

inductive Op (B : Type) where
  | app (op : AppState.Op)
  | arrive
  /-- The `n`-th waiting request takes the lock and looks at the cache. -/
  | enter (n now : Nat)
  /-- The fetch ends, with an outcome for each group. -/
  | finish (outcome : Nat → Outcome B) (poolLen now : Nat)
  /-- The request that holds the lock is dropped. -/
  | abandon
  /-- The `n`-th save in flight flushes and answers. -/
  | flush (n : Nat)

/-- Whether the handler flushes once this has been committed. -/
def flushesCatalog (e : AppState.Event) : Bool :=
  match e.save with
  | .edit _ (.upstream _) | .edit _ (.upstreams _) | .edit _ (.models _) => true
  | .edit _ (.server _ _) => e.before.upstream.baseUrl != e.after.upstream.baseUrl
  | _ => false

def boot (B : Type) (sc : StoredConfig) (now : Nat) : State B where
  app := AppState.boot sc now
  cache := none
  waiting := []
  fetching := none
  flushes := []
  announced := sc.disabledModels
  answers := []

section
variable {B : Type}

/-- The configuration is `app`'s from now on, after the commits that `app` has made and `s` has not. -/
def State.reconfigure (s : State B) (app : AppState.State) : State B :=
  let disabled := app.cfg.disabledModels
  { s with
    app := app
    flushes := s.flushes.map (·.filter (· ∈ disabled)) ++
      ((app.log.drop s.app.log.length).filter flushesCatalog).map fun e => e.after.disabledModels
    announced := s.announced.filter (· ∈ disabled) }

def step (json : SerdeValue B) (sha256Hex : String → String) (verifyPassword : String → String → Bool)
    (s : State B) : Op B → Option (State B)
  | .app op => (AppState.step sha256Hex verifyPassword s.app op).map s.reconfigure
  | .arrive =>
    if s.app.setupRequired then none
    else some { s with waiting := s.waiting ++ [⟨s.app.cfg, s.announced, s.flushes.isEmpty⟩] }
  | .enter n now =>
    match s.fetching, s.waiting[n]? with
    | none, some r =>
      let s := { s with waiting := s.waiting.eraseIdx n }
      match lookup r.cfg s.cache now with
      | some body => some { s with answers := s.answers ++ [(r, .ok body)] }
      | none => some { s with fetching := some (r, s.app.pool) }
    | _, _ => none
  | .finish outcome poolLen now =>
    match s.fetching with
    | none => none
    | some (r, pool) =>
      let fetched := refresh json r.cfg pool s.cache outcome poolLen now
      some { s with cache := fetched.2, fetching := none, answers := s.answers ++ [(r, fetched.1)] }
  | .abandon => s.fetching.map fun _ => { s with fetching := none }
  | .flush n =>
    match s.fetching, s.flushes[n]? with
    | none, some disabled =>
      some { s with cache := none, flushes := s.flushes.eraseIdx n, announced := s.announced ++ disabled }
    | _, _ => none

/-- What has been announced, to requests to come or to one that waits for the lock. -/
def State.known (s : State B) : List String := s.announced ++ s.waiting.flatMap (·.announced)

/-- A request that comes to store a catalog has every model disabled that has been announced. -/
def Current (json : SerdeValue B) (s : State B) : Op B → Prop
  | .finish outcome _ _ =>
    match s.fetching with
    | some (r, pool) =>
      (((targets r.cfg pool).map outcome).filterMap (Outcome.received json)).isEmpty = true ∨
        ∀ m ∈ s.known, m ∈ r.cfg.disabledModels
    | none => True
  | .app _ | .arrive | .enter _ _ | .abandon | .flush _ => True

end

/-! ### The disabled models -/

section
variable {guard cand : StoredConfig} {username : String}

theorem nimKeys_disabledModels {fp : String → String} {req : NimKeysReq}
    (h : nimKeys fp guard username req = .ok cand) : cand.disabledModels = guard.disabledModels := by
  obtain ⟨role, -, hedit⟩ := nimKeys_cases h
  cases hedit with
  | adds add hcand => rw [editGroup_frame hcand]
  | removes fp' k hk hown hcand => rw [updateGroups_frame hcand]
  | sets set k hk hown hcand => rw [updateGroups_frame hcand]

theorem clients_disabledModels {sha256Hex : String → String} {req : ClientsReq} {secret : String}
    (h : clients sha256Hex guard username req secret = .ok cand) : cand.disabledModels = guard.disabledModels := by
  obtain ⟨role, -, hedit⟩ := clients_cases h
  cases hedit <;> subst cand <;> rfl

theorem upstreams_disabledModels {req : UpstreamsReq} (h : upstreams guard username req = .ok cand) :
    cand.disabledModels = guard.disabledModels := by
  obtain ⟨-, hedit⟩ := upstreams_cases h
  cases hedit <;> subst cand <;> rfl

theorem users_disabledModels {req : UsersReq} {newHash : String} (h : users guard username req newHash = .ok cand) :
    cand.disabledModels = guard.disabledModels := by
  obtain ⟨-, hedit⟩ := users_cases h
  cases hedit <;> subst cand <;> rfl

theorem setupSubmit_disabledModels {sha256Hex : String → String} {req : SetupReq} {hash secret : String}
    (h : setupSubmit sha256Hex guard req hash secret = .ok cand) : cand.disabledModels = guard.disabledModels := by
  unfold setupSubmit at h
  split at h
  · cases h
  · cases h
    have hpop : (req.populate (req.adopt hash guard)).disabledModels = guard.disabledModels := by
      unfold SetupReq.populate
      split <;> rfl
    cases req.createClientKey <;> exact hpop

/-- Only `models_cfg` changes them. -/
theorem candidate_disabledModels {sha256Hex : String → String} {save : Save}
    (h : save.candidate sha256Hex guard = .ok cand) :
    cand.disabledModels = guard.disabledModels ∨ ∃ username disabled, save = .edit username (.models disabled) := by
  cases save with
  | setup req hash secret => exact .inl (setupSubmit_disabledModels h)
  | edit username e =>
    cases e with
    | nimKeys req => exact .inl (nimKeys_disabledModels h)
    | clients req secret => exact .inl (clients_disabledModels h)
    | upstreams req => exact .inl (upstreams_disabledModels h)
    | models disabled => exact .inr ⟨username, disabled, rfl⟩
    | upstream _ | server _ _ | limits _ | history _ | governor _ =>
      obtain ⟨_, -, h⟩ := bind_eq_ok.1 h
      cases h
      exact .inl rfl
  | users username req newHash => exact .inl (users_disabledModels h)
  | password username current verifiedHash newHash =>
    obtain ⟨user, -, -, rfl⟩ := applyPasswordChange_ok (mapError_eq_ok.1 h)
    exact .inl rfl
  | accountLocale username l =>
    obtain ⟨user, -, rfl⟩ := accountLocale_ok h
    exact .inl rfl
  | locale username l =>
    obtain ⟨_, -, h⟩ := bind_eq_ok.1 h
    cases h
    exact .inl rfl

end

/-- An operation commits nothing, or one save. -/
theorem app_step {sha256Hex : String → String} {verifyPassword : String → String → Bool} {app app' : AppState.State}
    {op : AppState.Op} (hinv : AppState.Inv app) (h : AppState.step sha256Hex verifyPassword app op = some app') :
    (app'.cfg = app.cfg ∧ app'.log = app.log) ∨
      ∃ e, app'.log = app.log ++ [e] ∧ app'.cfg = e.after.runtime ∧
        (app'.cfg.disabledModels = app.cfg.disabledModels ∨ flushesCatalog e = true) := by
  obtain ⟨r, hs⟩ := AppState.step_cases h
  cases hs with
  | refused _ => exact .inl ⟨rfl, rfl⟩
  | deferred _ _ => exact .inl ⟨rfl, rfl⟩
  | cleared _ _ _ => exact .inl ⟨rfl, rfl⟩
  | traffic _ _ => exact .inl ⟨rfl, rfl⟩
  | commits horigin hcand hvalid hr htasks =>
    refine .inr ⟨_, rfl, rfl, ?_⟩
    rcases candidate_disabledModels hcand with hkept | ⟨username, disabled, rfl⟩
    · refine .inl ?_
      rw [hinv.cfg]
      exact hkept
    · exact .inr rfl

/-! ### What has been announced -/

section
variable {B : Type} {json : SerdeValue B} {sha256Hex : String → String} {verifyPassword : String → String → Bool}
  {s s' : State B} {op : Op B}

/-- The requests that have not been answered. -/
def State.pending (s : State B) : List Request := s.waiting ++ (s.fetching.map (·.1)).toList

/-- What the snapshot disables is what was announced, if all saves had been answered. -/
structure Request.Sound (r : Request) : Prop where
  disabled : ∀ m ∈ r.announced, m ∈ r.cfg.disabledModels
  settled : r.settled = true → ∀ m ∈ r.cfg.disabledModels, m ∈ r.announced

/-- Everything disabled is announced or about to be. -/
structure Inv (s : State B) : Prop where
  app : AppState.Inv s.app
  announced : ∀ m ∈ s.announced, m ∈ s.app.cfg.disabledModels
  flushes : ∀ disabled ∈ s.flushes, ∀ m ∈ disabled, m ∈ s.app.cfg.disabledModels
  accounted : ∀ m ∈ s.app.cfg.disabledModels, m ∈ s.announced ∨ ∃ disabled ∈ s.flushes, m ∈ disabled
  pending : ∀ r ∈ s.pending, r.Sound

theorem boot_inv {sc : StoredConfig} (hvalid : sc.validate = .ok ()) (now : Nat) : Inv (boot B sc now) where
  app := AppState.boot_inv hvalid now
  announced := fun _ hm => hm
  flushes := fun _ hD => absurd hD (List.not_mem_nil)
  accounted := fun _ hm => .inl hm
  pending := fun _ hr => absurd hr (List.not_mem_nil)

@[simp] theorem app_reconfigure (s : State B) (app : AppState.State) : (s.reconfigure app).app = app := rfl

/-- What is disabled after a commit was disabled before, or its save has yet to flush. -/
theorem Inv.reconfigure (hi : Inv s) {op : AppState.Op} {app : AppState.State}
    (hs : AppState.step sha256Hex verifyPassword s.app op = some app) : Inv (s.reconfigure app) := by
  obtain ⟨r, happ⟩ := AppState.step_cases hs
  refine ⟨hi.app.step happ, ?_, ?_, ?_, hi.pending⟩
  · intro m hm
    simpa using (List.mem_filter.1 hm).2
  · intro disabled hdisabled m hm
    rcases List.mem_append.1 hdisabled with hold | hnew
    · obtain ⟨old, -, rfl⟩ := List.mem_map.1 hold
      simpa using (List.mem_filter.1 hm).2
    · obtain ⟨e, he, rfl⟩ := List.mem_map.1 hnew
      rcases app_step hi.app hs with ⟨-, hlog⟩ | ⟨e', hlog, hcfg, -⟩
      · simp [hlog] at he
      · obtain rfl : e = e' := by
          rw [hlog, List.drop_left] at he
          exact List.mem_singleton.1 (List.mem_filter.1 he).1
        show m ∈ app.cfg.disabledModels
        rw [hcfg]
        exact hm
  · intro m hm
    have hkept (hsame : app.cfg.disabledModels = s.app.cfg.disabledModels) :
        m ∈ (s.reconfigure app).announced ∨ ∃ disabled ∈ (s.reconfigure app).flushes, m ∈ disabled := by
      have hm' : m ∈ s.app.cfg.disabledModels := hsame ▸ hm
      rcases hi.accounted m hm' with ha | ⟨disabled, hdisabled, hmem⟩
      · exact .inl (List.mem_filter.2 ⟨ha, by simpa using hm⟩)
      · refine .inr ⟨disabled.filter (· ∈ app.cfg.disabledModels), ?_, List.mem_filter.2 ⟨hmem, by simpa using hm⟩⟩
        exact List.mem_append_left _ (List.mem_map_of_mem hdisabled)
    rcases app_step hi.app hs with ⟨hcfg, -⟩ | ⟨e, hlog, hcfg, hsame | hflush⟩
    · exact hkept (by rw [hcfg])
    · exact hkept hsame
    · refine .inr ⟨e.after.disabledModels, List.mem_append_right _ (List.mem_map.2 ⟨e, ?_, rfl⟩), ?_⟩
      · rw [hlog, List.drop_left]
        exact List.mem_filter.2 ⟨List.mem_singleton_self e, hflush⟩
      · have hm' : m ∈ app.cfg.disabledModels := hm
        rw [hcfg] at hm'
        exact hm'

/-- What one step can do. -/
inductive Step (json : SerdeValue B) (sha256Hex : String → String) (verifyPassword : String → String → Bool)
    (s : State B) : Op B → State B → Prop where
  | app {op : AppState.Op} {app : AppState.State} (happ : AppState.step sha256Hex verifyPassword s.app op = some app) :
      Step json sha256Hex verifyPassword s (.app op) (s.reconfigure app)
  | arrive : Step json sha256Hex verifyPassword s .arrive
      { s with waiting := s.waiting ++ [⟨s.app.cfg, s.announced, s.flushes.isEmpty⟩] }
  | cached {n now since : Nat} {r : Request} {body : B} (hidle : s.fetching = none) (hr : s.waiting[n]? = some r)
      (hcache : s.cache = some (since, body)) :
      Step json sha256Hex verifyPassword s (.enter n now)
        { s with waiting := s.waiting.eraseIdx n, answers := s.answers ++ [(r, .ok body)] }
  | locked {n now : Nat} {r : Request} (hidle : s.fetching = none) (hr : s.waiting[n]? = some r) :
      Step json sha256Hex verifyPassword s (.enter n now)
        { s with waiting := s.waiting.eraseIdx n, fetching := some (r, s.app.pool) }
  | fetched {outcome : Nat → Outcome B} {poolLen now : Nat} {r : Request} {pool : Pool}
      (hfetching : s.fetching = some (r, pool)) :
      Step json sha256Hex verifyPassword s (.finish outcome poolLen now)
        { s with
          cache := (refresh json r.cfg pool s.cache outcome poolLen now).2
          fetching := none
          answers := s.answers ++ [(r, (refresh json r.cfg pool s.cache outcome poolLen now).1)] }
  | abandoned : Step json sha256Hex verifyPassword s .abandon { s with fetching := none }
  | flushed {n : Nat} {disabled : List String} (hidle : s.fetching = none) (hn : s.flushes[n]? = some disabled) :
      Step json sha256Hex verifyPassword s (.flush n)
        { s with cache := none, flushes := s.flushes.eraseIdx n, announced := s.announced ++ disabled }

theorem lookup_eq_some {cfg : Config} {cache : Cache B} {now : Nat} {body : B}
    (h : lookup cfg cache now = some body) : ∃ since, cache = some (since, body) := by
  unfold lookup at h
  split at h
  · rename_i since body'
    split at h
    · cases h
      exact ⟨since, rfl⟩
    · cases h
  · cases h

theorem step_cases (h : step json sha256Hex verifyPassword s op = some s') :
    Step json sha256Hex verifyPassword s op s' := by
  cases op with
  | app op =>
    obtain ⟨app, happ, rfl⟩ := Option.map_eq_some_iff.1 h
    exact .app happ
  | arrive =>
    simp only [step] at h
    split at h
    · cases h
    · cases h
      exact .arrive
  | enter n now =>
    simp only [step] at h
    split at h
    · rename_i hidle hr
      split at h
      · rename_i body hbody
        cases h
        obtain ⟨since, hcache⟩ := lookup_eq_some hbody
        exact .cached hidle hr hcache
      · cases h
        exact .locked hidle hr
    · cases h
  | finish outcome poolLen now =>
    simp only [step] at h
    split at h
    · cases h
    · rename_i hfetching
      cases h
      exact .fetched hfetching
  | abandon =>
    obtain ⟨_, -, rfl⟩ := Option.map_eq_some_iff.1 h
    exact .abandoned
  | flush n =>
    simp only [step] at h
    split at h
    · rename_i hidle hn
      cases h
      exact .flushed hidle hn
    · cases h

/-- Once every save has been answered, everything disabled is announced. -/
theorem Inv.settled (hi : Inv s) (h : s.flushes = []) : ∀ m ∈ s.app.cfg.disabledModels, m ∈ s.announced := by
  intro m hm
  refine (hi.accounted m hm).resolve_right ?_
  rintro ⟨disabled, hdisabled, -⟩
  rw [h] at hdisabled
  exact absurd hdisabled List.not_mem_nil

theorem Inv.step (hi : Inv s) (h : Step json sha256Hex verifyPassword s op s') : Inv s' := by
  cases h with
  | app happ => exact hi.reconfigure happ
  | arrive =>
    refine { hi with pending := fun r hr => ?_ }
    have hr' : r ∈ s.pending ∨ r = ⟨s.app.cfg, s.announced, s.flushes.isEmpty⟩ := by
      simp only [State.pending, List.mem_append, List.mem_singleton] at hr ⊢
      tauto
    rcases hr' with hr' | rfl
    · exact hi.pending r hr'
    · exact ⟨hi.announced, fun hsettled => hi.settled (List.isEmpty_iff.1 hsettled)⟩
  | cached hidle hr hcache =>
    refine { hi with pending := fun r' hr' => hi.pending r' ?_ }
    rcases List.mem_append.1 hr' with hr' | hr'
    · exact List.mem_append_left _ (List.mem_of_mem_eraseIdx hr')
    · exact List.mem_append_right _ hr'
  | @locked _ _ r hidle hr =>
    refine { hi with pending := fun r' hr' => hi.pending r' (List.mem_append_left _ ?_) }
    rcases List.mem_append.1 hr' with hr' | hr'
    · exact List.mem_of_mem_eraseIdx hr'
    · have hr' : r' = r := by simpa using hr'
      rw [hr']
      exact List.mem_of_getElem? hr
  | fetched hfetching =>
    refine { hi with pending := fun r' hr' => hi.pending r' (List.mem_append_left _ ?_) }
    simpa [State.pending] using hr'
  | abandoned =>
    refine { hi with pending := fun r' hr' => hi.pending r' (List.mem_append_left _ ?_) }
    simpa [State.pending] using hr'
  | flushed hidle hn =>
    refine ⟨hi.app, fun m hm => ?_, fun D hD => ?_, fun m hm => ?_, hi.pending⟩
    · rcases List.mem_append.1 hm with hm | hm
      · exact hi.announced m hm
      · exact hi.flushes _ (List.mem_of_getElem? hn) m hm
    · exact hi.flushes D (List.mem_of_mem_eraseIdx hD)
    · rcases hi.accounted m hm with ha | ⟨D, hD, hmem⟩
      · exact .inl (List.mem_append_left _ ha)
      · obtain ⟨k, hk⟩ := List.mem_iff_getElem?.1 hD
        rename_i n disabled
        by_cases hkn : k = n
        · rw [hkn, hn] at hk
          cases hk
          exact .inl (List.mem_append_right _ hmem)
        · exact .inr ⟨D, List.mem_eraseIdx_iff_getElem?.2 ⟨k, hkn, hk⟩, hmem⟩

/-- No answer lists a model that the snapshot of its request disables: none at all if every save had been answered
then, and otherwise none of those announced. -/
def Unlisted (json : SerdeValue B) (s : State B) : Prop :=
  ∀ r body, (r, .ok body) ∈ s.answers → ∀ m ∈ r.cfg.disabledModels, r.settled = true ∨ m ∈ r.announced →
    m ∉ json.models body

/-- The cache lists nothing known to be disabled. -/
structure Clean (json : SerdeValue B) (s : State B) : Prop where
  cache : ∀ since body, s.cache = some (since, body) → ∀ m ∈ s.known, m ∉ json.models body
  answers : Unlisted json s

theorem mem_known_of_waiting {r : Request} (hr : r ∈ s.waiting) {m : String} (hm : m ∈ r.announced) : m ∈ s.known :=
  List.mem_append_right _ (List.mem_flatMap_of_mem hr hm)

theorem mem_known_of_mem_flatMap {waiting : List Request} (hsub : ∀ r ∈ waiting, r ∈ s.waiting) {m : String}
    (hm : m ∈ s.announced ++ waiting.flatMap (·.announced)) : m ∈ s.known := by
  rcases List.mem_append.1 hm with hm | hm
  · exact List.mem_append_left _ hm
  · obtain ⟨r, hr, hmr⟩ := List.mem_flatMap.1 hm
    exact mem_known_of_waiting (hsub r hr) hmr

/-- The answers stay so when one more lists nothing announced to its request. -/
theorem Clean.answered (hc : Clean json s) {r : Request} {body : B} (hr : r.Sound)
    (h : ∀ m ∈ r.announced, m ∉ json.models body) :
    ∀ r' body', (r', .ok body') ∈ s.answers ++ [(r, (.ok body : Except (Failure B) B))] →
      ∀ m ∈ r'.cfg.disabledModels, r'.settled = true ∨ m ∈ r'.announced → m ∉ json.models body' := by
  intro r' body' hmem m hdisabled htold
  rcases List.mem_append.1 hmem with hmem | hmem
  · exact hc.answers r' body' hmem m hdisabled htold
  · cases List.mem_singleton.1 hmem
    exact h m (htold.elim (fun hsettled => hr.settled hsettled m hdisabled) id)

theorem Clean.step (hjson : json.Reads) (hi : Inv s) (hc : Clean json s) (hcur : Current json s op)
    (h : Step json sha256Hex verifyPassword s op s') : Clean json s' := by
  cases h with
  | app happ =>
    refine ⟨fun since body hcache m hm => hc.cache since body hcache m ?_, hc.answers⟩
    rcases List.mem_append.1 hm with hm | hm
    · exact List.mem_append_left _ (List.mem_of_mem_filter hm)
    · exact List.mem_append_right _ hm
  | arrive =>
    refine ⟨fun since body hcache m hm => hc.cache since body hcache m ?_, hc.answers⟩
    simp only [State.known, List.flatMap_append, List.flatMap_singleton, List.mem_append] at hm ⊢
    tauto
  | @cached _ _ _ r _ hidle hr hcache =>
    have hr' : r ∈ s.waiting := List.mem_of_getElem? hr
    refine ⟨fun since body hcache m hm => hc.cache since body hcache m ?_, ?_⟩
    · exact mem_known_of_mem_flatMap (fun r hr => List.mem_of_mem_eraseIdx hr) hm
    · refine hc.answered (hi.pending r (List.mem_append_left _ hr')) fun m hm => ?_
      exact hc.cache _ _ hcache m (mem_known_of_waiting hr' hm)
  | locked hidle hr =>
    refine ⟨fun since body hcache m hm => hc.cache since body hcache m ?_, hc.answers⟩
    exact mem_known_of_mem_flatMap (fun r hr => List.mem_of_mem_eraseIdx hr) hm
  | @fetched outcome poolLen now r pool hfetching =>
    rcases @refresh_cases _ json r.cfg pool s.cache outcome poolLen now with
      ⟨-, e, hr⟩ | ⟨hits, hne, hhits, hr⟩
    · rw [hr]
      refine ⟨hc.cache, fun r' body hmem => ?_⟩
      rcases List.mem_append.1 hmem with hmem | hmem
      · exact hc.answers r' body hmem
      · cases List.mem_singleton.1 hmem
    · rw [hr]
      have hcfg : ∀ m ∈ s.known, m ∈ r.cfg.disabledModels := by
        simp only [Current, hfetching, hhits] at hcur
        exact hcur.resolve_left fun hempty => hne (List.isEmpty_iff.1 hempty)
      have hsound : r.Sound := hi.pending r (List.mem_append_right _ (by simp [hfetching]))
      refine ⟨fun since body hcache m hm => ?_, hc.answered hsound fun m hm => ?_⟩
      · cases hcache
        exact notMem_models_assemble hjson hits (hcfg m hm)
      · exact notMem_models_assemble hjson hits (hsound.disabled m hm)
  | abandoned => exact ⟨hc.cache, hc.answers⟩
  | flushed hidle hn => exact ⟨fun _ _ hcache => (by cases hcache), hc.answers⟩

/-- As long as no request stores a catalog without having disabled what has been announced, no catalog lists a model
that the snapshot of its request disables. -/
theorem announced_unlisted (hjson : json.Reads) {sc : StoredConfig} (hvalid : sc.validate = .ok ()) {now : Nat}
    {ops : List (Op B)} {s : State B} (hcur : Meets (step json sha256Hex verifyPassword) (Current json) (boot B sc now) ops)
    (hrun : exec (step json sha256Hex verifyPassword) (boot B sc now) ops = some s) : Unlisted json s := by
  have hboot : Clean json (boot B sc now) := by
    refine ⟨fun _ _ hcache => ?_, fun _ _ hmem => absurd hmem List.not_mem_nil⟩
    cases hcache
  have hfinal : Inv s ∧ Clean json s := by
    refine exec_invariant_of_meets (I := fun s => Inv s ∧ Clean json s) (fun s op s' hI hcur hs => ?_)
      ⟨boot_inv hvalid now, hboot⟩ hcur hrun
    exact ⟨hI.1.step (step_cases hs), hI.2.step hjson hI.1 hcur (step_cases hs)⟩
  exact hfinal.2.answers

end

/-- Whether some catalog lists a model that was announced to its request. -/
def State.stale {B : Type} (json : SerdeValue B) (s : State B) : Bool :=
  s.answers.any fun (r, answer) =>
    match answer with
    | .ok body => r.cfg.disabledModels.any fun m =>
        (r.settled || r.announced.contains m) && (json.models body).contains m
    | .error _ => false

instance {B : Type} (json : SerdeValue B) (s : State B) : DecidablePred (Current json s)
  | .finish outcome _ _ =>
    match h : s.fetching with
    | some (r, pool) =>
      decidable_of_iff ((((targets r.cfg pool).map outcome).filterMap (Outcome.received json)).isEmpty = true ∨
        ∀ m ∈ s.known, m ∈ r.cfg.disabledModels) (by simp only [Current, h])
    | none => isTrue (by simp only [Current, h])
  | .app _ | .arrive | .enter _ _ | .abandon | .flush _ => isTrue trivial

abbrev plainStep : State (Option Value) → Op (Option Value) → Option (State (Option Value)) :=
  step parsedBodies id fun password hash => password == hash

/-- The superuser disables `m`. -/
def disableModel : Op (Option Value) := .app (.request "root" (.edit (.models ["m"])) ⟨none, 1⟩)

/-- Every group lists `m` and `n`. -/
def fetchBoth : Op (Option Value) := .finish (fun _ => .responded 200 (some (some (listing ["m", "n"])))) 3 3

/-- A request that comes after the save fetches, and another one is answered from the cache. -/
def afterSave : List (Op (Option Value)) :=
  [disableModel, .flush 0, .arrive, .enter 0 2, fetchBoth, .arrive, .enter 0 4]

theorem announced_unlisted_afterSave : ∃ s, exec plainStep (boot _ AppState.household 0) afterSave = some s ∧
    s.answers.map (·.1.cfg.disabledModels) = [["m"], ["m"]] ∧ Unlisted parsedBodies s := by
  have hrun : ((exec plainStep (boot _ AppState.household 0) afterSave).any fun s =>
      s.answers.map (·.1.cfg.disabledModels) == [["m"], ["m"]]) = true := by decide +kernel
  obtain ⟨s, hs, hok⟩ := (Option.any_eq_true ..).1 hrun
  have hcur : Meets plainStep (Current parsedBodies) (boot _ AppState.household 0) afterSave := by decide +kernel
  exact ⟨s, hs, by simpa using hok, announced_unlisted parsedBodies_reads AppState.validate_household hcur hs⟩

/-- A request from before the save takes the lock after the flush: what it fetches is cached, and answered to a
request that comes after the save. -/
def acrossSave : List (Op (Option Value)) :=
  [.arrive, disableModel, .flush 0, .enter 0 2, fetchBoth, .arrive, .enter 0 4]

theorem not_announced_unlisted_acrossSave : ¬ ∀ (ops : List (Op (Option Value))) (s : State (Option Value)),
    exec plainStep (boot _ AppState.household 0) ops = some s → Unlisted parsedBodies s := by
  intro h
  have hrun : ((exec plainStep (boot _ AppState.household 0) acrossSave).any (State.stale parsedBodies)) = true := by
    decide +kernel
  obtain ⟨s, hs, hstale⟩ := (Option.any_eq_true ..).1 hrun
  obtain ⟨⟨r, answer⟩, hmem, hlisted⟩ := List.any_eq_true.1 hstale
  cases answer with
  | error e => cases hlisted
  | ok body =>
    obtain ⟨m, hm, hin⟩ := List.any_eq_true.1 hlisted
    rw [Bool.and_eq_true, Bool.or_eq_true, List.contains_iff_mem, List.contains_iff_mem] at hin
    exact h acrossSave s hs r body hmem m hm hin.1 hin.2

end OpenProxy.CatalogCache
