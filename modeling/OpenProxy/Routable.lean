import OpenProxy.Coherence
import OpenProxy.Routing

/-!
# Groups without a lane (`route_model` of `lib.rs`, `reserve_filtered` of `pool.rs`, `handle` of `proxy.rs`)

Routing looks at a group's enabled flag and model list, the pool at its enabled keys. `handle` answers
`model_not_found` when no group is left, and not when the groups left have no enabled key: such a request
joins the queue, where the pool has no lane for it. `Keyed` is the condition under which it has one.
-/

namespace OpenProxy

/-- What routing and the pool see of a group. -/
structure Group where
  enabled : Bool
  models : List String
  keys : List NimKey

namespace StoredConfig

def groups (sc : StoredConfig) : List Group :=
  ⟨sc.upstream.enabled, sc.upstream.models, sc.upstream.nimKeys⟩ ::
    sc.upstreams.map fun ep => ⟨ep.enabled, ep.models, ep.keys⟩

/-- The enabled groups that list the model, or those without a list if none does. -/
def serving (sc : StoredConfig) (model : String) : List Group :=
  let listing := sc.groups.filter fun g => g.enabled && g.models.contains model
  if listing = [] then sc.groups.filter fun g => g.enabled && g.models == [] else listing

/-- One of the groups that serve the model has an enabled key. -/
def Keyed (sc : StoredConfig) (model : String) : Prop :=
  ∃ g ∈ sc.serving model, ∃ k ∈ g.keys, k.enabled = true

theorem runtime_endpoints_getElem? (sc : StoredConfig) (i : Nat) :
    (sc.runtime.endpoints[i]?).map (fun ep => (ep.enabled, ep.models)) =
      (sc.groups[i]?).map fun g => (g.enabled, g.models) := by
  rw [← List.getElem?_map, ← List.getElem?_map]
  congr 1
  simp [runtime, endpoints, groups, Function.comp_def]

/-- A group's keys are its lane specs. -/
theorem mem_poolSpecs_iff {sc : StoredConfig} {i rpm : Nat} {enabled : Bool} :
    (∃ spec ∈ sc.poolSpecs, spec.endpoint = i ∧ spec.enabled = enabled ∧ spec.rpm = rpm) ↔
      ∃ g, sc.groups[i]? = some g ∧ ∃ k ∈ g.keys, (k.enabled && g.enabled) = enabled ∧ k.rpm = rpm := by
  constructor
  · rintro ⟨spec, hspec, rfl, rfl, rfl⟩
    rcases List.mem_append.1 hspec with h | h
    · obtain ⟨k, hk, rfl⟩ := List.mem_map.1 h
      exact ⟨_, rfl, k, hk, rfl, rfl⟩
    · obtain ⟨⟨ep, i⟩, hep, h⟩ := List.mem_flatMap.1 h
      obtain ⟨k, hk, rfl⟩ := List.mem_map.1 h
      obtain ⟨hle, hget⟩ := List.mk_mem_zipIdx_iff_le_and_getElem?_sub.1 hep
      obtain ⟨j, rfl⟩ := Nat.exists_eq_add_of_le' hle
      rw [Nat.add_sub_cancel] at hget
      exact ⟨⟨ep.enabled, ep.models, ep.keys⟩, by simp [groups, hget], k, hk, rfl, rfl⟩
  · rintro ⟨g, hg, k, hk, rfl, rfl⟩
    cases i with
    | zero =>
      cases hg
      obtain ⟨spec, hspec, -, hrpm, hend, hen⟩ := mem_poolSpecs_upstream hk
      exact ⟨spec, hspec, hend, hen, hrpm⟩
    | succ i =>
      rw [groups, List.getElem?_cons_succ, List.getElem?_map] at hg
      obtain ⟨ep, hep, rfl⟩ := Option.map_eq_some_iff.1 hg
      obtain ⟨spec, hspec, -, hrpm, hend, hen⟩ := mem_poolSpecs_upstreams hep hk
      exact ⟨spec, hspec, hend, hen, hrpm⟩

theorem rpm_pos_of_validate {sc : StoredConfig} (h : sc.validate = .ok ()) {g : Group} (hg : g ∈ sc.groups)
    {k : NimKey} (hk : k ∈ g.keys) : 1 ≤ k.rpm := by
  rcases List.mem_cons.1 hg with rfl | hg
  · have hgk : (primaryUpstream, k) ∈ sc.groupKeys := List.mem_append_left _ (List.mem_map_of_mem hk)
    exact rpm_of_validate h hgk
  · obtain ⟨ep, hep, rfl⟩ := List.mem_map.1 hg
    exact rpm_of_validate h (List.mem_append_right _ (List.mem_flatMap.2 ⟨ep, hep, List.mem_map_of_mem hk⟩))

end StoredConfig

namespace Config

theorem mem_positions {cfg : Config} {p : List String → Bool} {i : Nat} :
    i ∈ cfg.positions p ↔ ∃ ep, cfg.endpoints[i]? = some ep ∧ (ep.enabled && p ep.models) = true := by
  simp only [positions, List.mem_map, List.mem_filter, Prod.exists, List.mk_mem_zipIdx_iff_getElem?]
  constructor
  · rintro ⟨ep, j, ⟨hget, hok⟩, rfl⟩
    exact ⟨ep, hget, hok⟩
  · rintro ⟨ep, hget, hok⟩
    exact ⟨ep, i, ⟨hget, hok⟩, rfl⟩

end Config

namespace StoredConfig

theorem mem_positions_runtime {sc : StoredConfig} {p : List String → Bool} {i : Nat} :
    i ∈ sc.runtime.positions p ↔ ∃ g, sc.groups[i]? = some g ∧ (g.enabled && p g.models) = true := by
  have he := sc.runtime_endpoints_getElem? i
  rw [Config.mem_positions]
  constructor
  · rintro ⟨ep, hget, hok⟩
    rw [hget] at he
    obtain ⟨g, hg, heq⟩ := Option.map_eq_some_iff.1 he.symm
    obtain ⟨h₁, h₂⟩ := Prod.mk.inj heq
    exact ⟨g, hg, by rw [h₁, h₂]; exact hok⟩
  · rintro ⟨g, hg, hok⟩
    rw [hg] at he
    obtain ⟨ep, hep, heq⟩ := Option.map_eq_some_iff.1 he
    obtain ⟨h₁, h₂⟩ := Prod.mk.inj heq
    exact ⟨ep, hep, by rw [h₁, h₂]; exact hok⟩

/-- The positions routing answers with are those of the groups that serve the model. -/
theorem exists_mem_route {sc : StoredConfig} {model : String} {route : List Nat} {p : Group → Prop}
    (hroute : sc.runtime.routeModel model = some route) :
    (∃ i ∈ route, ∃ g, sc.groups[i]? = some g ∧ p g) ↔ ∃ g ∈ sc.serving model, p g := by
  have hpos : ∀ q : List String → Bool, (∃ i ∈ sc.runtime.positions q, ∃ g, sc.groups[i]? = some g ∧ p g) ↔
      ∃ g ∈ sc.groups.filter (fun g => g.enabled && q g.models), p g := by
    intro q
    constructor
    · rintro ⟨i, hi, g, hg, hp⟩
      obtain ⟨g', hg', hok⟩ := mem_positions_runtime.1 hi
      obtain rfl : g = g' := Option.some.inj (hg.symm.trans hg')
      exact ⟨g, List.mem_filter.2 ⟨List.mem_of_getElem? hg, hok⟩, hp⟩
    · rintro ⟨g, hg, hp⟩
      obtain ⟨hmem, hok⟩ := List.mem_filter.1 hg
      obtain ⟨i, hi⟩ := List.mem_iff_getElem?.1 hmem
      exact ⟨i, mem_positions_runtime.2 ⟨g, hi, hok⟩, g, hi, hp⟩
  have hempty : ∀ q : List String → Bool, sc.runtime.positions q = [] ↔
      sc.groups.filter (fun g => g.enabled && q g.models) = [] := by
    intro q
    rw [List.eq_nil_iff_forall_not_mem, List.filter_eq_nil_iff]
    constructor
    · intro h g hg hok
      obtain ⟨i, hi⟩ := List.mem_iff_getElem?.1 hg
      exact h i (mem_positions_runtime.2 ⟨g, hi, hok⟩)
    · intro h i hi
      obtain ⟨g, hg, hok⟩ := mem_positions_runtime.1 hi
      exact h g (List.mem_of_getElem? hg) hok
  have hlist : (fun g : Group => g.enabled && (g.models != [] && g.models.contains model)) =
      fun g => g.enabled && g.models.contains model := by
    funext g
    cases g.models <;> rfl
  have hspec := hempty fun models => models != [] && models.contains model
  have hmem := hpos fun models => models != [] && models.contains model
  rw [hlist] at hspec hmem
  unfold Config.routeModel at hroute
  split at hroute
  · cases hroute
  · dsimp only at hroute
    unfold serving
    split at hroute
    · rename_i hnone
      cases hroute
      rw [if_pos (hspec.1 hnone)]
      exact hpos _
    · rename_i hsome
      cases hroute
      rw [if_neg fun h => hsome (hspec.2 h)]
      exact hmem

end StoredConfig

namespace Pool

/-- An enabled spec has an active lane. -/
theorem Fits.exists_lane {specs : List LaneSpec} {p : Pool} (h : Fits specs p) {s : LaneSpec} (hs : s ∈ specs)
    (hen : s.enabled = true) : ∃ i l, i < p.active ∧ p.lanes[i]? = some l ∧ l.bare = s.bare := by
  obtain ⟨i, hi⟩ := List.mem_iff_getElem?.1 ((perm_enabledFirst specs).mem_iff.2 hs)
  have hlt := enabled_enabledFirst hi
  rw [hen, ← h.active_eq] at hlt
  have hb := congrArg (·[i]?) h.bare_eq
  simp only [List.getElem?_map, hi, Option.map_some] at hb
  obtain ⟨l, hl, hbare⟩ := Option.map_eq_some_iff.1 hb
  exact ⟨i, l, by simpa using hlt.symm, hl, hbare⟩

/-- Some active lane is visible through the filter. -/
def HasLane (p : Pool) (allowed : Option (List Nat)) : Prop :=
  ∃ i l, i < p.active ∧ p.lanes[i]? = some l ∧ allows allowed l.endpoint = true

/-- Whether `reserve_filtered` ends where no allowed lane exists: the preferred lane did not grant, and the scan
saw no lane. -/
def noLane (p : Pool) (prefer : Option Nat) (allowed : Option (List Nat)) (now : Nat) : Bool :=
  let usable := prefer.filter fun i =>
    decide (i < p.active) && (p.lanes[i]?.any fun l => allows allowed l.endpoint)
  match usable.elim (none, p) (p.tryTake · now true) with
  | (some _, _) => false
  | (none, p') =>
    let sc := p'.scan allowed now
    match takeFirst now (sc.ready.insertionSort LoadLe) sc.pool with
    | (some _, _) => false
    | (none, _) => !sc.any

theorem Ages.hasLane {now : Nat} {p p' : Pool} (h : Ages now p p') {allowed : Option (List Nat)} :
    p.HasLane allowed ↔ p'.HasLane allowed := by
  constructor
  · rintro ⟨i, l, hi, hl, hok⟩
    obtain ⟨l', hl', ha⟩ := h.lane hl
    refine ⟨i, l', h.active_eq ▸ hi, hl', ?_⟩
    rcases ha with rfl | rfl <;> exact hok
  · rintro ⟨i, l', hi, hl', hok⟩
    obtain ⟨l, hl, ha⟩ := h.lane_of hl'
    refine ⟨i, l, h.active_eq ▸ hi, hl, ?_⟩
    rcases ha with rfl | rfl <;> exact hok

/-- The scan notices exactly whether it saw a lane. -/
theorem any_scan (p : Pool) (allowed : Option (List Nat)) (now : Nat) :
    (p.scan allowed now).any = true ↔ p.HasLane allowed := by
  have hturn : ∀ n : Nat, ((List.range n).foldl (Scan.visit allowed now) ⟨p, [], window, false⟩).any = true ↔
      ∃ i l, i < n ∧ p.lanes[i]? = some l ∧ allows allowed l.endpoint = true := by
    intro n
    induction n with
    | zero => simp
    | succ n ih =>
      have hages := (scanRange_inv p allowed now n).ages
      rw [List.range_succ, List.foldl_append, List.foldl_cons, List.foldl_nil]
      generalize (List.range n).foldl (Scan.visit allowed now) ⟨p, [], window, false⟩ = sc at ih hages
      have hstep : (sc.visit allowed now n).any = true ↔
          sc.any = true ∨ ∃ l, p.lanes[n]? = some l ∧ allows allowed l.endpoint = true := by
        unfold Scan.visit
        cases hl : p.lanes[n]? with
        | none =>
          have hnone : sc.pool.lanes[n]? = none := by
            rw [List.getElem?_eq_none_iff] at hl ⊢
            rw [hages.length_eq]
            exact hl
          simp [hnone]
        | some l =>
          obtain ⟨l', hl', ha⟩ := hages.lane hl
          have hend : l'.endpoint = l.endpoint := by rcases ha with rfl | rfl <;> rfl
          rw [hl']
          dsimp only
          rw [hend]
          by_cases hok : allows allowed l.endpoint = true
          · rw [if_pos hok]
            simp only [Option.some.injEq, exists_eq_left', hok, or_true, iff_true]
            split <;> rfl
          · rw [if_neg hok]
            simp [hok]
      rw [hstep, ih]
      constructor
      · rintro (⟨i, l, hi, hl, hok⟩ | ⟨l, hl, hok⟩)
        · exact ⟨i, l, by omega, hl, hok⟩
        · exact ⟨n, l, by omega, hl, hok⟩
      · rintro ⟨i, l, hi, hl, hok⟩
        by_cases hn : i = n
        · exact .inr ⟨l, hn ▸ hl, hok⟩
        · exact .inl ⟨i, l, by omega, hl, hok⟩
  exact hturn p.active

/-- The branch is taken exactly when no active lane is visible. -/
theorem noLane_iff {p : Pool} {prefer : Option Nat} {allowed : Option (List Nat)} {now : Nat} :
    p.noLane prefer allowed now = true ↔ ¬ p.HasLane allowed := by
  constructor
  · intro h hlane
    unfold noLane at h
    dsimp only at h
    split at h
    · cases h
    · rename_i p' hpref
      have hages : Ages now p p' := by
        cases hp : prefer.filter fun i =>
            decide (i < p.active) && (p.lanes[i]?.any fun l => allows allowed l.endpoint) with
        | none => rw [hp] at hpref; cases hpref; exact .refl p
        | some i => rw [hp] at hpref; exact tryTake_none hpref
      split at h
      · cases h
      · rw [(any_scan p' allowed now).2 (hages.hasLane.1 hlane)] at h
        cases h
  · intro hno
    have hpref : (prefer.filter fun i =>
        decide (i < p.active) && (p.lanes[i]?.any fun l => allows allowed l.endpoint)) = none := by
      rw [Option.filter_eq_none_iff]
      intro i _ hok
      simp only [Bool.and_eq_true, decide_eq_true_eq, Option.any_eq_true] at hok
      obtain ⟨hi, l, hl, hok⟩ := hok
      exact hno ⟨i, l, hi, hl, hok⟩
    have hany : (p.scan allowed now).any = false := by
      rw [Bool.eq_false_iff]
      exact fun h => hno ((any_scan p allowed now).1 h)
    have hready : (p.scan allowed now).ready = [] := by
      rw [List.eq_nil_iff_forall_not_mem]
      intro a ha
      obtain ⟨hlt, l, hl, hok⟩ := (scan_inv p allowed now).ready a ha
      exact hno ⟨a.2, l, hlt, hl, hok⟩
    simp only [noLane, hpref, Option.elim_none, hready, List.insertionSort_nil, takeFirst, hany, Bool.not_false]

end Pool

theorem StoredConfig.enabled_of_mem_serving {sc : StoredConfig} {model : String} {g : Group}
    (h : g ∈ sc.serving model) : g.enabled = true := by
  unfold serving at h
  dsimp only at h
  split at h <;> exact (Bool.and_eq_true_iff.1 (List.mem_filter.1 h).2).1

/-- The pool of a configuration has a lane for a routed model exactly when a serving group has an enabled key. -/
theorem StoredConfig.hasLane_iff_keyed {sc : StoredConfig} {model : String} {route : List Nat} {p : Pool}
    (hroute : sc.runtime.routeModel model = some route) (hp : Pool.Fits sc.poolSpecs p) :
    p.HasLane (some route) ↔ sc.Keyed model := by
  have henabled : sc.Keyed model ↔ ∃ g ∈ sc.serving model, g.enabled = true ∧ ∃ k ∈ g.keys, k.enabled = true :=
    ⟨fun ⟨g, hg, hk⟩ => ⟨g, hg, enabled_of_mem_serving hg, hk⟩, fun ⟨g, hg, _, hk⟩ => ⟨g, hg, hk⟩⟩
  rw [henabled, ← exists_mem_route hroute]
  constructor
  · rintro ⟨i, l, hi, hl, hok⟩
    obtain ⟨spec, hspec, hen, hbare⟩ := hp.exists_spec hi hl
    have hend : spec.endpoint = l.endpoint := congrArg Lane.endpoint hbare
    obtain ⟨g, hg, k, hk, hboth, -⟩ := mem_poolSpecs_iff.1 ⟨spec, hspec, hend, hen, rfl⟩
    obtain ⟨hkey, hgroup⟩ := Bool.and_eq_true_iff.1 hboth
    exact ⟨l.endpoint, by simpa [allows] using hok, g, hg, hgroup, k, hk, hkey⟩
  · rintro ⟨i, hi, g, hg, hgroup, k, hk, hen⟩
    obtain ⟨spec, hspec, hend, hspecen, -⟩ := mem_poolSpecs_iff.2 ⟨g, hg, k, hk, by rw [hen, hgroup], rfl⟩
    obtain ⟨j, l, hj, hl, hbare⟩ := hp.exists_lane hspec hspecen
    have : l.endpoint = i := (congrArg Lane.endpoint hbare).trans hend
    exact ⟨j, l, hj, hl, by simp [allows, this, hi]⟩

namespace Routing

open Transition Settings

/-- What every run of requests and saves keeps, groups taken out or not. -/
structure Queued (s : State) : Prop where
  fits : Pool.Fits s.store.poolSpecs s.disp.pools.pool
  owner_length : s.owner.length = s.disp.calls.length
  waiter : ∀ w ∈ s.disp.waiters, ∃ r req, s.owner[w.reply]? = some r ∧ s.requests[r]? = some req ∧
    w.allowed = some req.route
  routed : ∀ req ∈ s.requests, req.cfg.routeModel req.model = some req.route

theorem start_queued (sc : StoredConfig) (now : Nat) : Queued (start sc now) :=
  ⟨.assemble .., rfl, fun w hw => (by cases hw), fun r hr => (by cases hr)⟩

namespace Queued
variable {s : State}

theorem disp (h : Queued s) {disp : Dispatch.State} (hp : Pool.SameLanes s.disp.pools.pool disp.pools.pool)
    (hlen : disp.calls.length = s.disp.calls.length) (hw : ∀ w ∈ disp.waiters, w ∈ s.disp.waiters)
    (granted : List Granted) : Queued { s with disp := disp, granted := granted } :=
  ⟨h.fits.sameLanes hp, h.owner_length.trans hlen.symm, fun w hw' => h.waiter w (hw w hw'), h.routed⟩

theorem arrive (h : Queued s) {model : String} {route : List Nat} (hroute : s.cfg.routeModel model = some route) :
    Queued { s with requests := s.requests ++ [⟨model, s.cfg, route, true⟩] } := by
  refine ⟨h.fits, h.owner_length, fun w hw => ?_, fun req hreq => ?_⟩
  · obtain ⟨r, req, ho, hr, ha⟩ := h.waiter w hw
    exact ⟨r, req, ho, by rw [List.getElem?_append_left (List.getElem?_eq_some_iff.1 hr).1, hr], ha⟩
  · rcases List.mem_append.1 hreq with hreq | hreq
    · exact h.routed req hreq
    · rw [List.mem_singleton.1 hreq]
      exact hroute

theorem join (h : Queued s) {r deadline : Nat} {prefer : Option Nat} {req : Request}
    (hr : s.requests[r]? = some req) :
    Queued { s with
      disp := Dispatch.acquireFiltered s.disp deadline prefer (some req.route)
      owner := s.owner ++ [r] } := by
  refine ⟨h.fits, by simp [Dispatch.acquireFiltered, h.owner_length], fun w hw => ?_, h.routed⟩
  have hw : w ∈ s.disp.waiters ∨ w = ⟨s.disp.calls.length, deadline, prefer, some req.route⟩ := by
    simpa [Dispatch.acquireFiltered, Dispatch.State.waiters, or_assoc] using hw
  rcases hw with hw | rfl
  · obtain ⟨r', req', ho, hr', ha⟩ := h.waiter w hw
    exact ⟨r', req', by rw [List.getElem?_append_left (List.getElem?_eq_some_iff.1 ho).1, ho], hr', ha⟩
  · exact ⟨r, req, by rw [← h.owner_length, List.getElem?_concat_length], hr, rfl⟩

theorem finish (h : Queued s) {r : Nat} {req : Request} (hr : s.requests[r]? = some req) :
    Queued { s with requests := s.requests.set r { req with live := false } } := by
  refine ⟨h.fits, h.owner_length, fun w hw => ?_, fun req' hreq' => ?_⟩
  · obtain ⟨r', req', ho, hr', ha⟩ := h.waiter w hw
    obtain ⟨done, hdone, hroute⟩ := route_finished hr hr'
    exact ⟨r', done, ho, hdone, by rw [ha, hroute]⟩
  · rcases List.mem_or_eq_of_mem_set hreq' with hmem | rfl
    · exact h.routed req' hmem
    · exact h.routed req (List.mem_of_getElem? hr)

end Queued

theorem step_queued {fingerprint : String → String} {s s' : State} {op : Op} (h : Queued s)
    (hs : step fingerprint s op = some s') : Queued s' := by
  cases op with
  | arrive model =>
    simp only [step] at hs
    split at hs
    · cases hs; exact h
    · cases hs; exact h
    · rename_i route _ hroute
      cases hs
      exact h.arrive hroute
  | join r deadline prefer =>
    simp only [step] at hs
    split at hs
    · rename_i req hr
      split at hs
      · cases hs
        exact h.join hr
      · cases hs
    · cases hs
  | reserve now later =>
    obtain ⟨disp, hdisp, hs⟩ := Option.bind_eq_some_iff.1 hs
    cases hs
    obtain ⟨hlen, hw⟩ := Dispatch.step_waiters (fun _ _ _ => by simp) hdisp
    exact h.disp (Dispatch.step_sameLanes hdisp) hlen hw _
  | dispatch op =>
    simp only [step] at hs
    split at hs
    · cases hs
    · cases hs
    · rename_i hacq _
      obtain ⟨disp, hdisp, rfl⟩ := Option.map_eq_some_iff.1 hs
      obtain ⟨hlen, hw⟩ := Dispatch.step_waiters hacq hdisp
      exact h.disp (Dispatch.step_sameLanes hdisp) hlen hw _
  | finish r =>
    simp only [step] at hs
    split at hs
    · rename_i req hr
      cases hs
      exact h.finish hr
    · cases hs
  | swapCfg username req =>
    simp only [step] at hs
    split at hs
    · split at hs
      · cases hs
        exact ⟨h.fits, h.owner_length, h.waiter, h.routed⟩
      · cases hs
    · cases hs
  | swapPool now =>
    simp only [step] at hs
    split at hs
    · obtain ⟨pools, hp, hs⟩ := Option.bind_eq_some_iff.1 hs
      cases hs
      refine ⟨?_, h.owner_length, h.waiter, h.routed⟩
      simp only [PoolWindow.step] at hp
      split at hp
      · cases hp; exact .assemble ..
      · cases hp
    · cases hs

/-- A request for `model`, which the configuration routes to `route`, always has a lane: the pool built from the
configuration has an active one there, and in no run does the dispatcher, reserving for such a request from such
a pool, end where no lane is allowed. -/
structure Laned (sc : StoredConfig) (model : String) (route : List Nat) : Prop where
  lane : ∀ now, ∃ i l, i < (Pool.new sc.poolSpecs now).active ∧ (Pool.new sc.poolSpecs now).lanes[i]? = some l ∧
    1 ≤ l.rpm ∧ l.endpoint ∈ route
  queue : ∀ {fingerprint : String → String} {sc₀ : StoredConfig} {now later : Nat} {ops : List Op} {s : State}
    {w : Dispatch.Waiter} {req : Request}, exec (step fingerprint) (start sc₀ now) ops = some s →
    s.disp.pc = .reserving w → s.requestOf w = some req → req.model = model → req.cfg = sc.runtime →
    s.store = sc → s.disp.pools.pool.noLane w.prefer w.allowed later = false

theorem rpm_pos {sc : StoredConfig} (hv : sc.validate = .ok ()) {p : Pool} (hp : Pool.Fits sc.poolSpecs p) {i : Nat}
    {l : Lane} (hi : i < p.active) (hl : p.lanes[i]? = some l) : 1 ≤ l.rpm := by
  obtain ⟨spec, hspec, -, hbare⟩ := hp.exists_spec hi hl
  obtain ⟨g, hg, k, hk, -, hrpm⟩ := StoredConfig.mem_poolSpecs_iff.1 ⟨spec, hspec, rfl, rfl, rfl⟩
  have hlane : l.rpm = spec.rpm := congrArg Lane.rpm hbare.symm
  rw [hlane, ← hrpm]
  exact StoredConfig.rpm_pos_of_validate hv (List.mem_of_getElem? hg) hk

/-- A routed request has a lane exactly when one of the groups that serve its model has an enabled key. -/
theorem laned_iff_keyed {sc : StoredConfig} {model : String} {route : List Nat} (hv : sc.validate = .ok ())
    (hroute : sc.runtime.routeModel model = some route) : Laned sc model route ↔ sc.Keyed model := by
  constructor
  · intro h
    obtain ⟨i, l, hi, hl, -, hend⟩ := h.lane 0
    exact (StoredConfig.hasLane_iff_keyed hroute (.assemble ..)).1 ⟨i, l, hi, hl, by simpa [allows] using hend⟩
  · intro h
    refine ⟨fun now => ?_, fun {fp sc₀ now later ops s w req} hrun hpc hreq hmodel hcfg hstore => ?_⟩
    · have hfits : Pool.Fits sc.poolSpecs (Pool.new sc.poolSpecs now) := .assemble ..
      obtain ⟨i, l, hi, hl, hok⟩ := (StoredConfig.hasLane_iff_keyed hroute hfits).2 h
      exact ⟨i, l, hi, hl, rpm_pos hv hfits hi hl, by simpa [allows] using hok⟩
    · have hq : Queued s := exec_invariant (fun _ _ _ hI hs => step_queued hI hs) (start_queued sc₀ now) hrun
      have hw : w ∈ s.disp.waiters := by simp [Dispatch.State.waiters, hpc, Dispatch.Pc.waiter?]
      obtain ⟨r, req', ho, hr, hallowed⟩ := hq.waiter w hw
      obtain rfl : req = req' := by
        rw [State.requestOf, ho, Option.bind_some, hr] at hreq
        exact (Option.some.inj hreq).symm
      have hrouted := hq.routed req (List.mem_of_getElem? hr)
      rw [hcfg, hmodel, hroute] at hrouted
      rw [hallowed, ← Option.some.inj hrouted, Bool.eq_false_iff]
      intro hno
      exact Pool.noLane_iff.1 hno ((StoredConfig.hasLane_iff_keyed hroute (hstore ▸ hq.fits)).2 h)

theorem laned_iff_keyed_threeGroups : Laned threeGroups "ma" [1] := by
  have hv : threeGroups.validate = .ok () := toOption_eq_some (by decide +kernel)
  have hroute : threeGroups.runtime.routeModel "ma" = some [1] := by decide +kernel
  have hkeyed : threeGroups.Keyed "ma" := by
    unfold StoredConfig.Keyed
    decide +kernel
  exact (laned_iff_keyed hv hroute).2 hkeyed

/-- A group that lists a model of its own and has no key yet. -/
def spareGroup : StoredConfig where
  upstream := { nimKeys := [⟨"k0", "root", true, 40⟩] }
  upstreams := [⟨"spare", "https://spare", true, [], ["m"], true⟩]
  users := [⟨"root", "hash", .superuser, none⟩]

theorem not_laned_spareGroup : ¬ ∀ (sc : StoredConfig) (model : String) (route : List Nat), sc.validate = .ok () →
    sc.superuser.isSome = true → sc.runtime.routeModel model = some route → route ≠ [] → Laned sc model route := by
  intro h
  have hroute : spareGroup.runtime.routeModel "m" = some [1] := by decide +kernel
  have hvalid : spareGroup.validate = .ok () := toOption_eq_some (by decide +kernel)
  obtain ⟨i, l, hi, hl, -, hend⟩ := (h spareGroup "m" [1] hvalid rfl hroute (by simp)).lane 0
  have hkeyed := (StoredConfig.hasLane_iff_keyed hroute (.assemble ..)).1 ⟨i, l, hi, hl, by simpa [allows] using hend⟩
  have hno : ¬ spareGroup.Keyed "m" := by
    unfold StoredConfig.Keyed
    decide +kernel
  exact hno hkeyed

end Routing

end OpenProxy
