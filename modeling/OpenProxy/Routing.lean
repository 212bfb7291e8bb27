import OpenProxy.Dispatch
import OpenProxy.Settings

/-!
# Routing across settings saves (`handle` of `proxy.rs`, `commit` of `settings.rs`)

A request snapshots the configuration, routes its model to positions of upstream groups, and joins the
dispatcher's queue with them, again at every retry. `commit` swaps the configuration first and the pool
after it; both number the groups by position. So the positions a request carries name the groups it was
routed to only as long as no save moves a group: removing one moves all that follow.
-/

namespace OpenProxy

namespace Config

def names (cfg : Config) : List String := cfg.endpoints.map (·.name)

/-- `upstream` is the name of a group that `routeModel` lists for `model`. -/
def serves (cfg : Config) (model upstream : String) : Bool :=
  match cfg.routeModel model with
  | none => false
  | some route => route.any fun i => cfg.names[i]? == some upstream

end Config

namespace Routing

open Transition Settings

structure Request where
  model : String
  /-- The snapshot the request was routed with. -/
  cfg : Config
  route : List Nat
  /-- Not over: it may join the queue (again). -/
  live : Bool

/-- A grant, with the configuration live when it was made. -/
structure Granted where
  model : String
  routedWith : Config
  liveAt : Config
  slot : Slot

structure State where
  disp : Dispatch.State
  cfg : Config
  store : StoredConfig
  /-- A commit between its two swaps: the candidate, and the position of the group it takes out. -/
  saving : Option (StoredConfig × Option Nat)
  requests : List Request
  /-- The request of each call. -/
  owner : List Nat
  granted : List Granted

inductive Op where
  | arrive (model : String)
  | join (r deadline : Nat) (prefer : Option Nat)
  | reserve (now later : Nat)
  /-- Any other step of the dispatcher or of a waiting call. -/
  | dispatch (op : Dispatch.Op)
  | finish (r : Nat)
  /-- A handler takes the store lock, its candidate passes validation and is saved, and the configuration
  is swapped. -/
  | swapCfg (username : String) (req : Req)
  | swapPool (now : Nat)

def start (sc : StoredConfig) (now : Nat) : State :=
  ⟨Dispatch.start sc.poolSpecs now, sc.runtime, sc, none, [], [], []⟩

/-- The request a waiter stands for. -/
def State.requestOf (s : State) (w : Dispatch.Waiter) : Option Request :=
  (s.owner[w.reply]?).bind (s.requests[·]?)

/-- What a reserve that ends with a slot in the dispatcher's hand granted. -/
def State.newGrant (s : State) : Dispatch.Pc → Option Granted
  | .holding w _ slot => (s.requestOf w).map fun req => ⟨req.model, req.cfg, s.cfg, slot⟩
  | _ => none

def step (fingerprint : String → String) (s : State) : Op → Option State
  | .arrive model =>
    match s.cfg.routeModel model with
    | none | some [] => some s
    | some route => some { s with requests := s.requests ++ [⟨model, s.cfg, route, true⟩] }
  | .join r deadline prefer =>
    match s.requests[r]? with
    | some req =>
      if req.live then
        some { s with
          disp := Dispatch.acquireFiltered s.disp deadline prefer (some req.route)
          owner := s.owner ++ [r] }
      else none
    | none => none
  | .reserve now later => do
    let disp ← Dispatch.step s.disp (.reserve now later)
    return { s with disp := disp, granted := s.granted ++ (s.newGrant disp.pc).toList }
  | .dispatch op =>
    match op with
    | .acquire _ _ _ | .reserve _ _ => none
    | op => (Dispatch.step s.disp op).map fun disp => { s with disp := disp }
  | .finish r =>
    match s.requests[r]? with
    | some req => some { s with requests := s.requests.set r { req with live := false } }
    | none => none
  | .swapCfg username req =>
    match s.saving, candidate fingerprint s.store username req with
    | none, .ok cand =>
      match cand.validate with
      | .ok _ => some { s with cfg := cand.runtime, saving := some (cand, removedAt s.store req) }
      | .error _ => none
    | _, _ => none
  | .swapPool now =>
    match s.saving with
    | some (cand, _) => do
      let pools ← PoolWindow.step s.disp.pools (.rebuild cand.poolSpecs now)
      return { s with disp := { s.disp with pools := pools }, store := cand, saving := none }
    | none => none

/-! ### The condition and the property -/

/-- The request may still be granted a slot: it is live, or a waiter of it is queued. -/
def State.pending (s : State) (r : Nat) : Bool :=
  (s.requests[r]?).any (·.live) || s.disp.waiters.any fun w => s.owner[w.reply]? == some r

/-- Every pending request is routed to positions before `p` only. -/
def State.clear (s : State) (p : Nat) : Bool :=
  s.requests.zipIdx.all fun (req, r) => !s.pending r || req.route.all (· < p)

/-- A group is taken out only when no pending request is routed to it or to a group after it, and no
request is routed to one of these positions between the two swaps. -/
def State.unshifted (s : State) : Op → Bool
  | .swapCfg _ req => (removedAt s.store req).all s.clear
  | .arrive model => (s.saving.bind (·.2)).all fun p => ((s.cfg.routeModel model).getD []).all (· < p)
  | _ => true

def Unshifted (s : State) (op : Op) : Prop := s.unshifted op = true

instance (s : State) (op : Op) : Decidable (Unshifted s op) :=
  inferInstanceAs (Decidable (s.unshifted op = true))

/-- The granted lane's group serves the request's model, under the configuration it was routed with or the
one live at the grant. -/
def Granted.Right (g : Granted) : Prop :=
  g.routedWith.serves g.model g.slot.upstream = true ∨ g.liveAt.serves g.model g.slot.upstream = true

/-! ### The invariant -/

/-- The positions `req` carries name the same groups in `cfg` as in the configuration it was routed with,
and those of them the pool of `store` knows name the same groups there. -/
structure Kept (cfg : Config) (store : StoredConfig) (req : Request) : Prop where
  live : ∀ i ∈ req.route, ∃ name, cfg.names[i]? = some name ∧ req.cfg.names[i]? = some name
  pool : ∀ i ∈ req.route, ∀ {name : String}, store.groupNames[i]? = some name → req.cfg.names[i]? = some name

structure Inv (s : State) : Prop where
  fits : Pool.Fits s.store.poolSpecs s.disp.pools.pool
  cfg : s.cfg = ((s.saving.map (·.1)).getD s.store).runtime
  edit : ∀ {cand : StoredConfig} {rem : Option Nat}, s.saving = some (cand, rem) →
    cand.validate = .ok () ∧ GroupEdit s.store.groupNames rem cand.groupNames
  owner_length : s.owner.length = s.disp.calls.length
  waiter : ∀ w ∈ s.disp.waiters, ∃ r req, s.owner[w.reply]? = some r ∧ s.requests[r]? = some req ∧
    w.allowed = some req.route
  routed : ∀ req ∈ s.requests, req.cfg.routeModel req.model = some req.route
  kept : ∀ {r : Nat} {req : Request}, s.requests[r]? = some req → s.pending r = true →
    Kept s.cfg s.store req
  granted : ∀ g ∈ s.granted, g.Right

theorem names_runtime (sc : StoredConfig) : sc.runtime.names = sc.groupNames := sc.runtime_names

theorem start_inv (sc : StoredConfig) (now : Nat) : Inv (start sc now) := by
  refine ⟨.assemble .., rfl, fun h => ?_, rfl, fun w hw => ?_, fun r hr => ?_, fun hr => ?_, fun g hg => ?_⟩
  · cases h
  · cases hw
  · cases hr
  · cases hr
  · cases hg

/-- A request that ends leaves every request its route. -/
theorem route_finished {requests : List Request} {r r' : Nat} {req req' : Request} (hr : requests[r]? = some req)
    (hr' : requests[r']? = some req') :
    ∃ done, (requests.set r { req with live := false })[r']? = some done ∧ done.route = req'.route := by
  by_cases hne : r = r'
  · subst hne
    obtain rfl : req = req' := Option.some.inj (hr.symm.trans hr')
    exact ⟨_, List.getElem?_set_self (List.getElem?_eq_some_iff.1 hr).1, rfl⟩
  · exact ⟨req', by rw [List.getElem?_set_ne hne, hr'], rfl⟩

namespace Inv
variable {s : State}

/-- A step of the dispatcher that only takes waiters away. -/
theorem disp (h : Inv s) {disp : Dispatch.State} (hp : Pool.SameLanes s.disp.pools.pool disp.pools.pool)
    (hlen : disp.calls.length = s.disp.calls.length) (hw : ∀ w ∈ disp.waiters, w ∈ s.disp.waiters)
    {granted : List Granted} (hg : ∀ g ∈ granted, g.Right) :
    Inv { s with disp := disp, granted := granted } := by
  refine ⟨h.fits.sameLanes hp, h.cfg, h.edit, h.owner_length.trans hlen.symm,
    fun w hw' => h.waiter w (hw w hw'), h.routed, fun {r req} hr hpend => h.kept hr ?_, hg⟩
  simp only [State.pending, Bool.or_eq_true, List.any_eq_true] at hpend ⊢
  exact hpend.imp_right fun ⟨w, hw', ho⟩ => ⟨w, hw w hw', ho⟩

/-- The group of a lane that a waiter can be granted is one its request was routed to. -/
theorem serves (h : Inv s) {w : Dispatch.Waiter} (hw : w ∈ s.disp.waiters) {req : Request}
    (hreq : s.requestOf w = some req) {i : Nat} {l : Lane} (hi : i < s.disp.pools.pool.active)
    (hl : s.disp.pools.pool.lanes[i]? = some l) (hallow : allows w.allowed l.endpoint = true) :
    req.cfg.serves req.model l.upstream = true := by
  obtain ⟨r, req', ho, hr, hallowed⟩ := h.waiter w hw
  obtain rfl : req = req' := by
    rw [State.requestOf, ho, Option.bind_some, hr] at hreq
    exact (Option.some.inj hreq).symm
  have hpend : s.pending r = true := by
    simp only [State.pending, Bool.or_eq_true, List.any_eq_true]
    exact .inr ⟨w, hw, by simp [ho]⟩
  obtain ⟨spec, hspec, -, hbare⟩ := h.fits.exists_spec hi hl
  have hend : spec.endpoint = l.endpoint := congrArg Lane.endpoint hbare
  have hup : spec.upstream = l.upstream := congrArg Lane.upstream hbare
  have hname := StoredConfig.groupNames_of_mem_poolSpecs hspec
  rw [hend, hup] at hname
  have hmem : l.endpoint ∈ req.route := by
    rw [hallowed] at hallow
    simpa [allows] using hallow
  have hnamed := (h.kept hr hpend).pool _ hmem hname
  rw [Config.serves, h.routed req (List.mem_of_getElem? hr)]
  exact List.any_eq_true.2 ⟨_, hmem, by simp [hnamed]⟩

theorem reserve (h : Inv s) {now later : Nat} {disp : Dispatch.State}
    (hs : Dispatch.step s.disp (.reserve now later) = some disp) :
    Inv { s with disp := disp, granted := s.granted ++ (s.newGrant disp.pc).toList } := by
  obtain ⟨hlen, hw⟩ := Dispatch.step_waiters (fun _ _ _ => by nofun) hs
  refine h.disp (Dispatch.step_sameLanes hs) hlen hw fun g hg => ?_
  rcases List.mem_append.1 hg with hg | hg
  · exact h.granted g hg
  · rw [Option.mem_toList] at hg
    unfold State.newGrant at hg
    split at hg
    · rename_i w n slot hpc
      obtain ⟨req, hreq, rfl⟩ := Option.map_eq_some_iff.1 hg
      obtain ⟨hwait, i, l, hi, hl, hallow, hup, -⟩ := Dispatch.reserve_holding hs hpc
      refine .inl ?_
      rw [hup]
      exact h.serves hwait hreq hi hl hallow
    · cases hg

theorem finish (h : Inv s) {r : Nat} {req : Request} (hr : s.requests[r]? = some req) :
    Inv { s with requests := s.requests.set r { req with live := false } } := by
  have hget : ∀ {r' : Nat} {req' : Request},
      (s.requests.set r { req with live := false })[r']? = some req' →
      ∃ old, s.requests[r']? = some old ∧ req'.model = old.model ∧ req'.cfg = old.cfg ∧
        req'.route = old.route ∧ (req'.live = true → old.live = true) := by
    intro r' req' hr'
    by_cases hne : r = r'
    · subst hne
      rw [List.getElem?_set_self (List.getElem?_eq_some_iff.1 hr).1] at hr'
      cases hr'
      exact ⟨req, hr, rfl, rfl, rfl, nofun⟩
    · rw [List.getElem?_set_ne hne] at hr'
      exact ⟨req', hr', rfl, rfl, rfl, id⟩
  refine ⟨h.fits, h.cfg, h.edit, h.owner_length, fun w hw => ?_, fun req' hreq' => ?_,
    fun {r' req'} hr' hpend => ?_, h.granted⟩
  · obtain ⟨r', req', ho, hr', ha⟩ := h.waiter w hw
    obtain ⟨done, hdone, hroute⟩ := route_finished hr hr'
    exact ⟨r', done, ho, hdone, by rw [ha, hroute]⟩
  · obtain ⟨r', hr'⟩ := List.mem_iff_getElem?.1 hreq'
    obtain ⟨old, hold, hm, hc, hroute, -⟩ := hget hr'
    rw [hm, hc, hroute]
    exact h.routed old (List.mem_of_getElem? hold)
  · obtain ⟨old, hold, -, hc, hroute, hlive⟩ := hget hr'
    have hk := h.kept hold (by
      simp only [State.pending, Bool.or_eq_true, Option.any_eq_true] at hpend ⊢
      refine hpend.imp_left fun ⟨x, hx, hlx⟩ => ⟨old, hold, hlive ?_⟩
      obtain rfl : req' = x := Option.some.inj (hr'.symm.trans hx)
      exact hlx)
    exact ⟨fun i hi => by rw [hc]; exact hk.live i (hroute ▸ hi),
      fun i hi {name} hn => by rw [hc]; exact hk.pool i (hroute ▸ hi) hn⟩

theorem join (h : Inv s) {r deadline : Nat} {prefer : Option Nat} {req : Request}
    (hr : s.requests[r]? = some req) (hlive : req.live = true) :
    Inv { s with
      disp := Dispatch.acquireFiltered s.disp deadline prefer (some req.route)
      owner := s.owner ++ [r] } := by
  have hold : ∀ {n r' : Nat}, s.owner[n]? = some r' → (s.owner ++ [r])[n]? = some r' := fun ho => by
    rw [List.getElem?_append_left (List.getElem?_eq_some_iff.1 ho).1, ho]
  have hwaiters : ∀ w, w ∈ (Dispatch.acquireFiltered s.disp deadline prefer (some req.route)).waiters ↔
      w ∈ s.disp.waiters ∨ w = ⟨s.disp.calls.length, deadline, prefer, some req.route⟩ := fun w => by
    simp [Dispatch.acquireFiltered, Dispatch.State.waiters, or_assoc]
  have hnew : (s.owner ++ [r])[s.disp.calls.length]? = some r := by
    rw [← h.owner_length, List.getElem?_concat_length]
  refine ⟨h.fits, h.cfg, h.edit, ?_, fun w hw => ?_, h.routed, fun {r' req'} hr' hpend => h.kept hr' ?_,
    h.granted⟩
  · simp [Dispatch.acquireFiltered, h.owner_length]
  · rcases (hwaiters w).1 hw with hw | rfl
    · obtain ⟨r', req', ho, hr', ha⟩ := h.waiter w hw
      exact ⟨r', req', hold ho, hr', ha⟩
    · exact ⟨r, req, hnew, hr, rfl⟩
  · simp only [State.pending, Bool.or_eq_true, List.any_eq_true, beq_iff_eq, Option.any_eq_true] at hpend ⊢
    rcases hpend with hl | ⟨w, hw, ho⟩
    · exact .inl hl
    · rcases (hwaiters w).1 hw with hw | rfl
      · obtain ⟨r'', _, ho', -, -⟩ := h.waiter w hw
        rw [hold ho', Option.some.injEq] at ho
        exact .inr ⟨w, hw, ho ▸ ho'⟩
      · rw [hnew, Option.some.injEq] at ho
        exact .inl ⟨req, ho ▸ hr, hlive⟩

theorem arrive (h : Inv s) {model : String} {route : List Nat} (hroute : s.cfg.routeModel model = some route)
    (hC : Unshifted s (.arrive model)) :
    Inv { s with requests := s.requests ++ [⟨model, s.cfg, route, true⟩] } := by
  have hold : ∀ {r : Nat} {req : Request}, s.requests[r]? = some req →
      (s.requests ++ [(⟨model, s.cfg, route, true⟩ : Request)])[r]? = some req := fun hr => by
    rw [List.getElem?_append_left (List.getElem?_eq_some_iff.1 hr).1, hr]
  refine ⟨h.fits, h.cfg, h.edit, h.owner_length, fun w hw => ?_, fun req hreq => ?_,
    fun {r req} hr hpend => ?_, h.granted⟩
  · obtain ⟨r, req, ho, hr, ha⟩ := h.waiter w hw
    exact ⟨r, req, ho, hold hr, ha⟩
  · rcases List.mem_append.1 hreq with hreq | hreq
    · exact h.routed req hreq
    · rw [List.mem_singleton.1 hreq]; exact hroute
  · rcases Nat.lt_or_ge r s.requests.length with hlt | hge
    · have hr' : s.requests[r]? = some req := by rwa [List.getElem?_append_left hlt] at hr
      refine h.kept hr' ?_
      simp only [State.pending, Bool.or_eq_true, Option.any_eq_true] at hpend ⊢
      refine hpend.imp_left fun ⟨x, hx, hl⟩ => ⟨x, ?_, hl⟩
      rwa [List.getElem?_append_left hlt] at hx
    · have hreq : req = ⟨model, s.cfg, route, true⟩ := by
        rw [List.getElem?_append_right hge] at hr
        obtain ⟨hlt, hget⟩ := List.getElem?_eq_some_iff.1 hr
        rw [← hget]
        simp
      subst hreq
      refine ⟨fun i hi => ?_, fun i hi {name} hn => ?_⟩
      · have hlt := Config.lt_of_mem_routeModel hroute hi
        have hlt' : i < s.cfg.names.length := by rw [Config.names, List.length_map]; exact hlt
        exact ⟨_, List.getElem?_eq_getElem hlt', List.getElem?_eq_getElem hlt'⟩
      · -- between the two swaps the pool still has the positions of the old list
        show s.cfg.names[i]? = some name
        rw [h.cfg, names_runtime]
        cases hsav : s.saving with
        | none => exact hn
        | some x =>
          obtain ⟨cand, rem⟩ := x
          refine (h.edit hsav).2.getElem? (fun p hp => ?_) hn
          subst hp
          simp only [Unshifted, State.unshifted, hsav, hroute, Option.bind_some, Option.all_some,
            Option.getD_some, List.all_eq_true, decide_eq_true_eq] at hC
          exact hC i hi

theorem swapCfg (h : Inv s) {username : String} {req : Req} {fingerprint : String → String}
    {cand : StoredConfig} (hsav : s.saving = none)
    (hcand : candidate fingerprint s.store username req = .ok cand) (hv : cand.validate = .ok ())
    (hC : Unshifted s (.swapCfg username req)) :
    Inv { s with cfg := cand.runtime, saving := some (cand, removedAt s.store req) } := by
  have hedit := candidate_groupEdit hcand
  refine ⟨h.fits, rfl, fun he => ?_, h.owner_length, h.waiter, h.routed,
    fun {r req'} hr hpend => ⟨fun i hi => ?_, fun i hi {name} hn => (h.kept hr hpend).pool i hi hn⟩, h.granted⟩
  · cases he
    exact ⟨hv, hedit⟩
  · obtain ⟨name, hlive, hname⟩ := (h.kept hr hpend).live i hi
    rw [h.cfg, hsav, names_runtime] at hlive
    refine ⟨name, ?_, hname⟩
    rw [names_runtime]
    refine hedit.getElem? (fun p hp => ?_) hlive
    simp only [Unshifted, State.unshifted, hp, Option.all_some, State.clear, List.all_eq_true] at hC
    have := hC (req', r) (List.mk_mem_zipIdx_iff_getElem?.2 hr)
    have hpend : s.pending r = true := hpend
    simp only [hpend, Bool.not_true, Bool.false_or, List.all_eq_true, decide_eq_true_eq] at this
    exact this i hi

theorem swapPool (h : Inv s) {cand : StoredConfig} {rem : Option Nat} {now : Nat} {pools : PoolWindow.State}
    (hsav : s.saving = some (cand, rem))
    (hp : PoolWindow.step s.disp.pools (.rebuild cand.poolSpecs now) = some pools) :
    Inv { s with disp := { s.disp with pools := pools }, store := cand, saving := none } := by
  have hcfg : s.cfg = cand.runtime := by rw [h.cfg, hsav]; rfl
  refine ⟨?_, hcfg, nofun, h.owner_length, h.waiter, h.routed,
    fun {r req} hr hpend => ⟨fun i hi => (h.kept hr hpend).live i hi, fun i hi {name} hn => ?_⟩, h.granted⟩
  · simp only [PoolWindow.step] at hp
    split at hp
    · cases hp; exact .assemble ..
    · cases hp
  · obtain ⟨name', hlive, hname⟩ := (h.kept hr hpend).live i hi
    rw [hcfg, names_runtime] at hlive
    rw [hname, ← hlive]
    exact hn

end Inv

theorem step_inv {fingerprint : String → String} {s s' : State} {op : Op} (h : Inv s) (hC : Unshifted s op)
    (hs : step fingerprint s op = some s') : Inv s' := by
  cases op with
  | arrive model =>
    simp only [step] at hs
    split at hs
    · cases hs; exact h
    · cases hs; exact h
    · rename_i route _ hroute
      cases hs
      exact h.arrive hroute hC
  | join r deadline prefer =>
    simp only [step] at hs
    split at hs
    · rename_i req hr
      split at hs
      · rename_i hlive
        cases hs
        exact h.join hr hlive
      · cases hs
    · cases hs
  | reserve now later =>
    obtain ⟨disp, hdisp, hs⟩ := Option.bind_eq_some_iff.1 hs
    cases hs
    exact h.reserve hdisp
  | dispatch op =>
    simp only [step] at hs
    split at hs
    · cases hs
    · cases hs
    · rename_i hacq _
      obtain ⟨disp, hdisp, rfl⟩ := Option.map_eq_some_iff.1 hs
      obtain ⟨hlen, hw⟩ := Dispatch.step_waiters hacq hdisp
      exact h.disp (Dispatch.step_sameLanes hdisp) hlen hw h.granted
  | finish r =>
    simp only [step] at hs
    split at hs
    · rename_i req hr
      cases hs
      exact h.finish hr
    · cases hs
  | swapCfg username req =>
    simp only [step] at hs
    split at hs
    · rename_i cand hsav hcand
      split at hs
      · rename_i hv
        cases hs
        exact h.swapCfg hsav hcand hv hC
      · cases hs
    · cases hs
  | swapPool now =>
    simp only [step] at hs
    split at hs
    · rename_i cand rem hsav
      obtain ⟨pools, hp, hs⟩ := Option.bind_eq_some_iff.1 hs
      cases hs
      exact h.swapPool hsav hp
    · cases hs

/-- In a run that takes a group out only when no pending request is routed to it or past it, every grant is
on a group that serves the request's model. -/
theorem granted_right {fingerprint : String → String} {sc : StoredConfig} {now₀ : Nat} {ops : List Op}
    {s : State} (hC : Meets (step fingerprint) Unshifted (start sc now₀) ops)
    (hrun : exec (step fingerprint) (start sc now₀) ops = some s) : ∀ g ∈ s.granted, g.Right :=
  (exec_invariant_of_meets (fun _ _ _ hI hC hs => step_inv hI hC hs) (start_inv sc now₀) hC hrun).granted

/-- The primary group and two more, each with a key and the last two with a model of their own. -/
def threeGroups : StoredConfig where
  upstream := { nimKeys := [⟨"k0", "root", true, 40⟩] }
  upstreams := [⟨"a", "https://a", true, [⟨"ka", "root", true, 40⟩], ["ma"], true⟩,
    ⟨"b", "https://b", true, [⟨"kb", "root", true, 40⟩], ["mb"], true⟩]
  users := [⟨"root", "hash", .superuser, none⟩]

/-- A group is added around the routing of a request, and the one after the request's own taken out while
it waits. -/
def saveBehind : List Op :=
  [.swapCfg "root" (.upstreams { add := some ⟨"c", "https://c", none, true⟩ }), .arrive "ma", .swapPool 1,
    .join 0 100 none, .dispatch .recv, .dispatch .check,
    .swapCfg "root" (.upstreams { remove := some "b" }), .swapPool 2, .reserve 5 5]

theorem granted_right_saveBehind : ∃ s, exec (step id) (start threeGroups 0) saveBehind = some s ∧
    s.granted.map (·.slot.upstream) = ["a"] ∧ ∀ g ∈ s.granted, g.Right := by
  have hrun : (exec (step id) (start threeGroups 0) saveBehind).map (fun s =>
      s.granted.map (·.slot.upstream)) = some ["a"] := by
    decide +kernel
  obtain ⟨s, hs, hg⟩ := Option.map_eq_some_iff.1 hrun
  exact ⟨s, hs, hg, granted_right (by decide +kernel) hs⟩

/-- A request for a model of group `a` waits; `a` is taken out, and the request is granted the lane that
has moved to its position, the one of group `b`. -/
def saveBefore : List Op :=
  [.arrive "ma", .join 0 100 none, .dispatch .recv, .dispatch .check,
    .swapCfg "root" (.upstreams { remove := some "a" }), .swapPool 1, .reserve 5 5]

theorem not_granted_right_saveBefore : ¬ ∀ (fingerprint : String → String) (sc : StoredConfig) (now₀ : Nat)
    (ops : List Op) (s : State), sc.validate = .ok () →
    exec (step fingerprint) (start sc now₀) ops = some s → ∀ g ∈ s.granted, g.Right := by
  intro h
  have hrun : (exec (step id) (start threeGroups 0) saveBefore).map (fun s =>
      s.granted.map fun g => (g.slot.upstream, g.routedWith.serves g.model g.slot.upstream,
        g.liveAt.serves g.model g.slot.upstream)) = some [("b", false, false)] := by
    decide +kernel
  obtain ⟨s, hs, hg⟩ := Option.map_eq_some_iff.1 hrun
  obtain ⟨g, hmem⟩ : ∃ g, g ∈ s.granted := by
    cases hgs : s.granted with
    | nil => rw [hgs] at hg; cases hg
    | cons g gs => exact ⟨g, List.mem_cons_self⟩
  have hfalse := List.mem_map_of_mem (f := fun g : Granted => (g.slot.upstream,
    g.routedWith.serves g.model g.slot.upstream, g.liveAt.serves g.model g.slot.upstream)) hmem
  rw [hg, List.mem_singleton] at hfalse
  simp only [Prod.mk.injEq] at hfalse
  rcases h id threeGroups 0 saveBefore s (by decide +kernel) hs g hmem with hr | hr
  · rw [hfalse.2.1] at hr; cases hr
  · rw [hfalse.2.2] at hr; cases hr

end Routing

end OpenProxy
