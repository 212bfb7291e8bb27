import OpenProxy.Config
import OpenProxy.Dispatch
import OpenProxy.Governor
import OpenProxy.Handle

/-!
# Retries over the clock (`buffered`, `streaming`, `acquire_model_permit`, `enter_cooldown` of `proxy.rs`)

Requests wait for a permit of the governor and for a slot of the pool, send, and start over when the connection or the
upstream fails. Settings are saved meanwhile, and catalogs are fetched. Every clock reading is a choice of the
environment, and does not go back.

An addition to an instant is a parameter: `unbounded` always has a sum, `bounded` panics where the sum does not fit.
-/

namespace OpenProxy.Exchange

open Transition

/-! ### Instants -/

/-- `Instant + Duration`; `none` is a panic. -/
abbrev Add := Nat → Nat → Option Nat

def unbounded : Add := fun t d => some (t + d)

def bounded (last : Nat) : Add := fun t d => if t + d ≤ last then some (t + d) else none

/-! ### The pool, with these additions -/

section
variable (add : Add)

def windowReady (now rpm : Nat) (sent : List Nat) : Option Nat :=
  if sent.length < rpm then some now
  else if rpm = 0 then add now window
  else add (sent.getD (sent.length - rpm) 0) window

def visit (allowed : Option (List Nat)) (now : Nat) (sc : Pool.Scan) (i : Nat) : Option Pool.Scan :=
  match sc.pool.lanes[i]? with
  | none => some sc
  | some lane =>
    if allows allowed lane.endpoint then do
      let sent := evict now lane.sent
      let readyAt := max (← windowReady add now lane.rpm sent) lane.cooldownUntil
      if readyAt ≤ now then return ⟨sc.pool.setSent i sent, sc.ready ++ [(sent.length, i)], sc.bestWait, true⟩
      else return ⟨sc.pool.setSent i sent, sc.ready, min sc.bestWait (readyAt - now), true⟩
    else some sc

def scan (p : Pool) (allowed : Option (List Nat)) (now : Nat) : Option Pool.Scan :=
  (List.range p.active).foldlM (visit add allowed now) ⟨p, [], window, false⟩

def reserveFiltered (p : Pool) (prefer : Option Nat) (allowed : Option (List Nat)) (now : Nat) :
    Option (Reservation × Pool) :=
  let usable := prefer.filter fun i =>
    decide (i < p.active) && (p.lanes[i]?.any fun l => allows allowed l.endpoint)
  match usable.elim (none, p) (p.tryTake · now true) with
  | (some r, p') => some (r, p')
  | (none, p') => do
    let sc ← scan add p' allowed now
    match Pool.takeFirst now (sc.ready.insertionSort Pool.LoadLe) sc.pool with
    | (some r, p'') => return (r, p'')
    | (none, p'') => return (.wait (if sc.any then sc.bestWait else window), p'')

/-- `penalize` on the generation that granted the slot, with the end of the cooldown. -/
def penalize (pools : PoolWindow.State) (gen lane backoff now : Nat) : Option (PoolWindow.State × Nat) := do
  let till ← add now backoff
  return (pools.onGen gen (·.penalize lane backoff now), till)

/-- What the newest generation makes of a reservation. -/
def reserved (pools : PoolWindow.State) (now : Nat) : Reservation × Pool → PoolWindow.State
  | (.ready lane key stamp _, p) =>
    { pools with pool := p, grants := pools.grants ++ [⟨pools.newest, lane, key, stamp, false, false⟩], clock := now }
  | (.wait _, p) => { pools with pool := p, clock := now }

end

/-! ### Upstream answers -/

/-- `str::parse::<u64>`. -/
def parseU64 (s : String) : Option Nat :=
  let digits := ((Text.stripPrefix s "+").getD s).toList
  if digits ≠ [] ∧ digits.all Char.isDigit then
    let n := digits.foldl (fun n c => 10 * n + (c.toNat - 48)) 0
    if n < 2 ^ 64 then some n else none
  else none

/-- Honor `Retry-After` when present. -/
def backoffFor (retryAfter : Option String) : Nat := ofSecs ((retryAfter.bind parseU64).getD 10)

def isWorkerExhausted (body : String) : Bool :=
  decide ("Worker local total request limit".toList <:+: body.toList)

structure Answer where
  status : Nat
  retryAfter : Option String
  detail : String
  deriving DecidableEq, Repr

/-! ### Requests -/

/-- Why a request is sent again: the key, and what holds it back. -/
inductive Failure where
  | cooled (key : String) (till : Nat)
  | exhausted (key : String) (time : Nat)
  deriving DecidableEq, Repr

inductive Phase where
  | permit
  /-- Admitted at an instant, and queued for a slot. -/
  | slot (admitted : Nat)
  | upstream (slot : Slot)
  /-- The answer goes to the client. -/
  | relay
  | done
  deriving DecidableEq, Repr

structure Request where
  cfg : Config
  /-- The metric labels. -/
  model : String
  path : String
  streaming : Bool
  prefer : Option Nat
  allowed : List Nat
  /-- The untouched body is still kept for a retry. -/
  fallback : Bool
  deadline : Nat
  phase : Phase := .permit
  failure : Option Failure := none
  deriving DecidableEq

namespace Request

def gated (r : Request) : Bool :=
  r.cfg.governor.enabled && r.model != "none" && decide (r.path ∈ ["/v1/chat/completions", "/v1/completions"])

def pinned (r : Request) : Option Nat := r.cfg.governor.overrides[r.model]?

/-- It holds a permit. -/
def holds (r : Request) : Bool :=
  r.gated && match r.phase with
    | .slot _ | .upstream _ | .relay => true
    | .permit | .done => false

end Request

/-- A request that went upstream. -/
structure Sent where
  key : String
  time : Nat
  /-- When the request was admitted for it, and the failure before it. -/
  admitted : Nat
  failure : Option Failure
  deriving DecidableEq, Repr

structure State where
  cfg : Config
  pools : PoolWindow.State
  governor : Governor := {}
  requests : List Request := []
  sent : List Sent := []
  clock : Nat

/-- What a request arrives with. -/
structure Arrival where
  model : String
  path : String
  streaming : Bool
  prefer : Option Nat
  allowed : List Nat
  fallback : Bool
  deriving DecidableEq, Repr

inductive Op where
  | save (sc : StoredConfig) (now : Nat)
  | arrive (a : Arrival) (now : Nat)
  /-- The next heartbeat of request `n` at the permit is set. -/
  | heartbeat (n now : Nat)
  /-- The governor is asked at `now`; when it refuses, the deadline is compared at `later`. -/
  | admitAt (n now later : Nat)
  | reserve (n now later : Nat)
  | connectFailed (n now : Nat)
  /-- The retry is decided at `now`, and made at `later`. -/
  | answered (n : Nat) (a : Answer) (now later : Nat)
  /-- Request `n` ends: it is answered, its deadline passes, or its client goes away. -/
  | leave (n : Nat)
  /-- A slot for the catalog of a group. -/
  | fetch (group now later : Nat)
  /-- The upstream's answer to the fetch on the `g`-th grant is no success. -/
  | fetchFailed (g : Nat) (a : Answer) (now : Nat)
  /-- The slot of the `g`-th grant was not received. -/
  | release (g : Nat)

def start (sc : StoredConfig) (now : Nat) : State :=
  { cfg := sc.runtime, pools := PoolWindow.start sc.poolSpecs now, clock := now }

def poll : Nat := Governor.second / 4

namespace State

def setRequest (s : State) (n : Nat) (r : Request) : State := { s with requests := s.requests.set n r }

/-- The permit of the request is dropped. -/
def dropPermit (s : State) (r : Request) : State :=
  if r.holds then { s with governor := s.governor.release r.model } else s

/-- The request ends. -/
def finish (s : State) (n : Nat) (r : Request) : State := (s.dropPermit r).setRequest n { r with phase := .done }

/-- The request starts over. -/
def retry (s : State) (n : Nat) (r : Request) (failure : Option Failure) : State :=
  (s.dropPermit r).setRequest n { r with phase := .permit, failure }

/-- Request `n` has the slot and sends. -/
def send (s : State) (n : Nat) (r : Request) (admitted now : Nat) (slot : Slot) : State :=
  { s.setRequest n { r with fallback := r.fallback && slot.supportsStreamOptions, phase := .upstream slot } with
    sent := s.sent ++ [⟨slot.key, now, admitted, r.failure⟩] }

end State

section
variable (add : Add)

/-- One round of the wait for a permit. -/
def acquireModelPermit (s : State) (n : Nat) (r : Request) (now later : Nat) : Option State :=
  if r.gated then
    let (governor, ok) := s.governor.admitAt r.model r.pinned now
    let s := { s with governor := governor }
    if ok then some (s.setRequest n { r with phase := .slot now })
    else do
      if r.deadline < (← add later poll) then return s.finish n r else return s
  else some (s.setRequest n { r with phase := .slot now })

def reserve (s : State) (n : Nat) (r : Request) (admitted now later : Nat) : Option State := do
  let taken ← reserveFiltered add s.pools.pool r.prefer (some r.allowed) now
  let s' := { s with pools := reserved s.pools now taken }
  match taken.1 with
  | .ready lane key _ _ =>
    let slot ← Dispatch.slotOf s.pools lane key
    return s'.send n r admitted now slot
  | .wait d => if r.deadline < (← add later d) then return s'.finish n r else return s'

def connectFailed (s : State) (n : Nat) (r : Request) (slot : Slot) (now : Nat) : Option State := do
  let (pools, till) ← penalize add s.pools slot.gen slot.lane (ofSecs 5) now
  return { s with pools := pools }.retry n r (some (.cooled slot.key till))

def answered (s : State) (n : Nat) (r : Request) (slot : Slot) (a : Answer) (now later : Nat) : Option State :=
  if r.streaming ∧ a.status = 400 ∧ r.fallback then some (s.retry n { r with fallback := false } none)
  else if Handle.retryable a.status ∧ now < r.deadline then
    if isWorkerExhausted a.detail then do
      let _ ← add later Governor.exhaustBackoff
      return { s with governor := s.governor.noteExhaustedAt r.model r.pinned later }.retry n r
        (some (.exhausted slot.key later))
    else do
      let (pools, till) ← penalize add s.pools slot.gen slot.lane (backoffFor a.retryAfter) later
      return { s with pools := pools }.retry n r (some (.cooled slot.key till))
  else some (s.setRequest n { r with phase := .relay })

/-- The deadline of a fetch is only compared. -/
def fetch (s : State) (group now later : Nat) : Option State := do
  let _ ← add now (ofSecs 30)
  let taken ← reserveFiltered add s.pools.pool none (some [group]) now
  let s' := { s with pools := reserved s.pools now taken }
  match taken.1 with
  | .ready .. => return s'
  | .wait d =>
    let _ ← add later d
    return s'

/-- What the system does; the clock is compared and set around it. -/
def act (s : State) : Op → Option State
  | .save sc now => do
    let _ ← sc.validate.toOption
    let pools ← PoolWindow.step s.pools (.rebuild sc.poolSpecs now)
    return { s with cfg := sc.runtime, pools := pools }
  | .arrive a now => do
    let deadline ← add now (ofSecs s.cfg.maxWait)
    return { s with
      requests := s.requests ++ [⟨s.cfg, a.model, a.path, a.streaming, a.prefer, a.allowed, a.fallback, deadline, .permit, none⟩] }
  | .heartbeat n now => do
    let r ← s.requests[n]?
    if r.gated ∧ r.phase = .permit then
      let _ ← add now (ofSecs r.cfg.heartbeat)
      return s
    else none
  | .admitAt n now later => do
    let r ← s.requests[n]?
    if r.phase = .permit then acquireModelPermit add s n r now later else none
  | .reserve n now later => do
    let r ← s.requests[n]?
    match r.phase with
    | .slot admitted => reserve add s n r admitted now later
    | _ => none
  | .connectFailed n now => do
    let r ← s.requests[n]?
    match r.phase with
    | .upstream slot => connectFailed add s n r slot now
    | _ => none
  | .answered n a now later => do
    let r ← s.requests[n]?
    match r.phase with
    | .upstream slot => answered add s n r slot a now later
    | _ => none
  | .leave n => (s.requests[n]?).map (s.finish n)
  | .fetch group now later => fetch add s group now later
  | .fetchFailed g a now => do
    let grant ← s.pools.grants[g]?
    if Handle.retryable a.status then
      let (pools, _) ← penalize add s.pools grant.gen grant.lane (backoffFor a.retryAfter) now
      return { s with pools := pools }
    else return s
  | .release g => (PoolWindow.step s.pools (.release g)).map fun pools => { s with pools := pools }

end

/-- The clock readings of a step, in order. -/
def Op.times : Op → List Nat
  | .save _ now | .arrive _ now | .heartbeat _ now | .connectFailed _ now | .fetchFailed _ _ now => [now]
  | .admitAt _ now later | .reserve _ now later | .answered _ _ now later | .fetch _ now later => [now, later]
  | .leave _ | .release _ => []

def step (add : Add) (s : State) (op : Op) : Option State :=
  if (s.clock :: op.times).Pairwise (· ≤ ·) then
    (act add s op).map fun s' => { s' with clock := op.times.getLastD s.clock }
  else none

/-! ### Where the pool's additions have sums -/

/-- The window can be added to the present and to every stamp. -/
structure Fits (add : Add) (now : Nat) (p : Pool) : Prop where
  now : add now window = some (now + window)
  sent : ∀ {i : Nat} {l : Lane}, p.lanes[i]? = some l → ∀ t ∈ l.sent, add t window = some (t + window)

section
variable {add : Add} {now : Nat} {p q : Pool} {allowed : Option (List Nat)}

theorem Fits.unbounded (now : Nat) (p : Pool) : Fits unbounded now p := ⟨rfl, fun _ _ _ => rfl⟩

theorem Fits.ages (h : Fits add now p) (ha : Pool.Ages now p q) : Fits add now q := by
  refine ⟨h.now, fun {i l'} hl' t ht => ?_⟩
  obtain ⟨l, hl, hlane⟩ := ha.lane_of hl'
  refine h.sent hl t ?_
  rcases hlane with rfl | rfl
  · exact ht
  · exact Pool.mem_of_mem_evict ht

theorem windowReady_eq (hnow : add now window = some (now + window)) {sent : List Nat}
    (hsent : ∀ t ∈ sent, add t window = some (t + window)) (rpm : Nat) :
    windowReady add now rpm sent = some (Pool.windowReady now rpm sent) := by
  unfold windowReady Pool.windowReady
  split
  · rfl
  · split
    · exact hnow
    · refine hsent _ ?_
      rw [List.getD_eq_getElem _ _ (by omega : sent.length - rpm < sent.length)]
      exact List.getElem_mem _

theorem visit_eq {sc : Pool.Scan} (h : Fits add now sc.pool) (i : Nat) :
    visit add allowed now sc i = some (sc.visit allowed now i) := by
  unfold visit Pool.Scan.visit
  cases hlane : sc.pool.lanes[i]? with
  | none => rfl
  | some lane =>
    have hready := windowReady_eq h.now
      (fun t (ht : t ∈ evict now lane.sent) => h.sent hlane t (Pool.mem_of_mem_evict ht)) lane.rpm
    dsimp only
    split
    · rw [hready]
      dsimp only [Option.bind_eq_bind, Option.bind_some]
      split <;> rfl
    · rfl

theorem scan_eq (h : Fits add now p) : scan add p allowed now = some (p.scan allowed now) := by
  have hrange (n : Nat) : (List.range n).foldlM (visit add allowed now) ⟨p, [], window, false⟩ =
      some ((List.range n).foldl (Pool.Scan.visit allowed now) ⟨p, [], window, false⟩) := by
    induction n with
    | zero => rfl
    | succ n ih =>
      rw [List.range_succ, List.foldlM_append, ih, List.foldl_append]
      dsimp only [Option.bind_eq_bind, Option.bind_some]
      rw [List.foldlM_cons, visit_eq (h.ages (Pool.scanRange_inv p allowed now n).ages)]
      rfl
  exact hrange p.active

theorem reserveFiltered_eq (h : Fits add now p) (prefer : Option Nat) :
    reserveFiltered add p prefer allowed now = some (p.reserveFiltered prefer allowed now) := by
  unfold reserveFiltered Pool.reserveFiltered
  dsimp only
  generalize prefer.filter _ = usable
  cases htake : usable.elim (none, p) (p.tryTake · now true) with
  | mk r p' =>
    cases r with
    | some r => rfl
    | none =>
      have hages : Pool.Ages now p p' := by
        cases usable with
        | none =>
          obtain rfl := (Prod.mk.inj htake).2
          exact .refl p
        | some i => exact Pool.tryTake_none htake
      dsimp only
      rw [scan_eq (h.ages hages)]
      dsimp only [Option.bind_eq_bind, Option.bind_some]
      generalize Pool.takeFirst _ _ _ = taken
      obtain ⟨r | r, p''⟩ := taken <;> rfl

end

/-! ### What a step does -/

section
variable {s s' : State} {op : Op} {n now later : Nat} {r : Request} {slot : Slot} {a : Answer}

/-- A request is asked in or waits on. -/
theorem acquireModelPermit_cases (h : acquireModelPermit unbounded s n r now later = some s') :
    (r.gated = false ∧ s' = s.setRequest n { r with phase := .slot now }) ∨
      ∃ governor ok, r.gated = true ∧ s.governor.admitAt r.model r.pinned now = (governor, ok) ∧
        (ok = true ∧ s' = { s with governor := governor }.setRequest n { r with phase := .slot now } ∨
          s' = { s with governor := governor }.finish n r ∨ s' = { s with governor := governor }) := by
  unfold acquireModelPermit at h
  split at h
  · rename_i hgated
    refine .inr ⟨_, _, hgated, rfl, ?_⟩
    dsimp only at h
    split at h
    · rename_i hok
      exact .inl ⟨hok, (Option.some.inj h).symm⟩
    · obtain ⟨wake, -, h⟩ := Option.bind_eq_some_iff.1 h
      split at h
      · exact .inr (.inl (Option.some.inj h).symm)
      · exact .inr (.inr (Option.some.inj h).symm)
  · rename_i hgated
    exact .inl ⟨by simpa using hgated, (Option.some.inj h).symm⟩

/-- The pools after a reserve of the newest generation. -/
def taken (pools : PoolWindow.State) (prefer : Option Nat) (allowed : List Nat) (now : Nat) : PoolWindow.State :=
  reserved pools now (pools.pool.reserveFiltered prefer (some allowed) now)

/-- A request has a slot and sends, or its wait goes on or is over. -/
theorem reserve_cases {admitted : Nat} (h : reserve unbounded s n r admitted now later = some s') :
    (∃ lane key stamp sticky p slot,
        s.pools.pool.reserveFiltered r.prefer (some r.allowed) now = (.ready lane key stamp sticky, p) ∧
        Dispatch.slotOf s.pools lane key = some slot ∧
        s' = { s with pools := taken s.pools r.prefer r.allowed now }.send n r admitted now slot) ∨
      s' = { s with pools := taken s.pools r.prefer r.allowed now }.finish n r ∨
      s' = { s with pools := taken s.pools r.prefer r.allowed now } := by
  unfold reserve at h
  rw [reserveFiltered_eq (.unbounded now _)] at h
  dsimp only [Option.bind_eq_bind, Option.bind_some] at h
  rw [taken]
  cases htaken : s.pools.pool.reserveFiltered r.prefer (some r.allowed) now with
  | mk res p =>
    rw [htaken] at h
    cases res with
    | ready lane key stamp sticky =>
      obtain ⟨slot, hslot, h⟩ := Option.bind_eq_some_iff.1 h
      exact .inl ⟨lane, key, stamp, sticky, p, slot, rfl, hslot, (Option.some.inj h).symm⟩
    | wait d =>
      obtain ⟨wake, -, h⟩ := Option.bind_eq_some_iff.1 h
      split at h
      · exact .inr (.inl (Option.some.inj h).symm)
      · exact .inr (.inr (Option.some.inj h).symm)

theorem fetch_eq {group : Nat} (h : fetch unbounded s group now later = some s') :
    s' = { s with pools := taken s.pools none [group] now } := by
  unfold fetch at h
  rw [reserveFiltered_eq (.unbounded now _)] at h
  dsimp only [Option.bind_eq_bind, Option.bind_some, unbounded] at h
  rw [taken]
  cases htaken : s.pools.pool.reserveFiltered none (some [group]) now with
  | mk res p =>
    rw [htaken] at h
    cases res <;> exact (Option.some.inj h).symm

/-- The pools after a cooldown. -/
def cooled (pools : PoolWindow.State) (slot : Slot) (backoff now : Nat) : PoolWindow.State :=
  pools.onGen slot.gen (·.penalize slot.lane backoff now)

theorem connectFailed_eq (h : connectFailed unbounded s n r slot now = some s') :
    s' = { s with pools := cooled s.pools slot (ofSecs 5) now }.retry n r
      (some (.cooled slot.key (now + ofSecs 5))) :=
  (Option.some.inj h).symm

theorem answered_cases (h : answered unbounded s n r slot a now later = some s') :
    s' = s.retry n { r with fallback := false } none ∨
      (Handle.retryable a.status = true ∧ now < r.deadline) ∧
        (isWorkerExhausted a.detail = true ∧
            s' = { s with governor := s.governor.noteExhaustedAt r.model r.pinned later }.retry n r
              (some (.exhausted slot.key later)) ∨
          isWorkerExhausted a.detail = false ∧
            s' = { s with pools := cooled s.pools slot (backoffFor a.retryAfter) later }.retry n r
              (some (.cooled slot.key (later + backoffFor a.retryAfter)))) ∨
      s' = s.setRequest n { r with phase := .relay } := by
  unfold answered at h
  split at h
  · exact .inl (Option.some.inj h).symm
  · split at h
    · rename_i hretry
      refine .inr (.inl ⟨hretry, ?_⟩)
      split at h
      · rename_i hexhausted
        exact .inl ⟨hexhausted, (Option.some.inj h).symm⟩
      · rename_i hexhausted
        exact .inr ⟨by simpa using hexhausted, (Option.some.inj h).symm⟩
    · exact .inr (.inr (Option.some.inj h).symm)

@[simp] theorem setRequest_pools (s : State) (n : Nat) (r : Request) : (s.setRequest n r).pools = s.pools := rfl

@[simp] theorem dropPermit_pools (s : State) (r : Request) : (s.dropPermit r).pools = s.pools := by
  unfold State.dropPermit
  split <;> rfl

@[simp] theorem finish_pools (s : State) (n : Nat) (r : Request) : (s.finish n r).pools = s.pools :=
  dropPermit_pools s r

@[simp] theorem retry_pools (s : State) (n : Nat) (r : Request) (failure : Option Failure) :
    (s.retry n r failure).pools = s.pools :=
  dropPermit_pools s r

@[simp] theorem send_pools (s : State) (n : Nat) (r : Request) (admitted now : Nat) (slot : Slot) :
    (s.send n r admitted now slot).pools = s.pools := rfl

/-- What a step does to the pools is an operation of theirs, and a rebuild only at a save. -/
inductive PoolsStep (pools : PoolWindow.State) (op : Op) (pools' : PoolWindow.State) : Prop where
  | same (h : pools' = pools)
  | save {sc : StoredConfig} {now : Nat} (hop : op = .save sc now) (hvalid : sc.validate = .ok ())
    (h : PoolWindow.step pools (.rebuild sc.poolSpecs now) = some pools')
  | pool (pop : PoolWindow.Op) (hop : ∀ specs now, pop ≠ .rebuild specs now)
    (hclock : ∀ prefer allowed now, pop = .reserve prefer allowed now → now ∈ op.times)
    (h : PoolWindow.step pools pop = some pools')

theorem PoolsStep.taken {prefer : Option Nat} {allowed : List Nat} (hnow : s.pools.clock ≤ now) (htimes : now ∈ op.times) :
    PoolsStep s.pools op (taken s.pools prefer allowed now) := by
  refine .pool (.reserve prefer (some allowed) now) (fun _ _ h => by cases h) (fun _ _ _ h => by cases h; exact htimes) ?_
  simp only [PoolWindow.step, if_pos hnow, Exchange.taken]
  cases s.pools.pool.reserveFiltered prefer (some allowed) now with
  | mk res p => cases res <;> rfl

theorem PoolsStep.cooled (pools : PoolWindow.State) (slot : Slot) (backoff now : Nat) :
    PoolsStep pools op (cooled pools slot backoff now) :=
  .pool (.penalize slot.gen slot.lane backoff now) (fun _ _ h => by cases h) (fun _ _ _ h => by cases h) rfl

/-- A step that the clock allows. -/
theorem step_eq_some {add : Add} (h : step add s op = some s') :
    (s.clock :: op.times).Pairwise (· ≤ ·) ∧ ∃ s₁, act add s op = some s₁ ∧
      s' = { s₁ with clock := op.times.getLastD s.clock } := by
  unfold step at h
  split at h
  · rename_i htimes
    obtain ⟨s₁, hact, rfl⟩ := Option.map_eq_some_iff.1 h
    exact ⟨htimes, s₁, hact, rfl⟩
  · cases h

theorem le_getLastD {t : Nat} {ts : List Nat} (h : (t :: ts).Pairwise (· ≤ ·)) : ∀ u ∈ t :: ts, u ≤ ts.getLastD t := by
  induction ts generalizing t with
  | nil =>
    intro u hu
    exact (List.mem_singleton.1 hu).le
  | cons v ts ih =>
    obtain ⟨htv, hts⟩ := List.pairwise_cons.1 h
    intro u hu
    rw [List.getLastD_cons]
    rcases List.mem_cons.1 hu with rfl | hu
    · exact (htv v List.mem_cons_self).trans (ih hts v List.mem_cons_self)
    · exact ih hts u hu

/-- The clock does not go back. -/
theorem step_clock {add : Add} (h : step add s op = some s') : ∀ t ∈ s.clock :: op.times, t ≤ s'.clock := by
  obtain ⟨htimes, s₁, -, rfl⟩ := step_eq_some h
  exact le_getLastD htimes

/-- The failures that cool a lane down, with the time and the length of the cooldown. -/
inductive Cooling (n : Nat) (r : Request) : Op → (now backoff : Nat) → Prop where
  | connect {now : Nat} : Cooling n r (.connectFailed n now) now (ofSecs 5)
  | answer {a : Answer} {now later : Nat} (retryable : Handle.retryable a.status = true) (inTime : now < r.deadline)
    (notExhausted : isWorkerExhausted a.detail = false) :
    Cooling n r (.answered n a now later) later (backoffFor a.retryAfter)

/-- What a step does. -/
inductive Acts (s : State) (op : Op) : State → Prop where
  | pools (cfg : Config) {pools : PoolWindow.State} (hpools : PoolsStep s.pools op pools) :
    Acts s op { s with cfg := cfg, pools := pools }
  | arrive {r : Request} (hphase : r.phase = .permit) (hfailure : r.failure = none) :
    Acts s op { s with requests := s.requests ++ [r] }
  | passed {n now later : Nat} {r : Request} (hop : op = .admitAt n now later) (hr : s.requests[n]? = some r)
    (hphase : r.phase = .permit) (hgated : r.gated = false) :
    Acts s op (s.setRequest n { r with phase := .slot now })
  | admitted {n now later : Nat} {r : Request} {governor : Governor} (hop : op = .admitAt n now later)
    (hr : s.requests[n]? = some r) (hphase : r.phase = .permit)
    (hadmission : s.governor.admitAt r.model r.pinned now = (governor, true)) :
    Acts s op ({ s with governor := governor }.setRequest n { r with phase := .slot now })
  | refused (r : Request) (now : Nat) : Acts s op { s with governor := (s.governor.admitAt r.model r.pinned now).1 }
  | expired {n : Nat} (r : Request) (now : Nat) :
    Acts s op ({ s with governor := (s.governor.admitAt r.model r.pinned now).1 }.finish n r)
  | finished {n : Nat} (r : Request) {pools : PoolWindow.State} (hpools : PoolsStep s.pools op pools) :
    Acts s op ({ s with pools := pools }.finish n r)
  | sent {n now later admitted lane stamp : Nat} {r : Request} {key : String} {sticky : Bool} {p : Pool} {slot : Slot}
    (hop : op = .reserve n now later) (hr : s.requests[n]? = some r) (hphase : r.phase = .slot admitted)
    (hready : s.pools.pool.reserveFiltered r.prefer (some r.allowed) now = (.ready lane key stamp sticky, p))
    (hslot : Dispatch.slotOf s.pools lane key = some slot) :
    Acts s op ({ s with pools := taken s.pools r.prefer r.allowed now }.send n r admitted now slot)
  | resent {n : Nat} (r : Request) : Acts s op (s.retry n { r with fallback := false } none)
  | exhausted {n now later : Nat} {a : Answer} {r : Request} {slot : Slot} (hop : op = .answered n a now later)
    (hr : s.requests[n]? = some r) (hphase : r.phase = .upstream slot) (hretry : Handle.retryable a.status = true)
    (htime : now < r.deadline) (hdetail : isWorkerExhausted a.detail = true) :
    Acts s op ({ s with governor := s.governor.noteExhaustedAt r.model r.pinned later }.retry n r
      (some (.exhausted slot.key later)))
  | cooled {n now backoff : Nat} {r : Request} {slot : Slot} (hr : s.requests[n]? = some r)
    (hphase : r.phase = .upstream slot) (hcooling : Cooling n r op now backoff) :
    Acts s op ({ s with pools := cooled s.pools slot backoff now }.retry n r (some (.cooled slot.key (now + backoff))))
  | relayed {n : Nat} (r : Request) : Acts s op (s.setRequest n { r with phase := .relay })

theorem act_cases (hclock : s.pools.clock ≤ s.clock) (htimes : ∀ t ∈ op.times, s.clock ≤ t)
    (h : act unbounded s op = some s') : Acts s op s' := by
  have htaken {now : Nat} (hnow : now ∈ op.times) (prefer : Option Nat) (allowed : List Nat) :
      PoolsStep s.pools op (taken s.pools prefer allowed now) :=
    .taken (hclock.trans (htimes now hnow)) hnow
  cases op with
  | save sc now =>
    obtain ⟨⟨⟩, hvalid, h⟩ := Option.bind_eq_some_iff.1 h
    obtain ⟨pools, hpools, h⟩ := Option.bind_eq_some_iff.1 h
    obtain rfl := Option.some.inj h
    exact .pools _ (.save rfl (toOption_eq_some hvalid) hpools)
  | arrive a now =>
    obtain rfl := Option.some.inj h
    exact .arrive rfl rfl
  | heartbeat n now =>
    obtain ⟨r, -, h⟩ := Option.bind_eq_some_iff.1 h
    split at h
    · obtain rfl := Option.some.inj h
      exact .pools s.cfg (.same rfl)
    · cases h
  | admitAt n now later =>
    obtain ⟨r, hr, h⟩ := Option.bind_eq_some_iff.1 h
    split at h
    · rename_i hphase
      rcases acquireModelPermit_cases h with ⟨hgated, rfl⟩ | ⟨governor, ok, -, hadmission, ⟨rfl, rfl⟩ | rfl | rfl⟩
      · exact .passed rfl hr hphase hgated
      · exact .admitted rfl hr hphase hadmission
      · obtain rfl : governor = (s.governor.admitAt r.model r.pinned now).1 := (congrArg Prod.fst hadmission).symm
        exact .expired r now
      · obtain rfl : governor = (s.governor.admitAt r.model r.pinned now).1 := (congrArg Prod.fst hadmission).symm
        exact .refused r now
    · cases h
  | reserve n now later =>
    obtain ⟨r, hr, h⟩ := Option.bind_eq_some_iff.1 h
    split at h
    · rename_i hphase
      rcases reserve_cases h with ⟨lane, key, stamp, sticky, p, slot, hready, hslot, rfl⟩ | rfl | rfl
      · exact .sent rfl hr hphase hready hslot
      · exact .finished r (htaken (by simp [Op.times]) _ _)
      · exact .pools s.cfg (htaken (by simp [Op.times]) _ _)
    · cases h
  | connectFailed n now =>
    obtain ⟨r, hr, h⟩ := Option.bind_eq_some_iff.1 h
    split at h
    · rename_i hphase
      rw [connectFailed_eq h]
      exact .cooled hr hphase .connect
    · cases h
  | answered n a now later =>
    obtain ⟨r, hr, h⟩ := Option.bind_eq_some_iff.1 h
    split at h
    · rename_i hphase
      rcases answered_cases h with rfl | ⟨⟨hretry, htime⟩, ⟨hdetail, rfl⟩ | ⟨hdetail, rfl⟩⟩ | rfl
      · exact .resent r
      · exact .exhausted rfl hr hphase hretry htime hdetail
      · exact .cooled hr hphase (.answer hretry htime hdetail)
      · exact .relayed r
    · cases h
  | leave n =>
    obtain ⟨r, -, rfl⟩ := Option.map_eq_some_iff.1 h
    exact .finished r (.same rfl)
  | fetch group now later =>
    rw [fetch_eq h]
    exact .pools s.cfg (htaken (by simp [Op.times]) _ _)
  | fetchFailed g a now =>
    obtain ⟨grant, -, h⟩ := Option.bind_eq_some_iff.1 h
    split at h
    · obtain rfl := Option.some.inj h
      exact .pools s.cfg (.pool (.penalize grant.gen grant.lane (backoffFor a.retryAfter) now) (fun _ _ h => by cases h)
        (fun _ _ _ h => by cases h) rfl)
    · obtain rfl := Option.some.inj h
      exact .pools s.cfg (.same rfl)
  | release g =>
    obtain ⟨pools, hpools, rfl⟩ := Option.map_eq_some_iff.1 h
    exact .pools s.cfg (.pool (.release g) (fun _ _ h => by cases h) (fun _ _ _ h => by cases h) hpools)

theorem Acts.poolsStep (hclock : s.pools.clock ≤ s.clock) (htimes : ∀ t ∈ op.times, s.clock ≤ t) (h : Acts s op s') :
    PoolsStep s.pools op s'.pools := by
  cases h with
  | pools cfg hpools => exact hpools
  | finished r hpools => exact (finish_pools ..).symm ▸ hpools
  | sent hop => exact .taken (hclock.trans (htimes _ (by simp [hop, Op.times]))) (by simp [hop, Op.times])
  | cooled => exact (retry_pools ..).symm ▸ .cooled ..
  | expired => exact .same (finish_pools ..)
  | resent | exhausted => exact .same (retry_pools ..)
  | arrive | passed | admitted | refused | relayed => exact .same rfl

/-! ### Good states -/

/-- The newest pool is as the grants left it, none of them ahead of the clock. -/
structure Good (s : State) : Prop where
  pools : PoolWindow.Inv s.pools
  clock : s.pools.clock ≤ s.clock

theorem Good.start {sc : StoredConfig} (hvalid : sc.validate = .ok ()) (now : Nat) : Good (start sc now) where
  pools := .start (StoredConfig.keysDistinct_of_validate hvalid) now
  clock := Nat.zero_le _

theorem pools_clock {pools pools' : PoolWindow.State} {pop : PoolWindow.Op} (h : PoolWindow.step pools pop = some pools') :
    pools'.clock = pools.clock ∨ ∃ prefer allowed, pop = .reserve prefer allowed pools'.clock := by
  cases pop with
  | reserve prefer allowed now =>
    refine .inr ⟨prefer, allowed, ?_⟩
    simp only [PoolWindow.step] at h
    split at h
    · split at h <;> rw [← Option.some.inj h]
    · cases h
  | release g =>
    left
    simp only [PoolWindow.step, PoolWindow.State.onGen] at h
    split at h
    · cases h
    · split at h
      · cases h
      · rw [← Option.some.inj h]
        dsimp only
        split <;> rfl
  | penalize gen lane backoff now =>
    left
    rw [← Option.some.inj h]
    unfold PoolWindow.State.onGen
    split <;> rfl
  | rebuild specs now =>
    left
    simp only [PoolWindow.step] at h
    split at h
    · rw [← Option.some.inj h]
    · cases h

theorem Good.step (h : Good s) (hs : step unbounded s op = some s') : Good s' := by
  have hle := step_clock hs
  obtain ⟨htimes, s₁, hact, rfl⟩ := step_eq_some hs
  obtain ⟨hlate, -⟩ := List.pairwise_cons.1 htimes
  have hclock := h.clock.trans (hle s.clock List.mem_cons_self)
  cases (act_cases h.clock hlate hact).poolsStep h.clock hlate with
  | same heq => exact ⟨heq ▸ h.pools, heq ▸ hclock⟩
  | save hop hvalid hpop =>
    refine ⟨PoolWindow.step_inv h.pools hpop, ?_⟩
    rcases pools_clock hpop with heq | ⟨prefer, allowed, hpop⟩
    · exact heq.trans_le hclock
    · cases hpop
  | pool pop hop htaken hpop =>
    refine ⟨PoolWindow.step_inv h.pools hpop, ?_⟩
    rcases pools_clock hpop with heq | ⟨prefer, allowed, hpop⟩
    · exact heq.trans_le hclock
    · exact hle _ (List.mem_cons_of_mem _ (htaken _ _ _ hpop))

end

def oneKey : StoredConfig where
  upstream := { nimKeys := [⟨"k0", "root", true, 40⟩] }
  users := [⟨"root", "hash", .superuser, none⟩]

theorem validate_oneKey : oneKey.validate = .ok () := toOption_eq_some (by decide +kernel)

end OpenProxy.Exchange
