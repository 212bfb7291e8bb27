import OpenProxy.Record

/-!
# The in-memory index (`ingest_canonical_sample`, `enrich_canonical_replay`, `rollup` of `history.rs`)

At startup the index of points is rebuilt from the records of the canonical file: each sample, and each
checkpoint with the state of the sample before it, is normalized against the observation before it.
`rollup` answers a dashboard query from the points of a window.
-/

namespace OpenProxy

structure CapacitySnapshot where
  enabledLanes : Nat
  rpms : List Nat
  capacityRpm : Nat
  deriving DecidableEq, Repr

def canonicalCapacity (capacity : CapacitySnapshot) : Capacity :=
  ⟨capacity.capacityRpm, capacity.enabledLanes, capacity.rpms⟩

def capacitySnapshot (capacity : Capacity) : CapacitySnapshot :=
  ⟨capacity.enabledKeys, capacity.keyRpms, capacity.capacityRpm⟩

@[simp] theorem capacitySnapshot_canonicalCapacity (capacity : CapacitySnapshot) :
    capacitySnapshot (canonicalCapacity capacity) = capacity := rfl

structure IndexedPoint (V : Type) where
  t : Nat
  deltas : Series V
  gauges : Series V
  capacity : Option CapacitySnapshot

structure HistoryInner (V : Type) where
  points : List (IndexedPoint V) := []
  availableFrom : Option Nat := none
  availableTo : Option Nat := none
  lastParsed : Option (ParsedSnapshot V) := none
  lastSampleBoot : Option String := none

/-! ### Replay -/

section
variable {V : Type} [F64 V]

/-- The next snapshot comes from another process than the last one. -/
def HistoryInner.resets (inner : HistoryInner V) (bootId : String) : Bool :=
  inner.lastParsed.isSome && inner.lastSampleBoot != some bootId

/-- `cutoff.is_none_or(|cutoff| t >= cutoff)`. -/
def keeps (cutoff : Option Nat) (t : Nat) : Bool := cutoff.all (· ≤ t)

def ingestCanonicalSample (inner : HistoryInner V) (timestamp : Nat) (bootId : String) (capacity : Capacity)
    (current : ParsedSnapshot V) (cutoff : Option Nat) : HistoryInner V :=
  let normalized := normalize inner.lastParsed current (inner.resets bootId)
  let point := ⟨timestamp, normalized.deltas, normalized.gauges, some (capacitySnapshot capacity)⟩
  { inner with
    points := if keeps cutoff timestamp then inner.points ++ [point] else inner.points
    lastParsed := some current
    lastSampleBoot := some bootId }

/-- The loop of `enrich_canonical_replay`. -/
structure Enrich (V : Type) where
  inner : HistoryInner V := {}
  currentBoot : Option String := none
  currentState : Option (List (StateEntry V)) := none

def Enrich.record (e : Enrich V) (cutoff : Option Nat) : Record V → Enrich V
  | .boot r => { e with currentBoot := some r.bootId, currentState := none }
  | .sample r =>
    let current := parsedCanonicalState r.state
    { inner := ingestCanonicalSample e.inner r.timestamp r.bootId r.capacity current cutoff
      currentBoot := some r.bootId
      currentState := some r.state }
  | .checkpoint r =>
    if e.currentBoot == some r.bootId then
      match e.currentState with
      | some state =>
        let current := parsedCanonicalState state
        { e with inner := ingestCanonicalSample e.inner r.timestamp r.bootId r.capacity current cutoff }
      | none => e
    else e

def HistoryInner.setBounds (inner : HistoryInner V) : HistoryInner V :=
  { inner with
    availableFrom := inner.points.head?.map (·.t)
    availableTo := inner.points.getLast?.map (·.t) }

def enrichCanonicalReplay (inner : HistoryInner V) (records : List (Record V)) (cutoff : Option Nat) :
    HistoryInner V :=
  (records.foldl (Enrich.record · cutoff) { inner := inner }).inner.setBounds

/-- The boot of the last sample is one of the records'. -/
theorem lastSampleBoot_foldl {records : List (Record V)} {e : Enrich V} {cutoff : Option Nat} {bootId : String}
    (h : (records.foldl (Enrich.record · cutoff) e).inner.lastSampleBoot = some bootId) :
    e.inner.lastSampleBoot = some bootId ∨ ∃ r ∈ records, r.bootId = bootId := by
  induction records generalizing e with
  | nil => exact .inl h
  | cons r records ih =>
    rcases ih h with h | ⟨r', hr', hid⟩
    · have hrecord : (e.record cutoff r).inner.lastSampleBoot = some bootId →
          e.inner.lastSampleBoot = some bootId ∨ r.bootId = bootId := by
        intro h
        cases r with
        | boot r => exact .inl h
        | sample r => exact .inr (Option.some.inj h)
        | checkpoint r =>
          rw [Enrich.record] at h
          split at h
          · split at h
            · exact .inr (Option.some.inj h)
            · exact .inl h
          · exact .inl h
      rcases hrecord h with h | h
      · exact .inl h
      · exact .inr ⟨r, List.mem_cons_self, h⟩
    · exact .inr ⟨r', List.mem_cons_of_mem _ hr', hid⟩

/-! ### Rollups -/

structure MetricValue (V : Type) where
  metric : String
  labels : Labels
  value : V

structure CapacityRollup (V : Type) where
  averageRpm : V
  latestRpms : List Nat

structure RollupPoint (V : Type) where
  capacity : Option (CapacityRollup V)
  durationSeconds : Nat
  «from» : Nat
  «to» : Nat
  values : List (MetricValue V)

structure Rollup (V : Type) where
  availableFrom : Option Nat
  availableTo : Option Nat
  effectiveFrom : Option Nat
  effectiveTo : Option Nat
  totals : List (MetricValue V)
  latest : List (MetricValue V)
  points : List (RollupPoint V)

structure BucketAccumulator (V : Type) where
  deltas : Series V := ∅
  gauges : Series V := ∅
  «from» : Option Nat := none
  «to» : Option Nat := none
  durationSeconds : Nat := 0
  capacityWeight : V
  capacityDuration : Nat := 0
  knownCapacityDuration : Nat := 0
  latestRpms : List Nat := []

def metricValues (values : Series V) : List (MetricValue V) :=
  values.toList.map fun (key, value) => ⟨key.metric, key.labels, value⟩

def addMetrics (totals values : Series V) : Series V :=
  values.toList.foldl (fun totals (key, value) => totals.alter key fun total => some (total.getD 0 + value)) totals

/-- `BTreeMap::extend`. -/
def extend (values more : Series V) : Series V := values.insertMany more.toList

def BucketAccumulator.finish (b : BucketAccumulator V) : Option (RollupPoint V) := do
  let start ← b.from
  let stop ← b.«to»
  return {
    «from» := start
    «to» := stop
    durationSeconds := b.durationSeconds
    values := metricValues (extend b.deltas b.gauges)
    capacity :=
      if 0 < b.capacityDuration ∧ b.knownCapacityDuration = b.capacityDuration then
        some ⟨b.capacityWeight / F64.ofNat b.capacityDuration, b.latestRpms⟩
      else none }

/-- What a point adds to its bucket; `start` and `stop` bound the interval it stands for. -/
def BucketAccumulator.add (b : BucketAccumulator V) (point : IndexedPoint V) (start stop : Nat) :
    BucketAccumulator V :=
  let duration := stop - start
  let b := { b with
    deltas := addMetrics b.deltas point.deltas
    gauges := extend b.gauges point.gauges
    «from» := some (b.from.elim start (min · start))
    «to» := some (b.«to».elim stop (max · stop))
    durationSeconds := b.durationSeconds + duration
    capacityDuration := b.capacityDuration + duration }
  match point.capacity with
  | none => b
  | some capacity =>
    { b with
      capacityWeight := b.capacityWeight + F64.ofNat capacity.capacityRpm * F64.ofNat duration
      knownCapacityDuration := b.knownCapacityDuration + duration
      latestRpms := capacity.rpms }

/-- The points of a window with their indexes. -/
def HistoryInner.window (inner : HistoryInner V) (lo hi : Nat) : List (IndexedPoint V × Nat) :=
  let first := (inner.points.takeWhile (·.t ≤ lo)).length
  let stop := (inner.points.takeWhile (·.t ≤ hi)).length
  (inner.points.zipIdx.take stop).drop first

def HistoryInner.intervalStart (inner : HistoryInner V) (lo : Nat) (point : IndexedPoint V) (index : Nat) : Nat :=
  -- the first retained sample says nothing about the time before it
  if index = 0 then max point.t lo
  else max ((inner.points[index - 1]?).elim 0 (·.t)) lo

def HistoryInner.addToBuckets (inner : HistoryInner V) (lo hi : Nat) (buckets : List (BucketAccumulator V))
    (p : IndexedPoint V × Nat) : List (BucketAccumulator V) :=
  let budget := buckets.length
  let bucketIndex := min ((p.1.t - lo) * budget / (hi - lo)) (budget - 1)
  buckets.modify bucketIndex fun b => b.add p.1 (inner.intervalStart lo p.1 p.2) (min p.1.t hi)

/-- `rollup`, without its diagnostics and the history revision. -/
def HistoryInner.rollup (inner : HistoryInner V) (lo hi points : Nat) : Rollup V :=
  let empty : Rollup V := ⟨inner.availableFrom, inner.availableTo, none, none, [], [], []⟩
  if hi ≤ lo then empty
  else
    let window := inner.window lo hi
    match window.head?, window.getLast? with
    | some (p, first), some (q, _) =>
      let pointBudget := max 2 (min points 1000)
      let buckets := window.foldl (inner.addToBuckets lo hi) (List.replicate pointBudget { capacityWeight := 0 })
      { empty with
        effectiveFrom :=
          if first = 0 then some p.t else (inner.points[first - 1]?).map fun before => max lo before.t
        effectiveTo := some q.t
        totals := metricValues (window.foldl (fun totals p => addMetrics totals p.1.deltas) ∅)
        latest := metricValues (window.foldl (fun latest p => extend latest p.1.gauges) ∅)
        points := buckets.filterMap BucketAccumulator.finish }
    | _, _ => empty

/-- A rollup depends on the points only. -/
theorem rollup_setBounds {inner inner' : HistoryInner V} (h : inner.points = inner'.points) (lo hi points : Nat) :
    inner.setBounds.rollup lo hi points = inner'.setBounds.rollup lo hi points := by
  obtain ⟨ps, _, _, _, _⟩ := inner
  obtain ⟨_, _, _, _, _⟩ := inner'
  obtain rfl : ps = _ := h
  rfl

end

end OpenProxy
