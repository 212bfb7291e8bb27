import OpenProxy.Skew

/-!
# A range and its tail (`History::rollup`, `History::current` of `history.rs`)

The dashboard adds what was recorded since the last sample to a range that it asked for before. Both answers carry the
revision of the index, which wraps at `u64::MAX`.
-/

namespace OpenProxy.RangeTail

open Lines Transition

section
variable {V : Type} [F64 V]

structure State (V : Type) where
  history : Skew.State V
  revision : UInt64

inductive Op where
  | history (op : Skew.Op)
  /-- `install_canonical_replay_if_unchanged`; `expected` is the revision read before the compaction. -/
  | install (expected : UInt64)

/-- `Enrich.record` calls `ingest_canonical_sample`. -/
def ingests (e : Enrich V) : Record V → Bool
  | .boot _ => false
  | .sample _ => true
  | .checkpoint r => e.currentBoot == some r.bootId && e.currentState.isSome

/-- The revision of a replayed index. -/
def replayRevision (records : List (Record V)) (cutoff : Option Nat) : UInt64 :=
  (records.foldl (fun (p : Enrich V × UInt64) r => (p.1.record cutoff r, if ingests p.1 r then p.2 + 1 else p.2))
    ({}, 0)).2

def openHistory (json : SerdeJson V) (days : Nat) (bytes : Option (List UInt8)) (boot : BootRecord) :
    Except OpenError (State V) := do
  let history ← Skew.openHistory json days bytes boot
  return ⟨history, replayRevision history.store.writer.store.replay.records (Live.cutoffAt days boot.timestamp)⟩

namespace State

/-- The section changes the index: an append always does, a pruning when it removes a point. -/
def changes (s : State V) : Skew.Op → Bool
  | .index _ _ _ => true
  | .prune n => (s.history.prunes[n]?).any fun cutoff =>
    decide (0 < s.history.inner.points.length - (Skew.prune s.history.inner cutoff).points.length)
  | _ => false

end State

/-- One process: nothing compares the revisions of two. -/
def step [DecidableEq V] (json : SerdeJson V) (parseF64 : String → Option V) (s : State V) : Op → Option (State V)
  | .history (.reopen _ _ _ _) => none
  | .history op => (Skew.step json parseF64 s.history op).map fun history =>
    ⟨history, if s.changes op then s.revision + 1 else s.revision⟩
  | .install expected => some (if s.revision = expected then { s with revision := s.revision + 1 } else s)

/-! ### The two answers -/

structure RevisedRollup (V : Type) extends Rollup V where
  historyRevision : UInt64

structure Tail (V : Type) where
  baseHistoryRevision : UInt64
  «from» : Option Nat
  «to» : Nat
  totals : List (MetricValue V)

structure CurrentMetrics (V : Type) where
  availableFrom : Option Nat
  availableTo : Option Nat
  metrics : List (MetricValue V)
  tail : Tail V

namespace State

def rollup (s : State V) (lo hi points : Nat) : RevisedRollup V :=
  { s.history.inner.rollup lo hi points with historyRevision := s.revision }

def bootId (s : State V) : String := s.history.store.writer.store.bootId

def current (s : State V) (parseF64 : String → Option V) (t : Nat) (exposition : String) : CurrentMetrics V :=
  let inner := s.history.inner
  let current := parseExposition parseF64 exposition
  let normalized := normalize inner.lastParsed current (inner.resets s.bootId)
  { availableFrom := inner.availableFrom
    availableTo := inner.availableTo
    metrics := metricValues (extend current.counters current.gauges)
    tail := ⟨s.revision, inner.availableTo, t, metricValues normalized.deltas⟩ }

/-- The timestamp that `append` gives a snapshot read at `t`. -/
def appendTimestamp (s : State V) (t : Nat) (canonicalLast : Option Nat) : Nat :=
  max t (max (s.history.inner.availableTo.getD 0) (canonicalLast.getD 0))

/-- The section of `append` that holds the index, and what it leaves of the state. -/
def append (s : State V) (parseF64 : String → Option V) (t : Nat) (canonicalLast : Option Nat) (exposition : String)
    (capacity : CapacitySnapshot) : State V :=
  let current := parseExposition parseF64 exposition
  let t := s.appendTimestamp t canonicalLast
  { history := { s.history with
      inner := Live.indexSnapshot s.history.inner s.history.days s.bootId t current capacity
      append := .indexed t capacity (canonicalState current) }
    revision := s.revision + 1 }

end State

/-- The value reported for a series; what is not listed did not move. -/
def total (values : List (MetricValue V)) (key : MetricKey) : V :=
  ((values.find? fun v => decide (v.metric = key.metric ∧ v.labels = key.labels)).map (·.value)).getD 0

end

/-! ### Totals -/

section
variable {V : Type} [F64 V]

theorem total_metricValues (values : Series V) (key : MetricKey) :
    total (metricValues values) key = (values[key]?).getD 0 := by
  have hfind : (values.toList.find? fun p => decide (p.1 = key)).map Prod.snd = values[key]? := by
    cases h : values.toList.find? (fun p => decide (p.1 = key)) with
    | none =>
      rw [List.find?_eq_none] at h
      cases hv : values[key]? with
      | none => rfl
      | some v => exact absurd (decide_eq_true rfl) (h _ (Std.ExtTreeMap.mem_toList_iff_getElem?_eq_some.2 hv))
    | some p =>
      obtain ⟨k, v⟩ := p
      have hk : k = key := by simpa using List.find?_some h
      subst hk
      exact (Std.ExtTreeMap.mem_toList_iff_getElem?_eq_some.1 (List.mem_of_find?_eq_some h)).symm
  have hkey : ∀ k : MetricKey, (k.metric = key.metric ∧ k.labels = key.labels) ↔ k = key := by
    intro k
    cases k
    cases key
    simp
  rw [total, metricValues, List.find?_map, ← hfind, Option.map_map]
  simp only [Function.comp_def, hkey]

/-- Entries of other series leave a total alone. -/
theorem getElem?_foldl_alter {key : MetricKey} (entries : List (MetricKey × V)) (totals : Series V)
    (hne : ∀ p ∈ entries, ¬ p.1 = key) :
    (entries.foldl (fun totals (p : MetricKey × V) =>
      totals.alter p.1 fun total => some (total.getD 0 + p.2)) totals)[key]? = totals[key]? := by
  induction entries generalizing totals with
  | nil => rfl
  | cons p entries ih =>
    rw [List.foldl_cons, ih _ fun q hq => hne q (List.mem_cons_of_mem _ hq), Std.ExtTreeMap.getElem?_alter,
      if_neg fun heq => hne p List.mem_cons_self (Std.LawfulEqOrd.eq_of_compare heq)]

/-- A series of the point is added to its total. -/
theorem getElem?_addMetrics {totals values : Series V} {key : MetricKey} {value : V} (h : values[key]? = some value) :
    (addMetrics totals values)[key]? = some ((totals[key]?).getD 0 + value) := by
  have hmem := Std.ExtTreeMap.mem_toList_iff_getElem?_eq_some.2 h
  have hdistinct := values.distinct_keys_toList
  rw [addMetrics]
  generalize values.toList = entries at hmem hdistinct
  induction entries generalizing totals with
  | nil => cases hmem
  | cons p entries ih =>
    rw [List.pairwise_cons] at hdistinct
    rw [List.foldl_cons]
    rcases List.mem_cons.1 hmem with rfl | hmem
    · rw [getElem?_foldl_alter _ _ fun q hq heq => hdistinct.1 q hq (heq ▸ Std.ReflCmp.compare_self),
        Std.ExtTreeMap.getElem?_alter_self]
    · have hne : ¬ compare p.1 key = .eq := hdistinct.1 _ hmem
      rw [ih hmem hdistinct.2, Std.ExtTreeMap.getElem?_alter, if_neg hne]

/-- A series that the point does not have keeps its total. -/
theorem getElem?_addMetrics_of_none {totals values : Series V} {key : MetricKey} (h : values[key]? = none) :
    (addMetrics totals values)[key]? = totals[key]? := by
  refine getElem?_foldl_alter _ _ fun p hp heq => ?_
  have := Std.ExtTreeMap.mem_toList_iff_getElem?_eq_some.1 hp
  rw [heq, h] at this
  cases this

/-- The totals over some points. -/
def totals (points : List (IndexedPoint V)) : Series V := points.foldl (fun totals p => addMetrics totals p.deltas) ∅

theorem totals_concat (points : List (IndexedPoint V)) (point : IndexedPoint V) :
    totals (points ++ [point]) = addMetrics (totals points) point.deltas := List.foldl_append

/-- The totals are over the points of the window. -/
theorem totals_rollup_window {inner : HistoryInner V} {lo hi : Nat} (h : lo < hi) (n : Nat) :
    (inner.rollup lo hi n).totals = metricValues (totals ((inner.window lo hi).map Prod.fst)) := by
  have hnil : metricValues (totals ([] : List (IndexedPoint V))) = [] := by simp [metricValues, totals]
  rw [HistoryInner.rollup]
  dsimp only
  rw [if_neg (Nat.not_le.2 h)]
  split
  · rw [totals, List.foldl_map]
  · rename_i hnone
    have hempty : inner.window lo hi = [] := by
      cases hw : inner.window lo hi with
      | nil => rfl
      | cons p ps =>
        rw [hw] at hnone
        exact absurd List.getLast?_cons (hnone p.1 p.2 _ _ rfl)
    rw [hempty, List.map_nil, hnil]

/-- An empty window has none. -/
theorem totals_rollup_of_le {inner : HistoryInner V} {lo hi : Nat} (h : hi ≤ lo) (n : Nat) :
    (inner.rollup lo hi n).totals = metricValues (totals ([] : List (IndexedPoint V))) := by
  have hnil : metricValues (totals ([] : List (IndexedPoint V))) = [] := by simp [metricValues, totals]
  rw [HistoryInner.rollup, hnil]
  dsimp only
  rw [if_pos h]

/-- A window that reaches the newest point holds what comes after its start. -/
theorem totals_rollup {inner : HistoryInner V} {hi : Nat} (h : ∀ p ∈ inner.points, p.t ≤ hi) (lo n : Nat) :
    (inner.rollup lo hi n).totals = metricValues (totals (inner.points.dropWhile (·.t ≤ lo))) := by
  have hwindow : (inner.window lo hi).map Prod.fst = inner.points.dropWhile (·.t ≤ lo) := by
    have hall : inner.points.takeWhile (·.t ≤ hi) = inner.points := by
      rw [List.takeWhile_eq_self_iff]
      simpa using h
    have hsplit := List.takeWhile_append_dropWhile (p := fun p : IndexedPoint V => decide (p.t ≤ lo)) (l := inner.points)
    rw [HistoryInner.window, List.map_drop, List.map_take, List.zipIdx_map_fst, hall, List.take_length]
    conv_lhs => arg 2; rw [← hsplit]
    exact List.drop_left
  rcases Nat.lt_or_ge lo hi with hlt | hle
  · rw [totals_rollup_window hlt, hwindow]
  · have hdrop : inner.points.dropWhile (·.t ≤ lo) = [] := by
      rw [List.dropWhile_eq_nil_iff]
      exact fun p hp => decide_eq_true ((h p hp).trans hle)
    rw [totals_rollup_of_le hle, hdrop]

end

/-! ### Revisions -/

section
variable {V : Type} [F64 V] [DecidableEq V] {json : SerdeJson V} {parseF64 : String → Option V}

theorem step_history_eq_some {s s' : State V} {op : Skew.Op} (hs : step json parseF64 s (.history op) = some s') :
    Skew.step json parseF64 s.history op = some s'.history ∧
      s'.revision = if s.changes op then s.revision + 1 else s.revision := by
  cases op with
  | reopen days timestamp bootId capacity => cases hs
  | read | index _ _ _ | store _ | reconfigure _ _ | prune _ | compact _ _ _ _ =>
    simp only [step, Option.map_eq_some_iff] at hs
    obtain ⟨history, hstep, rfl⟩ := hs
    exact ⟨hstep, rfl⟩

theorem ordered_step {s s' : State V} {op : Op} (h : Skew.Ordered s.history.inner)
    (hs : step json parseF64 s op = some s') : Skew.Ordered s'.history.inner := by
  cases op with
  | history op => exact Skew.ordered_step h (step_history_eq_some hs).1
  | install expected =>
    obtain rfl := Option.some.inj hs
    split <;> exact h

omit [F64 V] [DecidableEq V] in
/-- A pruning that removes nothing leaves the index as it is. -/
theorem prune_eq_self {inner : HistoryInner V} (h : Skew.Ordered inner) {cutoff : Nat}
    (hlength : ¬ 0 < inner.points.length - (Skew.prune inner cutoff).points.length) :
    Skew.prune inner cutoff = inner := by
  have hpoints : inner.points.filter (cutoff ≤ ·.t) = inner.points := by
    refine List.filter_sublist.eq_of_length_le ?_
    have : (Skew.prune inner cutoff).points = inner.points.filter (cutoff ≤ ·.t) := rfl
    rw [← this]
    omega
  have hbounds : inner.setBounds = inner := by
    rw [HistoryInner.setBounds, ← h.availableFrom, ← h.availableTo]
  rw [Skew.prune, hpoints]
  exact hbounds

/-- Each step counts the revision on, or leaves the index as it is. -/
theorem step_revision {s s' : State V} {op : Op} (h : Skew.Ordered s.history.inner)
    (hs : step json parseF64 s op = some s') : s'.revision = s.revision + 1 ∨
      s'.revision = s.revision ∧ s'.history.inner = s.history.inner := by
  cases op with
  | install expected =>
    obtain rfl := Option.some.inj hs
    split
    · exact .inl rfl
    · exact .inr ⟨rfl, rfl⟩
  | history op =>
    obtain ⟨hstep, hrevision⟩ := step_history_eq_some hs
    rw [hrevision]
    split
    · exact .inl rfl
    rename_i hchanges
    refine .inr ⟨rfl, ?_⟩
    cases op with
    | read =>
      rw [Skew.step] at hstep
      split at hstep
      · rw [← Option.some.inj hstep]
      · cases hstep
    | index t snapshot capacity => exact absurd rfl hchanges
    | store fault =>
      rw [Skew.step] at hstep
      split at hstep
      · obtain ⟨store, -, hstore⟩ := Option.map_eq_some_iff.1 hstep
        rw [← hstore]
      · cases hstep
    | reconfigure days now => rw [← Option.some.inj hstep]
    | prune n =>
      obtain ⟨cutoff, hcutoff, hprune⟩ := Option.map_eq_some_iff.1 hstep
      rw [← hprune]
      refine prune_eq_self h fun hlength => hchanges ?_
      rw [State.changes, hcutoff]
      exact decide_eq_true hlength
    | compact t days authorized fault =>
      rw [Skew.step] at hstep
      split at hstep
      · obtain ⟨store, -, hstore⟩ := Option.map_eq_some_iff.1 hstep
        rw [← hstore]
      · cases hstep
    | reopen days timestamp bootId capacity => cases hs

/-- A run counts the revision on as often as it says, and leaves the index as it is if that is never. -/
theorem exec_revision {s s' : State V} {ops : List Op} (h : Skew.Ordered s.history.inner)
    (hs : exec (step json parseF64) s ops = some s') : ∃ k ≤ ops.length,
      s'.revision = s.revision + UInt64.ofNat k ∧ (k = 0 → s'.history.inner = s.history.inner) := by
  induction ops generalizing s with
  | nil =>
    obtain rfl := Option.some.inj hs
    exact ⟨0, le_rfl, (UInt64.add_zero _).symm, fun _ => rfl⟩
  | cons op ops ih =>
    obtain ⟨t, hstep, hrest⟩ := exec_cons_eq_some.1 hs
    obtain ⟨k, hk, hrevision, hinner⟩ := ih (ordered_step h hstep) hrest
    rcases step_revision h hstep with hcounted | ⟨hsame, hinner'⟩
    · refine ⟨k + 1, Nat.succ_le_succ hk, ?_, nofun⟩
      rw [hrevision, hcounted, UInt64.add_assoc, UInt64.add_comm 1, UInt64.ofNat_add]
      rfl
    · exact ⟨k, hk.trans (Nat.le_succ _), hrevision.trans (by rw [hsame]), fun h0 => (hinner h0).trans hinner'⟩

/-- Within 2^64 steps one revision is one index. -/
theorem inner_eq_of_revision_eq {s s' : State V} {ops : List Op} (h : Skew.Ordered s.history.inner)
    (hs : exec (step json parseF64) s ops = some s') (hlength : ops.length < 2 ^ 64)
    (hrevision : s'.revision = s.revision) : s'.history.inner = s.history.inner := by
  obtain ⟨k, hk, hcount, hinner⟩ := exec_revision h hs
  refine hinner ?_
  have hzero : UInt64.ofNat k = 0 := by
    rw [hrevision] at hcount
    exact left_eq_add.1 hcount
  have hmod : k % 2 ^ 64 = 0 := by
    have := congrArg UInt64.toNat hzero
    simpa using this
  omega

/-! ### Range and tail -/

omit [DecidableEq V] in
/-- The tail of a snapshot is what appending it adds to a range that reaches the newest point. -/
theorem total_append {s : State V} (h : Skew.Ordered s.history.inner) {lo hi hi' n t t' : Nat}
    {canonicalLast : Option Nat} {exposition : String} {capacity : CapacitySnapshot}
    (hnewest : ∀ newest ∈ s.history.inner.availableTo, newest ≤ hi)
    (hkept : ∀ p ∈ s.history.inner.points,
      keeps (Live.cutoffAt s.history.days (s.appendTimestamp t' canonicalLast)) p.t)
    (hlo : lo < s.appendTimestamp t' canonicalLast) (hhi : s.appendTimestamp t' canonicalLast ≤ hi')
    {key : MetricKey} (hkey : key ∈ (parseExposition parseF64 exposition).counters) :
    total (s.rollup lo hi n).totals key + total (s.current parseF64 t exposition).tail.totals key =
      total ((s.append parseF64 t' canonicalLast exposition capacity).rollup lo hi' n).totals key := by
  set current := parseExposition parseF64 exposition with hcurrent
  set normalized := normalize s.history.inner.lastParsed current (s.history.inner.resets s.bootId) with hnormalized
  set appended := s.append parseF64 t' canonicalLast exposition capacity with happended
  let point : IndexedPoint V :=
    ⟨s.appendTimestamp t' canonicalLast, normalized.deltas, normalized.gauges, some capacity⟩
  have hle : ∀ p ∈ s.history.inner.points, p.t ≤ s.appendTimestamp t' canonicalLast := fun p hp =>
    (h.le_availableTo p hp).trans ((le_max_left _ _).trans (le_max_right _ _))
  have hall : ∀ p ∈ s.history.inner.points, p.t ≤ hi := by
    intro p hp
    obtain ⟨newest, hto⟩ : ∃ newest, s.history.inner.availableTo = some newest := by
      rw [h.availableTo]
      cases hl : s.history.inner.points.getLast? with
      | none =>
        rw [List.getLast?_eq_none_iff.1 hl] at hp
        cases hp
      | some q => exact ⟨q.t, rfl⟩
    have hp := h.le_availableTo p hp
    rw [hto] at hp
    exact hp.trans (hnewest newest hto)
  have hpoints : appended.history.inner.points = s.history.inner.points ++ [point] := by
    have hfilter : s.history.inner.points.filter
        (keeps (Live.cutoffAt s.history.days (s.appendTimestamp t' canonicalLast)) ·.t) = s.history.inner.points :=
      List.filter_eq_self.2 hkept
    show s.history.inner.points.filter
        (keeps (Live.cutoffAt s.history.days (s.appendTimestamp t' canonicalLast)) ·.t) ++ [point] = _
    rw [hfilter]
  have hall' : ∀ p ∈ appended.history.inner.points, p.t ≤ hi' := by
    intro p hp
    rw [hpoints] at hp
    rcases List.mem_append.1 hp with hp | hp
    · exact (hle p hp).trans hhi
    · rw [List.mem_singleton.1 hp]
      exact hhi
  -- the new point comes after the start of the window, so that dropping stops before it
  have hdrop : appended.history.inner.points.dropWhile (·.t ≤ lo) =
      s.history.inner.points.dropWhile (·.t ≤ lo) ++ [point] := by
    have hstop : [point].dropWhile (·.t ≤ lo) = [point] := by
      rw [List.dropWhile_cons, if_neg]
      simpa using hlo
    rw [hpoints, List.dropWhile_append]
    split
    · rename_i hempty
      rw [List.isEmpty_iff.1 hempty, hstop]
      rfl
    · rfl
  obtain ⟨value, hvalue⟩ : ∃ value, normalized.deltas[key]? = some value := by
    refine ⟨_, Std.ExtTreeMap.getElem?_eq_some_getElem ?_⟩
    rw [hnormalized, normalize]
    exact Std.ExtTreeMap.mem_map.2 hkey
  have htail : total (s.current parseF64 t exposition).tail.totals key = value := by
    show total (metricValues normalized.deltas) key = value
    rw [total_metricValues, hvalue, Option.getD_some]
  rw [htail]
  show total (s.history.inner.rollup lo hi n).totals key + value = total (appended.history.inner.rollup lo hi' n).totals key
  rw [totals_rollup hall, totals_rollup hall', hdrop, totals_concat, total_metricValues, total_metricValues,
    getElem?_addMetrics hvalue, Option.getD_some]

omit [DecidableEq V] in
theorem ordered_openHistory {days : Nat} {bytes : Option (List UInt8)} {boot : BootRecord} {s : State V}
    (hopen : openHistory json days bytes boot = .ok s) : Skew.Ordered s.history.inner := by
  obtain ⟨history, hhistory, hs⟩ := bind_eq_ok.1 hopen
  obtain rfl := Except.ok.inj hs
  exact Skew.ordered_openHistory hhistory

/-- Two states of a run that have one revision have one index. -/
theorem inner_eq_of_take {s a b : State V} (h : Skew.Ordered s.history.inner) {ops : List Op}
    (hlength : ops.length < 2 ^ 64) {i j : Nat} (hij : i ≤ j)
    (ha : exec (step json parseF64) s (ops.take i) = some a) (hb : exec (step json parseF64) s (ops.take j) = some b)
    (hrevision : b.revision = a.revision) : b.history.inner = a.history.inner := by
  have hsplit : ops.take j = ops.take i ++ (ops.take j).drop i := by
    conv_lhs => rw [← List.take_append_drop i (ops.take j), List.take_take, min_eq_left hij]
  have hordered : Skew.Ordered a.history.inner :=
    exec_invariant (I := fun s => Skew.Ordered s.history.inner) (fun _ _ _ h hstep => ordered_step h hstep) h ha
  rw [hsplit, exec_append_eq_some] at hb
  obtain ⟨a', ha', hb⟩ := hb
  obtain rfl : a = a' := Option.some.inj (ha.symm.trans ha')
  refine inner_eq_of_revision_eq hordered hb (lt_of_le_of_lt ?_ hlength) hrevision
  rw [List.length_drop, List.length_take]
  omega

/-- A range and a tail of one process that carry one revision are of one index and one baseline. If the range reaches
the newest point and starts before the snapshot, and appending it would prune nothing, they add up to the range with
the snapshot in it, whatever the arithmetic. -/
theorem range_tail {days : Nat} {bytes : Option (List UInt8)} {boot : BootRecord} {s₀ : State V}
    (hopen : openHistory json days bytes boot = .ok s₀) {ops : List Op} (hlength : ops.length < 2 ^ 64) {i j : Nat}
    {a b : State V} (ha : exec (step json parseF64) s₀ (ops.take i) = some a)
    (hb : exec (step json parseF64) s₀ (ops.take j) = some b) {lo hi n t : Nat} {exposition : String}
    (hnewest : ∀ newest ∈ a.history.inner.availableTo, newest ≤ hi)
    (hrevision : (a.rollup lo hi n).historyRevision = (b.current parseF64 t exposition).tail.baseHistoryRevision) :
    a.history.inner = b.history.inner ∧
      ∀ t' canonicalLast capacity hi',
        (∀ p ∈ b.history.inner.points,
          keeps (Live.cutoffAt b.history.days (b.appendTimestamp t' canonicalLast)) p.t) →
        lo < b.appendTimestamp t' canonicalLast → b.appendTimestamp t' canonicalLast ≤ hi' →
        ∀ key ∈ (parseExposition parseF64 exposition).counters,
          total (a.rollup lo hi n).totals key + total (b.current parseF64 t exposition).tail.totals key =
            total ((b.append parseF64 t' canonicalLast exposition capacity).rollup lo hi' n).totals key := by
  have h₀ := ordered_openHistory hopen
  have hinner : a.history.inner = b.history.inner := by
    rcases le_total i j with hij | hij
    · exact (inner_eq_of_take h₀ hlength hij ha hb hrevision.symm).symm
    · exact inner_eq_of_take h₀ hlength hij hb ha hrevision
  refine ⟨hinner, fun t' canonicalLast capacity hi' hkept hlo hhi key hkey => ?_⟩
  have hordered : Skew.Ordered b.history.inner :=
    exec_invariant (I := fun s => Skew.Ordered s.history.inner) (fun _ _ _ h hstep => ordered_step h hstep) h₀ hb
  have htotals : (a.rollup lo hi n).totals = (b.rollup lo hi n).totals := by
    show (a.history.inner.rollup lo hi n).totals = (b.history.inner.rollup lo hi n).totals
    rw [hinner]
  rw [hinner] at hnewest
  rw [htotals]
  exact total_append hordered hnewest hkept hlo hhi hkey

end

/-! ### A sample and a tail -/

def fiveSampled : List Op :=
  [.history .read, .history (.index 90000 "n_total 5" Live.oneKey), .history (.store none), .install 1, .install 7]

def nTotal : MetricKey := ⟨"n_total", ∅⟩

/-- The sample has 5, and the tail the 2 that came since. -/
theorem range_tail_seven :
    ∃ s₀ s, openHistory (.table Skew.skewed) 0 none ⟨90000, "a", ⟨40, 1, [40]⟩⟩ = .ok s₀ ∧
      exec (step (.table Skew.skewed) Live.naturalNumber) s₀ fiveSampled = some s ∧
      total (s.rollup 0 90000 2).totals nTotal = 5 ∧
      total (s.rollup 0 90000 2).totals nTotal +
          total (s.current Live.naturalNumber 90005 "n_total 7").tail.totals nTotal =
        total ((s.append Live.naturalNumber 90005 (some 90000) "n_total 7" Live.oneKey).rollup 0 90005 2).totals
          nTotal := by
  have hrun : (openHistory (.table Skew.skewed) 0 none ⟨90000, "a", ⟨40, 1, [40]⟩⟩).toOption.any (fun s₀ =>
      (exec (step (.table Skew.skewed) Live.naturalNumber) s₀ fiveSampled).any fun s => decide (
        total (s.rollup 0 90000 2).totals nTotal = 5 ∧ s.history.inner.availableTo = some 90000 ∧
          s.history.days = 0 ∧ s.appendTimestamp 90005 (some 90000) = 90005)) = true := by decide +kernel
  obtain ⟨s₀, hopen, hrun⟩ := (Option.any_eq_true ..).1 hrun
  obtain ⟨s, hs, hrun⟩ := (Option.any_eq_true ..).1 hrun
  obtain ⟨hfive, hto, hdays, ht⟩ := of_decide_eq_true hrun
  have hopen := toOption_eq_some hopen
  have hnewest : ∀ newest ∈ s.history.inner.availableTo, newest ≤ 90000 := by
    rw [hto]
    exact fun newest hnewest => (Option.some.inj hnewest).ge
  have hlast : exec (step (.table Skew.skewed) Live.naturalNumber) s₀ (fiveSampled.take 5) = some s := hs
  have hrevision : (s.rollup 0 90000 2).historyRevision =
      (s.current Live.naturalNumber 90005 "n_total 7").tail.baseHistoryRevision := rfl
  obtain ⟨-, hsum⟩ := range_tail hopen (by decide) hlast hlast hnewest hrevision
  refine ⟨s₀, s, hopen, hs, hfive, hsum 90005 (some 90000) Live.oneKey 90005 (fun p _ => ?_) ?_ ht.le nTotal ?_⟩
  · rw [hdays]
    rfl
  · rw [ht]
    decide
  · decide +kernel

/-- A range that starts after the snapshot does not show what the tail does. -/
theorem not_range_tail_later :
    ∃ s₀ s, openHistory (.table Skew.skewed) 0 none ⟨90000, "a", ⟨40, 1, [40]⟩⟩ = .ok s₀ ∧
      exec (step (.table Skew.skewed) Live.naturalNumber) s₀ fiveSampled = some s ∧
      (∀ newest ∈ s.history.inner.availableTo, newest ≤ 90020) ∧
      (s.rollup 90010 90020 2).historyRevision =
        (s.current Live.naturalNumber 90005 "n_total 7").tail.baseHistoryRevision ∧
      (∀ p ∈ s.history.inner.points,
        keeps (Live.cutoffAt s.history.days (s.appendTimestamp 90005 (some 90000))) p.t) ∧
      s.appendTimestamp 90005 (some 90000) ≤ 90020 ∧
      nTotal ∈ (parseExposition Live.naturalNumber "n_total 7").counters ∧
      total (s.rollup 90010 90020 2).totals nTotal +
          total (s.current Live.naturalNumber 90005 "n_total 7").tail.totals nTotal ≠
        total ((s.append Live.naturalNumber 90005 (some 90000) "n_total 7" Live.oneKey).rollup 90010 90020 2).totals
          nTotal := by
  have hrun : (openHistory (.table Skew.skewed) 0 none ⟨90000, "a", ⟨40, 1, [40]⟩⟩).toOption.any (fun s₀ =>
      (exec (step (.table Skew.skewed) Live.naturalNumber) s₀ fiveSampled).any fun s => decide (
        (∀ newest ∈ s.history.inner.availableTo, newest ≤ 90020) ∧
        (∀ p ∈ s.history.inner.points,
          keeps (Live.cutoffAt s.history.days (s.appendTimestamp 90005 (some 90000))) p.t) ∧
        s.appendTimestamp 90005 (some 90000) ≤ 90020 ∧
        total (s.rollup 90010 90020 2).totals nTotal +
            total (s.current Live.naturalNumber 90005 "n_total 7").tail.totals nTotal ≠
          total ((s.append Live.naturalNumber 90005 (some 90000) "n_total 7" Live.oneKey).rollup 90010 90020 2).totals
            nTotal)) = true := by decide +kernel
  obtain ⟨s₀, hopen, hrun⟩ := (Option.any_eq_true ..).1 hrun
  obtain ⟨s, hs, hrun⟩ := (Option.any_eq_true ..).1 hrun
  obtain ⟨hnewest, hkept, hhi, hsum⟩ := of_decide_eq_true hrun
  have hopen := toOption_eq_some hopen
  exact ⟨s₀, s, hopen, hs, hnewest, rfl, hkept, hhi, by decide +kernel, hsum⟩

end OpenProxy.RangeTail
