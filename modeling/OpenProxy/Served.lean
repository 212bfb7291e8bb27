import OpenProxy.Buckets
import OpenProxy.Dashboard
import OpenProxy.Settings
import OpenProxy.Telescope

/-!
# What the dashboard draws of a history (`api_dashboard` of `lib.rs`, `rangeSamples` of `shared.js`)

The server answers with a range of its index and with the tail of the current snapshot. If no series is a counter in
one snapshot and a gauge in another, then what the browser makes of a range and a tail of one revision is what the
server would answer once it had recorded the snapshot.
-/

namespace OpenProxy.Served

open RangeTail Buckets Dashboard Transition

/-! ### Sound series -/

section
variable (gauge : MetricKey → Prop)

/-- Counters and gauges are apart, have texts of their own, and nothing is counted below zero. -/
structure Sound (counters gauges : Series ℚ) : Prop where
  counters : ∀ (key : MetricKey) (value : ℚ), counters[key]? = some value → Plain key ∧ ¬ gauge key ∧ 0 ≤ value
  gauges : ∀ (key : MetricKey) (value : ℚ), gauges[key]? = some value → Plain key ∧ gauge key

def SoundSnapshot (p : ParsedSnapshot ℚ) : Prop := Sound gauge p.counters p.gauges

def SoundPoints (inner : HistoryInner ℚ) : Prop := ∀ p ∈ inner.points, Sound gauge p.deltas p.gauges

def SoundRecord : Record ℚ → Prop
  | .sample r => SoundSnapshot gauge (parsedCanonicalState r.state)
  | .boot _ | .checkpoint _ => True

/-- The snapshots that are appended are sound. -/
def SoundOp (parseF64 : String → Option ℚ) : Op → Prop
  | .history (.index _ exposition _) => SoundSnapshot gauge (parseExposition parseF64 exposition)
  | _ => True

end

section
variable {gauge : MetricKey → Prop}

/-- A delta that is not taken for a reset is at worst a rounding error, which counts as nothing. -/
theorem delta_nonneg {previous current : ParsedSnapshot ℚ} (hdrops : drops previous current = false) {key : MetricKey}
    {value : ℚ} (hvalue : current.counters[key]? = some value) (hnonneg : 0 ≤ value) :
    0 ≤ delta (previous.counters[key]?) value := by
  cases hbefore : previous.counters[key]? with
  | none => exact hnonneg
  | some before =>
    rw [drops, List.any_eq_false] at hdrops
    have hkept := hdrops (key, value) (Std.ExtTreeMap.mem_toList_iff_getElem?_eq_some.2 hvalue)
    dsimp only at hkept
    rw [hbefore] at hkept
    have hle : -(1 / 2 ^ 52) ≤ value - before := by
      rw [← not_lt]
      intro hlt
      exact hkept (decide_eq_true hlt)
    show 0 ≤ if (decide (-(1 / 2 ^ 52) ≤ value - before) && decide (value - before < 0)) = true then 0 else value - before
    rw [decide_eq_true hle, Bool.true_and]
    split
    · exact le_rfl
    · rename_i hlt
      exact not_lt.1 fun h => hlt (decide_eq_true h)

/-- The deltas of a sound snapshot are sound, whatever came before it. -/
theorem Sound.normalize {current : ParsedSnapshot ℚ} (h : SoundSnapshot gauge current)
    (previous : Option (ParsedSnapshot ℚ)) (reset : Bool) :
    Sound gauge (normalize previous current reset).deltas (normalize previous current reset).gauges := by
  refine ⟨fun key value hvalue => ?_, h.gauges⟩
  rw [Shape.getElem?_deltas] at hvalue
  obtain ⟨total, htotal, rfl⟩ := Option.map_eq_some_iff.1 hvalue
  obtain ⟨hplain, hcounter, hnonneg⟩ := h.counters key total htotal
  refine ⟨hplain, hcounter, ?_⟩
  split
  · exact hnonneg
  · rename_i hepoch
    rw [Bool.not_eq_true, Bool.or_eq_false_iff] at hepoch
    cases previous with
    | none => exact hnonneg
    | some previous =>
      refine delta_nonneg ?_ htotal hnonneg
      have hinferred : (!reset && drops previous current) = false := hepoch.2
      rwa [hepoch.1, Bool.not_false, Bool.true_and] at hinferred

variable {inner : HistoryInner ℚ}

theorem SoundPoints.ingest (h : SoundPoints gauge inner) (timestamp : Nat) (bootId : String) (capacity : Capacity)
    {current : ParsedSnapshot ℚ} (hcurrent : SoundSnapshot gauge current) (cutoff : Option Nat) :
    SoundPoints gauge (ingestCanonicalSample inner timestamp bootId capacity current cutoff) := by
  intro p hp
  simp only [ingestCanonicalSample] at hp
  split at hp
  · rcases List.mem_append.1 hp with hp | hp
    · exact h p hp
    · rw [List.mem_singleton.1 hp]
      exact Sound.normalize hcurrent _ _
  · exact h p hp

theorem SoundPoints.index (h : SoundPoints gauge inner) (days : Nat) (bootId : String) (t : Nat)
    {current : ParsedSnapshot ℚ} (hcurrent : SoundSnapshot gauge current) (capacity : CapacitySnapshot) :
    SoundPoints gauge (Live.indexSnapshot inner days bootId t current capacity) := by
  intro p hp
  rcases List.mem_append.1 hp with hp | hp
  · exact h p (List.mem_filter.1 hp).1
  · rw [List.mem_singleton.1 hp]
    exact Sound.normalize hcurrent _ _

theorem SoundPoints.prune (h : SoundPoints gauge inner) (cutoff : Nat) : SoundPoints gauge (Skew.prune inner cutoff) :=
  fun p hp => h p (List.mem_filter.1 hp).1

/-- A checkpoint is ingested with the state of the sample before it. -/
structure SoundEnrich (gauge : MetricKey → Prop) (e : Enrich ℚ) : Prop where
  points : SoundPoints gauge e.inner
  state : ∀ state ∈ e.currentState, SoundSnapshot gauge (parsedCanonicalState state)

theorem SoundEnrich.record {e : Enrich ℚ} (h : SoundEnrich gauge e) (cutoff : Option Nat) {r : Record ℚ}
    (hr : SoundRecord gauge r) : SoundEnrich gauge (e.record cutoff r) := by
  cases r with
  | boot r => exact ⟨h.points, fun _ h => by cases h⟩
  | sample r =>
    refine ⟨h.points.ingest _ _ _ hr _, fun state hstate => ?_⟩
    obtain rfl := Option.some.inj hstate
    exact hr
  | checkpoint r =>
    rw [Enrich.record]
    split
    · split
      · rename_i state hstate
        exact ⟨h.points.ingest _ _ _ (h.state state hstate) _, h.state⟩
      · exact h
    · exact h

theorem soundPoints_open {json : SerdeJson ℚ} {days : Nat} {bytes : Option (List UInt8)} {boot : BootRecord}
    {s : State ℚ} (hopen : RangeTail.openHistory json days bytes boot = .ok s)
    (hrecords : ∀ r ∈ s.history.store.writer.store.replay.records, SoundRecord gauge r) :
    SoundPoints gauge s.history.inner := by
  obtain ⟨history, hhistory, hs⟩ := bind_eq_ok.1 hopen
  obtain rfl := Except.ok.inj hs
  obtain ⟨writer, -, hs⟩ := bind_eq_ok.1 hhistory
  obtain rfl := Except.ok.inj hs
  have hrecords : ∀ r ∈ writer.store.replay.records, SoundRecord gauge r := hrecords
  have hfold : ∀ (records : List (Record ℚ)) (e : Enrich ℚ) (cutoff : Option Nat), SoundEnrich gauge e →
      (∀ r ∈ records, SoundRecord gauge r) → SoundEnrich gauge (records.foldl (Enrich.record · cutoff) e) := by
    intro records
    induction records with
    | nil => exact fun _ _ he _ => he
    | cons r records ih =>
      intro e cutoff he hr
      rw [List.forall_mem_cons] at hr
      exact ih _ _ (he.record cutoff hr.1) hr.2
  exact (hfold _ _ _ ⟨fun p hp => absurd hp List.not_mem_nil, fun _ h => by cases h⟩ hrecords).points

theorem soundPoints_step {json : SerdeJson ℚ} {parseF64 : String → Option ℚ} {s s' : State ℚ} {op : Op}
    (h : SoundPoints gauge s.history.inner) (hop : SoundOp gauge parseF64 op)
    (hs : step json parseF64 s op = some s') : SoundPoints gauge s'.history.inner := by
  cases op with
  | install expected =>
    obtain rfl := Option.some.inj hs
    split <;> exact h
  | history op =>
    obtain ⟨hstep, -⟩ := step_history_eq_some hs
    cases op with
    | read =>
      rw [Skew.step] at hstep
      split at hstep
      · rw [← Option.some.inj hstep]
        exact h
      · cases hstep
    | index t exposition capacity =>
      rw [Skew.step] at hstep
      split at hstep
      · rw [← Option.some.inj hstep]
        exact h.index _ _ _ hop _
      · cases hstep
    | store fault =>
      rw [Skew.step] at hstep
      split at hstep
      · obtain ⟨store, -, hstore⟩ := Option.map_eq_some_iff.1 hstep
        rw [← hstore]
        exact h
      · cases hstep
    | reconfigure days now =>
      rw [← Option.some.inj hstep]
      exact h
    | prune n =>
      obtain ⟨cutoff, -, hprune⟩ := Option.map_eq_some_iff.1 hstep
      rw [← hprune]
      exact h.prune cutoff
    | compact t days authorized fault =>
      rw [Skew.step] at hstep
      split at hstep
      · obtain ⟨store, -, hstore⟩ := Option.map_eq_some_iff.1 hstep
        rw [← hstore]
        exact h
      · cases hstep
    | reopen days timestamp bootId capacity => cases hs

end

/-! ### Values of a series -/

theorem mem_metricValues {values : Series ℚ} {r : Row} : r ∈ metricValues values ↔ values[identity r]? = some r.value := by
  rw [metricValues, List.mem_map, ← Std.ExtTreeMap.mem_toList_iff_getElem?_eq_some]
  constructor
  · rintro ⟨⟨key, value⟩, hmem, rfl⟩
    exact hmem
  · exact fun hmem => ⟨(identity r, r.value), hmem, rfl⟩

theorem map_identity_metricValues (values : Series ℚ) : (metricValues values).map identity = values.keys := by
  rw [metricValues, List.map_map, ← Std.ExtTreeMap.map_fst_toList_eq_keys]
  rfl

theorem nodup_metricValues (values : Series ℚ) : ((metricValues values).map identity).Nodup := by
  rw [map_identity_metricValues]
  exact values.nodup_keys

/-- What is listed once is the sum of its rows. -/
theorem valueIn_eq_total {rows : List Row} (h : (rows.map identity).Nodup) (key : MetricKey) :
    valueIn rows key = total rows key := by
  induction rows with
  | nil => rfl
  | cons r rows ih =>
    rw [List.map_cons, List.nodup_cons] at h
    rw [valueIn_cons, total, List.find?_cons]
    by_cases hr : identity r = key
    · subst hr
      have hrest : rowsIn rows (identity r) = [] := by
        rw [rowsIn, List.filter_eq_nil_iff]
        intro r' hr' heq
        exact h.1 (of_decide_eq_true heq ▸ List.mem_map_of_mem hr')
      rw [if_pos rfl, valueIn, hrest, decide_eq_true ⟨rfl, rfl⟩]
      exact add_zero _
    · have hne : ¬ (r.metric = key.metric ∧ r.labels = key.labels) := by
        rintro ⟨hmetric, hlabels⟩
        exact hr (by rw [identity, hmetric, hlabels])
      rw [if_neg hr, zero_add, decide_eq_false hne, ih h.2]
      rfl

theorem valueIn_metricValues (values : Series ℚ) (key : MetricKey) :
    valueIn (metricValues values) key = valueOf values key := by
  rw [valueIn_eq_total (nodup_metricValues values), total_eq]

theorem extend_of_some {values more : Series ℚ} {key : MetricKey} {value : ℚ} (h : more[key]? = some value) :
    (extend values more)[key]? = some value :=
  Std.ExtTreeMap.getElem?_insertMany_list_of_mem Std.ReflCmp.compare_self Std.ExtTreeMap.distinct_keys_toList
    (Std.ExtTreeMap.mem_toList_iff_getElem?_eq_some.2 h)

theorem extend_of_none {values more : Series ℚ} {key : MetricKey} (h : more[key]? = none) :
    (extend values more)[key]? = values[key]? := by
  refine extend_of_notMem fun hmem => ?_
  rw [Std.ExtTreeMap.mem_iff_isSome_getElem?, h] at hmem
  cases hmem

theorem getElem?_extend (values more : Series ℚ) (key : MetricKey) :
    (extend values more)[key]? = (more[key]?).or values[key]? := by
  cases h : more[key]? with
  | none => exact extend_of_none h
  | some value => exact extend_of_some h

/-- The newest gauges of some points. -/
def latest (points : List (IndexedPoint ℚ)) : Series ℚ := points.foldl (fun latest p => extend latest p.gauges) ∅

/-- The gauge of the last point that has it. -/
def newestGauge (points : List (IndexedPoint ℚ)) (key : MetricKey) : Option ℚ :=
  (points.filterMap (·.gauges[key]?)).getLast?

theorem getElem?_latest (points : List (IndexedPoint ℚ)) (key : MetricKey) :
    (latest points)[key]? = newestGauge points key := by
  induction points using List.reverseRecOn with
  | nil => exact Std.ExtTreeMap.getElem?_empty
  | append_singleton points p ih =>
    have hlatest : latest (points ++ [p]) = extend (latest points) p.gauges := List.foldl_append
    rw [hlatest, getElem?_extend, ih, newestGauge, newestGauge, List.filterMap_append, List.getLast?_append,
      List.filterMap_cons]
    cases p.gauges[key]? <;> rfl

section
variable {gauge : MetricKey → Prop} {deltas deltas' gauges gauges' : Series ℚ}

theorem Sound.merge (h : Sound gauge deltas gauges) (h' : Sound gauge deltas' gauges') :
    Sound gauge (addMetrics deltas deltas') (extend gauges gauges') := by
  constructor
  · intro key value hvalue
    cases hmore : deltas'[key]? with
    | none =>
      rw [getElem?_addMetrics_of_none hmore] at hvalue
      exact h.counters key value hvalue
    | some more =>
      obtain ⟨hplain, hcounter, hnonneg⟩ := h'.counters key more hmore
      rw [getElem?_addMetrics hmore] at hvalue
      obtain rfl := Option.some.inj hvalue
      refine ⟨hplain, hcounter, add_nonneg ?_ hnonneg⟩
      cases hbefore : deltas[key]? with
      | none => exact le_rfl
      | some before => exact (h.counters key before hbefore).2.2
  · intro key value hvalue
    rw [getElem?_extend, Option.or_eq_some_iff] at hvalue
    rcases hvalue with hvalue | ⟨-, hvalue⟩
    · exact h'.gauges key value hvalue
    · exact h.gauges key value hvalue

theorem sound_empty : Sound gauge ∅ ∅ where
  counters key value hvalue := by
    rw [Std.ExtTreeMap.getElem?_empty] at hvalue
    cases hvalue
  gauges key value hvalue := by
    rw [Std.ExtTreeMap.getElem?_empty] at hvalue
    cases hvalue

/-- What some sound points say together. -/
theorem Sound.points {points : List (IndexedPoint ℚ)} (h : ∀ p ∈ points, Sound gauge p.deltas p.gauges) :
    Sound gauge (totals points) (latest points) := by
  induction points using List.reverseRecOn with
  | nil => exact sound_empty
  | append_singleton points p ih =>
    have hlatest : latest (points ++ [p]) = extend (latest points) p.gauges := List.foldl_append
    rw [totals_concat, hlatest]
    exact (ih fun q hq => h q (List.mem_append_left _ hq)).merge (h p (by simp))

theorem Sound.not_mem_gauges (h : Sound gauge deltas gauges) {key : MetricKey} (hcounter : ¬ gauge key) : key ∉ gauges := by
  intro hmem
  obtain ⟨value, hvalue⟩ := Option.isSome_iff_exists.1 (Std.ExtTreeMap.mem_iff_isSome_getElem?.1 hmem)
  exact hcounter (h.gauges key value hvalue).2

/-- A row of both maps together is one of the two. -/
theorem Sound.row (h : Sound gauge deltas gauges) {r : Row} (hr : r ∈ metricValues (extend deltas gauges)) :
    Plain (identity r) ∧ (gauge (identity r) → gauges[identity r]? = some r.value) ∧
      (¬ gauge (identity r) → 0 ≤ r.value) := by
  rw [mem_metricValues, getElem?_extend, Option.or_eq_some_iff] at hr
  rcases hr with hr | ⟨-, hr⟩
  · obtain ⟨hplain, hgauge⟩ := h.gauges _ _ hr
    exact ⟨hplain, fun _ => hr, fun hcounter => absurd hgauge hcounter⟩
  · obtain ⟨hplain, hcounter, hnonneg⟩ := h.counters _ _ hr
    exact ⟨hplain, fun hgauge => absurd hgauge hcounter, fun _ => hnonneg⟩

end

/-! ### The range -/

section
variable {inner : HistoryInner ℚ} {lo hi : Nat}

theorem latest_rollup_eq (h : Sorted inner) (lo hi points : Nat) :
    (inner.rollup lo hi points).latest = metricValues (latest (shown inner lo hi)) := by
  have hnil : metricValues (latest ([] : List (IndexedPoint ℚ))) = [] := by simp [metricValues, latest]
  rcases Nat.lt_or_ge lo hi with hlt | hle
  · obtain ⟨before, after, -, -, hzip⟩ := window_eq h (Nat.le_of_lt hlt)
    have hshown : (inner.window lo hi).map (·.1) = shown inner lo hi := by rw [hzip, List.zipIdx_map_fst]
    rw [← hshown, latest, List.foldl_map, HistoryInner.rollup]
    dsimp only
    rw [if_neg (Nat.not_le.2 hlt)]
    cases hwindow : inner.window lo hi with
    | nil => exact hnil.symm
    | cons p rest =>
      rw [List.head?_cons, List.getLast?_cons]
  · have hshown : shown inner lo hi = [] := by
      rw [shown, List.filter_eq_nil_iff]
      intro p _
      simp only [decide_eq_true_eq]
      omega
    rw [hshown, hnil, HistoryInner.rollup]
    dsimp only
    rw [if_pos hle]

/-- An empty window has no buckets, any other those of its points. -/
theorem points_rollup_eq (h : Sorted inner) (lo hi points : Nat) :
    shown inner lo hi = [] ∧ (inner.rollup lo hi points).points = [] ∨
      ∃ start last, Filled lo hi (pointBudget points) start last ((inner.window lo hi).foldl (inner.addToBuckets lo hi)
          (List.replicate (pointBudget points) fresh)) ∧
        (inner.window lo hi).map (·.1) = shown inner lo hi ∧
        (inner.rollup lo hi points).points = ((inner.window lo hi).foldl (inner.addToBuckets lo hi)
          (List.replicate (pointBudget points) fresh)).filterMap BucketAccumulator.finish := by
  rcases Nat.lt_or_ge lo hi with hlt | hle
  · obtain ⟨before, after, -, -, hzip⟩ := window_eq h (Nat.le_of_lt hlt)
    have hshown : (inner.window lo hi).map (·.1) = shown inner lo hi := by rw [hzip, List.zipIdx_map_fst]
    cases hwindow : inner.window lo hi with
    | nil =>
      refine .inl ⟨(window_eq_nil_iff h (Nat.le_of_lt hlt)).1 hwindow, ?_⟩
      rw [HistoryInner.rollup]
      dsimp only
      rw [if_neg (Nat.not_le.2 hlt), hwindow]
      rfl
    | cons p rest =>
      obtain ⟨p, first⟩ := p
      obtain ⟨start, -, hlinked⟩ := linked_window h (Nat.le_of_lt hlt) hwindow
      obtain ⟨-, -, hbuckets⟩ := rollup_eq hlt hwindow points
      rw [hwindow] at hbuckets hlinked hshown
      have hbudget : 0 < pointBudget points := by
        unfold pointBudget
        omega
      exact .inr ⟨start, _, (Filled.start lo hi (pointBudget points) start).foldl hbudget hlinked, hshown, hbuckets⟩
  · refine .inl ⟨?_, ?_⟩
    · rw [shown, List.filter_eq_nil_iff]
      intro p _
      simp only [decide_eq_true_eq]
      omega
    · rw [HistoryInner.rollup]
      dsimp only
      rw [if_pos hle]

variable {gauge : MetricKey → Prop}

/-- A bucket of sound points has no gauge that they have not. -/
structure SoundBucket (gauge : MetricKey → Prop) (points : List (IndexedPoint ℚ)) (b : BucketAccumulator ℚ) : Prop where
  sound : Sound gauge b.deltas b.gauges
  named : ∀ key ∈ b.gauges, ∃ p ∈ points, key ∈ p.gauges

theorem SoundBucket.add {points : List (IndexedPoint ℚ)} {b : BucketAccumulator ℚ} (h : SoundBucket gauge points b)
    {p : IndexedPoint ℚ} (hmem : p ∈ points) (hp : Sound gauge p.deltas p.gauges) (start stop : Nat) :
    SoundBucket gauge points (b.add p start stop) := by
  constructor
  · rw [add_deltas, add_gauges]
    exact h.sound.merge hp
  · intro key hkey
    rw [add_gauges] at hkey
    by_cases hgauges : key ∈ p.gauges
    · exact ⟨p, hmem, hgauges⟩
    · refine h.named key (Classical.by_contradiction fun hb => ?_)
      exact notMem_extend hb hgauges hkey

theorem soundBucket_foldl {window : List (IndexedPoint ℚ × Nat)} {points : List (IndexedPoint ℚ)}
    (hpoints : ∀ p ∈ points, Sound gauge p.deltas p.gauges) (hwindow : ∀ p ∈ window, p.1 ∈ points)
    {buckets : List (BucketAccumulator ℚ)} (hbuckets : ∀ b ∈ buckets, SoundBucket gauge points b) :
    ∀ b ∈ window.foldl (inner.addToBuckets lo hi) buckets, SoundBucket gauge points b := by
  induction window generalizing buckets with
  | nil => exact hbuckets
  | cons p window ih =>
    rw [List.forall_mem_cons] at hwindow
    refine ih hwindow.2 fun b hb => ?_
    obtain ⟨k, hk⟩ := List.mem_iff_getElem?.1 hb
    simp only [HistoryInner.addToBuckets, List.getElem?_modify] at hk
    obtain ⟨old, hold, rfl⟩ := Option.map_eq_some_iff.1 hk
    have hold := hbuckets old (List.mem_of_getElem? hold)
    split
    · exact hold.add hwindow.1 (hpoints _ hwindow.1) _ _
    · exact hold

theorem finish_values {b : BucketAccumulator ℚ} {point : RollupPoint ℚ} (h : b.finish = some point) :
    point.values = metricValues (extend b.deltas b.gauges) := by
  simp only [BucketAccumulator.finish, Option.bind_eq_bind, Option.bind_eq_some_iff] at h
  obtain ⟨start, -, stop, -, h⟩ := h
  rw [← Option.some.inj h]

theorem sound_shown (hsound : SoundPoints gauge inner) : ∀ p ∈ shown inner lo hi, Sound gauge p.deltas p.gauges :=
  fun p hp => hsound p (List.mem_filter.1 hp).1

variable (h : Sorted inner) (hsound : SoundPoints gauge inner)
include h hsound

/-- The points that are shown are of sound buckets. -/
theorem sound_rollup {n : Nat} {point : RollupPoint ℚ} (hpoint : point ∈ (inner.rollup lo hi n).points) :
    ∃ b, SoundBucket gauge (shown inner lo hi) b ∧ point.values = metricValues (extend b.deltas b.gauges) := by
  rcases points_rollup_eq h lo hi n with ⟨-, hnil⟩ | ⟨start, last, -, hshown, hpoints⟩
  · rw [hnil] at hpoint
    cases hpoint
  rw [hpoints, List.mem_filterMap] at hpoint
  obtain ⟨b, hb, hfinish⟩ := hpoint
  refine ⟨b, soundBucket_foldl (sound_shown hsound) (fun p hp => ?_) (fun b hb => ?_) b hb, finish_values hfinish⟩
  · rw [← hshown]
    exact List.mem_map_of_mem hp
  · rw [List.eq_of_mem_replicate hb]
    exact ⟨sound_empty, fun key hkey => absurd hkey Std.ExtTreeMap.not_mem_empty⟩

/-- The buckets share out the total of a counter. -/
theorem sum_rollup {key : MetricKey} (hcounter : ¬ gauge key) (n : Nat) :
    ((inner.rollup lo hi n).points.map fun point => valueIn point.values key).sum =
      valueIn (inner.rollup lo hi n).totals key := by
  have hvalue : (inner.rollup lo hi n).points.map (fun point => valueIn point.values key) =
      (inner.rollup lo hi n).points.map fun point => total point.values key := by
    refine List.map_congr_left fun point hpoint => ?_
    obtain ⟨b, -, hvalues⟩ := sound_rollup h hsound hpoint
    rw [hvalues]
    exact valueIn_eq_total (nodup_metricValues _) key
  rw [hvalue, totals_rollup_eq h, valueIn_metricValues, valueOf_totals]
  rcases points_rollup_eq h lo hi n with ⟨hshown, hnil⟩ | ⟨start, last, hfilled, hshown, hpoints⟩
  · rw [hshown, hnil]
    rfl
  have hgauges : ∀ b ∈ (inner.window lo hi).foldl (inner.addToBuckets lo hi) (List.replicate (pointBudget n) fresh),
      key ∉ b.gauges := by
    refine notMem_gauges_foldl (fun b hb => ?_) fun p hp => ?_
    · rw [List.eq_of_mem_replicate hb]
      exact Std.ExtTreeMap.not_mem_empty
    · exact (sound_shown hsound p.1 (by rw [← hshown]; exact List.mem_map_of_mem hp)).not_mem_gauges hcounter
  have hbudget : 0 < (List.replicate (pointBudget n) (fresh : BucketAccumulator ℚ)).length := by
    rw [List.length_replicate, pointBudget]
    omega
  have hzero : deltaSum (List.replicate (pointBudget n) fresh) key = 0 := by
    rw [deltaSum, List.map_replicate, List.sum_replicate, show (fresh : BucketAccumulator ℚ).deltas = ∅ from rfl,
      valueOf_empty, smul_zero]
  rw [hpoints, sum_finish hfilled.each hgauges, deltaSum_foldl hbudget, hzero, zero_add, ← hshown, List.map_map]
  rfl

end

/-! ### The answers -/

structure DashboardQuery where
  «from» : Option Nat := none
  «to» : Option Nat := none
  points : Option Nat := none

namespace DashboardQuery

def requestedFrom (query : DashboardQuery) (now defaultWindowDays : Nat) : Nat :=
  query.from.getD (now - min (defaultWindowDays * 86400) maxU64)

def requestedTo (query : DashboardQuery) (now : Nat) : Nat := query.to.getD now

def buckets (query : DashboardQuery) : Nat := max 2 (min (query.points.getD 288) 1000)

end DashboardQuery

def invalidTimeWindow : ApiError := ⟨400, "invalid_time_window", "from must be less than to"⟩

theorem totalsOnce_rollup (inner : HistoryInner ℚ) (lo hi n : Nat) :
    ((inner.rollup lo hi n).totals.map identity).Nodup := by
  rw [HistoryInner.rollup]
  dsimp only
  split
  · exact List.nodup_nil
  · split
    · exact nodup_metricValues _
    · exact List.nodup_nil

/-- The part of the answer that the samples are made of. -/
def apiDashboard (s : State ℚ) (defaultWindowDays now : Nat) (query : DashboardQuery) :
    Except ApiError RangeResponse :=
  let requestedFrom := query.requestedFrom now defaultWindowDays
  let requestedTo := query.requestedTo now
  if requestedTo ≤ requestedFrom then .error invalidTimeWindow
  else .ok { s.rollup requestedFrom requestedTo query.buckets with
    requestedFrom
    totalsOnce := totalsOnce_rollup s.history.inner requestedFrom requestedTo query.buckets }

theorem apiDashboard_eq_ok {s : State ℚ} {defaultWindowDays now : Nat} {query : DashboardQuery} {range : RangeResponse}
    (h : apiDashboard s defaultWindowDays now query = .ok range) :
    query.requestedFrom now defaultWindowDays < query.requestedTo now ∧ range.toRevisedRollup =
      s.rollup (query.requestedFrom now defaultWindowDays) (query.requestedTo now) query.buckets := by
  rw [apiDashboard] at h
  dsimp only at h
  split at h
  · cases h
  · rename_i hlt
    obtain rfl := Except.ok.inj h
    exact ⟨Nat.not_le.1 hlt, rfl⟩

section
variable {gauge : MetricKey → Prop} {inner : HistoryInner ℚ} {lo hi n : Nat} {range : RangeResponse}

/-- Sound points make a range that the dashboard can add up. -/
theorem consistent_rollup (h : Sorted inner) (hsound : SoundPoints gauge inner)
    (hrange : range.toRollup = inner.rollup lo hi n) : Consistent gauge range := by
  have hshown := Sound.points fun p (hp : p ∈ shown inner lo hi) => sound_shown hsound p hp
  have htotals : range.totals = metricValues (totals (shown inner lo hi)) := by rw [hrange, totals_rollup_eq h]
  have hlatest : range.latest = metricValues (latest (shown inner lo hi)) := by rw [hrange, latest_rollup_eq h]
  have hpoint : ∀ point ∈ range.points, ∃ b, SoundBucket gauge (shown inner lo hi) b ∧
      point.values = metricValues (extend b.deltas b.gauges) := by
    intro point hpoint
    rw [hrange] at hpoint
    exact sound_rollup h hsound hpoint
  have hcounter : ∀ r ∈ range.totals, Plain (identity r) ∧ ¬ gauge (identity r) := by
    intro r hr
    rw [htotals, mem_metricValues] at hr
    obtain ⟨hplain, hcounter, -⟩ := hshown.counters _ _ hr
    exact ⟨hplain, hcounter⟩
  have hgauge : ∀ r ∈ range.latest, Plain (identity r) ∧ gauge (identity r) := by
    intro r hr
    rw [hlatest, mem_metricValues] at hr
    exact hshown.gauges _ _ hr
  constructor
  · intro r hr
    rcases List.mem_append.1 hr with hr | hr
    · rcases List.mem_append.1 hr with hr | hr
      · exact (hcounter r hr).1
      · exact (hgauge r hr).1
    · obtain ⟨point, hmem, hr⟩ := List.mem_flatMap.1 hr
      obtain ⟨b, hb, hvalues⟩ := hpoint point hmem
      exact (hb.sound.row (hvalues ▸ hr)).1
  · exact fun r hr => (hgauge r hr).2
  · exact fun r hr => (hcounter r hr).2
  · -- a gauge of a bucket is one of its points', which the newest ones have
    intro point hmem r hr hg
    obtain ⟨b, hb, hvalues⟩ := hpoint point hmem
    have hvalue := (hb.sound.row (hvalues ▸ hr)).2.1 hg
    obtain ⟨p, hp, hkey⟩ := hb.named _ (Std.ExtTreeMap.mem_iff_isSome_getElem?.2 (by rw [hvalue]; rfl))
    obtain ⟨value, hvalue⟩ := Option.isSome_iff_exists.1 (Std.ExtTreeMap.mem_iff_isSome_getElem?.1 hkey)
    rw [hlatest, map_identity_metricValues, Std.ExtTreeMap.mem_keys, Std.ExtTreeMap.mem_iff_isSome_getElem?,
      getElem?_latest, newestGauge, List.getLast?_isSome]
    exact List.ne_nil_of_mem (List.mem_filterMap.2 ⟨p, hp, hvalue⟩)
  · intro point hmem r hr hg
    obtain ⟨b, hb, hvalues⟩ := hpoint point hmem
    exact (hb.sound.row (hvalues ▸ hr)).2.2 hg
  · intro key hg
    rw [hrange]
    exact sum_rollup h hsound hg n

theorem tailOk_current {parseF64 : String → Option ℚ} {exposition : String}
    (h : SoundSnapshot gauge (parseExposition parseF64 exposition)) (s : State ℚ) (t : Nat) :
    TailOk gauge (s.current parseF64 t exposition).tail := by
  have hdeltas : ∀ r ∈ (s.current parseF64 t exposition).tail.totals,
      Plain (identity r) ∧ ¬ gauge (identity r) ∧ 0 ≤ r.value := by
    intro r hr
    exact (Sound.normalize h s.history.inner.lastParsed (s.history.inner.resets s.bootId)).counters _ _
      (mem_metricValues.1 hr)
  exact ⟨fun r hr => (hdeltas r hr).1, fun r hr => (hdeltas r hr).2.1, fun r hr => (hdeltas r hr).2.2⟩

end

/-! ### What is drawn -/

/-- The samples that the dashboard makes of a range of one state and of the tail of another. -/
structure Drawn (gauge : MetricKey → Prop) (parseF64 : String → Option ℚ) (a b : State ℚ) (lo hi t : Nat)
    (exposition : String) (range : RangeResponse) (samples : List Sample) : Prop where
  counters : ∀ key, Plain key → ¬ gauge key →
    Agrees range (some (b.current parseF64 t exposition).tail) samples key
  /-- From the last bucket on a gauge is the newest of the window. -/
  gauges : ∀ key, Plain key → gauge key → ∀ (i : Nat) (s : Sample), 0 < i → range.points.length ≤ i →
    samples[i]? = some s → (rowsIn s.rows key).map (·.value) = (newestGauge (shown a.history.inner lo hi) key).toList
  /-- With a tail of its revision, a range to the newest point shows what it will when the snapshot is recorded. -/
  recorded : a.revision = b.revision → (∀ newest ∈ a.history.inner.availableTo, newest ≤ hi) →
    ∀ t' canonicalLast capacity hi' n,
      (∀ p ∈ b.history.inner.points, keeps (Live.cutoffAt b.history.days (b.appendTimestamp t' canonicalLast)) p.t) →
      lo < b.appendTimestamp t' canonicalLast → b.appendTimestamp t' canonicalLast ≤ hi' →
      ∀ key ∈ (parseExposition parseF64 exposition).counters,
        windowed (fun s => valueIn s.rows key) samples =
          total ((b.append parseF64 t' canonicalLast exposition capacity).rollup lo hi' n).totals key

section
variable {gauge : MetricKey → Prop} {json : SerdeJson ℚ} {parseF64 : String → Option ℚ}

/-- What every state of a run has. -/
structure SoundState (gauge : MetricKey → Prop) (s : State ℚ) : Prop where
  ordered : Skew.Ordered s.history.inner
  points : SoundPoints gauge s.history.inner

theorem SoundState.sorted {s : State ℚ} (h : SoundState gauge s) : Sorted s.history.inner :=
  List.pairwise_map.1 h.ordered.sorted

theorem soundState_step {s s' : State ℚ} {op : Op} (h : SoundState gauge s) (hop : SoundOp gauge parseF64 op)
    (hs : step json parseF64 s op = some s') : SoundState gauge s' :=
  ⟨ordered_step h.ordered hs, soundPoints_step h.points hop hs⟩

theorem soundState_exec {days : Nat} {bytes : Option (List UInt8)} {boot : BootRecord} {s₀ s : State ℚ}
    (hopen : RangeTail.openHistory json days bytes boot = .ok s₀)
    (hrecords : ∀ r ∈ s₀.history.store.writer.store.replay.records, SoundRecord gauge r) {ops : List Op}
    (hops : ∀ op ∈ ops, SoundOp gauge parseF64 op) (hs : exec (step json parseF64) s₀ ops = some s) :
    SoundState gauge s :=
  exec_invariant_of_forall (I := SoundState gauge) (fun _ _ _ h hop hstep => soundState_step h hop hstep)
    ⟨ordered_openHistory hopen, soundPoints_open hopen hrecords⟩ hops hs

/-- A series is listed once, with its value. -/
theorem newest_metricValues (values : Series ℚ) (key : MetricKey) :
    (newest (metricValues values) key).map (·.value) = values[key]? := by
  cases hnewest : newest (metricValues values) key with
  | none =>
    rw [newest, List.getLast?_eq_none_iff, rowsIn, List.filter_eq_nil_iff] at hnewest
    cases hvalue : values[key]? with
    | none => rfl
    | some value =>
      have hrow : (⟨key.metric, key.labels, value⟩ : Row) ∈ metricValues values := mem_metricValues.2 hvalue
      exact absurd (decide_eq_true rfl) (hnewest _ hrow)
  | some r =>
    have hr := List.mem_of_getLast? hnewest
    rw [rowsIn, List.mem_filter, decide_eq_true_iff, mem_metricValues] at hr
    obtain ⟨hvalue, rfl⟩ := hr
    exact hvalue.symm

theorem gauges_drawn {locale : Dashboard.Locale} {a : State ℚ} {lo hi n : Nat} {range : RangeResponse}
    (h : SoundState gauge a) (hrange : range.toRollup = a.history.inner.rollup lo hi n) {tail : Option (Tail ℚ)}
    (htail : ∀ t ∈ tail, TailOk gauge t) {key : MetricKey} (hkey : Plain key) (hgauge : gauge key) {i : Nat}
    (hpos : 0 < i) (hlast : range.points.length ≤ i) {s : Sample} (hs : (rangeSamples locale range tail)[i]? = some s) :
    (rowsIn s.rows key).map (·.value) = (newestGauge (shown a.history.inner lo hi) key).toList := by
  have hrows := gauge_rangeSamples locale (consistent_rollup h.sorted h.points hrange) htail hkey hgauge hs
  have hlatest : range.latest = metricValues (latest (shown a.history.inner lo hi)) := by
    rw [hrange, latest_rollup_eq h.sorted]
  rw [hrows, RangeResponse.gaugeRows, if_neg (by omega), hlatest, ← getElem?_latest, ← newest_metricValues]
  cases newest (metricValues (latest (shown a.history.inner lo hi))) key <;> rfl

/-- Two states of a process that carry one revision have one index. -/
theorem inner_eq_of_same {days : Nat} {bytes : Option (List UInt8)} {boot : BootRecord} {s₀ a b : State ℚ}
    (hopen : RangeTail.openHistory json days bytes boot = .ok s₀) {ops : List Op} (hlength : ops.length < 2 ^ 64) {i j : Nat}
    (ha : exec (step json parseF64) s₀ (ops.take i) = some a) (hb : exec (step json parseF64) s₀ (ops.take j) = some b)
    (hsame : a.revision = b.revision) : a.history.inner = b.history.inner := by
  have h₀ := ordered_openHistory hopen
  rcases le_total i j with hij | hij
  · exact (inner_eq_of_take h₀ hlength hij ha hb hsame.symm).symm
  · exact inner_eq_of_take h₀ hlength hij hb ha hsame

/-- A counter is drawn as its total and what a tail of the same revision has of it. -/
theorem windowed_drawn {a b : State ℚ} (h : SoundState gauge a) {lo hi n t : Nat} {range : RangeResponse}
    (hrange : range.toRevisedRollup = a.rollup lo hi n) {exposition : String}
    (hexposition : SoundSnapshot gauge (parseExposition parseF64 exposition)) (hsame : a.revision = b.revision)
    (locale : Dashboard.Locale) {key : MetricKey} (hkey : Plain key) (hcounter : ¬ gauge key) :
    windowed (fun s => valueIn s.rows key)
        (rangeSamples locale range (some (b.current parseF64 t exposition).tail)) =
      total (a.rollup lo hi n).totals key + total (b.current parseF64 t exposition).tail.totals key := by
  have hinner : range.toRollup = a.history.inner.rollup lo hi n := congrArg (·.toRollup) hrange
  have htail : ∀ tail ∈ some (b.current parseF64 t exposition).tail, TailOk gauge tail := by
    intro tail htail
    obtain rfl := Option.some.inj htail
    exact tailOk_current hexposition b t
  have hbase : (b.current parseF64 t exposition).tail.baseHistoryRevision = range.historyRevision := by
    have hrevision : range.historyRevision = a.revision := congrArg (·.historyRevision) hrange
    rw [hrevision, hsame]
    rfl
  have hadded : range.added (some (b.current parseF64 t exposition).tail) key =
      valueIn (b.current parseF64 t exposition).tail.totals key := by
    rw [RangeResponse.added, RangeResponse.matching, Option.filter_some, if_pos (decide_eq_true hbase)]
    rfl
  have htotals : valueIn range.totals key = total (a.rollup lo hi n).totals key := by
    rw [valueIn_eq_total range.totalsOnce, hinner]
    rfl
  have htailTotals : valueIn (b.current parseF64 t exposition).tail.totals key =
      total (b.current parseF64 t exposition).tail.totals key := valueIn_eq_total (nodup_metricValues _) key
  rw [(agrees locale (consistent_rollup h.sorted h.points hinner) htail hkey hcounter).windowed, hadded, htotals,
    htailTotals]

/-- In every run over sound snapshots, whatever the dashboard draws of a range and a tail is right. -/
theorem drawn {days : Nat} {bytes : Option (List UInt8)} {boot : BootRecord} {s₀ : State ℚ}
    (hopen : RangeTail.openHistory json days bytes boot = .ok s₀)
    (hrecords : ∀ r ∈ s₀.history.store.writer.store.replay.records, SoundRecord gauge r) {ops : List Op}
    (hops : ∀ op ∈ ops, SoundOp gauge parseF64 op) (hlength : ops.length < 2 ^ 64) {i j : Nat} {a b : State ℚ}
    (ha : exec (step json parseF64) s₀ (ops.take i) = some a) (hb : exec (step json parseF64) s₀ (ops.take j) = some b)
    {defaultWindowDays now : Nat} {query : DashboardQuery} {range : RangeResponse}
    (hrange : apiDashboard a defaultWindowDays now query = .ok range) {exposition : String}
    (hexposition : SoundSnapshot gauge (parseExposition parseF64 exposition)) (t : Nat) (locale : Dashboard.Locale) :
    Drawn gauge parseF64 a b (query.requestedFrom now defaultWindowDays) (query.requestedTo now) t exposition range
      (rangeSamples locale range (some (b.current parseF64 t exposition).tail)) := by
  have hgood : ∀ {k : Nat} {s : State ℚ}, exec (step json parseF64) s₀ (ops.take k) = some s → SoundState gauge s :=
    fun hs => soundState_exec hopen hrecords (fun op hop => hops op (List.mem_of_mem_take hop)) hs
  obtain ⟨-, hrollup⟩ := apiDashboard_eq_ok hrange
  have hinner := congrArg (fun r : RevisedRollup ℚ => r.toRollup) hrollup
  have htail : ∀ tail ∈ some (b.current parseF64 t exposition).tail, TailOk gauge tail := by
    intro tail htail
    obtain rfl := Option.some.inj htail
    exact tailOk_current hexposition b t
  refine ⟨fun key hkey hcounter => ?_, fun key hkey hgauge i s hpos hlast hs => ?_, ?_⟩
  · exact agrees locale (consistent_rollup (hgood ha).sorted (hgood ha).points hinner) htail hkey hcounter
  · exact gauges_drawn (hgood ha) hinner htail hkey hgauge hpos hlast hs
  · intro hsame hnewest t' canonicalLast capacity hi' n hkept hlo hhi key hkey
    obtain ⟨value, hvalue⟩ := Option.isSome_iff_exists.1 (Std.ExtTreeMap.mem_iff_isSome_getElem?.1 hkey)
    obtain ⟨hplain, hcounter, -⟩ := hexposition.counters key value hvalue
    have hindex := inner_eq_of_same hopen hlength ha hb hsame
    have htotals : (a.rollup (query.requestedFrom now defaultWindowDays) (query.requestedTo now) query.buckets).totals =
        (b.rollup (query.requestedFrom now defaultWindowDays) (query.requestedTo now) n).totals := by
      show (a.history.inner.rollup _ _ _).totals = (b.history.inner.rollup _ _ _).totals
      rw [totals_rollup_eq (hgood ha).sorted, totals_rollup_eq (hgood hb).sorted, hindex]
    rw [hindex] at hnewest
    rw [windowed_drawn (hgood ha) hrollup hexposition hsame locale hplain hcounter, htotals]
    exact total_append (hgood hb).ordered hnewest hkept hlo hhi hkey

end

theorem sound_single {p : ParsedSnapshot ℚ} {n : ℕ} (hcounters : p.counters.toList = [(nTotal, (n : ℚ))])
    (hgauges : p.gauges.toList = []) : SoundSnapshot (fun _ => False) p := by
  refine ⟨fun key value h => ?_, fun key value h => ?_⟩
  · rw [← Std.ExtTreeMap.mem_toList_iff_getElem?_eq_some, hcounters, List.mem_singleton] at h
    obtain ⟨rfl, rfl⟩ := Prod.mk.inj h
    exact ⟨plain_unlabelled (by decide), id, Nat.cast_nonneg n⟩
  · rw [← Std.ExtTreeMap.mem_toList_iff_getElem?_eq_some, hgauges] at h
    cases h

/-- Five requests of the range and two of the tail. -/
theorem drawn_seven :
    ∃ s₀ s range, RangeTail.openHistory (.table Skew.skewed) 0 none ⟨90000, "a", ⟨40, 1, [40]⟩⟩ = .ok s₀ ∧
      exec (step (.table Skew.skewed) Live.naturalNumber) s₀ fiveSampled = some s ∧
      apiDashboard s 30 90000 { «from» := some 0 } = .ok range ∧
      Drawn (fun _ => False) Live.naturalNumber s s 0 90000 90005 "n_total 7" range
        (rangeSamples ⟨id, fun _ => .refl _⟩ range (some (s.current Live.naturalNumber 90005 "n_total 7").tail)) := by
  have hrun : (RangeTail.openHistory (.table Skew.skewed) 0 none ⟨90000, "a", ⟨40, 1, [40]⟩⟩).toOption.any (fun s₀ =>
      s₀.history.store.writer.store.replay.records.all Record.isBoot &&
        (exec (step (.table Skew.skewed) Live.naturalNumber) s₀ fiveSampled).isSome) = true := by decide +kernel
  obtain ⟨s₀, hopen, hrun⟩ := (Option.any_eq_true ..).1 hrun
  rw [Bool.and_eq_true, List.all_eq_true] at hrun
  obtain ⟨s, hs⟩ := Option.isSome_iff_exists.1 hrun.2
  have hopen := toOption_eq_some hopen
  have hrecords : ∀ r ∈ s₀.history.store.writer.store.replay.records, SoundRecord (fun _ => False) r := by
    intro r hr
    have hboot := hrun.1 r hr
    cases r with
    | boot r => trivial
    | sample r => cases hboot
    | checkpoint r => trivial
  have hops : ∀ op ∈ fiveSampled, SoundOp (fun _ => False) Live.naturalNumber op := by
    have hfive : SoundSnapshot (fun _ => False) (parseExposition Live.naturalNumber "n_total 5") :=
      sound_single (n := 5) (by decide +kernel) (by decide +kernel)
    intro op hop
    simp only [fiveSampled, List.mem_cons, List.not_mem_nil, or_false] at hop
    rcases hop with rfl | rfl | rfl | rfl | rfl
    · trivial
    · exact hfive
    · trivial
    · trivial
    · trivial
  have hlast : exec (step (.table Skew.skewed) Live.naturalNumber) s₀ (fiveSampled.take 5) = some s := hs
  have hseven : SoundSnapshot (fun _ => False) (parseExposition Live.naturalNumber "n_total 7") :=
    sound_single (n := 7) (by decide +kernel) (by decide +kernel)
  have hrange : apiDashboard s 30 90000 { «from» := some 0 } = .ok { s.rollup 0 90000 288 with
      requestedFrom := 0, totalsOnce := totalsOnce_rollup s.history.inner 0 90000 288 } := rfl
  exact ⟨s₀, s, _, hopen, hs, hrange, drawn hopen hrecords hops (by decide) hlast hlast hrange hseven 90005 _⟩

end OpenProxy.Served
