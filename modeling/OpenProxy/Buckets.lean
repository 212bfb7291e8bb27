import OpenProxy.RangeTail

/-!
# The buckets of a rollup (`rollup`, `BucketAccumulator::finish` of `history.rs`)

A point stands for the time since the point before it, or since the start of the window. It goes into the bucket of
its own time, so that the points of a bucket are consecutive and a bucket may start before its share of the window.
-/

namespace OpenProxy.Buckets

open RangeTail

section
variable {V : Type}

/-- The buckets cover `[a, b]` in order, each from where the one before it ends. -/
def Tiles : Nat → List (RollupPoint V) → Nat → Prop
  | a, [], b => a = b
  | a, p :: ps, b => p.from = a ∧ p.from ≤ p.to ∧ p.durationSeconds = p.to - p.from ∧ Tiles p.to ps b

namespace Tiles
variable {a b : Nat} {ps : List (RollupPoint V)}

theorem le (h : Tiles a ps b) : a ≤ b := by
  induction ps generalizing a with
  | nil => exact h.le
  | cons p ps ih =>
    obtain ⟨rfl, hle, -, hrest⟩ := h
    exact hle.trans (ih hrest)

theorem sum_duration (h : Tiles a ps b) : (ps.map (·.durationSeconds)).sum = b - a := by
  induction ps generalizing a with
  | nil =>
    obtain rfl : a = b := h
    simp
  | cons p ps ih =>
    obtain ⟨rfl, hle, hduration, hrest⟩ := h
    have := hrest.le
    rw [List.map_cons, List.sum_cons, ih hrest, hduration]
    omega

theorem concat {p : RollupPoint V} : Tiles a (ps ++ [p]) b ↔
    Tiles a ps p.from ∧ p.from ≤ p.to ∧ p.durationSeconds = p.to - p.from ∧ p.to = b := by
  induction ps generalizing a with
  | nil =>
    constructor
    · rintro ⟨hstart, hle, hduration, hstop⟩
      exact ⟨hstart.symm, hle, hduration, hstop⟩
    · rintro ⟨hstart, hle, hduration, hstop⟩
      exact ⟨hstart.symm, hle, hduration, hstop⟩
  | cons q ps ih =>
    rw [List.cons_append, Tiles, Tiles, ih]
    tauto

end Tiles

end

section
variable {V : Type} [F64 V]

/-! ### One bucket -/

/-- `BucketAccumulator::default`. -/
def fresh : BucketAccumulator V := { capacityWeight := 0 }

/-- A bucket that has got a point. -/
def Used (b : BucketAccumulator V) : Prop := ∃ start stop, b.from = some start ∧ b.to = some stop

theorem add_from (b : BucketAccumulator V) (point : IndexedPoint V) (start stop : Nat) :
    (b.add point start stop).from = some (b.from.elim start (min · start)) := by
  unfold BucketAccumulator.add
  dsimp only
  split <;> rfl

theorem add_to (b : BucketAccumulator V) (point : IndexedPoint V) (start stop : Nat) :
    (b.add point start stop).to = some (b.to.elim stop (max · stop)) := by
  unfold BucketAccumulator.add
  dsimp only
  split <;> rfl

theorem add_durationSeconds (b : BucketAccumulator V) (point : IndexedPoint V) (start stop : Nat) :
    (b.add point start stop).durationSeconds = b.durationSeconds + (stop - start) := by
  unfold BucketAccumulator.add
  dsimp only
  split <;> rfl

theorem add_deltas (b : BucketAccumulator V) (point : IndexedPoint V) (start stop : Nat) :
    (b.add point start stop).deltas = addMetrics b.deltas point.deltas := by
  unfold BucketAccumulator.add
  dsimp only
  split <;> rfl

theorem add_gauges (b : BucketAccumulator V) (point : IndexedPoint V) (start stop : Nat) :
    (b.add point start stop).gauges = extend b.gauges point.gauges := by
  unfold BucketAccumulator.add
  dsimp only
  split <;> rfl

theorem used_add (b : BucketAccumulator V) (point : IndexedPoint V) (start stop : Nat) :
    Used (b.add point start stop) := ⟨_, _, add_from .., add_to ..⟩

theorem finish_used {b : BucketAccumulator V} {start stop : Nat} (hfrom : b.from = some start)
    (hto : b.to = some stop) : ∃ p, b.finish = some p ∧ p.from = start ∧ p.to = stop ∧
      p.durationSeconds = b.durationSeconds ∧ p.values = metricValues (extend b.deltas b.gauges) := by
  rw [BucketAccumulator.finish, hfrom, hto]
  exact ⟨_, rfl, rfl, rfl, rfl, rfl⟩

/-! ### The loop over the points -/

/-- The bucket of the time `t`. -/
def bucketIndex (lo hi budget t : Nat) : Nat := min ((t - lo) * budget / (hi - lo)) (budget - 1)

theorem bucketIndex_mono (lo hi budget : Nat) {t t' : Nat} (h : t ≤ t') :
    bucketIndex lo hi budget t ≤ bucketIndex lo hi budget t' := by
  have hdiv : (t - lo) * budget / (hi - lo) ≤ (t' - lo) * budget / (hi - lo) :=
    Nat.div_le_div_right (Nat.mul_le_mul_right _ (by omega))
  exact min_le_min_right _ hdiv

theorem bucketIndex_lt (lo hi : Nat) {budget : Nat} (h : 0 < budget) (t : Nat) : bucketIndex lo hi budget t < budget := by
  unfold bucketIndex
  omega

/-- The buckets when the points up to the time `last` are in them. -/
structure Filled (lo hi budget start last : Nat) (buckets : List (BucketAccumulator V)) : Prop where
  length : buckets.length = budget
  each : ∀ b ∈ buckets, b = fresh ∨ Used b
  later : ∀ k b, bucketIndex lo hi budget last < k → buckets[k]? = some b → b = fresh
  tiles : Tiles start (buckets.filterMap BucketAccumulator.finish) last

theorem Filled.start (lo hi budget start : Nat) :
    Filled lo hi budget start start (List.replicate budget (fresh : BucketAccumulator V)) := by
  refine ⟨List.length_replicate, fun b hb => .inl (List.eq_of_mem_replicate hb), fun k b _ hb => ?_, ?_⟩
  · exact List.eq_of_mem_replicate (List.mem_of_getElem? hb)
  · have hnone : (List.replicate budget (fresh : BucketAccumulator V)).filterMap BucketAccumulator.finish = [] := by
      rw [List.filterMap_eq_nil_iff]
      intro b hb
      rw [List.eq_of_mem_replicate hb]
      rfl
    rw [hnone]
    exact rfl

/-- A point that starts where the one before it ends goes into the last bucket with a point or into one after it. -/
theorem Filled.add {inner : HistoryInner V} {lo hi budget start last : Nat} {buckets : List (BucketAccumulator V)}
    (h : Filled lo hi budget start last buckets) (hbudget : 0 < budget) {point : IndexedPoint V} {index : Nat}
    (hstart : inner.intervalStart lo point index = last) (hle : last ≤ point.t) (hhi : point.t ≤ hi) :
    Filled lo hi budget start point.t (inner.addToBuckets lo hi buckets (point, index)) := by
  have hlt : bucketIndex lo hi budget point.t < buckets.length := by
    rw [h.length]
    exact bucketIndex_lt lo hi hbudget point.t
  have hadd : inner.addToBuckets lo hi buckets (point, index) =
      buckets.modify (bucketIndex lo hi budget point.t) fun b => b.add point last point.t := by
    rw [HistoryInner.addToBuckets, h.length, hstart, min_eq_left hhi]
    rfl
  have hmono := bucketIndex_mono lo hi budget hle
  rw [hadd]
  generalize hj : bucketIndex lo hi budget point.t = j at hlt hmono
  obtain ⟨before, b, after, hsplit, hbefore, hmodify⟩ := List.exists_of_modify (fun b => b.add point last point.t) hlt
  have hafter : ∀ c ∈ after, c = fresh := by
    intro c hc
    obtain ⟨n, hn⟩ := List.mem_iff_getElem?.1 hc
    refine h.later (j + 1 + n) c (by omega) ?_
    rw [hsplit, List.getElem?_append_right (by omega), hbefore, show j + 1 + n - j = n + 1 by omega,
      List.getElem?_cons_succ]
    exact hn
  have hnone : after.filterMap BucketAccumulator.finish = [] := by
    rw [List.filterMap_eq_nil_iff]
    intro c hc
    rw [hafter c hc]
    rfl
  have htiles := h.tiles
  rw [hsplit, List.filterMap_append, List.filterMap_cons, hnone] at htiles
  rw [hmodify]
  refine ⟨?_, fun c hc => ?_, fun k c hk hc => ?_, ?_⟩
  · rw [← h.length, hsplit, List.length_append, List.length_append, List.length_cons, List.length_cons]
  · rcases List.mem_append.1 hc with hc | hc
    · exact h.each c (by rw [hsplit]; exact List.mem_append_left _ hc)
    rcases List.mem_cons.1 hc with rfl | hc
    · exact .inr (used_add ..)
    · exact .inl (hafter c hc)
  · rw [hj] at hk
    rw [List.getElem?_append_right (by omega), hbefore] at hc
    obtain ⟨n, hn⟩ : ∃ n, k - j = n + 1 := ⟨k - j - 1, by omega⟩
    rw [hn, List.getElem?_cons_succ] at hc
    exact hafter c (List.mem_of_getElem? hc)
  · obtain ⟨p, hp, hfrom, hto, hduration, -⟩ := finish_used (add_from b point last point.t) (add_to b point last point.t)
    rw [List.filterMap_append, List.filterMap_cons, hnone, hp, Tiles.concat, hfrom, hto, hduration, add_durationSeconds]
    rcases h.each b (by rw [hsplit]; simp) with rfl | ⟨start', stop, hstart', hstop⟩
    · -- a new bucket
      rw [show (fresh : BucketAccumulator V).finish = none from rfl, List.append_nil] at htiles
      refine ⟨htiles, hle, ?_, rfl⟩
      show 0 + (point.t - last) = point.t - last
      omega
    · -- the last bucket grows
      obtain ⟨q, hq, hqfrom, hqto, hqduration, -⟩ := finish_used hstart' hstop
      rw [hq, Tiles.concat] at htiles
      obtain ⟨htiles, hle', hduration', hlast⟩ := htiles
      rw [hstart', hstop]
      show Tiles _ _ (min start' last) ∧ min start' last ≤ max stop point.t ∧ _ = max stop point.t - min start' last ∧
        max stop point.t = point.t
      rw [show min start' last = q.from by omega]
      exact ⟨htiles, by omega, by omega, by omega⟩

/-- Each point's interval starts where the one before it ends. -/
def Linked (inner : HistoryInner V) (lo hi : Nat) : Nat → List (IndexedPoint V × Nat) → Prop
  | _, [] => True
  | last, (point, index) :: window =>
    inner.intervalStart lo point index = last ∧ last ≤ point.t ∧ point.t ≤ hi ∧ Linked inner lo hi point.t window

/-- The time of the last point. -/
def lastTime (last : Nat) (window : List (IndexedPoint V × Nat)) : Nat := (window.getLast?).elim last (·.1.t)

theorem Filled.foldl {inner : HistoryInner V} {lo hi budget start : Nat} (hbudget : 0 < budget)
    {window : List (IndexedPoint V × Nat)} {last : Nat} {buckets : List (BucketAccumulator V)}
    (h : Filled lo hi budget start last buckets) (hwindow : Linked inner lo hi last window) :
    Filled lo hi budget start (lastTime last window) (window.foldl (inner.addToBuckets lo hi) buckets) := by
  induction window generalizing last buckets with
  | nil => exact h
  | cons p window ih =>
    obtain ⟨point, index⟩ := p
    obtain ⟨hstart, hle, hhi, hrest⟩ := hwindow
    have hlast : lastTime last ((point, index) :: window) = lastTime point.t window := by
      unfold lastTime
      rw [List.getLast?_cons]
      cases window.getLast? <;> rfl
    rw [hlast]
    exact ih (h.add hbudget hstart hle hhi) hrest

/-! ### The window -/

/-- The points of a window. -/
def shown (inner : HistoryInner V) (lo hi : Nat) : List (IndexedPoint V) :=
  inner.points.filter fun p => decide (lo < p.t ∧ p.t ≤ hi)

def Sorted (inner : HistoryInner V) : Prop := inner.points.Pairwise (·.t ≤ ·.t)

omit [F64 V] in
/-- Where a binary search splits sorted points. -/
theorem split_at {points : List (IndexedPoint V)} (h : points.Pairwise (·.t ≤ ·.t)) (c : Nat) :
    ∃ before after, points = before ++ after ∧ points.takeWhile (·.t ≤ c) = before ∧ (∀ p ∈ before, p.t ≤ c) ∧
      ∀ p ∈ after, c < p.t := by
  induction points with
  | nil => exact ⟨[], [], rfl, rfl, by simp, by simp⟩
  | cons q points ih =>
    obtain ⟨hq, hpoints⟩ := List.pairwise_cons.1 h
    rw [List.takeWhile_cons]
    split
    · rename_i hle
      obtain ⟨before, after, rfl, htake, hbefore, hafter⟩ := ih hpoints
      refine ⟨q :: before, after, rfl, by rw [htake], fun p hp => ?_, hafter⟩
      rcases List.mem_cons.1 hp with rfl | hp
      · exact of_decide_eq_true hle
      · exact hbefore p hp
    · rename_i hlate
      rw [decide_eq_true_eq, Nat.not_le] at hlate
      refine ⟨[], q :: points, rfl, rfl, by simp, fun p hp => ?_⟩
      rcases List.mem_cons.1 hp with rfl | hp
      · exact hlate
      · exact lt_of_lt_of_le hlate (hq p hp)

omit [F64 V] in
/-- The binary searches find the points of the window. -/
theorem window_eq {inner : HistoryInner V} (h : Sorted inner) {lo hi : Nat} (hle : lo ≤ hi) :
    ∃ before after, inner.points = before ++ (shown inner lo hi ++ after) ∧ (∀ p ∈ before, p.t ≤ lo) ∧
      inner.window lo hi = (shown inner lo hi).zipIdx before.length := by
  obtain ⟨before, rest, hpoints, hfirst, hbefore, hrest⟩ := split_at h lo
  have hsorted : rest.Pairwise (·.t ≤ ·.t) := by
    rw [Sorted, hpoints] at h
    exact (List.pairwise_append.1 h).2.1
  obtain ⟨mid, after, rfl, hmid, hle_hi, hafter⟩ := split_at hsorted hi
  have hstop : inner.points.takeWhile (·.t ≤ hi) = before ++ mid := by
    rw [hpoints, List.takeWhile_append_of_pos fun p hp => decide_eq_true ((hbefore p hp).trans hle), hmid]
  have hshown : shown inner lo hi = mid := by
    have hnone : before.filter (fun p => decide (lo < p.t ∧ p.t ≤ hi)) = [] := by
      rw [List.filter_eq_nil_iff]
      intro p hp
      have := hbefore p hp
      simp only [decide_eq_true_eq]
      omega
    have hall : mid.filter (fun p => decide (lo < p.t ∧ p.t ≤ hi)) = mid :=
      List.filter_eq_self.2 fun p hp => decide_eq_true ⟨hrest p (List.mem_append_left _ hp), hle_hi p hp⟩
    have hnone' : after.filter (fun p => decide (lo < p.t ∧ p.t ≤ hi)) = [] := by
      rw [List.filter_eq_nil_iff]
      intro p hp
      have := hafter p hp
      simp only [decide_eq_true_eq]
      omega
    rw [shown, hpoints, List.filter_append, List.filter_append, hnone, hall, hnone', List.append_nil, List.nil_append]
  refine ⟨before, after, by rw [hshown, hpoints], hbefore, ?_⟩
  rw [HistoryInner.window, hfirst, hstop, hshown, hpoints, ← List.append_assoc, List.zipIdx_append,
    List.take_left' (by rw [List.length_zipIdx]), List.zipIdx_append, List.drop_left' (by rw [List.length_zipIdx]),
    Nat.zero_add]

omit [F64 V] in
/-- After a point of the window each interval starts at the point before. -/
theorem linked_after {inner : HistoryInner V} {lo hi : Nat} {before mid after : List (IndexedPoint V)}
    {q : IndexedPoint V} (h : inner.points = before ++ q :: (mid ++ after)) (hlo : lo < q.t)
    (hsorted : (q :: mid).Pairwise (·.t ≤ ·.t)) (hhi : ∀ p ∈ mid, p.t ≤ hi) :
    Linked inner lo hi q.t (mid.zipIdx (before.length + 1)) := by
  induction mid generalizing before q with
  | nil => trivial
  | cons p mid ih =>
    obtain ⟨hq, hsorted⟩ := List.pairwise_cons.1 hsorted
    have hle := hq p List.mem_cons_self
    rw [List.zipIdx_cons]
    refine ⟨?_, hle, hhi p List.mem_cons_self, ?_⟩
    · have hget : inner.points[before.length]? = some q := by
        rw [h, List.getElem?_append_right (Nat.le_refl _), Nat.sub_self]
        rfl
      rw [HistoryInner.intervalStart, if_neg (Nat.succ_ne_zero _), Nat.add_sub_cancel, hget]
      show max q.t lo = q.t
      omega
    · have h' : inner.points = (before ++ [q]) ++ p :: (mid ++ after) := by
        rw [h, List.append_assoc]
        rfl
      have := ih h' (by omega) hsorted fun p' hp' => hhi p' (List.mem_cons_of_mem _ hp')
      rw [List.length_append, List.length_singleton] at this
      exact this

/-- Where the first interval of a window starts. -/
def windowStart (inner : HistoryInner V) (lo : Nat) (p : IndexedPoint V) (first : Nat) : Option Nat :=
  if first = 0 then some p.t else (inner.points[first - 1]?).map fun before => max lo before.t

omit [F64 V] in
theorem linked_window {inner : HistoryInner V} (h : Sorted inner) {lo hi : Nat} (hle : lo ≤ hi) {p : IndexedPoint V}
    {first : Nat} {rest : List (IndexedPoint V × Nat)} (hwindow : inner.window lo hi = (p, first) :: rest) :
    ∃ start, windowStart inner lo p first = some start ∧ Linked inner lo hi start (inner.window lo hi) := by
  obtain ⟨before, after, hpoints, hbefore, hzip⟩ := window_eq h hle
  have hmem : ∀ q ∈ shown inner lo hi, lo < q.t ∧ q.t ≤ hi := fun q hq => of_decide_eq_true (List.mem_filter.1 hq).2
  have hsorted : (shown inner lo hi).Pairwise (·.t ≤ ·.t) := h.sublist List.filter_sublist
  generalize shown inner lo hi = mid at hpoints hzip hmem hsorted
  cases mid with
  | nil =>
    rw [hzip] at hwindow
    cases hwindow
  | cons q mid =>
    rw [hzip, List.zipIdx_cons] at hwindow
    obtain ⟨hhead, rfl⟩ := List.cons.inj hwindow
    obtain ⟨rfl, rfl⟩ := Prod.mk.inj hhead
    obtain ⟨hlo, hhi⟩ := hmem q List.mem_cons_self
    have hrest : Linked inner lo hi q.t (mid.zipIdx (before.length + 1)) :=
      linked_after hpoints hlo hsorted fun p' hp' => (hmem p' (List.mem_cons_of_mem _ hp')).2
    rw [hzip, List.zipIdx_cons]
    by_cases hfirst : before.length = 0
    · refine ⟨q.t, by rw [windowStart, if_pos hfirst], ?_, Nat.le_refl _, hhi, hrest⟩
      rw [HistoryInner.intervalStart, if_pos hfirst]
      omega
    · obtain ⟨previous, hprevious⟩ : ∃ previous, inner.points[before.length - 1]? = some previous ∧ previous.t ≤ lo := by
        have hlt : before.length - 1 < before.length := by omega
        refine ⟨before[before.length - 1], ?_, hbefore _ (List.getElem_mem hlt)⟩
        rw [hpoints, List.getElem?_append_left hlt, List.getElem?_eq_getElem hlt]
      refine ⟨max lo previous.t, by rw [windowStart, if_neg hfirst, hprevious.1]; rfl, ?_, ?_, hhi, hrest⟩
      · rw [HistoryInner.intervalStart, if_neg hfirst, hprevious.1]
        exact max_comm _ _
      · have := hprevious.2
        omega

/-! ### The answer -/

omit [F64 V] in
theorem window_eq_nil_iff {inner : HistoryInner V} (h : Sorted inner) {lo hi : Nat} (hle : lo ≤ hi) :
    inner.window lo hi = [] ↔ shown inner lo hi = [] := by
  obtain ⟨before, after, -, -, hzip⟩ := window_eq h hle
  rw [hzip, List.zipIdx_eq_nil_iff]

/-- `points.clamp(2, 1000)`. -/
def pointBudget (points : Nat) : Nat := max 2 (min points 1000)

theorem rollup_eq {inner : HistoryInner V} {lo hi : Nat} (hlt : lo < hi) {p : IndexedPoint V} {first : Nat}
    {rest : List (IndexedPoint V × Nat)} (hwindow : inner.window lo hi = (p, first) :: rest) (points : Nat) :
    (inner.rollup lo hi points).effectiveFrom = windowStart inner lo p first ∧
      (inner.rollup lo hi points).effectiveTo = some (lastTime p.t ((p, first) :: rest)) ∧
      (inner.rollup lo hi points).points = ((inner.window lo hi).foldl (inner.addToBuckets lo hi)
        (List.replicate (pointBudget points) fresh)).filterMap BucketAccumulator.finish := by
  have hlast : ((p, first) :: rest).getLast? = some ((rest.getLast?).getD (p, first)) := List.getLast?_cons
  rw [HistoryInner.rollup]
  dsimp only
  rw [if_neg (Nat.not_le.2 hlt), hwindow, List.head?_cons, lastTime, hlast]
  exact ⟨rfl, rfl, rfl⟩

theorem totals_rollup_eq {inner : HistoryInner V} (h : Sorted inner) (lo hi points : Nat) :
    (inner.rollup lo hi points).totals = metricValues (totals (shown inner lo hi)) := by
  rcases Nat.lt_or_ge lo hi with hlt | hle
  · obtain ⟨before, after, -, -, hzip⟩ := window_eq h (Nat.le_of_lt hlt)
    rw [totals_rollup_window hlt, hzip, List.zipIdx_map_fst]
  · have hshown : shown inner lo hi = [] := by
      rw [shown, List.filter_eq_nil_iff]
      intro p _
      simp only [decide_eq_true_eq]
      omega
    rw [totals_rollup_of_le hle, hshown]

end

/-! ### Exact sums -/

section
variable {key : MetricKey}

theorem valueOf_empty (key : MetricKey) : valueOf ∅ key = 0 := by
  rw [valueOf, Std.ExtTreeMap.getElem?_empty]
  rfl

theorem valueOf_addMetrics (totals values : Series ℚ) (key : MetricKey) :
    valueOf (addMetrics totals values) key = valueOf totals key + valueOf values key := by
  cases h : values[key]? with
  | none =>
    rw [valueOf, getElem?_addMetrics_of_none h]
    simp [valueOf, h]
  | some value =>
    rw [valueOf, getElem?_addMetrics h]
    simp only [valueOf, h]
    rfl

theorem valueOf_totals (points : List (IndexedPoint ℚ)) (key : MetricKey) :
    valueOf (totals points) key = (points.map fun p => valueOf p.deltas key).sum := by
  induction points using List.reverseRecOn with
  | nil => exact valueOf_empty key
  | append_singleton points p ih =>
    rw [totals_concat, valueOf_addMetrics, ih, List.map_append, List.sum_append, List.map_singleton, List.sum_singleton]

theorem total_eq (values : Series ℚ) (key : MetricKey) : total (metricValues values) key = valueOf values key :=
  total_metricValues values key

theorem extend_of_notMem {values more : Series ℚ} (h : key ∉ more) : (extend values more)[key]? = values[key]? := by
  refine Std.ExtTreeMap.getElem?_insertMany_list_of_contains_eq_false ?_
  rw [Bool.eq_false_iff]
  intro hc
  obtain ⟨p, hp, rfl⟩ := List.mem_map.1 (List.contains_iff_mem.1 hc)
  have := Std.ExtTreeMap.mem_toList_iff_getElem?_eq_some.1 hp
  exact h (Std.ExtTreeMap.mem_iff_isSome_getElem?.2 (by rw [this]; rfl))

theorem notMem_extend {values more : Series ℚ} (hvalues : key ∉ values) (hmore : key ∉ more) :
    key ∉ extend values more := by
  rw [Std.ExtTreeMap.mem_iff_isSome_getElem?, extend_of_notMem hmore]
  rwa [Std.ExtTreeMap.mem_iff_isSome_getElem?] at hvalues

/-- The deltas of a series in all buckets. -/
def deltaSum (buckets : List (BucketAccumulator ℚ)) (key : MetricKey) : ℚ :=
  (buckets.map fun b => valueOf b.deltas key).sum

theorem deltaSum_addToBuckets {inner : HistoryInner ℚ} {lo hi : Nat} {buckets : List (BucketAccumulator ℚ)}
    (hne : 0 < buckets.length) (p : IndexedPoint ℚ × Nat) (key : MetricKey) :
    deltaSum (inner.addToBuckets lo hi buckets p) key = deltaSum buckets key + valueOf p.1.deltas key := by
  have hlt := bucketIndex_lt lo hi hne p.1.t
  unfold HistoryInner.addToBuckets
  obtain ⟨before, b, after, hsplit, -, hmodify⟩ := List.exists_of_modify
    (fun b : BucketAccumulator ℚ => b.add p.1 (inner.intervalStart lo p.1 p.2) (min p.1.t hi)) hlt
  rw [bucketIndex] at hmodify
  dsimp only
  rw [hmodify]
  conv_rhs => rw [hsplit]
  simp only [deltaSum, List.map_append, List.map_cons, List.sum_append, List.sum_cons, add_deltas, valueOf_addMetrics]
  ring

theorem length_addToBuckets {inner : HistoryInner ℚ} {lo hi : Nat} (buckets : List (BucketAccumulator ℚ))
    (p : IndexedPoint ℚ × Nat) : (inner.addToBuckets lo hi buckets p).length = buckets.length :=
  List.length_modify ..

theorem deltaSum_foldl {inner : HistoryInner ℚ} {lo hi : Nat} {window : List (IndexedPoint ℚ × Nat)}
    {buckets : List (BucketAccumulator ℚ)} (hne : 0 < buckets.length) (key : MetricKey) :
    deltaSum (window.foldl (inner.addToBuckets lo hi) buckets) key =
      deltaSum buckets key + (window.map fun p => valueOf p.1.deltas key).sum := by
  induction window generalizing buckets with
  | nil => simp
  | cons p window ih =>
    rw [List.foldl_cons, ih (by rw [length_addToBuckets]; exact hne), deltaSum_addToBuckets hne, List.map_cons,
      List.sum_cons, add_assoc]

/-- A series that is a gauge of no point is a gauge of no bucket. -/
theorem notMem_gauges_foldl {inner : HistoryInner ℚ} {lo hi : Nat} {window : List (IndexedPoint ℚ × Nat)}
    {buckets : List (BucketAccumulator ℚ)} (hbuckets : ∀ b ∈ buckets, key ∉ b.gauges)
    (hwindow : ∀ p ∈ window, key ∉ p.1.gauges) :
    ∀ b ∈ window.foldl (inner.addToBuckets lo hi) buckets, key ∉ b.gauges := by
  induction window generalizing buckets with
  | nil => exact hbuckets
  | cons p window ih =>
    refine ih (fun b hb => ?_) fun q hq => hwindow q (List.mem_cons_of_mem _ hq)
    obtain ⟨k, hk⟩ := List.mem_iff_getElem?.1 hb
    simp only [HistoryInner.addToBuckets, List.getElem?_modify] at hk
    obtain ⟨b', hb', rfl⟩ := Option.map_eq_some_iff.1 hk
    have hold := hbuckets b' (List.mem_of_getElem? hb')
    split
    · rw [add_gauges]
      exact notMem_extend hold (hwindow p List.mem_cons_self)
    · exact hold

/-- The buckets that come out hold what all buckets do. -/
theorem sum_finish {buckets : List (BucketAccumulator ℚ)} (heach : ∀ b ∈ buckets, b = fresh ∨ Used b)
    (hgauges : ∀ b ∈ buckets, key ∉ b.gauges) :
    ((buckets.filterMap BucketAccumulator.finish).map fun p => total p.values key).sum = deltaSum buckets key := by
  induction buckets with
  | nil => rfl
  | cons b buckets ih =>
    have ih := ih (fun c hc => heach c (List.mem_cons_of_mem _ hc)) fun c hc => hgauges c (List.mem_cons_of_mem _ hc)
    rw [deltaSum, List.map_cons, List.sum_cons, List.filterMap_cons]
    rcases heach b List.mem_cons_self with rfl | ⟨start, stop, hstart, hstop⟩
    · rw [show (fresh : BucketAccumulator ℚ).deltas = ∅ from rfl, valueOf_empty, zero_add]
      exact ih
    · obtain ⟨p, hp, -, -, -, hvalues⟩ := finish_used hstart hstop
      rw [hp]
      dsimp only
      rw [List.map_cons, List.sum_cons, ih, hvalues, total_eq, valueOf, extend_of_notMem (hgauges b List.mem_cons_self)]
      rfl

theorem sum_shown {inner : HistoryInner ℚ} {a b c : Nat} (hab : a ≤ b) (hbc : b ≤ c) (f : IndexedPoint ℚ → ℚ) :
    ((shown inner a c).map f).sum = ((shown inner a b).map f).sum + ((shown inner b c).map f).sum := by
  unfold shown
  induction inner.points with
  | nil => simp
  | cons p points ih =>
    simp only [List.filter_cons, decide_eq_true_eq]
    by_cases hleft : a < p.t ∧ p.t ≤ b
    · rw [if_pos hleft, if_pos (by omega), if_neg (by omega), List.map_cons, List.sum_cons, List.map_cons, List.sum_cons,
        ih, add_assoc]
    · by_cases hright : b < p.t ∧ p.t ≤ c
      · rw [if_neg hleft, if_pos (by omega), if_pos hright, List.map_cons, List.sum_cons, List.map_cons, List.sum_cons,
          ih, add_left_comm]
      · rw [if_neg hleft, if_neg (by omega), if_neg hright, ih]

end

/-- A rollup shares the deltas of its window out to its buckets. -/
structure Partition (inner : HistoryInner ℚ) (lo hi points : Nat) : Prop where
  totals : ∀ key, total (inner.rollup lo hi points).totals key =
    ((shown inner lo hi).map fun p => (p.deltas[key]?).getD 0).sum
  budget : ∀ points', (inner.rollup lo hi points').totals = (inner.rollup lo hi points).totals
  /-- For a series that is not a gauge too. -/
  sum : ∀ key, (∀ p ∈ shown inner lo hi, key ∉ p.gauges) →
    ((inner.rollup lo hi points).points.map fun p => total p.values key).sum =
      total (inner.rollup lo hi points).totals key
  length : (inner.rollup lo hi points).points.length ≤ max 2 (min points 1000)
  tiles : ∃ start stop, (inner.rollup lo hi points).effectiveFrom = some start ∧
    (inner.rollup lo hi points).effectiveTo = some stop ∧ Tiles start (inner.rollup lo hi points).points stop ∧
    ((inner.rollup lo hi points).points.map (·.durationSeconds)).sum = stop - start
  additive : ∀ later, hi ≤ later → ∀ key n n', total (inner.rollup lo later n).totals key =
    total (inner.rollup lo hi points).totals key + total (inner.rollup hi later n').totals key

theorem total_rollup {inner : HistoryInner ℚ} (h : Sorted inner) (lo hi points : Nat) (key : MetricKey) :
    total (inner.rollup lo hi points).totals key = ((shown inner lo hi).map fun p => valueOf p.deltas key).sum := by
  rw [totals_rollup_eq h, total_eq, valueOf_totals]

theorem rollup_partition {inner : HistoryInner ℚ} (h : Sorted inner) {lo hi : Nat} (hlt : lo < hi)
    (hpoint : ∃ p ∈ inner.points, lo < p.t ∧ p.t ≤ hi) (points : Nat) : Partition inner lo hi points := by
  obtain ⟨before, after, hpoints, -, hzip⟩ := window_eq h (Nat.le_of_lt hlt)
  have hmem : ∀ p ∈ inner.window lo hi, p.1 ∈ shown inner lo hi := by
    intro p hp
    rw [hzip] at hp
    rw [← List.zipIdx_map_fst before.length (shown inner lo hi)]
    exact List.mem_map_of_mem hp
  have hshown : (inner.window lo hi).map (·.1) = shown inner lo hi := by rw [hzip, List.zipIdx_map_fst]
  obtain ⟨p, first, rest, hwindow⟩ : ∃ p first rest, inner.window lo hi = (p, first) :: rest := by
    cases hw : inner.window lo hi with
    | nil =>
      obtain ⟨p, hp, hin⟩ := hpoint
      have hnil := (window_eq_nil_iff h (Nat.le_of_lt hlt)).1 hw
      have : p ∈ shown inner lo hi := List.mem_filter.2 ⟨hp, decide_eq_true hin⟩
      rw [hnil] at this
      cases this
    | cons p rest => exact ⟨p.1, p.2, rest, rfl⟩
  obtain ⟨start, hstart, hlinked⟩ := linked_window h (Nat.le_of_lt hlt) hwindow
  obtain ⟨hfrom, hto, hbuckets⟩ := rollup_eq hlt hwindow points
  have hbudget : 0 < pointBudget points := by
    unfold pointBudget
    omega
  have hfilled := (Filled.start lo hi (pointBudget points) start).foldl hbudget hlinked
  have hlast : lastTime start (inner.window lo hi) = lastTime p.t ((p, first) :: rest) := by
    rw [hwindow, lastTime, lastTime, List.getLast?_cons]
    rfl
  constructor
  · exact total_rollup h lo hi points
  · intro points'
    rw [totals_rollup_eq h, totals_rollup_eq h]
  · intro key hkey
    have hfresh : ∀ b ∈ List.replicate (pointBudget points) (fresh : BucketAccumulator ℚ), key ∉ b.gauges := by
      intro b hb
      rw [List.eq_of_mem_replicate hb]
      exact Std.ExtTreeMap.not_mem_empty
    have hgauges := @notMem_gauges_foldl key inner lo hi _ _ hfresh fun p hp => hkey p.1 (hmem p hp)
    rw [hbuckets, sum_finish hfilled.each hgauges, deltaSum_foldl (by rw [List.length_replicate]; exact hbudget),
      total_rollup h, ← hshown, List.map_map]
    have hzero : deltaSum (List.replicate (pointBudget points) fresh) key = 0 := by
      rw [deltaSum, List.map_replicate, List.sum_replicate, show (fresh : BucketAccumulator ℚ).deltas = ∅ from rfl,
        valueOf_empty, smul_zero]
    rw [hzero, zero_add]
    rfl
  · rw [hbuckets]
    exact (List.length_filterMap_le _ _).trans hfilled.length.le
  · refine ⟨start, _, by rw [hfrom, hstart], hto, ?_, ?_⟩
    · rw [hbuckets, ← hlast]
      exact hfilled.tiles
    · rw [hbuckets, ← hlast]
      exact hfilled.tiles.sum_duration
  · intro later hle key n n'
    rw [total_rollup h, total_rollup h, total_rollup h]
    exact sum_shown (Nat.le_of_lt hlt) hle _

def requestsTotal : MetricKey := ⟨"requests_total", ∅⟩

def ingest (inner : HistoryInner ℚ) (t : Nat) (exposition : String) : HistoryInner ℚ :=
  (ingestCanonicalSample inner t "a" ⟨40, 1, [40]⟩ (parseExposition Live.naturalNumber exposition) none).setBounds

def threePoints : HistoryInner ℚ :=
  ingest (ingest (ingest {} 100 "requests_total 10") 200 "requests_total 25") 300 "requests_total 40"

theorem rollup_partition_threePoints : total (threePoints.rollup 100 300 2).totals requestsTotal = 30 ∧
    (threePoints.rollup 100 300 2).points.length = 1 ∧ Partition threePoints 100 300 2 := by
  have htimes : threePoints.points.map (·.t) = [100, 200, 300] := rfl
  have hsorted : Sorted threePoints := by
    rw [Sorted, ← List.pairwise_map (R := (· ≤ ·)), htimes]
    decide
  have hpoint : ∃ p ∈ threePoints.points, 100 < p.t ∧ p.t ≤ 300 := by
    obtain ⟨p, hp, ht⟩ := List.mem_map.1 (show 200 ∈ threePoints.points.map (·.t) by rw [htimes]; decide)
    exact ⟨p, hp, by omega⟩
  exact ⟨by decide +kernel, by decide +kernel, rollup_partition hsorted (by decide) hpoint 2⟩

/-- The series is declared a gauge after its first sample: it is a counter and a gauge of one snapshot. -/
def twofold : HistoryInner ℚ := ingest {} 10 "requests_total 5\n# TYPE requests_total gauge\nrequests_total 6"

/-- Its gauge hides its delta in the bucket. -/
theorem not_partition_twofold : Sorted twofold ∧ (∃ p ∈ twofold.points, 0 < p.t ∧ p.t ≤ 20 ∧ requestsTotal ∈ p.deltas) ∧
    total (twofold.rollup 0 20 2).totals requestsTotal = 5 ∧
    ((twofold.rollup 0 20 2).points.map fun p => total p.values requestsTotal).sum = 6 := by
  refine ⟨?_, ?_, by decide +kernel, by decide +kernel⟩
  · show [_].Pairwise _
    exact List.pairwise_singleton ..
  · have hpoint : (twofold.points.any fun p => decide (0 < p.t ∧ p.t ≤ 20 ∧ requestsTotal ∈ p.deltas)) = true := by
      decide +kernel
    obtain ⟨p, hp, h⟩ := List.any_eq_true.1 hpoint
    exact ⟨p, hp, of_decide_eq_true h⟩

end OpenProxy.Buckets
