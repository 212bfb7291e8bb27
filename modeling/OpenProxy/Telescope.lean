import OpenProxy.Shape

/-!
# The deltas of a sequence of snapshots (`normalize`, `ingest_canonical_sample` of `history.rs`)

Counters start over when the process does. Between two restarts the deltas of a counter add up to its last value, so
that all its deltas are what all processes counted, provided that a series does not vanish while its process runs.
-/

namespace OpenProxy.Telescope

open Shape

/-! ### Maximal runs -/

section
variable {α : Type} {r : α → α → Bool} {a b : α} {l : List α}

theorem splitBy_cons_of_not (h : r a b = false) : (a :: b :: l).splitBy r = [a] :: (b :: l).splitBy r := by
  have hsplit := @List.splitBy_append_cons α r [a] b l fun x hx => by
    rw [← Option.some.inj hx]
    exact h
  have hone : [a].splitBy r = [[a]] := List.splitBy_of_isChain (List.cons_ne_nil _ _) (List.isChain_singleton _)
  rw [hone] at hsplit
  exact hsplit

theorem splitBy_cons_of_rel (h : r a b = true) : ∃ run runs, (b :: l).splitBy r = (b :: run) :: runs ∧
    (a :: b :: l).splitBy r = (a :: b :: run) :: runs := by
  cases hsplit : (b :: l).splitBy r with
  | nil => cases List.splitBy_eq_nil.1 hsplit
  | cons run runs =>
    obtain ⟨hjoin, hne, hchain, hlast⟩ := List.splitBy_eq_iff.1 hsplit
    cases run with
    | nil => exact absurd List.mem_cons_self hne
    | cons c run =>
      rw [List.flatten_cons, List.cons_append] at hjoin
      obtain ⟨rfl, hjoin⟩ := List.cons.inj hjoin
      refine ⟨run, runs, rfl, List.splitBy_eq_iff.2 ⟨?_, ?_, ?_, ?_⟩⟩
      · rw [List.flatten_cons, List.cons_append, List.cons_append, hjoin]
      · simp only [List.mem_cons, not_or] at hne ⊢
        exact ⟨(List.cons_ne_nil _ _).symm, hne.2⟩
      · intro m hm
        rcases List.mem_cons.1 hm with rfl | hm
        · exact List.IsChain.cons_cons h (hchain _ List.mem_cons_self)
        · exact hchain m (List.mem_cons_of_mem _ hm)
      · rw [List.isChain_cons] at hlast ⊢
        refine ⟨fun next hnext => ?_, hlast.2⟩
        obtain ⟨hne', hne'', hr⟩ := hlast.1 next hnext
        exact ⟨List.cons_ne_nil _ _, hne'', by rw [List.getLast_cons hne']; exact hr⟩

end

/-! ### Samples -/

structure Sample where
  timestamp : Nat
  bootId : String
  capacity : Capacity
  current : ParsedSnapshot ℚ
  cutoff : Option Nat

def Sample.ingest (inner : HistoryInner ℚ) (s : Sample) : HistoryInner ℚ :=
  ingestCanonicalSample inner s.timestamp s.bootId s.capacity s.current s.cutoff

/-- The deltas that a sequence of samples produces, kept in the index or not. -/
def deltas (inner : HistoryInner ℚ) : List Sample → List (Series ℚ)
  | [] => []
  | s :: samples =>
    (normalize inner.lastParsed s.current (inner.resets s.bootId)).deltas :: deltas (s.ingest inner) samples

/-- Without a cutoff they are those of the points. -/
theorem points_foldl {samples : List Sample} (hcutoff : ∀ s ∈ samples, s.cutoff = none) (inner : HistoryInner ℚ) :
    (samples.foldl Sample.ingest inner).points.map (·.deltas) = inner.points.map (·.deltas) ++ deltas inner samples := by
  induction samples generalizing inner with
  | nil => exact (List.append_nil _).symm
  | cons s samples ih =>
    rw [List.foldl_cons, ih (fun s' hs' => hcutoff s' (List.mem_cons_of_mem _ hs'))]
    have hpoints : (s.ingest inner).points.map (·.deltas) =
        inner.points.map (·.deltas) ++ [(normalize inner.lastParsed s.current (inner.resets s.bootId)).deltas] := by
      rw [Sample.ingest, hcutoff s List.mem_cons_self]
      exact List.map_append
    rw [hpoints, List.append_assoc]
    rfl

/-- A counter of both snapshots decreased. -/
def decreases (previous current : Series ℚ) : Bool :=
  current.toList.any fun p => (previous[p.1]?).any fun before => decide (p.2 < before)

/-- A reset between two snapshots: another process, or a counter that decreased. -/
def restarts (a b : Sample) : Bool := a.bootId != b.bootId || decreases a.current.counters b.current.counters

/-- The maximal runs without a reset. -/
def runs (samples : List Sample) : List (List Sample) := samples.splitBy fun a b => !restarts a b

/-- The last value of the counter in a run; one that does not occur counts nothing. -/
def lastValue (run : List Sample) (key : MetricKey) : ℚ :=
  ((run.filterMap (·.current.counters[key]?)).getLast?).getD 0

/-- The counters are nonnegative integers. -/
def Whole (s : Sample) : Prop :=
  ∀ (key : MetricKey) (value : ℚ), s.current.counters[key]? = some value → ∃ n : ℕ, value = n

/-- A series stays until the next reset. -/
def Stays (samples : List Sample) : Prop :=
  samples.IsChain fun a b => restarts a b = false → ∀ key ∈ a.current.counters, key ∈ b.current.counters

/-! ### One sample -/

theorem decreases_iff {previous current : Series ℚ} : decreases previous current = true ↔
    ∃ (key : MetricKey) (before value : ℚ), previous[key]? = some before ∧ current[key]? = some value ∧ value < before := by
  rw [decreases, List.any_eq_true]
  constructor
  · rintro ⟨⟨key, value⟩, hmem, h⟩
    obtain ⟨before, hbefore, hlt⟩ := (Option.any_eq_true ..).1 h
    exact ⟨key, before, value, hbefore, Std.ExtTreeMap.mem_toList_iff_getElem?_eq_some.1 hmem, of_decide_eq_true hlt⟩
  · rintro ⟨key, before, value, hbefore, hvalue, hlt⟩
    refine ⟨(key, value), Std.ExtTreeMap.mem_toList_iff_getElem?_eq_some.2 hvalue, ?_⟩
    exact (Option.any_eq_true ..).2 ⟨before, hbefore, decide_eq_true hlt⟩

/-- A decrease of an integer is not taken for rounding. -/
theorem drops_eq {a b : Sample} (ha : Whole a) (hb : Whole b) :
    drops a.current b.current = decreases a.current.counters b.current.counters := by
  have hlt : ∀ p ∈ b.current.counters.toList, ((a.current.counters[p.1]?).any fun before =>
      F64.lt (p.2 - before) (-F64.epsilon)) = (a.current.counters[p.1]?).any fun before => decide (p.2 < before) := by
    rintro ⟨key, value⟩ hmem
    cases hbefore : a.current.counters[key]? with
    | none => rfl
    | some before =>
      obtain ⟨n, rfl⟩ := ha key before hbefore
      obtain ⟨m, rfl⟩ := hb key value (Std.ExtTreeMap.mem_toList_iff_getElem?_eq_some.1 hmem)
      show decide ((m : ℚ) - n < -(1 / 2 ^ 52)) = decide ((m : ℚ) < n)
      rw [decide_eq_decide]
      constructor
      · intro h
        have : (0 : ℚ) < 1 / 2 ^ 52 := by norm_num
        linarith
      · intro h
        have hle : (m : ℚ) + 1 ≤ n := by exact_mod_cast (Nat.cast_lt.1 h : m < n)
        have : (1 / 2 ^ 52 : ℚ) < 1 := by norm_num
        linarith
  rw [drops, decreases, Bool.eq_iff_iff, List.any_eq_true, List.any_eq_true]
  constructor
  · rintro ⟨p, hp, h⟩
    exact ⟨p, hp, (hlt p hp).symm.trans h⟩
  · rintro ⟨p, hp, h⟩
    exact ⟨p, hp, (hlt p hp).trans h⟩

/-- The sample before the next one. -/
structure Follows (inner : HistoryInner ℚ) (s : Sample) : Prop where
  lastParsed : inner.lastParsed = some s.current
  lastSampleBoot : inner.lastSampleBoot = some s.bootId

theorem Follows.resets {inner : HistoryInner ℚ} {s : Sample} (h : Follows inner s) (bootId : String) :
    inner.resets bootId = (s.bootId != bootId) := by
  rw [HistoryInner.resets, h.lastParsed, h.lastSampleBoot, Bool.eq_iff_iff]
  simp

theorem follows_ingest (inner : HistoryInner ℚ) (s : Sample) : Follows (s.ingest inner) s := ⟨rfl, rfl⟩

theorem Whole.nonneg {s : Sample} (h : Whole s) {key : MetricKey} {value : ℚ}
    (hvalue : s.current.counters[key]? = some value) : 0 ≤ value := by
  obtain ⟨n, rfl⟩ := h key value hvalue
  exact Nat.cast_nonneg n

/-- After a reset a delta is the value. -/
theorem deltas_of_restarts {inner : HistoryInner ℚ} {a b : Sample} (hf : Follows inner a) (ha : Whole a) (hb : Whole b)
    (h : restarts a b = true) (key : MetricKey) :
    (normalize inner.lastParsed b.current (inner.resets b.bootId)).deltas[key]? = b.current.counters[key]? := by
  have hreset : (inner.resets b.bootId ||
      (normalize inner.lastParsed b.current (inner.resets b.bootId)).inferredReset) = true := by
    have hresets := hf.resets b.bootId
    have hinferred : (normalize inner.lastParsed b.current (inner.resets b.bootId)).inferredReset =
        (!inner.resets b.bootId && decreases a.current.counters b.current.counters) := by
      rw [← drops_eq ha hb, normalize, hf.lastParsed]
      rfl
    rw [hinferred, hresets]
    rw [restarts] at h
    cases hboot : a.bootId != b.bootId with
    | true => rfl
    | false =>
      rw [hboot] at h
      exact h
  rw [getElem?_deltas, hreset]
  simp

/-- Otherwise nothing shrank. -/
theorem grows_of_not_restarts {a b : Sample} (h : restarts a b = false)
    (hstays : ∀ key ∈ a.current.counters, key ∈ b.current.counters) :
    Grows id a.current.counters b.current.counters := by
  intro key before hbefore
  have hmem : key ∈ b.current.counters :=
    hstays key (Std.ExtTreeMap.mem_iff_isSome_getElem?.2 (by rw [hbefore]; rfl))
  obtain ⟨value, hvalue⟩ := Option.isSome_iff_exists.1 (Std.ExtTreeMap.mem_iff_isSome_getElem?.1 hmem)
  refine ⟨value, hvalue, rfl, rfl, ?_, representable_rat _⟩
  by_contra hlt
  have hdecreases := decreases_iff.2 ⟨key, before, value, hbefore, hvalue, not_le.1 hlt⟩
  rw [restarts, hdecreases, Bool.or_true] at h
  cases h

/-- Without a reset a delta is what the counter went up by. -/
theorem deltas_of_not_restarts {inner : HistoryInner ℚ} {a b : Sample} (hf : Follows inner a)
    (h : restarts a b = false) (hstays : ∀ key ∈ a.current.counters, key ∈ b.current.counters) (key : MetricKey) :
    valueOf a.current.counters key +
      valueOf (normalize inner.lastParsed b.current (inner.resets b.bootId)).deltas key =
        valueOf b.current.counters key := by
  have hreset : inner.resets b.bootId = false := by
    rw [hf.resets]
    rw [restarts, Bool.or_eq_false_iff] at h
    exact h.1
  rw [hf.lastParsed, hreset]
  have hgrows := (normalize_grows ieee_rat (grows_of_not_restarts h hstays)).2 key
  simpa only [numberOf, valueOf, Option.map_id, id] using hgrows

theorem deltas_nonneg {inner : HistoryInner ℚ} {a b : Sample} (hf : Follows inner a) (ha : Whole a) (hb : Whole b)
    (hstays : restarts a b = false → ∀ key ∈ a.current.counters, key ∈ b.current.counters) {key : MetricKey} {value : ℚ}
    (hvalue : (normalize inner.lastParsed b.current (inner.resets b.bootId)).deltas[key]? = some value) : 0 ≤ value := by
  cases h : restarts a b with
  | true =>
    rw [deltas_of_restarts hf ha hb h] at hvalue
    exact hb.nonneg hvalue
  | false =>
    have hsum := deltas_of_not_restarts hf h (hstays h) key
    rw [valueOf, valueOf, valueOf, hvalue, Option.getD_some] at hsum
    have hle : (a.current.counters[key]?).getD 0 ≤ (b.current.counters[key]?).getD 0 := by
      cases hbefore : a.current.counters[key]? with
      | none =>
        cases hafter : b.current.counters[key]? with
        | none => exact le_rfl
        | some after => exact hb.nonneg hafter
      | some before =>
        obtain ⟨after, hafter, -, -, hle, -⟩ := grows_of_not_restarts h (hstays h) key before hbefore
        rw [hafter]
        exact hle
    linarith

/-! ### The last value of a run -/

theorem lastValue_singleton (s : Sample) (key : MetricKey) : lastValue [s] key = valueOf s.current.counters key := by
  rw [lastValue, List.filterMap_cons, valueOf]
  cases s.current.counters[key]? <;> rfl

/-- A series of the first sample that the second has too is in the rest of the run. -/
theorem lastValue_cons {a b : Sample} (hstays : ∀ key ∈ a.current.counters, key ∈ b.current.counters)
    (run : List Sample) (key : MetricKey) : lastValue (a :: b :: run) key = lastValue (b :: run) key := by
  rw [lastValue, lastValue, List.filterMap_cons]
  cases hvalue : a.current.counters[key]? with
  | none => rfl
  | some value =>
    have hmem := hstays key (Std.ExtTreeMap.mem_iff_isSome_getElem?.2 (by rw [hvalue]; rfl))
    obtain ⟨value', hvalue'⟩ := Option.isSome_iff_exists.1 (Std.ExtTreeMap.mem_iff_isSome_getElem?.1 hmem)
    dsimp only
    rw [List.filterMap_cons, hvalue']
    rfl

/-! ### The sequence -/

/-- Before a sample, what comes on top of its value is what the runs from it on count. -/
theorem sum_deltas {inner : HistoryInner ℚ} {a : Sample} {samples : List Sample} (hf : Follows inner a)
    (hwhole : ∀ s ∈ a :: samples, Whole s) (hstays : Stays (a :: samples)) (key : MetricKey) :
    valueOf a.current.counters key + ((deltas inner samples).map (valueOf · key)).sum =
      ((runs (a :: samples)).map (lastValue · key)).sum := by
  induction samples generalizing inner a with
  | nil =>
    have hruns : runs [a] = [[a]] := List.splitBy_of_isChain (List.cons_ne_nil _ _) (List.isChain_singleton _)
    rw [hruns, List.map_singleton, List.sum_singleton, lastValue_singleton]
    exact add_zero _
  | cons b samples ih =>
    obtain ⟨hab, hstays⟩ := List.isChain_cons_cons.1 hstays
    have hrest := ih (follows_ingest inner b) (fun s hs => hwhole s (List.mem_cons_of_mem _ hs)) hstays
    rw [deltas, List.map_cons, List.sum_cons]
    cases h : restarts a b with
    | true =>
      have hruns : runs (a :: b :: samples) = [a] :: runs (b :: samples) := splitBy_cons_of_not (by rw [h]; rfl)
      have hvalue := deltas_of_restarts hf (hwhole a List.mem_cons_self)
        (hwhole b (List.mem_cons_of_mem _ List.mem_cons_self)) h key
      rw [hruns, List.map_cons, List.sum_cons, lastValue_singleton, ← hrest, valueOf, valueOf, hvalue]
      rfl
    | false =>
      obtain ⟨run, rest, hb, hruns⟩ := @splitBy_cons_of_rel _ (fun a b => !restarts a b) a b samples (by rw [h]; rfl)
      have hvalue := deltas_of_not_restarts hf h (hab h) key
      rw [← add_assoc, hvalue, hrest, runs, runs, hb, hruns, List.map_cons, List.map_cons, List.sum_cons, List.sum_cons,
        lastValue_cons (hab h)]

theorem all_deltas_nonneg {inner : HistoryInner ℚ} {a : Sample} {samples : List Sample} (hf : Follows inner a)
    (hwhole : ∀ s ∈ a :: samples, Whole s) (hstays : Stays (a :: samples)) :
    ∀ d ∈ deltas inner samples, ∀ (key : MetricKey) (value : ℚ), d[key]? = some value → 0 ≤ value := by
  induction samples generalizing inner a with
  | nil => exact fun d hd => absurd hd List.not_mem_nil
  | cons b samples ih =>
    obtain ⟨hab, hstays⟩ := List.isChain_cons_cons.1 hstays
    intro d hd key value hvalue
    rcases List.mem_cons.1 hd with rfl | hd
    · exact deltas_nonneg hf (hwhole a List.mem_cons_self) (hwhole b (List.mem_cons_of_mem _ List.mem_cons_self)) hab
        hvalue
    · exact ih (follows_ingest inner b) (fun s hs => hwhole s (List.mem_cons_of_mem _ hs)) hstays d hd key value hvalue

/-- The first sample counts from zero. -/
theorem deltas_first (s : Sample) (key : MetricKey) :
    (normalize ({} : HistoryInner ℚ).lastParsed s.current (({} : HistoryInner ℚ).resets s.bootId)).deltas[key]? =
      s.current.counters[key]? := by
  rw [getElem?_deltas]
  cases s.current.counters[key]? <;> rfl

/-- No delta is negative, and the deltas of a counter add up to its last values before the resets and at the end. -/
theorem deltas_telescope {samples : List Sample} (hwhole : ∀ s ∈ samples, Whole s) (hstays : Stays samples) :
    (∀ d ∈ deltas {} samples, ∀ (key : MetricKey) (value : ℚ), d[key]? = some value → 0 ≤ value) ∧
    (∀ key : MetricKey, ((deltas {} samples).map fun d => (d[key]?).getD 0).sum =
      ((runs samples).map fun run => lastValue run key).sum) ∧
    ((∀ s ∈ samples, s.cutoff = none) →
      (samples.foldl Sample.ingest {}).points.map (·.deltas) = deltas {} samples) := by
  refine ⟨?_, ?_, fun hcutoff => points_foldl hcutoff {}⟩
  · cases samples with
    | nil => exact fun d hd => absurd hd List.not_mem_nil
    | cons s samples =>
      intro d hd key value hvalue
      rcases List.mem_cons.1 hd with rfl | hd
      · rw [deltas_first] at hvalue
        exact (hwhole s List.mem_cons_self).nonneg hvalue
      · exact all_deltas_nonneg (follows_ingest {} s) hwhole hstays d hd key value hvalue
  · intro key
    cases samples with
    | nil => rfl
    | cons s samples =>
      have hsum := sum_deltas (follows_ingest {} s) hwhole hstays key
      rw [deltas, List.map_cons, List.sum_cons, deltas_first]
      exact hsum

def sampled (bootId exposition : String) : Sample :=
  ⟨0, bootId, ⟨40, 1, [40]⟩, parseExposition Live.naturalNumber exposition, none⟩

/-- Five and seven, a decrease to two with another series, and another process without it. -/
def threeRuns : List Sample :=
  [sampled "a" "x_total 5", sampled "a" "x_total 7", sampled "a" "x_total 2\ny_total 3", sampled "b" "x_total 4"]

theorem deltas_telescope_threeRuns :
    ((deltas {} threeRuns).map fun d => (d[(⟨"x_total", ∅⟩ : MetricKey)]?).getD 0).sum = 7 + 2 + 4 := by
  have hwhole : ∀ s ∈ threeRuns, Whole s := by
    have hall : (threeRuns.all fun s => s.current.counters.toList.all fun p =>
        decide (p.2 = (p.2.num.toNat : ℚ))) = true := by decide +kernel
    intro s hs key value hvalue
    have hs := List.all_eq_true.1 (List.all_eq_true.1 hall s hs) (key, value)
      (Std.ExtTreeMap.mem_toList_iff_getElem?_eq_some.2 hvalue)
    exact ⟨_, of_decide_eq_true hs⟩
  have hstays : Stays threeRuns := by
    have hkeys : threeRuns.IsChain fun a b => restarts a b = false →
        ∀ key ∈ a.current.counters.keys, key ∈ b.current.counters := by decide +kernel
    exact hkeys.imp fun a b h hrestarts key hkey => h hrestarts key (Std.ExtTreeMap.mem_keys.2 hkey)
  have hruns : ((runs threeRuns).map fun run => lastValue run ⟨"x_total", ∅⟩) = [7, 2, 4] := by decide +kernel
  rw [(deltas_telescope hwhole hstays).2.1, hruns]
  norm_num

end OpenProxy.Telescope
