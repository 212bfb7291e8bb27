import OpenProxy.Replay
import OpenProxy.Scan

/-!
# Compaction (`retained_compaction_records` of `history/store.rs`)

Of each epoch that still has an observation at or after the cutoff, compaction keeps the boot record, the
last sample before the cutoff and everything at or after the cutoff. The sample is the baseline the first
kept observation is normalized against; an epoch that starts at or after the cutoff needs none, since the
first observation of an epoch counts from zero.

The functions are generic in the element, with a projection to the record, so that a specification can
carry a mark beside each record.
-/

namespace OpenProxy

section
variable {V α : Type} (record : α → Record V)

def startsAtBoot (epoch : List α) : Bool := epoch.head?.any fun r => (record r).isBoot

/-- A record before a stream cut into epochs. -/
def consEpoch (r : α) : List (List α) → List (List α)
  | [] => [[r]]
  | epoch :: epochs => if startsAtBoot record epoch then [r] :: epoch :: epochs else (r :: epoch) :: epochs

/-- The stream cut before each boot record. -/
def splitEpochs : List α → List (List α)
  | [] => []
  | r :: records => consEpoch record r (splitEpochs records)

def isLiveEpoch (epoch : List α) (liveBootId : String) (liveEpochUsable : Bool) : Bool :=
  liveEpochUsable && epoch.head?.any fun r => (record r).isBoot && (record r).bootId == liveBootId

def isSampleBefore (cutoff : Nat) : Record V → Bool
  | .sample r => decide (r.timestamp < cutoff)
  | _ => false

/-- The index of the last sample before the cutoff. -/
def baseline (epoch : List α) (cutoff : Nat) : Option Nat :=
  ((epoch.zipIdx.filter fun p => isSampleBefore cutoff (record p.1)).map Prod.snd).getLast?

def retainEpoch (epoch : List α) (cutoff : Nat) (liveBootId : String) (liveEpochUsable : Bool) : List α :=
  if isLiveEpoch record epoch liveBootId liveEpochUsable || epoch.any fun r => cutoff ≤ (record r).timestamp then
    (epoch.zipIdx.filter fun p =>
      p.2 == 0 || baseline record epoch cutoff == some p.2 || decide (cutoff ≤ (record p.1).timestamp)).map Prod.fst
  else []

def retainedCompactionRecords (records : List α) (cutoff : Nat) (liveBootId : String)
    (liveEpochUsable : Bool) : List α :=
  (splitEpochs record records).flatMap fun epoch => retainEpoch record epoch cutoff liveBootId liveEpochUsable

end

/-! ### Committed streams -/

/-- A sample, or a checkpoint if it has no state of its own. -/
structure Observation (V : Type) where
  t : Nat
  capacity : Capacity
  state : Option (List (StateEntry V))

def Observation.record {V : Type} (bootId : String) (o : Observation V) : Record V :=
  match o.state with
  | some state => .sample ⟨o.t, bootId, o.capacity, state⟩
  | none => .checkpoint ⟨o.t, bootId, o.capacity⟩

/-- An epoch as the scanner commits it: a boot, a sample, then samples and checkpoints. -/
structure CommittedEpoch (V : Type) where
  boot : BootRecord
  observations : List (Observation V)
  opens : ∃ o os, observations = o :: os ∧ o.state.isSome

def CommittedEpoch.records {V : Type} (e : CommittedEpoch V) : List (Record V) :=
  .boot e.boot :: e.observations.map (Observation.record e.boot.bootId)

theorem CommittedEpoch.bootId_eq {V : Type} (e : CommittedEpoch V) : ∀ r ∈ e.records, r.bootId = e.boot.bootId := by
  intro r hr
  rcases List.mem_cons.1 hr with rfl | hr
  · rfl
  · obtain ⟨o, -, rfl⟩ := List.mem_map.1 hr
    unfold Observation.record
    cases o.state <;> rfl

/-- A stream of epochs of different processes with nondecreasing timestamps. -/
structure Committed {V : Type} (records : List (Record V)) : Prop where
  epochs : ∃ es : List (CommittedEpoch V), records = es.flatMap CommittedEpoch.records ∧
    (es.map (·.boot.bootId)).Nodup
  inOrder : InOrder records

/-! ### What a replay of an epoch shows -/

section
variable {V : Type}

/-- The state after an observation, when `state` is the one before it. -/
def Observation.next (state : Option (List (StateEntry V))) (o : Observation V) : Option (List (StateEntry V)) :=
  o.state.or state

/-- The state after a list of observations. -/
def stateAfter (state : Option (List (StateEntry V))) (os : List (Observation V)) :
    Option (List (StateEntry V)) := os.foldl Observation.next state

theorem stateAfter_append (state : Option (List (StateEntry V))) (os os' : List (Observation V)) :
    stateAfter state (os ++ os') = stateAfter (stateAfter state os) os' := List.foldl_append

@[simp] theorem Observation.timestamp_record (bootId : String) (o : Observation V) :
    (o.record bootId).timestamp = o.t := by
  unfold Observation.record
  cases o.state <;> rfl

theorem stateAfter_checkpoints {state : Option (List (StateEntry V))} {os : List (Observation V)}
    (h : ∀ o ∈ os, o.state = none) : stateAfter state os = state := by
  induction os generalizing state with
  | nil => rfl
  | cons o os ih =>
    have ho : o.next state = state := by
      rw [Observation.next, h o List.mem_cons_self, Option.none_or]
    rw [stateAfter, List.foldl_cons, ho]
    exact ih fun o' h' => h o' (List.mem_cons_of_mem _ h')

/-- After the last sample of a list the state is that sample's. -/
theorem stateAfter_lastSample {state : Option (List (StateEntry V))} {pre mid : List (Observation V)}
    {o : Observation V} (ho : o.state.isSome) (h : ∀ o' ∈ mid, o'.state = none) :
    stateAfter state (pre ++ o :: mid) = o.state := by
  rw [stateAfter, List.foldl_append, List.foldl_cons]
  refine (stateAfter_checkpoints h).trans ?_
  obtain ⟨s, hs⟩ := Option.isSome_iff_exists.1 ho
  rw [Observation.next, hs, Option.some_or]

theorem exists_lastSample {os : List (Observation V)} (h : ∃ o ∈ os, o.state.isSome) :
    ∃ pre o mid, os = pre ++ o :: mid ∧ o.state.isSome ∧ ∀ o' ∈ mid, o'.state = none := by
  induction os with
  | nil => obtain ⟨o, ho, -⟩ := h; cases ho
  | cons o os ih =>
    by_cases hos : ∃ o ∈ os, o.state.isSome
    · obtain ⟨pre, o', mid, rfl, ho', hmid⟩ := ih hos
      exact ⟨o :: pre, o', mid, rfl, ho', hmid⟩
    · have hnone : ∀ o' ∈ os, o'.state = none := fun o' h' =>
        Option.not_isSome_iff_eq_none.1 fun hs => hos ⟨o', h', hs⟩
      obtain ⟨o', ho', hs⟩ := h
      rcases List.mem_cons.1 ho' with rfl | ho'
      · exact ⟨[], o', os, rfl, hs, hnone⟩
      · exact absurd ⟨o', ho', hs⟩ hos

/-- The replay holds no observation of boot `bootId`. -/
def HistoryInner.Foreign (inner : HistoryInner V) (bootId : String) : Prop :=
  inner.lastParsed.isSome → inner.lastSampleBoot ≠ some bootId

theorem resets_of_foreign {inner : HistoryInner V} {bootId : String} (h : inner.Foreign bootId) :
    inner.resets bootId = inner.lastParsed.isSome := by
  unfold HistoryInner.resets
  cases hp : inner.lastParsed.isSome with
  | false => rfl
  | true => simpa using h hp

end

section
variable {V : Type} [F64 V]

/-- The point of an observation within its epoch. -/
def Observation.point (state : Option (List (StateEntry V))) (o : Observation V) : IndexedPoint V :=
  let normalized := normalize (state.map parsedCanonicalState)
    (parsedCanonicalState ((o.next state).getD [])) false
  ⟨o.t, normalized.deltas, normalized.gauges, some (capacitySnapshot o.capacity)⟩

def pointsFrom (state : Option (List (StateEntry V))) : List (Observation V) → List (IndexedPoint V)
  | [] => []
  | o :: os => o.point state :: pointsFrom (o.next state) os

def CommittedEpoch.points (e : CommittedEpoch V) : List (IndexedPoint V) := pointsFrom none e.observations

theorem pointsFrom_append (state : Option (List (StateEntry V))) (os os' : List (Observation V)) :
    pointsFrom state (os ++ os') = pointsFrom state os ++ pointsFrom (stateAfter state os) os' := by
  induction os generalizing state with
  | nil => rfl
  | cons o os ih => simp only [List.cons_append, pointsFrom, ih, stateAfter, List.foldl_cons]

theorem pointsFrom_t (state : Option (List (StateEntry V))) (os : List (Observation V)) :
    (pointsFrom state os).map (·.t) = os.map (·.t) := by
  induction os generalizing state with
  | nil => rfl
  | cons o os ih => simp only [pointsFrom, List.map_cons, ih]; rfl

/-- Observations before `c` leave no point at or after it. -/
theorem filter_pointsFrom_of_lt {c : Nat} {state : Option (List (StateEntry V))} {os : List (Observation V)}
    (h : ∀ o ∈ os, o.t < c) : (pointsFrom state os).filter (c ≤ ·.t) = [] := by
  refine List.filter_eq_nil_iff.2 fun p hp => ?_
  have hmem : p.t ∈ os.map (·.t) := pointsFrom_t state os ▸ List.mem_map_of_mem hp
  obtain ⟨o, ho, hot⟩ := List.mem_map.1 hmem
  have := h o ho
  simp only [decide_eq_true_eq]
  omega

/-- The replay stands after an observation of boot `bootId` with state `state`. -/
structure Enrich.Follows (e : Enrich V) (bootId : String) (state : Option (List (StateEntry V))) : Prop where
  isSome : state.isSome
  currentBoot : e.currentBoot = some bootId
  currentState : e.currentState = state
  lastParsed : e.inner.lastParsed = state.map parsedCanonicalState
  lastSampleBoot : e.inner.lastSampleBoot = some bootId

/-- An explicit reset counts from zero, as a first snapshot does. -/
theorem normalize_restart (previous : Option (ParsedSnapshot V)) (current : ParsedSnapshot V) :
    (normalize previous current previous.isSome).deltas = (normalize none current false).deltas ∧
      (normalize previous current previous.isSome).gauges = (normalize none current false).gauges := by
  cases previous <;> exact ⟨rfl, rfl⟩

theorem record_observation {e : Enrich V} {bootId : String} {state : Option (List (StateEntry V))}
    (h : e.Follows bootId state) (cutoff : Option Nat) (o : Observation V) :
    (e.record cutoff (o.record bootId)).Follows bootId (o.next state) ∧
      (e.record cutoff (o.record bootId)).inner.points =
        e.inner.points ++ [o.point state].filter (keeps cutoff ·.t) := by
  obtain ⟨s, rfl⟩ := Option.isSome_iff_exists.1 h.isSome
  have hreset : e.inner.resets bootId = false := by
    rw [HistoryInner.resets, h.lastSampleBoot, bne_self_eq_false, Bool.and_false]
  cases ho : o.state with
  | some s' =>
    have hnext : o.next (some s) = some s' := by rw [Observation.next, ho, Option.some_or]
    simp only [Observation.record, ho, Enrich.record, ingestCanonicalSample, hreset, h.lastParsed, hnext,
      Observation.point, Option.getD_some, List.filter_singleton]
    refine ⟨⟨rfl, rfl, rfl, rfl, rfl⟩, ?_⟩
    cases keeps cutoff o.t <;> simp
  | none =>
    have hnext : o.next (some s) = some s := by rw [Observation.next, ho, Option.none_or]
    simp only [Observation.record, ho, Enrich.record, h.currentBoot, h.currentState, beq_self_eq_true, if_true,
      ingestCanonicalSample, hreset, h.lastParsed, hnext, Observation.point, Option.getD_some,
      List.filter_singleton]
    refine ⟨⟨rfl, rfl, rfl, rfl, rfl⟩, ?_⟩
    cases keeps cutoff o.t <;> simp

theorem foldl_observations {e : Enrich V} {bootId : String} {state : Option (List (StateEntry V))}
    (h : e.Follows bootId state) (cutoff : Option Nat) (os : List (Observation V)) :
    ((os.map (Observation.record bootId)).foldl (Enrich.record · cutoff) e).Follows bootId (stateAfter state os) ∧
      ((os.map (Observation.record bootId)).foldl (Enrich.record · cutoff) e).inner.points =
        e.inner.points ++ (pointsFrom state os).filter (keeps cutoff ·.t) := by
  induction os generalizing e state with
  | nil => exact ⟨h, (List.append_nil _).symm⟩
  | cons o os ih =>
    obtain ⟨hf, hp⟩ := record_observation h cutoff o
    obtain ⟨hf', hp'⟩ := ih hf
    refine ⟨hf', ?_⟩
    rw [List.map_cons, List.foldl_cons, hp', hp, List.append_assoc, ← List.filter_append]
    rfl

theorem foldl_epoch {e : Enrich V} (epoch : CommittedEpoch V) (h : e.inner.Foreign epoch.boot.bootId)
    (cutoff : Option Nat) :
    (epoch.records.foldl (Enrich.record · cutoff) e).Follows epoch.boot.bootId
        (stateAfter none epoch.observations) ∧
      (epoch.records.foldl (Enrich.record · cutoff) e).inner.points =
        e.inner.points ++ epoch.points.filter (keeps cutoff ·.t) := by
  obtain ⟨o, os, hos, hsome⟩ := epoch.opens
  obtain ⟨s, hs⟩ := Option.isSome_iff_exists.1 hsome
  rw [CommittedEpoch.records, CommittedEpoch.points, hos, List.foldl_cons, List.map_cons, List.foldl_cons]
  have hnext : o.next none = some s := by rw [Observation.next, hs, Option.some_or]
  -- the first observation is a sample; whatever stands before it, it counts from zero
  have hfirst : ((e.record cutoff (.boot epoch.boot)).record cutoff (o.record epoch.boot.bootId)).Follows
        epoch.boot.bootId (o.next none) ∧
      ((e.record cutoff (.boot epoch.boot)).record cutoff (o.record epoch.boot.bootId)).inner.points =
        e.inner.points ++ [o.point none].filter (keeps cutoff ·.t) := by
    obtain ⟨hd, hg⟩ := normalize_restart e.inner.lastParsed (parsedCanonicalState s)
    simp only [Observation.record, hs, Enrich.record, ingestCanonicalSample, resets_of_foreign h, hd, hg, hnext,
      Observation.point, Option.getD_some, Option.map_none, List.filter_singleton]
    refine ⟨⟨rfl, rfl, rfl, rfl, rfl⟩, ?_⟩
    cases keeps cutoff o.t <;> simp
  obtain ⟨hf, hp⟩ := foldl_observations hfirst.1 cutoff os
  refine ⟨hf, ?_⟩
  rw [hp, hfirst.2, List.append_assoc, ← List.filter_append]
  rfl

/-- The points of a stream are the points of its epochs. -/
theorem foldl_epochs {e : Enrich V} {es : List (CommittedEpoch V)} (hnd : (es.map (·.boot.bootId)).Nodup)
    (h : ∀ epoch ∈ es, e.inner.Foreign epoch.boot.bootId) (cutoff : Option Nat) :
    ((es.flatMap CommittedEpoch.records).foldl (Enrich.record · cutoff) e).inner.points =
      e.inner.points ++ (es.flatMap CommittedEpoch.points).filter (keeps cutoff ·.t) := by
  induction es generalizing e with
  | nil => exact (List.append_nil _).symm
  | cons epoch es ih =>
    obtain ⟨hnot, hnd⟩ := List.nodup_cons.1 hnd
    obtain ⟨hf, hp⟩ := foldl_epoch epoch (h epoch List.mem_cons_self) cutoff
    rw [List.flatMap_cons, List.foldl_append, ih hnd, hp, List.flatMap_cons, List.filter_append,
      List.append_assoc]
    intro epoch' h' _ hboot
    rw [hf.lastSampleBoot] at hboot
    exact hnot (List.mem_map.2 ⟨epoch', h', (Option.some.inj hboot).symm⟩)

theorem enrichCanonicalReplay_points {es : List (CommittedEpoch V)} (hnd : (es.map (·.boot.bootId)).Nodup)
    (cutoff : Option Nat) :
    (enrichCanonicalReplay {} (es.flatMap CommittedEpoch.records) cutoff).points =
      (es.flatMap CommittedEpoch.points).filter (keeps cutoff ·.t) :=
  foldl_epochs hnd (fun _ _ h => by cases h) cutoff

end

/-! ### What compaction keeps of an epoch -/

section
variable {V α : Type} {record : α → Record V}

theorem filter_zipIdx_eq_nil {l : List α} {k : Nat} {p : α × Nat → Bool}
    (h : ∀ x ∈ l, ∀ i, k ≤ i → i < k + l.length → p (x, i) = false) : (l.zipIdx k).filter p = [] := by
  refine List.filter_eq_nil_iff.2 fun q hq => ?_
  rw [h q.1 (List.fst_mem_of_mem_zipIdx hq) q.2 (List.le_snd_of_mem_zipIdx hq) (List.snd_lt_add_of_mem_zipIdx hq)]
  exact Bool.false_ne_true

theorem filter_zipIdx_eq_self {l : List α} {k : Nat} {p : α × Nat → Bool}
    (h : ∀ x ∈ l, ∀ i, p (x, i) = true) : (l.zipIdx k).filter p = l.zipIdx k :=
  List.filter_eq_self.2 fun q hq => h q.1 (List.fst_mem_of_mem_zipIdx hq) q.2

theorem isSampleBefore_lt {cutoff : Nat} {r : Record V} (h : isSampleBefore cutoff r = true) :
    r.timestamp < cutoff := by
  cases r with
  | sample r => exact of_decide_eq_true h
  | boot r | checkpoint r => cases h

theorem not_isSampleBefore_of_le {cutoff : Nat} {r : Record V} (h : cutoff ≤ r.timestamp) :
    isSampleBefore cutoff r = false := by
  by_contra hs
  have := isSampleBefore_lt (eq_true_of_ne_false hs)
  omega

theorem baseline_eq {b x : α} {pre mid after : List α} {cutoff : Nat} (hx : isSampleBefore cutoff (record x) = true)
    (hmid : ∀ y ∈ mid, isSampleBefore cutoff (record y) = false)
    (hafter : ∀ y ∈ after, cutoff ≤ (record y).timestamp) :
    baseline record (b :: (pre ++ x :: (mid ++ after))) cutoff = some (1 + pre.length) := by
  have hrest : (((mid ++ after).zipIdx (1 + pre.length + 1)).filter fun p => isSampleBefore cutoff (record p.1)) = [] := by
    refine filter_zipIdx_eq_nil fun y hy _ _ _ => ?_
    rcases List.mem_append.1 hy with hy | hy
    · exact hmid y hy
    · exact not_isSampleBefore_of_le (hafter y hy)
  rw [baseline, List.zipIdx_cons, List.filter_cons, Nat.zero_add, List.zipIdx_append, List.filter_append,
    List.zipIdx_cons, List.filter_cons, if_pos hx, hrest]
  split <;> simp [List.getLast?_cons]

/-- An epoch that goes back before the cutoff: the baseline takes the place of all it stands for. -/
theorem retainEpoch_baseline {b x : α} {pre mid after : List α} {cutoff : Nat} {liveBootId : String} {usable : Bool}
    (hpre : ∀ y ∈ pre, (record y).timestamp < cutoff) (hx : isSampleBefore cutoff (record x) = true)
    (hmid : ∀ y ∈ mid, (record y).timestamp < cutoff ∧ isSampleBefore cutoff (record y) = false)
    (hafter : ∀ y ∈ after, cutoff ≤ (record y).timestamp) (hb : (record b).timestamp < cutoff) :
    retainEpoch record (b :: (pre ++ x :: (mid ++ after))) cutoff liveBootId usable =
      if isLiveEpoch record (b :: (pre ++ x :: (mid ++ after))) liveBootId usable || !after.isEmpty then
        b :: x :: after
      else [] := by
  have hbase : baseline record (b :: (pre ++ x :: (mid ++ after))) cutoff = some (1 + pre.length) :=
    baseline_eq hx (fun y hy => (hmid y hy).2) hafter
  have hany : ((b :: (pre ++ x :: (mid ++ after))).any fun r => decide (cutoff ≤ (record r).timestamp)) =
      !after.isEmpty := by
    cases after with
    | nil =>
      rw [List.isEmpty_nil, Bool.not_true, List.any_eq_false]
      intro y hy
      have : (record y).timestamp < cutoff := by
        rcases List.mem_cons.1 hy with rfl | hy
        · exact hb
        rcases List.mem_append.1 hy with hy | hy
        · exact hpre y hy
        rcases List.mem_cons.1 hy with rfl | hy
        · exact isSampleBefore_lt hx
        · exact (hmid y (by simpa using hy)).1
      simpa using this
    | cons y after =>
      rw [List.isEmpty_cons, Bool.not_false, List.any_eq_true]
      exact ⟨y, by simp, decide_eq_true (hafter y List.mem_cons_self)⟩
  rw [retainEpoch, hany]
  split
  · rw [hbase, List.zipIdx_cons, List.filter_cons, if_pos (by rfl), Nat.zero_add, List.zipIdx_append,
      List.zipIdx_cons, List.zipIdx_append, List.filter_append, List.filter_cons, if_pos (by simp),
      List.filter_append, filter_zipIdx_eq_nil (l := pre), filter_zipIdx_eq_nil (l := mid),
      filter_zipIdx_eq_self (l := after)]
    · simp
    · intro y hy i
      simp [hafter y hy]
    · intro y hy i hi _
      have := (hmid y hy).1
      simp only [Bool.or_eq_false_iff, beq_eq_false_iff_ne, decide_eq_false_iff_not, ne_eq, Option.some.injEq]
      omega
    · intro y hy i hi _
      have := hpre y hy
      simp only [Bool.or_eq_false_iff, beq_eq_false_iff_ne, decide_eq_false_iff_not, ne_eq, Option.some.injEq]
      omega
  · rfl

/-- An epoch whose observations are all at or after the cutoff is kept whole. -/
theorem retainEpoch_whole {b : α} {os : List α} {cutoff : Nat} {liveBootId : String} {usable : Bool}
    (h : ∀ y ∈ os, cutoff ≤ (record y).timestamp) (hos : os ≠ []) :
    retainEpoch record (b :: os) cutoff liveBootId usable = b :: os := by
  have hany : ((b :: os).any fun r => decide (cutoff ≤ (record r).timestamp)) = true := by
    obtain ⟨y, ys, rfl⟩ := List.exists_cons_of_ne_nil hos
    rw [List.any_eq_true]
    exact ⟨y, by simp, decide_eq_true (h y List.mem_cons_self)⟩
  rw [retainEpoch, hany, Bool.or_true, if_pos rfl, List.zipIdx_cons, List.filter_cons, if_pos (by rfl),
    filter_zipIdx_eq_self, List.map_cons, List.zipIdx_map_fst]
  intro y hy i
  simp [h y hy]

variable (record) in
theorem splitEpochs_cons (r : α) (records : List α) :
    ∃ os epochs, splitEpochs record (r :: records) = (r :: os) :: epochs := by
  rw [splitEpochs, consEpoch.eq_def]
  split
  · exact ⟨[], [], rfl⟩
  · split
    · exact ⟨[], _, rfl⟩
    · exact ⟨_, _, rfl⟩

theorem splitEpochs_append {l m : List α} (hm : startsAtBoot record m ∨ m = []) :
    splitEpochs record (l ++ m) = splitEpochs record l ++ splitEpochs record m := by
  induction l with
  | nil => rfl
  | cons r l ih =>
    rw [List.cons_append, splitEpochs, ih, splitEpochs]
    cases l with
    | nil =>
      cases m with
      | nil => rfl
      | cons r' m =>
        obtain ⟨os, epochs, h⟩ := splitEpochs_cons record r' m
        have hboot : startsAtBoot record (r' :: os) = true := hm.resolve_right (List.cons_ne_nil _ _)
        rw [h]
        simp only [splitEpochs, List.nil_append, consEpoch, hboot, if_true, List.cons_append]
    | cons r' l =>
      obtain ⟨os, epochs, h⟩ := splitEpochs_cons record r' l
      rw [h, List.cons_append, consEpoch, consEpoch]
      split <;> rfl

theorem splitEpochs_epoch {r : α} {os : List α} (h : ∀ o ∈ os, (record o).isBoot = false) :
    splitEpochs record (r :: os) = [r :: os] := by
  induction os generalizing r with
  | nil => rfl
  | cons o os ih =>
    rw [splitEpochs, ih fun o' h' => h o' (List.mem_cons_of_mem _ h')]
    simp [consEpoch, startsAtBoot, h o List.mem_cons_self]

/-! Compaction looks at the records only. -/

variable {β : Type} (f : β → α)

theorem baseline_map (epoch : List β) (cutoff : Nat) :
    baseline record (epoch.map f) cutoff = baseline (record ∘ f) epoch cutoff := by
  rw [baseline, baseline, List.zipIdx_map, List.filter_map, List.map_map]
  rfl

theorem retainEpoch_map (epoch : List β) (cutoff : Nat) (liveBootId : String) (usable : Bool) :
    retainEpoch record (epoch.map f) cutoff liveBootId usable =
      (retainEpoch (record ∘ f) epoch cutoff liveBootId usable).map f := by
  have hlive : isLiveEpoch record (epoch.map f) liveBootId usable =
      isLiveEpoch (record ∘ f) epoch liveBootId usable := by
    rw [isLiveEpoch, isLiveEpoch, List.head?_map, Option.any_map]
    rfl
  have hany : ((epoch.map f).any fun r => decide (cutoff ≤ (record r).timestamp)) =
      epoch.any fun r => decide (cutoff ≤ ((record ∘ f) r).timestamp) := List.any_map
  rw [retainEpoch, retainEpoch, hlive, hany, baseline_map, apply_ite (List.map f), List.map_nil, List.zipIdx_map,
    List.filter_map, List.map_map, List.map_map]
  rfl

theorem splitEpochs_map (records : List β) :
    splitEpochs record (records.map f) = (splitEpochs (record ∘ f) records).map (List.map f) := by
  induction records with
  | nil => rfl
  | cons r records ih =>
    rw [List.map_cons, splitEpochs, ih, splitEpochs]
    cases splitEpochs (record ∘ f) records with
    | nil => rfl
    | cons epoch epochs =>
      have hboot : startsAtBoot record (epoch.map f) = startsAtBoot (record ∘ f) epoch := by
        rw [startsAtBoot, startsAtBoot, List.head?_map, Option.any_map]
        rfl
      rw [List.map_cons, consEpoch, consEpoch, hboot]
      split <;> rfl

theorem retainedCompactionRecords_map (records : List β) (cutoff : Nat) (liveBootId : String) (usable : Bool) :
    retainedCompactionRecords record (records.map f) cutoff liveBootId usable =
      (retainedCompactionRecords (record ∘ f) records cutoff liveBootId usable).map f := by
  rw [retainedCompactionRecords, retainedCompactionRecords, splitEpochs_map, List.flatMap_map, List.map_flatMap]
  exact List.flatMap_congr fun epoch _ => retainEpoch_map f epoch cutoff liveBootId usable

theorem flatten_splitEpochs (records : List α) : (splitEpochs record records).flatten = records := by
  induction records with
  | nil => rfl
  | cons r records ih =>
    rw [splitEpochs]
    cases h : splitEpochs record records with
    | nil =>
      rw [h] at ih
      rw [consEpoch, ← ih]
      rfl
    | cons epoch epochs =>
      rw [h] at ih
      rw [consEpoch]
      split <;> rw [← ih] <;> rfl

theorem retainEpoch_sublist (epoch : List α) (cutoff : Nat) (liveBootId : String) (usable : Bool) :
    (retainEpoch record epoch cutoff liveBootId usable).Sublist epoch := by
  rw [retainEpoch]
  split
  · calc List.Sublist _ ((epoch.zipIdx 0).map Prod.fst) := List.filter_sublist.map _
      _ = epoch := List.zipIdx_map_fst _ _
  · exact List.nil_sublist _

/-- Compaction only leaves records out. -/
theorem retained_sublist (records : List α) (cutoff : Nat) (liveBootId : String) (usable : Bool) :
    (retainedCompactionRecords record records cutoff liveBootId usable).Sublist records := by
  have hflat : ∀ epochs : List (List α),
      (epochs.flatMap fun epoch => retainEpoch record epoch cutoff liveBootId usable).Sublist epochs.flatten := by
    intro epochs
    induction epochs with
    | nil => exact .refl _
    | cons epoch epochs ih => exact (retainEpoch_sublist epoch cutoff liveBootId usable).append ih
  have hsub := hflat (splitEpochs record records)
  rwa [flatten_splitEpochs] at hsub

/-- The epochs before a boot record and the ones from it on are compacted apart. -/
theorem retained_append {l m : List α} (hm : startsAtBoot record m = true) (cutoff : Nat) (liveBootId : String)
    (usable : Bool) :
    retainedCompactionRecords record (l ++ m) cutoff liveBootId usable =
      retainedCompactionRecords record l cutoff liveBootId usable ++
        retainedCompactionRecords record m cutoff liveBootId usable := by
  rw [retainedCompactionRecords, splitEpochs_append (.inl hm), List.flatMap_append]
  rfl

/-- Of the live epoch the boot record stays, and some of what follows it, in order. -/
theorem retained_live {b : α} {os : List α} {liveBootId : String} (h : ∀ o ∈ os, (record o).isBoot = false)
    (hb : (record b).isBoot = true) (hid : (record b).bootId = liveBootId) (cutoff : Nat) :
    ∃ os', os'.Sublist os ∧ retainedCompactionRecords record (b :: os) cutoff liveBootId true = b :: os' := by
  have hlive : isLiveEpoch record (b :: os) liveBootId true = true := by
    simp [isLiveEpoch, hb, hid]
  rw [retainedCompactionRecords, splitEpochs_epoch h, List.flatMap_singleton, retainEpoch, hlive, Bool.true_or,
    if_pos rfl, List.zipIdx_cons, List.filter_cons, if_pos (by rfl), List.map_cons]
  refine ⟨_, ?_, rfl⟩
  calc List.Sublist _ ((os.zipIdx (0 + 1)).map Prod.fst) := List.filter_sublist.map _
    _ = os := List.zipIdx_map_fst _ _

end

/-! ### Retained queries -/

section
variable {V : Type}

theorem le_of_mem_dropWhile {os : List (Observation V)} {c : Nat} (h : (os.map (·.t)).Pairwise (· ≤ ·)) :
    ∀ o ∈ os.dropWhile (·.t < c), c ≤ o.t := by
  induction os with
  | nil => intro o ho; cases ho
  | cons o os ih =>
    obtain ⟨hle, h⟩ := List.pairwise_cons.1 h
    rw [List.dropWhile_cons]
    split
    · exact ih h
    · rename_i hlt
      have hlt : c ≤ o.t := by simpa using hlt
      intro o' ho'
      rcases List.mem_cons.1 ho' with rfl | ho'
      · exact hlt
      · exact hlt.trans (hle _ (List.mem_map_of_mem ho'))

theorem isSampleBefore_record {bootId : String} {o : Observation V} {c : Nat} :
    isSampleBefore c (o.record bootId) = (o.state.isSome && decide (o.t < c)) := by
  unfold Observation.record
  cases o.state <;> rfl

theorem isBoot_record (bootId : String) (o : Observation V) : (o.record bootId).isBoot = false := by
  unfold Observation.record
  cases o.state <;> rfl

theorem CommittedEpoch.inOrder_observations {e : CommittedEpoch V} (h : InOrder e.records) :
    (e.observations.map (·.t)).Pairwise (· ≤ ·) ∧ ∀ o ∈ e.observations, e.boot.timestamp ≤ o.t := by
  rw [InOrder, CommittedEpoch.records, List.map_cons, List.map_map] at h
  obtain ⟨hle, h⟩ := List.pairwise_cons.1 h
  have hmap : e.observations.map (Record.timestamp ∘ Observation.record e.boot.bootId) = e.observations.map (·.t) :=
    List.map_congr_left fun o _ => o.timestamp_record e.boot.bootId
  rw [hmap] at h hle
  exact ⟨h, fun o ho => hle _ (List.mem_map_of_mem ho)⟩

/-- An epoch that goes back before the cutoff: the observations before it up to the last sample, the
checkpoints after that one, and the observations from the cutoff on. -/
structure Cut (e : CommittedEpoch V) (c : Nat) where
  pre : List (Observation V)
  baseline : Observation V
  mid : List (Observation V)
  after : List (Observation V)
  observations : e.observations = pre ++ baseline :: (mid ++ after)
  isSample : baseline.state.isSome
  checkpoints : ∀ o ∈ mid, o.state = none
  lt : ∀ o ∈ pre ++ baseline :: mid, o.t < c
  le : ∀ o ∈ after, c ≤ o.t

theorem exists_cut {e : CommittedEpoch V} (h : InOrder e.records) {c : Nat}
    (hc : ∃ o ∈ e.observations.head?, o.t < c) : Nonempty (Cut e c) := by
  obtain ⟨hsorted, -⟩ := CommittedEpoch.inOrder_observations h
  obtain ⟨first, os, hos, hsome⟩ := e.opens
  have hmem : first ∈ e.observations.takeWhile (·.t < c) := by
    rw [hos] at hc ⊢
    rw [List.takeWhile_cons, if_pos (by simpa using hc)]
    exact List.mem_cons_self
  obtain ⟨pre, x, mid, hbefore, hx, hmid⟩ := exists_lastSample ⟨first, hmem, hsome⟩
  refine ⟨⟨pre, x, mid, e.observations.dropWhile (·.t < c), ?_, hx, hmid, fun o ho => ?_,
    le_of_mem_dropWhile hsorted⟩⟩
  · calc e.observations
      _ = e.observations.takeWhile (·.t < c) ++ e.observations.dropWhile (·.t < c) :=
        List.takeWhile_append_dropWhile.symm
      _ = pre ++ x :: (mid ++ e.observations.dropWhile (·.t < c)) := by
        rw [hbefore, List.append_assoc, List.cons_append]
  · rw [← hbefore] at ho
    exact of_decide_eq_true (List.mem_takeWhile_imp (p := fun o : Observation V => decide (o.t < c)) ho)

namespace Cut

variable {e : CommittedEpoch V} {c : Nat}

/-- What compaction keeps of the epoch. -/
def kept (k : Cut e c) : CommittedEpoch V :=
  ⟨e.boot, k.baseline :: k.after, k.baseline, k.after, rfl, k.isSample⟩

theorem boot_lt (k : Cut e c) (h : InOrder e.records) : e.boot.timestamp < c := by
  have hle := (CommittedEpoch.inOrder_observations h).2 k.baseline (by rw [k.observations]; simp)
  have hlt := k.lt k.baseline (by simp)
  omega

theorem stateAfter_eq (k : Cut e c) : stateAfter none (k.pre ++ k.baseline :: k.mid) = k.baseline.state :=
  stateAfter_lastSample k.isSample k.checkpoints

theorem retainEpoch_eq (k : Cut e c) (h : InOrder e.records) (liveBootId : String) (usable : Bool) :
    retainEpoch id e.records c liveBootId usable =
      if isLiveEpoch id e.records liveBootId usable || !k.after.isEmpty then k.kept.records else [] := by
  have hrecords : e.records = .boot e.boot :: (k.pre.map (Observation.record e.boot.bootId) ++
      k.baseline.record e.boot.bootId :: (k.mid.map (Observation.record e.boot.bootId) ++
        k.after.map (Observation.record e.boot.bootId))) := by
    rw [CommittedEpoch.records, k.observations]
    simp
  rw [hrecords, @retainEpoch_baseline V (Record V) id]
  · rw [List.isEmpty_map]
    rfl
  · intro y hy
    obtain ⟨o, ho, rfl⟩ := List.mem_map.1 hy
    rw [id, Observation.timestamp_record]
    exact k.lt o (List.mem_append_left _ ho)
  · rw [id, isSampleBefore_record, k.isSample, Bool.true_and]
    exact decide_eq_true (k.lt k.baseline (by simp))
  · intro y hy
    obtain ⟨o, ho, rfl⟩ := List.mem_map.1 hy
    rw [id, Observation.timestamp_record, isSampleBefore_record, k.checkpoints o ho]
    exact ⟨k.lt o (List.mem_append_right _ (List.mem_cons_of_mem _ ho)), rfl⟩
  · intro y hy
    obtain ⟨o, ho, rfl⟩ := List.mem_map.1 hy
    rw [id, Observation.timestamp_record]
    exact k.le o ho
  · exact k.boot_lt h

theorem stateAfter_kept (k : Cut e c) :
    stateAfter none k.kept.observations = stateAfter none e.observations := by
  have hbefore := k.stateAfter_eq
  rw [stateAfter] at hbefore
  have hobs : e.observations = (k.pre ++ k.baseline :: k.mid) ++ k.after := by
    rw [k.observations, List.append_assoc, List.cons_append]
  rw [hobs, stateAfter, stateAfter, List.foldl_append, hbefore]
  show k.after.foldl Observation.next (k.baseline.next none) = _
  rw [Observation.next, Option.or_none]

theorem observations_kept (k : Cut e c) : k.kept.observations.Sublist e.observations := by
  rw [k.observations]
  exact ((List.sublist_append_right k.mid k.after).cons_cons _).trans (List.sublist_append_right k.pre _)

theorem points_kept [F64 V] (k : Cut e c) :
    k.kept.points.filter (c ≤ ·.t) = e.points.filter (c ≤ ·.t) := by
  have hobs : e.observations = (k.pre ++ k.baseline :: k.mid) ++ k.after := by
    rw [k.observations, List.append_assoc, List.cons_append]
  have hlt : ∀ o ∈ [k.baseline], o.t < c := fun o ho => by
    rw [List.mem_singleton.1 ho]
    exact k.lt k.baseline (by simp)
  -- the kept observations follow the baseline's state, as they do in the whole epoch
  have hstate : stateAfter none [k.baseline] = k.baseline.state := Option.or_none
  calc k.kept.points.filter (c ≤ ·.t)
    _ = (pointsFrom none ([k.baseline] ++ k.after)).filter (c ≤ ·.t) := rfl
    _ = (pointsFrom k.baseline.state k.after).filter (c ≤ ·.t) := by
      rw [pointsFrom_append, List.filter_append, filter_pointsFrom_of_lt hlt, List.nil_append, hstate]
    _ = (pointsFrom none ((k.pre ++ k.baseline :: k.mid) ++ k.after)).filter (c ≤ ·.t) := by
      rw [pointsFrom_append, List.filter_append, filter_pointsFrom_of_lt k.lt, List.nil_append, k.stateAfter_eq]
    _ = e.points.filter (c ≤ ·.t) := by rw [CommittedEpoch.points, hobs]

end Cut

/-- Compaction keeps something of an epoch. -/
def CommittedEpoch.Survives (e : CommittedEpoch V) (c : Nat) (liveBootId : String) (usable : Bool) : Prop :=
  (usable = true ∧ e.boot.bootId = liveBootId) ∨ ∃ o ∈ e.observations, c ≤ o.t

theorem isLiveEpoch_records (e : CommittedEpoch V) (liveBootId : String) (usable : Bool) :
    isLiveEpoch id e.records liveBootId usable = true ↔ usable = true ∧ e.boot.bootId = liveBootId := by
  simp [isLiveEpoch, CommittedEpoch.records, Record.isBoot, Record.bootId]

/-- What stays of an epoch: an epoch of the same process with the same points from `c` on and the same last
state. -/
structure KeptOf [F64 V] (e e' : CommittedEpoch V) (c : Nat) : Prop where
  boot : e'.boot = e.boot
  points : e'.points.filter (c ≤ ·.t) = e.points.filter (c ≤ ·.t)
  stateAfter : stateAfter none e'.observations = stateAfter none e.observations
  observations : e'.observations.Sublist e.observations

variable [F64 V]

theorem retainEpoch_records {e : CommittedEpoch V} (h : InOrder e.records) (c : Nat) (liveBootId : String)
    (usable : Bool) :
    (¬ e.Survives c liveBootId usable ∧ retainEpoch id e.records c liveBootId usable = []) ∨
      ∃ e', retainEpoch id e.records c liveBootId usable = e'.records ∧ KeptOf e e' c := by
  obtain ⟨hsorted, -⟩ := CommittedEpoch.inOrder_observations h
  obtain ⟨first, os, hos, -⟩ := e.opens
  by_cases hc : c ≤ first.t
  · right
    refine ⟨e, ?_, rfl, rfl, rfl, .refl _⟩
    rw [hos] at hsorted
    obtain ⟨hle, -⟩ := List.pairwise_cons.1 hsorted
    refine retainEpoch_whole (fun y hy => ?_) (by simp [hos])
    obtain ⟨o, ho, rfl⟩ := List.mem_map.1 hy
    rw [id, Observation.timestamp_record]
    rcases List.mem_cons.1 (hos ▸ ho) with rfl | ho
    · exact hc
    · exact hc.trans (hle _ (List.mem_map_of_mem ho))
  · obtain ⟨k⟩ := exists_cut h (c := c) ⟨first, by rw [hos]; rfl, by omega⟩
    rw [k.retainEpoch_eq h]
    split
    · exact .inr ⟨k.kept, rfl, rfl, k.points_kept, k.stateAfter_kept, k.observations_kept⟩
    · rename_i hdead
      simp only [Bool.or_eq_true, isLiveEpoch_records, not_or] at hdead
      obtain ⟨hlive, hafter⟩ := hdead
      have hnil : k.after = [] := by simpa using hafter
      refine .inl ⟨?_, rfl⟩
      rintro (hl | ⟨o, ho, hco⟩)
      · exact hlive hl
      · rw [k.observations, hnil, List.append_nil] at ho
        have := k.lt o ho
        omega

omit [F64 V] in
theorem startsAtBoot_flatMap (es : List (CommittedEpoch V)) :
    startsAtBoot id (es.flatMap CommittedEpoch.records) ∨ es.flatMap CommittedEpoch.records = [] := by
  cases es with
  | nil => exact .inr rfl
  | cons e es => exact .inl rfl

omit [F64 V] in
theorem splitEpochs_flatMap (es : List (CommittedEpoch V)) :
    splitEpochs id (es.flatMap CommittedEpoch.records) = es.map CommittedEpoch.records := by
  induction es with
  | nil => rfl
  | cons e es ih =>
    rw [List.flatMap_cons, splitEpochs_append (startsAtBoot_flatMap es), ih, List.map_cons]
    refine congrArg (· ++ _) (splitEpochs_epoch fun r hr => ?_)
    obtain ⟨o, -, rfl⟩ := List.mem_map.1 hr
    exact isBoot_record _ o

omit [F64 V] in
theorem retained_flatMap (es : List (CommittedEpoch V)) (c : Nat) (liveBootId : String) (usable : Bool) :
    retainedCompactionRecords id (es.flatMap CommittedEpoch.records) c liveBootId usable =
      es.flatMap fun e => retainEpoch id e.records c liveBootId usable := by
  rw [retainedCompactionRecords, splitEpochs_flatMap, List.flatMap_map]

theorem retained_records {es : List (CommittedEpoch V)} (h : InOrder (es.flatMap CommittedEpoch.records)) (c : Nat)
    (liveBootId : String) (usable : Bool) :
    ∃ es' : List (CommittedEpoch V),
      retainedCompactionRecords id (es.flatMap CommittedEpoch.records) c liveBootId usable =
        es'.flatMap CommittedEpoch.records ∧
      (es'.map (·.boot)).Sublist (es.map (·.boot)) ∧
      (es'.flatMap CommittedEpoch.points).filter (c ≤ ·.t) = (es.flatMap CommittedEpoch.points).filter (c ≤ ·.t) := by
  rw [retained_flatMap]
  induction es with
  | nil => exact ⟨[], rfl, .refl _, rfl⟩
  | cons e es ih =>
    rw [InOrder, List.flatMap_cons, List.map_append, List.pairwise_append] at h
    obtain ⟨es', hes', hsub, hpoints⟩ := ih h.2.1
    rcases retainEpoch_records h.1 c liveBootId usable with ⟨hdead, hr⟩ | ⟨e', hr, hkept⟩
    · refine ⟨es', ?_, hsub.cons _, ?_⟩
      · rw [List.flatMap_cons, hr, hes', List.nil_append]
      · have hlt : ∀ o ∈ e.observations, o.t < c := fun o ho => by
          by_contra hc
          exact hdead (.inr ⟨o, ho, by omega⟩)
        rw [List.flatMap_cons, List.filter_append, CommittedEpoch.points, filter_pointsFrom_of_lt hlt, hpoints,
          List.nil_append]
    · refine ⟨e' :: es', ?_, ?_, ?_⟩
      · rw [List.flatMap_cons, hr, hes', List.flatMap_cons]
      · rw [List.map_cons, List.map_cons, hkept.boot]
        exact hsub.cons_cons _
      · rw [List.flatMap_cons, List.flatMap_cons, List.filter_append, List.filter_append, hkept.points, hpoints]

omit [F64 V] in
theorem filter_of_filter {l l' : List (IndexedPoint V)} {c c' : Nat} (hc : c ≤ c')
    (h : l.filter (c ≤ ·.t) = l'.filter (c ≤ ·.t)) : l.filter (c' ≤ ·.t) = l'.filter (c' ≤ ·.t) := by
  have key : ∀ l : List (IndexedPoint V), (l.filter (c ≤ ·.t)).filter (c' ≤ ·.t) = l.filter (c' ≤ ·.t) := by
    intro l
    rw [List.filter_filter]
    refine List.filter_congr fun p _ => ?_
    by_cases hp : c' ≤ p.t
    · simp [hp, hc.trans hp]
    · simp [hp]
  rw [← key l, h, key l']

/-- Compaction at `c` preserves every query from `c` on: the points from any later `c'` on, whatever
cutoff the index is rebuilt with, and every rollup over the index of these points. -/
theorem retained_query {records : List (Record V)} (h : Committed records) (liveBootId : String) {c c' : Nat}
    (hc : c ≤ c') :
    (∀ cutoff,
      (enrichCanonicalReplay {} (retainedCompactionRecords id records c liveBootId true) cutoff).points.filter
          (c' ≤ ·.t) =
        (enrichCanonicalReplay {} records cutoff).points.filter (c' ≤ ·.t)) ∧
    ∀ lo hi budget,
      (enrichCanonicalReplay {} (retainedCompactionRecords id records c liveBootId true) (some c')).rollup lo hi
          budget =
        (enrichCanonicalReplay {} records (some c')).rollup lo hi budget := by
  obtain ⟨es, rfl, hnd⟩ := h.epochs
  obtain ⟨es', hes', hsub, hpoints⟩ := retained_records h.inOrder c liveBootId true
  have hnd' : (es'.map (·.boot.bootId)).Nodup := by
    have := hsub.map BootRecord.bootId
    rw [List.map_map, List.map_map] at this
    exact hnd.sublist this
  have hpoints' := filter_of_filter hc hpoints
  have hindex : (enrichCanonicalReplay {} (retainedCompactionRecords id (es.flatMap CommittedEpoch.records) c
      liveBootId true) (some c')).points =
      (enrichCanonicalReplay {} (es.flatMap CommittedEpoch.records) (some c')).points := by
    rw [hes', enrichCanonicalReplay_points hnd', enrichCanonicalReplay_points hnd]
    exact hpoints'
  constructor
  · intro cutoff
    rw [hes', enrichCanonicalReplay_points hnd', enrichCanonicalReplay_points hnd, List.filter_comm, hpoints',
      List.filter_comm]
  · intro lo hi budget
    exact rollup_setBounds hindex lo hi budget

end

/-! ### An epoch that straddles the cutoff -/

def requestsTotal (value : ℚ) : List (StateEntry ℚ) := [⟨.counter, "requests_total", ∅, value⟩]

/-- The epoch of a first process goes over 5, the one of the live process shows an inferred reset. -/
def straddling : List (CommittedEpoch ℚ) :=
  [⟨⟨0, "a", ⟨40, 1, [40]⟩⟩, [⟨1, ⟨40, 1, [40]⟩, some (requestsTotal 5)⟩, ⟨2, ⟨40, 1, [40]⟩, none⟩,
      ⟨6, ⟨40, 1, [40]⟩, some (requestsTotal 7)⟩], _, _, rfl, rfl⟩,
    ⟨⟨8, "b", ⟨80, 2, [40, 40]⟩⟩, [⟨9, ⟨80, 2, [40, 40]⟩, some (requestsTotal 3)⟩,
      ⟨9, ⟨80, 2, [40, 40]⟩, some (requestsTotal 1)⟩], _, _, rfl, rfl⟩]

theorem retained_query_straddling :
    (retainedCompactionRecords id (straddling.flatMap CommittedEpoch.records) 5 "b" true).length = 6 ∧
    ∀ lo hi budget,
      (enrichCanonicalReplay {} (retainedCompactionRecords id (straddling.flatMap CommittedEpoch.records) 5 "b" true)
          (some 6)).rollup lo hi budget =
        (enrichCanonicalReplay {} (straddling.flatMap CommittedEpoch.records) (some 6)).rollup lo hi budget :=
  ⟨by decide +kernel, (retained_query ⟨⟨straddling, rfl, by decide +kernel⟩, by unfold InOrder; decide +kernel⟩ "b"
    (by decide)).2⟩

end OpenProxy
