import OpenProxy.Intact

/-!
# The live history (`History::open`, `History::append` of `history.rs`)

`append` normalizes a snapshot against the one before it and indexes the point at once; the store writes it
as a sample, or as a checkpoint if its state did not change. After a restart the index is rebuilt from the
file. The retention setting is fixed. Compactions run beside the appends, between any two sections of one.
-/

namespace OpenProxy.Live

open Lines Transition

section
variable {V : Type} [F64 V]

/-- Where the append of the sampler stands. -/
inductive Append (V : Type) where
  | idle
  | read (canonicalLast : Option Nat)
  | indexed (t : Nat) (capacity : CapacitySnapshot) (state : List (StateEntry V))
  | stored (t : Nat)

structure State (V : Type) where
  writer : Writer V
  inner : HistoryInner V
  append : Append V
  /-- The cutoffs a compaction of this process may use. -/
  cutoffs : List Nat

inductive Op where
  /-- The sections of an append, in order. -/
  | read
  | index (t : Nat) (snapshot : String) (capacity : CapacitySnapshot)
  | store
  /-- `due`: compaction was pending, or enough samples had expired. -/
  | request (due : Bool)
  | compact (cutoff : Nat) (authorized : Bool)
  /-- The process ends between two appends and a new one opens the history. -/
  | reopen (timestamp : Nat) (bootId : String) (capacity : CapacitySnapshot)

/-- The cutoff of the retention at `t`; no timestamp reaches what the saturating product saturates at. -/
def cutoffAt (days t : Nat) : Option Nat := if 0 < days then some (t - days * 86400) else none

variable [DecidableEq V]

omit [DecidableEq V] in
/-- `History::open`; `bytes` is the canonical file, if there is one. -/
def openHistory (json : SerdeJson V) (days : Nat) (bytes : Option (List UInt8)) (timestamp : Nat) (bootId : String)
    (capacity : CapacitySnapshot) : Except OpenError (State V) := do
  let writer ← openStore json bytes ⟨timestamp, bootId, canonicalCapacity capacity⟩
  let cutoff := cutoffAt days timestamp
  return {
    writer
    inner := enrichCanonicalReplay {} writer.store.replay.records cutoff
    append := .idle
    cutoffs := cutoff.toList }

omit [DecidableEq V] in
/-- The section of `append` that holds the index. -/
def indexSnapshot (inner : HistoryInner V) (days : Nat) (bootId : String) (t : Nat) (current : ParsedSnapshot V)
    (capacity : CapacitySnapshot) : HistoryInner V :=
  let normalized := normalize inner.lastParsed current (inner.resets bootId)
  let points := inner.points.filter (keeps (cutoffAt days t) ·.t)
  HistoryInner.setBounds { inner with
    points := points ++ [⟨t, normalized.deltas, normalized.gauges, some capacity⟩]
    lastParsed := some current
    lastSampleBoot := some bootId }

def step (json : SerdeJson V) (parseF64 : String → Option V) (days : Nat) (s : State V) : Op → Option (State V)
  | .read =>
    match s.append with
    | .idle => some { s with append := .read s.writer.store.lastTimestamp }
    | _ => none
  | .index t snapshot capacity =>
    match s.append with
    | .read canonicalLast =>
      let current := parseExposition parseF64 snapshot
      let t := max t (max (s.inner.availableTo.getD 0) (canonicalLast.getD 0))
      some { s with
        inner := indexSnapshot s.inner days s.writer.store.bootId t current capacity
        append := .indexed t capacity (canonicalState current) }
    | _ => none
  | .store =>
    match s.append with
    | .indexed t capacity state =>
      some { s with
        writer := (s.writer.appendSample json t (canonicalCapacity capacity) state none).1
        append := .stored t }
    | _ => none
  | .request due =>
    match s.append with
    | .stored t =>
      some { s with
        append := .idle
        cutoffs := if due then (cutoffAt days t).toList ++ s.cutoffs else s.cutoffs }
    | _ => none
  | .compact cutoff authorized =>
    if cutoff ∈ s.cutoffs then
      some { s with writer := (s.writer.compactIfAuthorized json cutoff authorized none).1 }
    else none
  | .reopen timestamp bootId capacity =>
    match s.append with
    | .idle =>
      (openHistory json days (some (s.writer.disk.read s.writer.disk.canonical)) timestamp bootId capacity).toOption
    | _ => none

/-- The records the step writes read back as they were, and a new process has a boot id that no record of
the file has. -/
def Clean (json : SerdeJson V) (s : State V) : Op → Prop
  | .store =>
    match s.append with
    | .indexed t capacity state => json.Keeps [] (nextRecord s.writer t (canonicalCapacity capacity) (some state))
    | _ => True
  | .reopen timestamp bootId capacity =>
    json.Keeps [] (.boot ⟨timestamp, bootId, canonicalCapacity capacity⟩) ∧
      ∀ replay, validateCanonical json (s.writer.disk.read s.writer.disk.canonical) = .ok replay →
        ∀ r ∈ replay.records, r.bootId ≠ bootId
  | _ => True

end

/-! ### The file -/

section
variable {V : Type} [F64 V]

/-- The lines of records that read back as they were. -/
theorem encodes_encodeRecords {json : SerdeJson V} {records : List (Record V)} {lines : List (List UInt8)}
    (hr : ∀ r ∈ records, json.Keeps [] r) (h : encodeRecords json records = .ok lines) :
    Encodes json records lines := by
  induction records generalizing lines with
  | nil => cases h; exact .nil
  | cons record records ih =>
    obtain ⟨l, ls, hl, hls, rfl⟩ := encodeRecords_cons_eq_ok.1 h
    exact .cons (lineOf_encode (hr record List.mem_cons_self) hl)
      (ih (fun r h => hr r (List.mem_cons_of_mem _ h)) hls)

/-- The file of the writer is intact and holds the epochs `es` and `live`. -/
structure FileOf (json : SerdeJson V) (w : Writer V) (es : List (FileEpoch V)) (live : FileEpoch V) : Prop where
  canonical : w.disk.canonical = w.store.file
  exists_file : w.store.file < w.disk.files.length
  poisoned : w.store.poisoned = false
  lines : ∃ lines, w.disk.read w.disk.canonical = joinLines 10 lines ∧
    Encodes json ((es ++ [live]).flatMap FileEpoch.records) lines
  keeps : ∀ r ∈ (es ++ [live]).flatMap FileEpoch.records, json.Keeps [] r
  inOrder : InOrder ((es ++ [live]).flatMap FileEpoch.records)
  nodup : ((es.flatMap FileEpoch.committed).map (·.boot.bootId)).Nodup
  fresh : ∀ e ∈ es.flatMap FileEpoch.committed, e.boot.bootId ≠ live.boot.bootId
  bootId : live.boot.bootId = w.store.bootId
  lastTimestamp : w.store.lastTimestamp = some live.last
  lastState : w.store.lastState = stateAfter none live.observations

/-! ### The index -/

/-- The index of boot `bootId` shows the points `older`, then the points of the observations `os`, from the
horizon on; the retention does not reach beyond the horizon. -/
structure IndexOf (days : Nat) (inner : HistoryInner V) (bootId : String) (older : List (IndexedPoint V))
    (os : List (Observation V)) (last horizon : Nat) : Prop where
  horizon_le : horizon ≤ (cutoffAt days last).getD 0
  points : inner.points.filter (horizon ≤ ·.t) = (older ++ pointsFrom none os).filter (horizon ≤ ·.t)
  follows : ∀ state, stateAfter none os = some state → inner.lastSampleBoot = some bootId ∧
    ∃ p, inner.lastParsed = some p ∧ { p with skippedLines := 0 } = parsedCanonicalState state
  foreign : stateAfter none os = none → inner.Foreign bootId

theorem keeps_cutoffAt (days t : Nat) : keeps (cutoffAt days t) = fun x => decide ((cutoffAt days t).getD 0 ≤ x) := by
  funext x
  cases cutoffAt days t <;> simp [keeps]

theorem getD_cutoffAt (days t : Nat) : (cutoffAt days t).getD 0 = if 0 < days then t - days * 86400 else 0 := by
  unfold cutoffAt
  split
  · rw [Option.getD_some]
  · rw [Option.getD_none]

theorem cutoffAt_mono {days t t' : Nat} (h : t ≤ t') : (cutoffAt days t).getD 0 ≤ (cutoffAt days t').getD 0 := by
  rw [getD_cutoffAt, getD_cutoffAt]
  split
  · omega
  · exact le_rfl

theorem cutoffAt_le (days t : Nat) : (cutoffAt days t).getD 0 ≤ t := by
  rw [getD_cutoffAt]
  split
  · omega
  · exact Nat.zero_le _

namespace IndexOf

variable {days last horizon : Nat} {inner : HistoryInner V} {bootId : String} {older : List (IndexedPoint V)}
  {os : List (Observation V)}

/-- The live delta is the one a replay finds. -/
theorem point_eq (h : IndexOf days inner bootId older os last horizon) (t : Nat) (current : ParsedSnapshot V)
    (capacity : CapacitySnapshot) :
    let normalized := normalize inner.lastParsed current (inner.resets bootId)
    (⟨t, normalized.deltas, normalized.gauges, some capacity⟩ : IndexedPoint V) =
      Observation.point (stateAfter none os) ⟨t, canonicalCapacity capacity, some (canonicalState current)⟩ := by
  rw [Observation.point, Observation.next, Option.some_or, Option.getD_some, parsedCanonicalState_canonicalState,
    capacitySnapshot_canonicalCapacity]
  cases hstate : stateAfter none os with
  | none =>
    obtain ⟨hd, hg⟩ := normalize_restart inner.lastParsed current
    rw [resets_of_foreign (h.foreign hstate)]
    simp only [hd, hg]
    rfl
  | some state =>
    obtain ⟨hboot, p, hp, hparsed⟩ := h.follows state hstate
    have hreset : inner.resets bootId = false := by
      rw [HistoryInner.resets, hboot, bne_self_eq_false, Bool.and_false]
    rw [hreset, hp, Option.map_some, ← hparsed]
    rfl

theorem index (h : IndexOf days inner bootId older os last horizon) {t : Nat} (ht : last ≤ t)
    (current : ParsedSnapshot V) (capacity : CapacitySnapshot) :
    IndexOf days (indexSnapshot inner days bootId t current capacity) bootId older
      (os ++ [⟨t, canonicalCapacity capacity, some (canonicalState current)⟩]) t
      (max horizon ((cutoffAt days t).getD 0)) := by
  refine ⟨max_le (h.horizon_le.trans (cutoffAt_mono ht)) le_rfl, ?_, ?_, ?_⟩
  · have hpoints : (indexSnapshot inner days bootId t current capacity).points =
        inner.points.filter (keeps (cutoffAt days t) ·.t) ++
          [Observation.point (stateAfter none os) ⟨t, canonicalCapacity capacity, some (canonicalState current)⟩] := by
      rw [← h.point_eq]
      rfl
    have hpruned : (inner.points.filter (keeps (cutoffAt days t) ·.t)).filter
        (max horizon ((cutoffAt days t).getD 0) ≤ ·.t) = inner.points.filter (max horizon ((cutoffAt days t).getD 0) ≤ ·.t) := by
      rw [keeps_cutoffAt, List.filter_filter]
      refine List.filter_congr fun p _ => ?_
      by_cases hp : max horizon ((cutoffAt days t).getD 0) ≤ p.t
      · simp [hp, (le_max_right _ _).trans hp]
      · simp [hp]
    rw [hpoints, List.filter_append, hpruned, filter_of_filter (le_max_left _ _) h.points, pointsFrom_append,
      ← List.append_assoc, ← List.filter_append]
    rfl
  · intro state hstate
    rw [stateAfter, List.foldl_append] at hstate
    obtain rfl := Option.some.inj hstate
    exact ⟨rfl, current, rfl, (parsedCanonicalState_canonicalState current).symm⟩
  · intro hstate
    rw [stateAfter, List.foldl_append] at hstate
    cases hstate

theorem congr (h : IndexOf days inner bootId older os last horizon) {os' : List (Observation V)}
    (hpoints : pointsFrom none os' = pointsFrom none os) (hstate : stateAfter none os' = stateAfter none os) :
    IndexOf days inner bootId older os' last horizon :=
  ⟨h.horizon_le, by rw [hpoints]; exact h.points, by rw [hstate]; exact h.follows, by rw [hstate]; exact h.foreign⟩

theorem compact (h : IndexOf days inner bootId older os last horizon) {older' : List (IndexedPoint V)}
    {os' : List (Observation V)} {c : Nat}
    (hpoints : (older' ++ pointsFrom none os').filter (c ≤ ·.t) = (older ++ pointsFrom none os).filter (c ≤ ·.t))
    (hstate : stateAfter none os' = stateAfter none os) (hc : c ≤ (cutoffAt days last).getD 0) :
    IndexOf days inner bootId older' os' last (max horizon c) := by
  refine ⟨max_le h.horizon_le hc, ?_, by rw [hstate]; exact h.follows, by rw [hstate]; exact h.foreign⟩
  rw [filter_of_filter (le_max_left _ _) h.points, filter_of_filter (le_max_right _ _) hpoints]

end IndexOf

/-! ### What a step does to the file -/

/-- The observation the store makes of a snapshot. -/
def stored (state : Option (List (StateEntry V))) (t : Nat) (capacity : Capacity) (current : List (StateEntry V))
    [DecidableEq V] : Observation V :=
  ⟨t, capacity, if state = some current then none else some current⟩

omit [F64 V] in
theorem next_stored [DecidableEq V] (state : Option (List (StateEntry V))) (t : Nat) (capacity : Capacity)
    (current : List (StateEntry V)) : (stored state t capacity current).next state = some current := by
  unfold stored Observation.next
  split
  · rename_i h
    exact h
  · rfl

/-- A sample and a checkpoint show the same. -/
theorem pointsFrom_stored [DecidableEq V] (os : List (Observation V)) (t : Nat) (capacity : Capacity)
    (current : List (StateEntry V)) :
    pointsFrom none (os ++ [stored (stateAfter none os) t capacity current]) =
        pointsFrom none (os ++ [⟨t, capacity, some current⟩]) ∧
      stateAfter none (os ++ [stored (stateAfter none os) t capacity current]) =
        stateAfter none (os ++ [⟨t, capacity, some current⟩]) := by
  have hnext := next_stored (stateAfter none os) t capacity current
  constructor
  · rw [pointsFrom_append, pointsFrom_append]
    simp only [pointsFrom, Observation.point, hnext]
    rfl
  · rw [stateAfter_append, stateAfter_append]
    exact hnext

def push (e : FileEpoch V) (o : Observation V) (h : e.observations = [] → o.state.isSome) : FileEpoch V where
  boot := e.boot
  observations := e.observations ++ [o]
  opens := by
    intro o' ho'
    cases hos : e.observations with
    | nil =>
      rw [hos] at ho'
      obtain rfl := Option.some.inj ho'
      exact h hos
    | cons o₁ os =>
      rw [hos] at ho'
      obtain rfl := Option.some.inj ho'
      exact e.opens o₁ (by rw [hos]; rfl)

omit [F64 V] in
theorem last_push (e : FileEpoch V) (o : Observation V) (h : e.observations = [] → o.state.isSome) :
    (push e o h).last = o.t := FileEpoch.last_of_append rfl

namespace FileOf

variable [DecidableEq V] {json : SerdeJson V} {w : Writer V} {es : List (FileEpoch V)} {live : FileEpoch V}

omit [F64 V] in
theorem isSome_stored {e : FileEpoch V} {t : Nat} {capacity : Capacity} {current : List (StateEntry V)}
    (hnil : e.observations = []) : (stored (stateAfter none e.observations) t capacity current).state.isSome := by
  rw [hnil]
  rfl

theorem store (h : FileOf json w es live) {t : Nat} {capacity : Capacity} {current : List (StateEntry V)}
    (ht : live.last ≤ t) (hk : json.Keeps [] (nextRecord w t capacity (some current)))
    (hencode : ∃ raw, encodeState current = .ok raw) :
    FileOf json (w.appendSample json t capacity current none).1 es
      (push live (stored (stateAfter none live.observations) t capacity current) isSome_stored) := by
  have hnext : nextRecord w t capacity (some current) =
      (stored (stateAfter none live.observations) t capacity current).record live.boot.bootId := by
    rw [nextRecord, h.lastState, ← h.bootId, stored, Observation.record]
    split <;> rfl
  obtain ⟨line, hline⟩ : ∃ line, encodeRecord json (nextRecord w t capacity (some current)) = .ok line := by
    obtain ⟨raw, hraw⟩ := hencode
    rw [nextRecord]
    split
    · exact ⟨_, rfl⟩
    · rw [encodeRecord, encodeRaw, hraw]
      exact ⟨_, rfl⟩
  have hle : w.store.lastTimestamp.getD 0 ≤ t := by
    rw [h.lastTimestamp]
    exact ht
  have hlineOf := lineOf_encode hk hline
  rw [appendSample_ok h.poisoned hle hline]
  rw [hnext] at hlineOf
  have hrecords : ∀ o ho, (es ++ [push live o ho]).flatMap FileEpoch.records =
      (es ++ [live]).flatMap FileEpoch.records ++ [o.record live.boot.bootId] := by
    intro o ho
    simp [FileEpoch.records, FileEpoch.observationRecords, push]
  obtain ⟨lines, hbytes, henc⟩ := h.lines
  refine ⟨h.canonical, ?_, h.poisoned, ⟨lines ++ [line], ?_, ?_⟩, ?_, ?_, h.nodup, h.fresh, h.bootId, ?_, ?_⟩
  · rw [Disk.append, List.length_modify]
    exact h.exists_file
  · show (w.disk.append w.store.file (line ++ [10])).read w.disk.canonical = _
    rw [h.canonical, Disk.read_append_self h.exists_file, ← h.canonical, hbytes, joinLines_append,
      joinLines_cons]
    rfl
  · rw [hrecords]
    exact List.rel_append henc (.cons hlineOf .nil)
  · rw [hrecords]
    intro r hr
    rcases List.mem_append.1 hr with hr | hr
    · exact h.keeps r hr
    · rw [List.mem_singleton.1 hr, ← hnext]
      exact hk
  · rw [hrecords, InOrder.append]
    refine ⟨h.inOrder, List.pairwise_singleton _ _, fun r hr r' hr' => ?_⟩
    rw [List.mem_singleton.1 hr', Observation.timestamp_record]
    exact (h.inOrder.le_last r hr).trans ht
  · rw [last_push]
    rfl
  · show some current = stateAfter none (live.observations ++ [_])
    rw [stateAfter_append]
    exact (next_stored _ t capacity current).symm

theorem replace (h : FileOf json w es live) {c : Nat} {replay replacement : Replay V} {lines : List (List UInt8)}
    (hc : c ≤ live.last) (hscan : validateCanonical json (w.disk.read w.disk.canonical) = .ok replay)
    (husable : w.store.lastState.isSome)
    (hencode : encodeRecords json (retainedCompactionRecords id replay.records c w.store.bootId true) = .ok lines)
    (hexact : replacement.isExactly (retainedCompactionRecords id replay.records c w.store.bootId true)) :
    ∃ es' live', FileOf json
        ({ w with disk := w.disk.create (joinLines 10 lines) }.replace w.disk.files.length replacement) es' live' ∧
      Compaction es es' live live' c ∧ live'.last = live.last := by
  have hne : live.observations ≠ [] := by
    intro hnil
    rw [h.lastState, hnil] at husable
    cases husable
  obtain ⟨before, hbytes, henc⟩ := h.lines
  obtain ⟨replay', hscan', hrecords, -, -⟩ := validateCanonical_intact h.inOrder henc
  rw [← hbytes, hscan] at hscan'
  obtain rfl : replay = replay' := Except.ok.inj hscan'
  have hsub := committedRecords_sublist (es ++ [live])
  have hcommitted : InOrder ((es ++ [live]).flatMap FileEpoch.committedRecords) := h.inOrder.sublist (hsub.map _)
  obtain ⟨es', live', hretained, hcomp⟩ := retained_intact hcommitted hne c
  have hsub' := (@retained_sublist V (Record V) id replay.records c w.store.bootId true).trans (hrecords ▸ hsub)
  rw [hrecords, ← h.bootId, hretained] at hencode hexact hsub'
  have hkeeps : ∀ r ∈ (es' ++ [live']).flatMap FileEpoch.records, json.Keeps [] r := fun r hr =>
    h.keeps r (hsub'.subset hr)
  have hlines := encodes_encodeRecords hkeeps hencode
  have hord : InOrder ((es' ++ [live']).flatMap FileEpoch.records) := h.inOrder.sublist (hsub'.map _)
  have hrecords' : replacement.records = (es' ++ [live']).flatMap FileEpoch.records := by
    simp only [Replay.isExactly, Bool.and_eq_true, beq_iff_eq] at hexact
    exact hexact.1.1.1.1
  have hlive : InOrder live'.records := by
    rw [List.flatMap_append, List.flatMap_singleton] at hord
    exact (InOrder.append.1 hord).2.1
  refine ⟨es', live', ⟨rfl, ?_, h.poisoned, ⟨lines, Disk.read_create_self .., hlines⟩, hkeeps, hord, ?_, ?_, ?_, ?_, ?_⟩, hcomp,
    hcomp.last_eq hne hlive hc⟩
  · simp [Writer.replace, Disk.create]
  · have hboots := hcomp.boots.map BootRecord.bootId
    rw [List.map_map, List.map_map] at hboots
    exact h.nodup.sublist hboots
  · intro e he
    obtain ⟨e', he', hboot⟩ := List.mem_map.1 (hcomp.boots.subset (List.mem_map_of_mem he))
    rw [hcomp.boot, ← hboot]
    exact h.fresh e' he'
  · rw [hcomp.boot]
    exact h.bootId
  · obtain ⟨init, last, hlast, ht⟩ := live'.exists_last
    show replacement.records.getLast?.map Record.timestamp = _
    rw [hrecords', List.flatMap_append, List.flatMap_singleton, hlast, ← List.append_assoc, List.getLast?_concat, ← ht]
    rfl
  · show lastStateOf w.store.bootId replacement.records = _
    rw [hrecords', List.flatMap_append, List.flatMap_singleton, ← h.bootId, ← hcomp.boot]
    refine lastStateOf_append _ _ _ ?_
    rw [hcomp.stateAfter, ← h.lastState]
    exact husable

theorem compact (h : FileOf json w es live) {c : Nat} (hc : c ≤ live.last) (authorized : Bool) :
    ∃ es' live', FileOf json (w.compactIfAuthorized json c authorized none).1 es' live' ∧
      (es' = es ∧ live' = live ∨ Compaction es es' live live' c) ∧ live'.last = live.last := by
  have hcases := compactIfAuthorized_cases json w c authorized none
  generalize w.compactIfAuthorized json c authorized none = p at hcases
  cases hcases with
  | @kept w' result store disk uncommitted =>
    refine ⟨es, live, ?_, .inl ⟨rfl, rfl⟩, rfl⟩
    obtain ⟨d, st⟩ := w'
    obtain rfl : st = w.store := store
    rcases disk with hdisk | ⟨bytes, hdisk⟩
    · obtain rfl : d = w.disk := hdisk
      exact h
    · obtain rfl : d = w.disk.create bytes := hdisk
      obtain ⟨lines, hbytes, henc⟩ := h.lines
      refine ⟨h.canonical, ?_, h.poisoned, ⟨lines, ?_, henc⟩, h.keeps, h.inOrder, h.nodup, h.fresh, h.bootId, h.lastTimestamp,
        h.lastState⟩
      · show w.store.file < (w.disk.create bytes).files.length
        rw [Disk.create, List.length_append]
        exact Nat.lt_add_right _ h.exists_file
      · exact (Disk.read_create_of_lt (h.canonical ▸ h.exists_file) bytes).trans hbytes
  | @replaced replay replacement lines result scan gaps usable encode check exact granted committed =>
    obtain ⟨es', live', hfile, hcomp, hlast⟩ := h.replace hc scan usable encode exact
    exact ⟨es', live', hfile, .inr hcomp, hlast⟩

omit [DecidableEq V] in
/-- A process that opens the file: a new epoch, and a replay of the committed ones. -/
theorem reopen (h : FileOf json w es live) {boot : BootRecord} {w' : Writer V}
    (hopen : openStore json (some (w.disk.read w.disk.canonical)) boot = .ok w') (hk : json.Keeps [] (.boot boot))
    (hfresh : ∀ replay, validateCanonical json (w.disk.read w.disk.canonical) = .ok replay →
      ∀ r ∈ replay.records, r.bootId ≠ boot.bootId) :
    FileOf json w' (es ++ [live]) ⟨boot, [], nofun⟩ ∧
      w'.store.replay.records = (es ++ [live]).flatMap FileEpoch.committedRecords ++ [.boot boot] ∧
      live.last ≤ boot.timestamp := by
  obtain ⟨lines, hbytes, henc⟩ := h.lines
  obtain ⟨replay, hscan, hrecords, hbound, hsep⟩ := validateCanonical_intact h.inOrder henc
  rw [hbytes] at hopen hfresh
  rw [openStore, openExisting] at hopen
  obtain ⟨replay', hscan', hopen⟩ := bind_eq_ok.1 hopen
  obtain rfl : replay = replay' := Except.ok.inj (hscan.symm.trans hscan')
  split at hopen
  · cases hopen
  rename_i hregress
  rw [hbound] at hregress
  have hle : live.last ≤ boot.timestamp := by simpa using hregress
  cases hline : encodeRecord json (.boot boot) with
  | error e => rw [hline] at hopen; cases hopen
  | ok line =>
    rw [hline] at hopen
    obtain rfl := Except.ok.inj hopen
    have hnew : ∀ e ∈ (es ++ [live]).flatMap FileEpoch.committed, e.boot.bootId ≠ boot.bootId := by
      intro e he
      refine hfresh replay hscan (.boot e.boot) ?_
      rw [hrecords]
      obtain ⟨e', he', hmem⟩ := List.mem_flatMap.1 he
      exact List.mem_flatMap.2 ⟨e', he', List.mem_flatMap.2 ⟨e, hmem, List.mem_cons_self⟩⟩
    have hflat : (es ++ [live] ++ [(⟨boot, [], nofun⟩ : FileEpoch V)]).flatMap FileEpoch.records =
        (es ++ [live]).flatMap FileEpoch.records ++ [.boot boot] := by
      rw [List.flatMap_append, List.flatMap_singleton]
      rfl
    refine ⟨⟨rfl, Nat.one_pos, rfl, ⟨lines ++ [line], ?_, ?_⟩, ?_, ?_, ?_, hnew, rfl, rfl, rfl⟩,
      congrArg (· ++ _) hrecords, hle⟩
    · show joinLines 10 lines ++ (if replay.needsSeparator then [10] else []) ++ line ++ [10] = _
      rw [hsep, if_neg Bool.false_ne_true, List.append_nil, joinLines_append, joinLines_cons, List.append_assoc]
      rfl
    · rw [hflat]
      exact List.rel_append henc (.cons (lineOf_encode hk hline) .nil)
    · rw [hflat]
      intro r hr
      rcases List.mem_append.1 hr with hr | hr
      · exact h.keeps r hr
      · rw [List.mem_singleton.1 hr]
        exact hk
    · rw [hflat, InOrder.append]
      refine ⟨h.inOrder, List.pairwise_singleton _ _, fun r hr r' hr' => ?_⟩
      rw [List.mem_singleton.1 hr']
      exact (h.inOrder.le_last r hr).trans hle
    · rw [List.flatMap_append, List.flatMap_singleton, List.map_append]
      by_cases hnil : live.observations = []
      · rw [FileEpoch.committed_of_nil hnil, List.map_nil, List.append_nil]
        exact h.nodup
      · obtain ⟨c, hc, hboot, -⟩ := FileEpoch.committed_of_ne_nil hnil
        rw [hc, List.map_singleton, hboot, List.nodup_append]
        refine ⟨h.nodup, List.nodup_singleton _, fun id hid id' hid' => ?_⟩
        obtain ⟨e, he, rfl⟩ := List.mem_map.1 hid
        rw [List.mem_singleton.1 hid']
        exact h.fresh e he

end FileOf

/-! ### Runs -/

/-- Where the append stands, beside the last record of the file. -/
def Append.Fits (a : Append V) (last : Nat) : Prop :=
  match a with
  | .idle => True
  | .read canonicalLast => canonicalLast = some last
  | .indexed t _ state => last ≤ t ∧ ∃ raw, encodeState state = .ok raw
  | .stored t => t ≤ last

/-- The observations the index shows and the file does not hold yet. -/
def Append.pending : Append V → List (Observation V)
  | .indexed t capacity state => [⟨t, canonicalCapacity capacity, some state⟩]
  | _ => []

/-- The timestamp of the last observation. -/
def Append.last (a : Append V) (last : Nat) : Nat :=
  match a with
  | .indexed t _ _ => t
  | _ => last

/-- The index shows what a replay of the file would. -/
structure Mirrors (json : SerdeJson V) (days : Nat) (s : State V) (es : List (FileEpoch V)) (live : FileEpoch V)
    (horizon : Nat) : Prop where
  file : FileOf json s.writer es live
  index : IndexOf days s.inner s.writer.store.bootId (es.flatMap FileEpoch.points)
    (live.observations ++ s.append.pending) (s.append.last live.last) horizon
  append : s.append.Fits live.last
  cutoffs : ∀ c ∈ s.cutoffs, c ≤ (cutoffAt days live.last).getD 0

def Inv (json : SerdeJson V) (days : Nat) (s : State V) : Prop := ∃ es live horizon, Mirrors json days s es live horizon

variable {json : SerdeJson V} {days : Nat}

/-- A rebuilt index. -/
theorem points_enrich {es : List (FileEpoch V)} (hnd : ((es.flatMap FileEpoch.committed).map (·.boot.bootId)).Nodup)
    (boot : BootRecord) (cutoff : Option Nat) :
    (enrichCanonicalReplay {} (es.flatMap FileEpoch.committedRecords ++ [.boot boot]) cutoff).points =
      (es.flatMap FileEpoch.points).filter (keeps cutoff ·.t) := by
  have hboot : enrichCanonicalReplay {} (es.flatMap FileEpoch.committedRecords ++ [.boot boot]) cutoff =
      enrichCanonicalReplay {} ((es.flatMap FileEpoch.committed).flatMap CommittedEpoch.records) cutoff := by
    rw [enrichCanonicalReplay, List.foldl_append, List.flatMap_assoc]
    rfl
  rw [hboot, enrichCanonicalReplay_points hnd, flatMap_committed_points]

theorem foreign_enrich {records : List (Record V)} {boot : BootRecord} (h : ∀ r ∈ records, r.bootId ≠ boot.bootId)
    (cutoff : Option Nat) :
    (enrichCanonicalReplay {} (records ++ [.boot boot]) cutoff).Foreign boot.bootId := by
  intro _ hlast
  rw [enrichCanonicalReplay, List.foldl_append] at hlast
  have hfoldl : _ ∨ ∃ r ∈ records, r.bootId = boot.bootId := lastSampleBoot_foldl hlast
  rcases hfoldl with hlast | ⟨r, hr, hid⟩
  · cases hlast
  · exact h r hr hid

/-- A process that has just opened the history. -/
theorem mirrors_open {w : Writer V} {es : List (FileEpoch V)} (boot : BootRecord)
    (h : FileOf json w es ⟨boot, [], nofun⟩)
    (hreplay : w.store.replay.records = es.flatMap FileEpoch.committedRecords ++ [.boot boot]) :
    let cutoff := cutoffAt days boot.timestamp
    let inner := enrichCanonicalReplay {} w.store.replay.records cutoff
    inner.points = (es.flatMap FileEpoch.points).filter (keeps cutoff ·.t) ∧
      Mirrors json days ⟨w, inner, .idle, cutoff.toList⟩ es ⟨boot, [], nofun⟩ (cutoff.getD 0) := by
  have hpoints := points_enrich h.nodup boot (cutoffAt days boot.timestamp)
  rw [← hreplay] at hpoints
  refine ⟨hpoints, h, ⟨le_rfl, ?_, nofun, fun _ => ?_⟩, trivial, ?_⟩
  · show (enrichCanonicalReplay {} w.store.replay.records _).points.filter _ = (_ ++ []).filter _
    rw [hpoints, keeps_cutoffAt, List.append_nil, List.filter_filter]
    simp
  · show (enrichCanonicalReplay {} w.store.replay.records _).Foreign w.store.bootId
    rw [hreplay, ← h.bootId]
    refine foreign_enrich (fun r hr => ?_) _
    obtain ⟨e, he, hr⟩ := List.mem_flatMap.1 hr
    obtain ⟨c, hc, hr⟩ := List.mem_flatMap.1 hr
    rw [c.bootId_eq r hr]
    exact h.fresh c (List.mem_flatMap.2 ⟨e, he, hc⟩)
  · intro c hc
    obtain hc := Option.mem_toList.1 hc
    show c ≤ (cutoffAt days boot.timestamp).getD 0
    rw [Option.mem_def.1 hc]
    exact le_rfl

theorem mirrors_first {timestamp : Nat} {bootId : String} {capacity : CapacitySnapshot} {s : State V}
    (h : openHistory json days none timestamp bootId capacity = .ok s)
    (hk : json.Keeps [] (.boot ⟨timestamp, bootId, canonicalCapacity capacity⟩)) : Inv json days s := by
  obtain ⟨w, hw, h⟩ := bind_eq_ok.1 h
  obtain rfl := Except.ok.inj h
  rw [openStore, openFirst] at hw
  cases hline : encodeRecord json (.boot ⟨timestamp, bootId, canonicalCapacity capacity⟩) with
  | error e => rw [hline] at hw; cases hw
  | ok line =>
    rw [hline] at hw
    obtain rfl := Except.ok.inj hw
    refine ⟨[], _, _, (mirrors_open ⟨timestamp, bootId, canonicalCapacity capacity⟩ ?_ rfl).2⟩
    refine ⟨rfl, Nat.one_pos, rfl, ⟨[line], ?_, .cons (lineOf_encode hk hline) .nil⟩,
      fun r hr => (List.mem_singleton.1 hr) ▸ hk, List.pairwise_singleton _ _,
      List.nodup_nil, fun _ h => absurd h List.not_mem_nil, rfl, rfl, rfl⟩
    rw [joinLines_cons]
    rfl

variable [DecidableEq V] {parseF64 : String → Option V}

omit [DecidableEq V] in
theorem Append.Fits.le_last {a : Append V} {last : Nat} (h : a.Fits last) : last ≤ a.last last := by
  cases a with
  | indexed t capacity state => exact h.1
  | idle | read canonicalLast | stored t => exact le_rfl

namespace Mirrors

variable {s : State V} {es : List (FileEpoch V)} {live : FileEpoch V} {horizon : Nat}

omit [DecidableEq V] in
theorem index_of (h : Mirrors json days s es live horizon) (hpending : s.append.pending = [])
    (hlast : s.append.last live.last = live.last) :
    IndexOf days s.inner s.writer.store.bootId (es.flatMap FileEpoch.points) live.observations live.last horizon := by
  have hindex := h.index
  rwa [hpending, hlast, List.append_nil] at hindex

omit [DecidableEq V] in
theorem of_index {last : Nat} (hpending : s.append.pending = []) (hl : s.append.last live.last = live.last)
    (hfile : FileOf json s.writer es live) (hlast : live.last = last)
    (hindex : IndexOf days s.inner s.writer.store.bootId (es.flatMap FileEpoch.points) live.observations last horizon)
    (hfits : s.append.Fits live.last) (hcutoffs : ∀ c ∈ s.cutoffs, c ≤ (cutoffAt days live.last).getD 0) :
    Mirrors json days s es live horizon := by
  subst hlast
  refine ⟨hfile, ?_, hfits, hcutoffs⟩
  rwa [hpending, hl, List.append_nil]

omit [DecidableEq V] in
theorem index_step (h : Mirrors json days s es live horizon) {canonicalLast : Option Nat}
    (ha : s.append = .read canonicalLast) (t : Nat) (snapshot : String) (capacity : CapacitySnapshot) :
    let current := parseExposition parseF64 snapshot
    let t := max t (max (s.inner.availableTo.getD 0) (canonicalLast.getD 0))
    Mirrors json days { s with
      inner := indexSnapshot s.inner days s.writer.store.bootId t current capacity
      append := .indexed t capacity (canonicalState current) } es live (max horizon ((cutoffAt days t).getD 0)) := by
  have hfits := h.append
  rw [ha] at hfits
  have hle : live.last ≤ max t (max (s.inner.availableTo.getD 0) (canonicalLast.getD 0)) := by
    rw [hfits]
    exact (le_max_right _ _).trans (le_max_right _ _)
  have hindex := h.index_of (by rw [ha]; rfl) (by rw [ha]; rfl)
  exact ⟨h.file, hindex.index hle _ capacity, ⟨hle, encodeState_canonicalState (parseExposition_finite _ _)⟩, h.cutoffs⟩

theorem store_step (h : Mirrors json days s es live horizon) {t : Nat} {capacity : CapacitySnapshot}
    {state : List (StateEntry V)} (ha : s.append = .indexed t capacity state)
    (hk : json.Keeps [] (nextRecord s.writer t (canonicalCapacity capacity) (some state))) :
    Inv json days { s with
      writer := (s.writer.appendSample json t (canonicalCapacity capacity) state none).1
      append := .stored t } := by
  have hfits := h.append
  rw [ha] at hfits
  have hfile := h.file.store hfits.1 hk hfits.2
  have hlast : (push live (stored (stateAfter none live.observations) t (canonicalCapacity capacity) state)
      FileOf.isSome_stored).last = t := last_push ..
  obtain ⟨hpoints, hstate⟩ := pointsFrom_stored live.observations t (canonicalCapacity capacity) state
  have hindex := h.index
  rw [ha] at hindex
  have hid := h.file.bootId.symm.trans hfile.bootId
  have hindex := hindex.congr hpoints hstate
  rw [hid] at hindex
  refine ⟨es, _, horizon, of_index rfl rfl hfile hlast hindex hlast.ge fun c hc => ?_⟩
  exact (h.cutoffs c hc).trans (cutoffAt_mono (hfits.1.trans hlast.ge))

theorem compact_step (h : Mirrors json days s es live horizon) {cutoff : Nat} (hc : cutoff ∈ s.cutoffs)
    (authorized : Bool) :
    Inv json days { s with writer := (s.writer.compactIfAuthorized json cutoff authorized none).1 } := by
  have hcut := h.cutoffs cutoff hc
  obtain ⟨es', live', hfile, hcomp, hlast⟩ := h.file.compact (hcut.trans (cutoffAt_le _ _)) authorized
  have hfits : s.append.Fits live'.last := hlast ▸ h.append
  have hcutoffs : ∀ c ∈ s.cutoffs, c ≤ (cutoffAt days live'.last).getD 0 := hlast ▸ h.cutoffs
  have hindex := h.index
  rcases hcomp with ⟨rfl, rfl⟩ | hcomp
  · rw [h.file.bootId.symm.trans hfile.bootId] at hindex
    exact ⟨_, _, horizon, hfile, hindex, h.append, h.cutoffs⟩
  · have hid : s.writer.store.bootId = (s.writer.compactIfAuthorized json cutoff authorized none).1.store.bootId :=
      h.file.bootId.symm.trans (hcomp.boot ▸ hfile.bootId)
    have hpoints : (es'.flatMap FileEpoch.points ++ pointsFrom none (live'.observations ++ s.append.pending)).filter
          (cutoff ≤ ·.t) =
        (es.flatMap FileEpoch.points ++ pointsFrom none (live.observations ++ s.append.pending)).filter
          (cutoff ≤ ·.t) := by
      have hlive : (pointsFrom none live'.observations).filter (cutoff ≤ ·.t) =
          (pointsFrom none live.observations).filter (cutoff ≤ ·.t) := hcomp.livePoints
      rw [pointsFrom_append, pointsFrom_append, hcomp.stateAfter]
      simp only [List.filter_append, hcomp.points, hlive]
    have hstate : stateAfter none (live'.observations ++ s.append.pending) =
        stateAfter none (live.observations ++ s.append.pending) := by
      rw [stateAfter_append, stateAfter_append, hcomp.stateAfter]
    have hindex := hindex.compact hpoints hstate (hcut.trans (cutoffAt_mono h.append.le_last))
    rw [hid, ← hlast] at hindex
    exact ⟨es', live', _, hfile, hindex, hfits, hcutoffs⟩

end Mirrors

/-- What a reopen finds. -/
theorem reopen_step {s s' : State V} {timestamp : Nat} {bootId : String} {capacity : CapacitySnapshot}
    (h : Inv json days s) (hclean : Clean json s (.reopen timestamp bootId capacity))
    (hs : step json parseF64 days s (.reopen timestamp bootId capacity) = some s') :
    Inv json days s' ∧ s'.inner.points = s.inner.points.filter (keeps (cutoffAt days timestamp) ·.t) := by
  obtain ⟨es, live, horizon, h⟩ := h
  rw [step] at hs
  split at hs
  swap
  · cases hs
  rename_i ha
  cases hopen : openHistory json days (some (s.writer.disk.read s.writer.disk.canonical)) timestamp bootId capacity with
  | error e => rw [hopen] at hs; cases hs
  | ok s₁ =>
    rw [hopen] at hs
    obtain rfl : s₁ = s' := Option.some.inj hs
    obtain ⟨w, hw, hopen⟩ := bind_eq_ok.1 hopen
    obtain rfl := Except.ok.inj hopen
    obtain ⟨hfile, hreplay, hle⟩ := h.file.reopen hw hclean.1 hclean.2
    obtain ⟨hpoints, hmirrors⟩ := @mirrors_open _ _ _ days _ _ _ hfile hreplay
    refine ⟨⟨_, _, _, hmirrors⟩, hpoints.trans ?_⟩
    have hindex := h.index_of (by rw [ha]; rfl) (by rw [ha]; rfl)
    have hhorizon : horizon ≤ (cutoffAt days timestamp).getD 0 := hindex.horizon_le.trans (cutoffAt_mono hle)
    rw [keeps_cutoffAt, List.flatMap_append, List.flatMap_singleton]
    exact (filter_of_filter hhorizon hindex.points).symm

theorem step_inv {s s' : State V} {op : Op} (h : Inv json days s) (hop : Clean json s op)
    (hs : step json parseF64 days s op = some s') : Inv json days s' := by
  obtain ⟨es, live, horizon, hm⟩ := id h
  cases op with
  | read =>
    rw [step] at hs
    split at hs
    · rename_i ha
      obtain rfl := Option.some.inj hs
      have hindex := hm.index
      rw [ha] at hindex
      exact ⟨es, live, horizon, hm.file, hindex, hm.file.lastTimestamp, hm.cutoffs⟩
    · cases hs
  | index t snapshot capacity =>
    rw [step] at hs
    split at hs
    · rename_i canonicalLast ha
      obtain rfl := Option.some.inj hs
      exact ⟨es, live, _, hm.index_step ha t snapshot capacity⟩
    · cases hs
  | store =>
    rw [step] at hs
    split at hs
    · rename_i t capacity state ha
      obtain rfl := Option.some.inj hs
      rw [Clean, ha] at hop
      exact hm.store_step ha hop
    · cases hs
  | request due =>
    rw [step] at hs
    split at hs
    · rename_i t ha
      obtain rfl := Option.some.inj hs
      have hfits := hm.append
      have hindex := hm.index
      rw [ha] at hfits hindex
      refine ⟨es, live, horizon, hm.file, hindex, trivial, fun c hc => ?_⟩
      split at hc
      · rcases List.mem_append.1 hc with hc | hc
        · have hmono : (cutoffAt days _).getD 0 ≤ (cutoffAt days _).getD 0 := cutoffAt_mono hfits
          rw [Option.mem_def.1 (Option.mem_toList.1 hc)] at hmono
          exact hmono
        · exact hm.cutoffs c hc
      · exact hm.cutoffs c hc
    · cases hs
  | compact cutoff authorized =>
    rw [step] at hs
    split at hs
    · rename_i hc
      obtain rfl := Option.some.inj hs
      exact hm.compact_step hc authorized
    · cases hs
  | reopen timestamp bootId capacity => exact (reopen_step h hop hs).1

/-- After every run from a first open, a process that opens the history anew indexes exactly the points the
process before it held, from its retention cutoff on. -/
theorem reopened_points {timestamp₀ : Nat} {bootId₀ : String} {capacity₀ : CapacitySnapshot} {s₀ : State V}
    (hopen : openHistory json days none timestamp₀ bootId₀ capacity₀ = .ok s₀)
    (hk : json.Keeps [] (.boot ⟨timestamp₀, bootId₀, canonicalCapacity capacity₀⟩)) {ops : List Op} {s s' : State V}
    {timestamp : Nat} {bootId : String} {capacity : CapacitySnapshot}
    (hclean : Meets (step json parseF64 days) (Clean json) s₀ (ops ++ [.reopen timestamp bootId capacity]))
    (hs : exec (step json parseF64 days) s₀ ops = some s)
    (hreopen : step json parseF64 days s (.reopen timestamp bootId capacity) = some s') :
    s'.inner.points = s.inner.points.filter (keeps (cutoffAt days timestamp) ·.t) := by
  have h : Inv json days s :=
    exec_invariant_of_meets (fun _ _ _ h hop hstep => step_inv h hop hstep) (mirrors_first hopen hk)
      hclean.append_left hs
  exact (reopen_step h (hclean.append_right hs).1 hreopen).2

end

/-! ### A restart after a compaction -/

instance {V : Type} [F64 V] [DecidableEq V] (json : SerdeJson V) (s : State V) : DecidablePred (Clean json s)
  | .store =>
    match h : s.append with
    | .indexed t capacity state =>
      decidable_of_iff (json.Keeps [] (nextRecord s.writer t (canonicalCapacity capacity) (some state)))
        (by rw [Clean, h])
    | .idle | .read _ | .stored _ => isTrue (by rw [Clean, h]; trivial)
  | .reopen timestamp bootId capacity =>
    match h : validateCanonical json (s.writer.disk.read s.writer.disk.canonical) with
    | .ok replay =>
      decidable_of_iff (json.Keeps [] (.boot ⟨timestamp, bootId, canonicalCapacity capacity⟩) ∧
          ∀ r ∈ replay.records, r.bootId ≠ bootId)
        (and_congr_right fun _ => ⟨fun hr _ h' => Except.ok.inj (h.symm.trans h') ▸ hr, fun hr => hr replay h⟩)
    | .error _ =>
      decidable_of_iff (json.Keeps [] (.boot ⟨timestamp, bootId, canonicalCapacity capacity⟩))
        ⟨fun hk => ⟨hk, fun _ h' => nomatch h.symm.trans h'⟩, fun hr => hr.1⟩
  | .read | .index _ _ _ | .request _ | .compact _ _ => isTrue trivial

def oneKey : CapacitySnapshot := ⟨1, [40], 40⟩

/-- The counter is written once before the restart. -/
def countedOnce : List (RawRecord ℚ) := twoProcesses 0 10 90000 90001 (.entries [⟨"counter", "n_total", ∅, 5⟩])

def naturalNumber (text : String) : Option ℚ :=
  if text.toList.all Char.isDigit then some (text.toList.foldl (fun n c => 10 * n + (c.toNat - 48)) 0 : Nat) else none

/-- The second snapshot is written as a checkpoint, after the first has expired. -/
def expiringRun : List Op :=
  [.read, .index 10 "n_total 5" oneKey, .store, .request false, .read, .index 90000 "n_total 5" oneKey, .store,
    .request true, .compact 3600 true]

theorem reopened_points_expired :
    ∃ s₀ s s', openHistory (.table countedOnce) 1 none 0 "a" oneKey = .ok s₀ ∧
      exec (step (.table countedOnce) naturalNumber 1) s₀ expiringRun = some s ∧
      step (.table countedOnce) naturalNumber 1 s (.reopen 90001 "b" oneKey) = some s' ∧
      s'.inner.points.map (·.t) = [90000] ∧ s'.inner.points = s.inner.points.filter (keeps (cutoffAt 1 90001) ·.t) := by
  have hrun : (openHistory (.table countedOnce) 1 none 0 "a" oneKey).toOption.any (fun s₀ => decide (
      Meets (step (.table countedOnce) naturalNumber 1) (Clean (.table countedOnce)) s₀
        (expiringRun ++ [.reopen 90001 "b" oneKey]) ∧
      ((exec (step (.table countedOnce) naturalNumber 1) s₀ (expiringRun ++ [.reopen 90001 "b" oneKey])).map fun s =>
        s.inner.points.map (·.t)) = some [90000])) = true := by decide +kernel
  obtain ⟨s₀, hopen, hrun⟩ := (Option.any_eq_true ..).1 hrun
  obtain ⟨hclean, hrun⟩ := of_decide_eq_true hrun
  obtain ⟨s', hs', hpoints⟩ := Option.map_eq_some_iff.1 hrun
  obtain ⟨s, hs, hreopen⟩ := exec_snoc_eq_some.1 hs'
  have hopen := toOption_eq_some hopen
  exact ⟨s₀, s, s', hopen, hs, hreopen, hpoints, reopened_points hopen (by decide +kernel) hclean hs hreopen⟩

end OpenProxy.Live
