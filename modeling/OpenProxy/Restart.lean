import OpenProxy.Accounting

/-!
# Compacting again (`compaction_needed` of `history/store.rs`)

A second compaction of the retained records cuts each epoch where one compaction at the later cutoff would. When
the file is opened again, by another process and with no epoch of its own, the store asks whether that would leave
anything out.
-/

namespace OpenProxy

open Lines

section
variable {V : Type}

/-! ### Cutting what is kept -/

namespace Cut
variable {e : CommittedEpoch V} {c c' : Nat}

/-- A later cut of what is kept cuts the epoch. -/
theorem lift (k : Cut e c) (hc : c ≤ c') (k' : Cut k.kept c') :
    ∃ k'' : Cut e c', k''.baseline = k'.baseline ∧ k''.after = k'.after := by
  have hobs : k.baseline :: k.after = k'.pre ++ k'.baseline :: (k'.mid ++ k'.after) := k'.observations
  have hlt : ∀ o ∈ k.pre ++ k.baseline :: k.mid, o.t < c' := fun o ho => (k.lt o ho).trans_le hc
  cases hpre : k'.pre with
  | nil =>
    rw [hpre, List.nil_append, List.cons.injEq] at hobs
    obtain ⟨hb, hafter⟩ := hobs
    refine ⟨⟨k.pre, k'.baseline, k.mid ++ k'.mid, k'.after, ?_, k'.isSample, ?_, ?_, k'.le⟩, rfl, rfl⟩
    · rw [k.observations, hb, hafter, List.append_assoc]
    · intro o ho
      rcases List.mem_append.1 ho with ho | ho
      · exact k.checkpoints o ho
      · exact k'.checkpoints o ho
    · intro o ho
      rw [← hb, ← List.cons_append, ← List.append_assoc] at ho
      rcases List.mem_append.1 ho with ho | ho
      · exact hlt o ho
      · exact k'.lt o (List.mem_append_right _ (List.mem_cons_of_mem _ ho))
  | cons o pre =>
    rw [hpre, List.cons_append, List.cons.injEq] at hobs
    obtain ⟨rfl, hafter⟩ := hobs
    refine ⟨⟨k.pre ++ k.baseline :: (k.mid ++ pre), k'.baseline, k'.mid, k'.after, ?_, k'.isSample, k'.checkpoints,
      ?_, k'.le⟩, rfl, rfl⟩
    · rw [k.observations, hafter]
      simp
    · intro o ho
      have ho : o ∈ (k.pre ++ k.baseline :: k.mid) ++ (pre ++ k'.baseline :: k'.mid) := by simpa using ho
      rcases List.mem_append.1 ho with ho | ho
      · exact hlt o ho
      · refine k'.lt o ?_
        rw [hpre]
        exact List.mem_append.2 ((List.mem_append.1 ho).imp_left (List.mem_cons_of_mem _))

/-- An earlier cut of what is kept keeps it. -/
def again (k : Cut e c) (hc : c' ≤ c) (hb : k.baseline.t < c') : Cut k.kept c' :=
  ⟨[], k.baseline, [], k.after, rfl, k.isSample, fun _ ho => absurd ho List.not_mem_nil,
    fun _ ho => (List.mem_singleton.1 ho) ▸ hb, fun o ho => hc.trans (k.le o ho)⟩

theorem records_kept (k : Cut e c) :
    k.kept.records = .boot e.boot :: (k.baseline :: k.after).map (Observation.record e.boot.bootId) := rfl

theorem inOrder_kept (k : Cut e c) (h : InOrder e.records) : InOrder k.kept.records :=
  List.Pairwise.sublist (((k.observations_kept.map _).cons_cons _).map _) h

theorem mem_after (k : Cut e c) {o : Observation V} (ho : o ∈ e.observations) (hc : c ≤ o.t) : o ∈ k.after := by
  rw [k.observations, ← List.cons_append, ← List.append_assoc] at ho
  rcases List.mem_append.1 ho with ho | ho
  · have := k.lt o ho
    omega
  · exact ho

end Cut

end

section
variable {V : Type}

theorem inOrder_of_mem {es : List (CommittedEpoch V)} (h : InOrder (es.flatMap CommittedEpoch.records))
    {e : CommittedEpoch V} (he : e ∈ es) : InOrder e.records :=
  List.Pairwise.sublist ((List.sublist_flatten_of_mem (List.mem_map_of_mem he)).map _) h

/-- An epoch starts before the cutoff or is kept whole. -/
theorem cut_or_whole {e : CommittedEpoch V} (h : InOrder e.records) (c : Nat) :
    Nonempty (Cut e c) ∨ ∀ o ∈ e.observations, c ≤ o.t := by
  obtain ⟨hsorted, -⟩ := CommittedEpoch.inOrder_observations h
  obtain ⟨first, os, hos, -⟩ := e.opens
  by_cases hc : c ≤ first.t
  · right
    rw [hos] at hsorted ⊢
    obtain ⟨hle, -⟩ := List.pairwise_cons.1 hsorted
    intro o ho
    rcases List.mem_cons.1 ho with rfl | ho
    · exact hc
    · exact hc.trans (hle _ (List.mem_map_of_mem ho))
  · exact .inl (exists_cut h ⟨first, by rw [hos]; rfl, by omega⟩)

theorem retainEpoch_of_le {e : CommittedEpoch V} {c : Nat} (h : ∀ o ∈ e.observations, c ≤ o.t) (liveBootId : String)
    (usable : Bool) : retainEpoch id e.records c liveBootId usable = e.records := by
  obtain ⟨first, os, hos, -⟩ := e.opens
  refine retainEpoch_whole (fun y hy => ?_) (by simp [hos])
  obtain ⟨o, ho, rfl⟩ := List.mem_map.1 hy
  rw [id, Observation.timestamp_record]
  exact h o ho

theorem retainEpoch_nil (c : Nat) (liveBootId : String) (usable : Bool) :
    retainEpoch (id : Record V → Record V) [] c liveBootId usable = [] := by
  simp [retainEpoch]

theorem isLiveEpoch_kept {e : CommittedEpoch V} {c : Nat} (k : Cut e c) (liveBootId : String) (usable : Bool) :
    isLiveEpoch id k.kept.records liveBootId usable = isLiveEpoch id e.records liveBootId usable := rfl

/-- Cutting an epoch twice cuts it at the later cutoff. -/
theorem retainEpoch_retainEpoch {e : CommittedEpoch V} (h : InOrder e.records) (c c' : Nat) (liveBootId : String)
    (usable : Bool) :
    retainEpoch id (retainEpoch id e.records c liveBootId usable) c' liveBootId usable =
      retainEpoch id e.records (max c c') liveBootId usable := by
  rcases cut_or_whole h c with ⟨⟨k⟩⟩ | hwhole
  swap
  · rw [retainEpoch_of_le hwhole]
    rcases le_total c c' with hc | hc
    · rw [max_eq_right hc]
    · rw [max_eq_left hc, retainEpoch_of_le hwhole, retainEpoch_of_le fun o ho => hc.trans (hwhole o ho)]
  have hkept := k.inOrder_kept h
  rw [k.retainEpoch_eq h]
  rcases le_total c' c with hc | hc
  · -- the second cutoff finds nothing before it but the baseline
    rw [max_eq_left hc, k.retainEpoch_eq h]
    split
    · rename_i hlive
      by_cases hb : k.baseline.t < c'
      · rw [(k.again hc hb).retainEpoch_eq hkept, isLiveEpoch_kept]
        exact if_pos hlive
      · refine retainEpoch_of_le (fun o ho => ?_) _ _
        rcases List.mem_cons.1 ho with rfl | ho
        · exact Nat.le_of_not_lt hb
        · exact hc.trans (k.le o ho)
    · exact retainEpoch_nil _ _ _
  · -- the second cutoff is the later one
    rw [max_eq_right hc]
    rcases cut_or_whole hkept c' with ⟨⟨k'⟩⟩ | hle
    swap
    · have := hle k.baseline List.mem_cons_self
      have := k.lt k.baseline (by simp)
      omega
    obtain ⟨k'', hbaseline, hafter⟩ := k.lift hc k'
    have hrecords : k''.kept.records = k'.kept.records := by
      rw [k''.records_kept, k'.records_kept, hbaseline, hafter]
      rfl
    rw [k''.retainEpoch_eq h, hrecords, hafter]
    split
    · rw [k'.retainEpoch_eq hkept, isLiveEpoch_kept]
    · rename_i hdead
      simp only [Bool.or_eq_true, not_or, Bool.not_eq_true, Bool.not_eq_false', List.isEmpty_iff] at hdead
      have hnil : k'.after = [] := by
        have hobs : k.baseline :: k.after = k'.pre ++ k'.baseline :: (k'.mid ++ k'.after) := k'.observations
        have hlength := congrArg List.length hobs
        rw [hdead.2] at hlength
        simp only [List.length_cons, List.length_nil, List.length_append] at hlength
        exact List.length_eq_zero_iff.1 (by omega)
      rw [retainEpoch_nil, hdead.1, hnil]
      rfl

/-- What another process would keep of an epoch that is kept for one of its observations. -/
theorem retainEpoch_settled {e : CommittedEpoch V} (h : InOrder e.records) {c : Nat} {liveBootId : String}
    {usable : Bool} (hlive : isLiveEpoch id e.records liveBootId usable = true → ∃ o ∈ e.observations, c ≤ o.t)
    (bootId : String) (usable' : Bool) :
    retainEpoch id (retainEpoch id e.records c liveBootId usable) c bootId usable' =
      retainEpoch id e.records c liveBootId usable := by
  rcases cut_or_whole h c with ⟨⟨k⟩⟩ | hwhole
  swap
  · rw [retainEpoch_of_le hwhole, retainEpoch_of_le hwhole]
  rw [k.retainEpoch_eq h]
  split
  · rename_i hcond
    have hafter : (!k.after.isEmpty) = true := by
      rcases Bool.or_eq_true_iff.1 hcond with hl | ha
      · obtain ⟨o, ho, hco⟩ := hlive hl
        simpa using List.ne_nil_of_mem (k.mem_after ho hco)
      · exact ha
    have hb : k.baseline.t < c := k.lt k.baseline (by simp)
    rw [(k.again le_rfl hb).retainEpoch_eq (k.inOrder_kept h)]
    exact if_pos (Bool.or_eq_true_iff.2 (.inr hafter))
  · exact retainEpoch_nil _ _ _

theorem splitEpochs_records (e : CommittedEpoch V) : splitEpochs id e.records = [e.records] := by
  have := splitEpochs_flatMap [e]
  rwa [List.flatMap_singleton, List.map_singleton] at this

variable [F64 V]

/-- What is kept of each epoch is cut apart again. -/
theorem retained_retained {es : List (CommittedEpoch V)} (h : InOrder (es.flatMap CommittedEpoch.records)) (c c' : Nat)
    (liveBootId bootId : String) (usable usable' : Bool) :
    retainedCompactionRecords id
        (retainedCompactionRecords id (es.flatMap CommittedEpoch.records) c liveBootId usable) c' bootId usable' =
      es.flatMap fun e => retainEpoch id (retainEpoch id e.records c liveBootId usable) c' bootId usable' := by
  induction es with
  | nil => rfl
  | cons e es ih =>
    rw [InOrder, List.flatMap_cons, List.map_append, List.pairwise_append] at h
    have htail : startsAtBoot id (retainedCompactionRecords id (es.flatMap CommittedEpoch.records) c liveBootId usable) ∨
        retainedCompactionRecords id (es.flatMap CommittedEpoch.records) c liveBootId usable = [] := by
      obtain ⟨es', hes', -⟩ := retained_records h.2.1 c liveBootId usable
      rw [hes']
      exact startsAtBoot_flatMap es'
    rw [retained_flatMap (e :: es), List.flatMap_cons, List.flatMap_cons, ← ih h.2.1, ← retained_flatMap es]
    rcases retainEpoch_records h.1 c liveBootId usable with ⟨-, hr⟩ | ⟨e', hr, -⟩
    · rw [hr, retainEpoch_nil]
      rfl
    · rw [hr, retainedCompactionRecords, splitEpochs_append htail, splitEpochs_records, List.flatMap_append,
        List.flatMap_singleton]
      rfl

/-- Compacting twice is compacting once. -/
theorem retained_max {es : List (CommittedEpoch V)} (h : InOrder (es.flatMap CommittedEpoch.records)) (c c' : Nat)
    (liveBootId : String) (usable : Bool) :
    retainedCompactionRecords id
        (retainedCompactionRecords id (es.flatMap CommittedEpoch.records) c liveBootId usable) c' liveBootId usable =
      retainedCompactionRecords id (es.flatMap CommittedEpoch.records) (max c c') liveBootId usable := by
  rw [retained_retained h, retained_flatMap]
  exact List.flatMap_congr fun e he => retainEpoch_retainEpoch (inOrder_of_mem h he) c c' liveBootId usable

end

/-! ### Opening the compacted file -/

namespace HistoryStore
variable {V : Type}

/-- The records before the boot record of a process that has observed nothing. -/
def observed (store : HistoryStore V) : List (Record V) × Option BootRecord :=
  match store.replay.records.getLast? with
  | some (.boot boot) =>
    if boot.bootId = store.bootId ∧ store.lastState.isNone then (store.replay.records.dropLast, some boot)
    else (store.replay.records, none)
  | _ => (store.replay.records, none)

def compactionNeeded [DecidableEq V] (store : HistoryStore V) (cutoff : Nat) : Bool :=
  if !store.replay.gaps.isEmpty || store.replay.needsSeparator || store.replay.excludedEpochs != 0 ||
      store.replay.excludedRecords != 0 then true
  else
    retainedCompactionRecords id store.observed.1 cutoff store.bootId false ++
      (store.observed.2.map Record.boot).toList != store.replay.records

end HistoryStore

section
variable {V : Type}

namespace Scanner

/-- A scanner that has excluded nothing has read no timestamp but those of its records. -/
def Bounded (s : Scanner V) (b : Nat) : Prop :=
  s.replay.excludedRecords = 0 → (∀ r ∈ s.replay.records ++ s.candidateRecords, r.timestamp ≤ b) →
    s.replay.orderingBound.getD 0 ≤ b

theorem excludedRecords_damaged (s : Scanner V) (t : Option Nat) : (s.damaged t).replay.excludedRecords ≠ 0 := by
  have hinvalidate : ∀ (s : Scanner V) (t : Nat), (s.invalidate t).replay.excludedRecords ≠ 0 := by
    intro s t
    rcases invalidate_cases s t with ⟨epoch, -, hs⟩ | ⟨-, hs⟩
    · rw [hs, excludeEpoch_eq]
      exact Nat.succ_ne_zero _
    · rw [hs, excludeRecord_eq]
      exact Nat.succ_ne_zero _
  exact hinvalidate _ _

theorem bounded_damaged (s : Scanner V) (t : Option Nat) (b : Nat) : (s.damaged t).Bounded b :=
  fun hzero => absurd hzero (excludedRecords_damaged s t)

theorem bounded_record (s : Scanner V) (r : Record V) (b : Nat) : (s.record r).Bounded b := by
  rcases record_cases s r with ⟨-, hs⟩ | ⟨boot, -, hle, hs⟩ | ⟨-, hle, -, epoch, -, hs⟩
  · rw [hs]
    exact bounded_damaged _ _ _
  · rw [hs]
    intro _ hrecords
    rw [orderingBound_startBoot, advance, orderingBound_advance hle]
    exact hrecords (.boot boot) (List.mem_append_right _ List.mem_cons_self)
  · rw [hs]
    intro _ hrecords
    show (s.replay.advanceOrderingBound r.timestamp).orderingBound.getD 0 ≤ b
    rw [orderingBound_advance hle]
    exact hrecords r (List.mem_append_right _ (List.mem_append_right _ (List.mem_singleton.2 rfl)))

theorem bounded_decided {s : Scanner V} {b : Nat} (h : s.Bounded b) (hzero : s.decided.excludedRecords = 0)
    (hle : ∀ r ∈ s.decided.records, r.timestamp ≤ b) : s.decided.orderingBound.getD 0 ≤ b := by
  rw [orderingBound_decided]
  unfold Bounded candidateRecords candidate at h
  unfold decided at hzero hle
  cases hs : s.state with
  | awaitSample epoch =>
    rw [hs] at h hzero hle
    dsimp only at h hzero hle
    rw [excludeEpoch_eq] at hzero hle
    have hzero : s.replay.excludedRecords + epoch.records.length + 0 = 0 := hzero
    have hnil : epoch.records = [] := List.length_eq_zero_iff.1 (by omega)
    refine h (by omega) ?_
    rw [Option.elim_some, hnil, List.append_nil]
    exact hle
  | usable epoch =>
    rw [hs] at h hzero hle
    exact h hzero hle
  | awaitBoot | invalidEpoch =>
    rw [hs] at h hzero hle
    exact h hzero (by simpa using hle)

variable [F64 V] {json : SerdeJson V}

theorem bounded_line {s s' : Scanner V} {line : List UInt8} {b : Nat} (h : s.Bounded b)
    (hs : s.line json line = .ok s') : s'.Bounded b := by
  rcases line_cases json s line with ⟨-, hl⟩ | ⟨-, -, e, hl⟩ | ⟨-, -, hl⟩
  · rw [hs] at hl
    obtain rfl := Except.ok.inj hl
    exact h
  · rw [hs] at hl
    cases hl
  · rw [hs] at hl
    obtain rfl := Except.ok.inj hl
    cases decodeRecord json line with
    | ok r => exact bounded_record _ _ _
    | error e => exact bounded_damaged _ _ _

theorem bounded_scanLines {s s' : Scanner V} {lines : List (List UInt8)} {b : Nat} (h : s.Bounded b)
    (hs : scanLines json s lines = .ok s') : s'.Bounded b := by
  induction lines generalizing s with
  | nil =>
    obtain rfl := Except.ok.inj hs
    exact h
  | cons line lines ih =>
    obtain ⟨s₁, hline, hlines⟩ := scanLines_cons_eq_ok.1 hs
    exact ih (bounded_line h hline) hlines

theorem bounded_rest {s s' : Scanner V} {rest : List UInt8} {b : Nat} (h : s.Bounded b)
    (hs : s.rest json rest = .ok s') : s'.Bounded b := by
  rcases rest_cases json s rest with ⟨-, hr⟩ | ⟨-, -, e, hr⟩ | ⟨-, -, hr⟩
  · rw [hs] at hr
    obtain rfl := Except.ok.inj hr
    exact h
  · rw [hs] at hr
    cases hr
  · rw [hs] at hr
    obtain rfl := Except.ok.inj hr
    exact bounded_damaged _ _ _

end Scanner

variable [F64 V] {json : SerdeJson V}

/-- What a scan commits is a stream of epochs in order. -/
theorem validateCanonical_epochs {bytes : List UInt8} {replay : Replay V}
    (h : validateCanonical json bytes = .ok replay) :
    (∃ es : List (CommittedEpoch V), replay.records = es.flatMap CommittedEpoch.records) ∧ InOrder replay.records := by
  obtain ⟨s, s', hlines, hrest, hfin⟩ := validateCanonical_eq_ok.1 h
  obtain ⟨-, rfl⟩ := Scanner.finish_eq_ok.1 hfin
  obtain ⟨hes, hord, -⟩ := ((Scanner.accounts_start.scanLines hlines).rest hrest).decided
  exact ⟨hes, hord⟩

theorem validateCanonical_bound {bytes : List UInt8} {replay : Replay V} {b : Nat}
    (h : validateCanonical json bytes = .ok replay) (hzero : replay.excludedRecords = 0)
    (hle : ∀ r ∈ replay.records, r.timestamp ≤ b) : replay.orderingBound.getD 0 ≤ b := by
  obtain ⟨s, s', hlines, hrest, hfin⟩ := validateCanonical_eq_ok.1 h
  obtain ⟨-, rfl⟩ := Scanner.finish_eq_ok.1 hfin
  have hstart : ({} : Scanner V).Bounded b := fun _ _ => Nat.zero_le b
  exact Scanner.bounded_decided (Scanner.bounded_rest (Scanner.bounded_scanLines hstart hlines) hrest) hzero hle

/-- A boot record that is not before what was read is appended. -/
theorem exists_openExisting {bytes : List UInt8} {replay : Replay V} {boot : BootRecord}
    (h : validateCanonical json bytes = .ok replay) (hle : replay.orderingBound.getD 0 ≤ boot.timestamp) :
    ∃ w, openExisting json bytes boot = .ok w := by
  rw [openExisting, h]
  show ∃ w, (if replay.orderingBound.any (boot.timestamp < ·) then _ else _) = Except.ok w
  rw [Scanner.not_any_lt.2 hle, if_neg Bool.false_ne_true]
  exact ⟨_, rfl⟩

variable [DecidableEq V]

/-- A process that opens a file with nothing to recover and nothing to leave out needs no compaction. -/
theorem compactionNeeded_openExisting {bytes : List UInt8} {boot : BootRecord} {w : Writer V} {replay : Replay V}
    {cutoff : Nat} (hscan : validateCanonical json bytes = .ok replay) (hexact : replay.isExactly replay.records = true)
    (hkept : retainedCompactionRecords id replay.records cutoff boot.bootId false = replay.records)
    (hopen : openExisting json bytes boot = .ok w) : w.store.compactionNeeded cutoff = false := by
  obtain ⟨replay', line, hscan', -, -, -, hstore⟩ := openExisting_eq_ok hopen
  obtain rfl := Except.ok.inj (hscan.symm.trans hscan')
  obtain ⟨-, hgaps, hseparator, hepochs, hrecords⟩ := isExactly_iff.1 hexact
  have hobserved : w.store.observed = (replay.records, some boot) := by
    rw [hstore]
    simp [HistoryStore.observed, Replay.closeOpenGap]
  have hreplay : w.store.replay = { replay with records := replay.records ++ [Record.boot boot] } := by
    rw [hstore]
    simp [Replay.closeOpenGap, hgaps, Replay.closeFirst]
  rw [HistoryStore.compactionNeeded, hobserved, hreplay, hstore]
  simp [hgaps, hseparator, hepochs, hrecords, hkept]

/-- Compacting at one cutoff and then at another is compacting at the later one. After a compaction at a cutoff that
is not past the newest record of the live epoch, the next process can open the file, and does not compact it again. -/
theorem compaction_settles :
    (∀ (es : List (CommittedEpoch V)) (liveBootId : String) (usable : Bool) (c c' : Nat),
      InOrder (es.flatMap CommittedEpoch.records) →
      retainedCompactionRecords id
          (retainedCompactionRecords id (es.flatMap CommittedEpoch.records) c liveBootId usable) c' liveBootId usable =
        retainedCompactionRecords id (es.flatMap CommittedEpoch.records) (max c c') liveBootId usable) ∧
    ∀ (w w' : Writer V) (cutoff : Nat) (authorized : Bool) (fault : Option CompactionFault)
      (outcome : CompactionOutcome) (replay : Replay V),
      w.compactIfAuthorized json cutoff authorized fault = (w', .ok outcome) →
      outcome = .durable ∨ outcome = .committedSyncPending →
      validateCanonical json (w.disk.read w.disk.canonical) = .ok replay →
      (∀ epoch ∈ splitEpochs id replay.records, isLiveEpoch id epoch w.store.bootId true = true →
        ∃ r ∈ epoch, cutoff ≤ r.timestamp) →
      ∀ boot : BootRecord,
        ((∀ r ∈ w'.store.replay.records, r.timestamp ≤ boot.timestamp) →
          ∃ w'', openExisting json (w'.disk.read w'.disk.canonical) boot = .ok w'') ∧
        ∀ w'', openExisting json (w'.disk.read w'.disk.canonical) boot = .ok w'' →
          w''.store.compactionNeeded cutoff = false := by
  refine ⟨fun es liveBootId usable c c' h => retained_max h c c' liveBootId usable, ?_⟩
  intro w w' cutoff authorized fault outcome replay hcompact hcommitted hscan hlive boot
  have hcases := compactIfAuthorized_cases json w cutoff authorized fault
  rw [hcompact] at hcases
  cases hcases with
  | kept _ _ uncommitted =>
    rcases hcommitted with rfl | rfl
    · exact absurd rfl uncommitted.1
    · exact absurd rfl uncommitted.2
  | @replaced replay' replacement lines _ scan gaps usable encode check exact granted committed =>
    obtain rfl := Except.ok.inj (hscan.symm.trans scan)
    obtain ⟨⟨es, hes⟩, hord⟩ := validateCanonical_epochs hscan
    rw [hes] at hord hlive exact encode
    have hread : ({ w with disk := w.disk.create (joinLines 10 lines) }.replace w.disk.files.length
        replacement).disk.read w.disk.files.length = joinLines 10 lines := Disk.read_create_self _ _
    have hrecords := (isExactly_iff.1 exact).1
    rw [show Disk.canonical _ = w.disk.files.length from rfl, hread]
    constructor
    · intro hle
      have hbound : replacement.orderingBound.getD 0 ≤ boot.timestamp :=
        validateCanonical_bound check (isExactly_iff.1 exact).2.2.2.2 hle
      exact exists_openExisting check hbound
    · intro w'' hopen
      refine compactionNeeded_openExisting check (by rw [hrecords]; exact exact) ?_ hopen
      rw [hrecords, retained_retained hord, retained_flatMap]
      refine List.flatMap_congr fun e he => retainEpoch_settled (inOrder_of_mem hord he) (fun hl => ?_) _ _
      rw [splitEpochs_flatMap] at hlive
      obtain ⟨r, hr, hcr⟩ := hlive e.records (List.mem_map_of_mem he) hl
      obtain ⟨first, os, hos, -⟩ := e.opens
      rcases List.mem_cons.1 hr with rfl | hr
      · have hmem : first ∈ e.observations := by
          rw [hos]
          exact List.mem_cons_self
        have := (CommittedEpoch.inOrder_observations (inOrder_of_mem hord he)).2 first hmem
        exact ⟨first, hmem, hcr.trans this⟩
      · obtain ⟨o, ho, rfl⟩ := List.mem_map.1 hr
        exact ⟨o, ho, by rwa [Observation.timestamp_record] at hcr⟩

end

/-- The objects of a first process that goes over 5, and of two later ones. -/
def overFive : List (RawRecord ℚ) :=
  [⟨format, version, "boot", 1, "a", ⟨40, 1, [40]⟩, .missing⟩,
    ⟨format, version, "sample", 2, "a", ⟨40, 1, [40]⟩, .entries []⟩,
    ⟨format, version, "checkpoint", 3, "a", ⟨40, 1, [40]⟩, .missing⟩,
    ⟨format, version, "sample", 4, "a", ⟨40, 1, [40]⟩, .entries []⟩,
    ⟨format, version, "sample", 6, "a", ⟨40, 1, [40]⟩, .entries []⟩,
    ⟨format, version, "boot", 8, "b", ⟨40, 1, [40]⟩, .missing⟩,
    ⟨format, version, "sample", 9, "b", ⟨40, 1, [40]⟩, .entries []⟩]

def overFiveFile : List UInt8 := joinLines 10 ((overFive.take 5).map (·.text.toUTF8.data.toList))

/-- The second process after its first sample. -/
def secondProcess : Option (Writer ℚ) :=
  (openExisting (.table overFive) overFiveFile ⟨8, "b", ⟨40, 1, [40]⟩⟩).toOption.map fun w =>
    (w.appendSample (.table overFive) 9 ⟨40, 1, [40]⟩ [] none).1

theorem compaction_settles_overFive :
    retainedCompactionRecords id (retainedCompactionRecords id (straddling.flatMap CommittedEpoch.records) 5 "b" true) 2
        "b" true =
      retainedCompactionRecords id (straddling.flatMap CommittedEpoch.records) 5 "b" true ∧
    ∃ w w' w'', secondProcess = some w ∧ w.compactIfAuthorized (.table overFive) 5 true none = (w', .ok .durable) ∧
      w'.store.replay.records.length = 5 ∧
      openExisting (.table overFive) (w'.disk.read w'.disk.canonical) ⟨9, "c", ⟨40, 1, [40]⟩⟩ = .ok w'' ∧
      w''.store.compactionNeeded 5 = false := by
  obtain ⟨hmax, hsettled⟩ := @compaction_settles ℚ _ (.table overFive) _
  refine ⟨hmax straddling "b" true 5 2 (by unfold InOrder; decide +kernel), ?_⟩
  have hrun : (secondProcess.any fun w =>
      (validateCanonical (.table overFive) (w.disk.read w.disk.canonical)).toOption.any fun replay =>
        decide ((w.compactIfAuthorized (.table overFive) 5 true none).2 = .ok .durable ∧
          (w.compactIfAuthorized (.table overFive) 5 true none).1.store.replay.records.length = 5 ∧
          (∀ r ∈ (w.compactIfAuthorized (.table overFive) 5 true none).1.store.replay.records, r.timestamp ≤ 9) ∧
          ∀ epoch ∈ splitEpochs id replay.records, isLiveEpoch id epoch w.store.bootId true = true →
            ∃ r ∈ epoch, 5 ≤ r.timestamp)) = true := by
    decide +kernel
  obtain ⟨w, hw, hrun⟩ := (Option.any_eq_true ..).1 hrun
  obtain ⟨replay, hscan, hrun⟩ := (Option.any_eq_true ..).1 hrun
  obtain ⟨houtcome, hlength, hle, hlive⟩ := of_decide_eq_true hrun
  obtain ⟨hopens, hneeded⟩ := hsettled w _ 5 true none .durable replay (Prod.ext rfl houtcome) (.inl rfl)
    (toOption_eq_some hscan) hlive ⟨9, "c", ⟨40, 1, [40]⟩⟩
  obtain ⟨w'', hw''⟩ := hopens hle
  exact ⟨w, _, w'', hw, Prod.ext rfl houtcome, hlength, hw'', hneeded w'' hw''⟩

end OpenProxy
