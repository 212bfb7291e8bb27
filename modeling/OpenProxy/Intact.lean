import OpenProxy.Store

/-!
# Intact files

A file without damage is a sequence of epochs of which only the last is live. A process can end before its
first sample; such an epoch is skipped by the scan, and its gap closed by the next boot record.
-/

namespace OpenProxy

open Lines

structure FileEpoch (V : Type) where
  boot : BootRecord
  observations : List (Observation V)
  opens : ∀ o ∈ observations.head?, o.state.isSome

namespace FileEpoch

section
variable {V : Type}

def observationRecords (e : FileEpoch V) : List (Record V) :=
  e.observations.map (Observation.record e.boot.bootId)

def records (e : FileEpoch V) : List (Record V) := .boot e.boot :: e.observationRecords

/-- The epoch as the scanner commits it, if it does. -/
def committed (e : FileEpoch V) : List (CommittedEpoch V) :=
  match h : e.observations with
  | [] => []
  | o :: os => [⟨e.boot, o :: os, o, os, rfl, e.opens o (by rw [h]; rfl)⟩]

def committedRecords (e : FileEpoch V) : List (Record V) := e.committed.flatMap CommittedEpoch.records

/-- The timestamp of the last record. -/
def last (e : FileEpoch V) : Nat := (e.observations.getLast?.map (·.t)).getD e.boot.timestamp

theorem committed_of_nil {e : FileEpoch V} (h : e.observations = []) : e.committed = [] := by
  unfold committed
  split
  · rfl
  · rename_i hos
    rw [h] at hos
    cases hos

theorem committed_of_ne_nil {e : FileEpoch V} (h : e.observations ≠ []) :
    ∃ c : CommittedEpoch V, e.committed = [c] ∧ c.boot = e.boot ∧ c.observations = e.observations := by
  unfold committed
  split
  · rename_i hnil
    exact absurd hnil h
  · rename_i o os hos
    exact ⟨_, rfl, rfl, hos.symm⟩

theorem committedRecords_eq (e : FileEpoch V) :
    e.committedRecords = if e.observationRecords = [] then [] else e.records := by
  by_cases h : e.observations = []
  · rw [committedRecords, committed_of_nil h, observationRecords, h]
    rfl
  · obtain ⟨c, hc, hboot, hos⟩ := committed_of_ne_nil h
    rw [if_neg (by rwa [observationRecords, List.map_eq_nil_iff]), committedRecords, hc, List.flatMap_singleton,
      CommittedEpoch.records, hboot, hos]
    rfl

theorem last_eq (e : FileEpoch V) :
    e.last = (e.observationRecords.getLast?.map Record.timestamp).getD e.boot.timestamp := by
  rw [last, observationRecords, List.getLast?_map, Option.map_map]
  refine congrArg (Option.getD · _) (Option.map_congr fun o _ => ?_)
  exact (o.timestamp_record e.boot.bootId).symm

theorem observationRecords_live (e : FileEpoch V) :
    ∀ r ∈ e.observationRecords, r.isBoot = false ∧ r.bootId = e.boot.bootId := by
  intro r hr
  obtain ⟨o, -, rfl⟩ := List.mem_map.1 hr
  unfold Observation.record
  cases o.state <;> exact ⟨rfl, rfl⟩

theorem isSample_head (e : FileEpoch V) : ∀ r ∈ e.observationRecords.head?, r.isSample = true := by
  intro r hr
  rw [observationRecords, List.head?_map] at hr
  obtain ⟨o, ho, rfl⟩ := Option.map_eq_some_iff.1 hr
  obtain ⟨state, hs⟩ := Option.isSome_iff_exists.1 (e.opens o ho)
  rw [Observation.record, hs]
  rfl

end

def points {V : Type} [F64 V] (e : FileEpoch V) : List (IndexedPoint V) := pointsFrom none e.observations

theorem committed_points {V : Type} [F64 V] (e : FileEpoch V) : e.committed.flatMap CommittedEpoch.points = e.points := by
  by_cases h : e.observations = []
  · rw [committed_of_nil h, points, h]
    rfl
  · obtain ⟨c, hc, -, hos⟩ := committed_of_ne_nil h
    rw [hc, List.flatMap_singleton, CommittedEpoch.points, hos, points]

end FileEpoch

/-! ### Scanning -/

section
variable {V : Type} [F64 V] {json : SerdeJson V}

/-- The scanner has read intact lines, the last ones of the epoch of `boot`. -/
structure Scanner.Reads (s : Scanner V) (older : List (Record V)) (boot : BootRecord) (records : List (Record V)) :
    Prop where
  inEpoch : s.InEpoch older boot records
  sawNonblank : s.sawNonblank = true
  needsSeparator : s.replay.needsSeparator = false

theorem Scanner.Reads.lines {s : Scanner V} {older : List (Record V)} {boot : BootRecord}
    {records rs : List (Record V)} {lines : List (List UInt8)} (h : s.Reads older boot records)
    (hrs : ∀ r ∈ rs, r.isBoot = false ∧ r.bootId = boot.bootId) (hopen : ∀ r ∈ (records ++ rs).head?, r.isSample = true)
    (hord : InOrder (.boot boot :: (records ++ rs))) (henc : Encodes json rs lines) :
    ∃ s', scanLines json s lines = .ok s' ∧ s'.Reads older boot (records ++ rs) := by
  induction henc generalizing s records with
  | nil => exact ⟨s, rfl, by simpa using h⟩
  | @cons r line rs lines hr _ ih =>
    obtain ⟨hboot, hid⟩ := hrs r List.mem_cons_self
    have hin : Scanner.InEpoch { s with index := s.index + 1, sawNonblank := true } older boot records :=
      ⟨h.inEpoch.state, h.inEpoch.committed, h.inEpoch.bound⟩
    have hstep := hin.record hboot hid (InOrder.last_le hord)
    have hnot : ¬ (records = [] ∧ r.isSample = false) := by
      rintro ⟨rfl, hs⟩
      rw [hopen r rfl] at hs
      cases hs
    rw [if_neg hnot] at hstep
    obtain ⟨hsaw, hsep⟩ := Scanner.record_frame { s with index := s.index + 1, sawNonblank := true } r
    rw [List.append_cons] at hord hopen
    obtain ⟨s', hs', hreads⟩ := ih ⟨hstep, hsaw, hsep.trans h.needsSeparator⟩
      (fun r' h' => hrs r' (List.mem_cons_of_mem _ h')) hopen hord
    refine ⟨s', ?_, by simpa using hreads⟩
    rw [scanLines, List.foldlM_cons, Scanner.line_lineOf hr s]
    exact hs'

/-- The lines of an epoch, from its boot record on. -/
theorem scanLines_epoch {s : Scanner V} {e : FileEpoch V} {older : List (Record V)} {lines : List (List UInt8)}
    (hboot : (Scanner.record { s with index := s.index + 1, sawNonblank := true } (.boot e.boot)).InEpoch older
      e.boot [])
    (hsep : s.replay.needsSeparator = false) (hord : InOrder e.records) (henc : Encodes json e.records lines) :
    ∃ s', scanLines json s lines = .ok s' ∧ s'.Reads older e.boot e.observationRecords := by
  obtain _ | ⟨hline, henc⟩ := henc
  have hframe := Scanner.record_frame { s with index := s.index + 1, sawNonblank := true } (.boot e.boot)
  obtain ⟨s', hs', hreads⟩ := Scanner.Reads.lines ⟨hboot, hframe.1, hframe.2.trans hsep⟩ e.observationRecords_live
    e.isSample_head hord henc
  exact ⟨s', scanLines_cons_eq_ok.2 ⟨_, Scanner.line_lineOf hline s, hs'⟩, hreads⟩

omit [F64 V] in
theorem committedRecords_sublist (es : List (FileEpoch V)) :
    (es.flatMap FileEpoch.committedRecords).Sublist (es.flatMap FileEpoch.records) := by
  induction es with
  | nil => exact .refl _
  | cons e es ih =>
    rw [List.flatMap_cons, List.flatMap_cons, e.committedRecords_eq]
    refine List.Sublist.append ?_ ih
    split
    · exact List.nil_sublist _
    · exact .refl _

omit [F64 V] in
theorem InOrder.append {l m : List (Record V)} :
    InOrder (l ++ m) ↔ InOrder l ∧ InOrder m ∧ ∀ r ∈ l, ∀ r' ∈ m, r.timestamp ≤ r'.timestamp := by
  simp [InOrder, List.pairwise_append]

omit [F64 V] in
theorem FileEpoch.exists_last (e : FileEpoch V) : ∃ init r, e.records = init ++ [r] ∧ r.timestamp = e.last := by
  rw [e.last_eq, FileEpoch.records]
  rcases List.eq_nil_or_concat e.observationRecords with h | ⟨init, r, h⟩
  · rw [h]
    exact ⟨[], _, rfl, rfl⟩
  · rw [h, List.concat_eq_append]
    exact ⟨.boot e.boot :: init, r, rfl, by simp⟩

omit [F64 V] in
/-- The last record of an intact file has the greatest timestamp. -/
theorem InOrder.le_last {es : List (FileEpoch V)} {live : FileEpoch V}
    (h : InOrder ((es ++ [live]).flatMap FileEpoch.records)) :
    ∀ r ∈ (es ++ [live]).flatMap FileEpoch.records, r.timestamp ≤ live.last := by
  obtain ⟨init, last, hlive, hlast⟩ := live.exists_last
  rw [List.flatMap_append, List.flatMap_singleton, hlive, ← List.append_assoc] at h ⊢
  intro r hr
  rcases List.mem_append.1 hr with hr | hr
  · exact hlast ▸ (InOrder.append.1 h).2.2 r hr last List.mem_cons_self
  · rw [List.mem_singleton.1 hr, hlast]

omit [F64 V] in
theorem FileEpoch.last_le_of_forall {e : FileEpoch V} {t : Nat} (h : ∀ r ∈ e.records, r.timestamp ≤ t) : e.last ≤ t := by
  rw [e.last_eq]
  cases hl : e.observationRecords.getLast? with
  | none => exact h _ List.mem_cons_self
  | some r => exact h _ (List.mem_cons_of_mem _ (List.mem_of_getLast? hl))

/-- What a scan of intact lines comes to. -/
theorem scanLines_intact {es : List (FileEpoch V)} {live : FileEpoch V} {lines : List (List UInt8)}
    (hord : InOrder ((es ++ [live]).flatMap FileEpoch.records))
    (henc : Encodes json ((es ++ [live]).flatMap FileEpoch.records) lines) :
    ∃ s, scanLines json {} lines = .ok s ∧
      s.Reads (es.flatMap FileEpoch.committedRecords) live.boot live.observationRecords := by
  induction es using List.reverseRecOn generalizing live lines with
  | nil =>
    simp only [List.nil_append, List.flatMap_singleton] at hord henc
    exact scanLines_epoch (Scanner.inEpoch_boot (Nat.zero_le _)) rfl hord henc
  | append_singleton es e ih =>
    rw [List.flatMap_append] at hord henc
    obtain ⟨hord, hlive, hle⟩ := InOrder.append.1 hord
    obtain ⟨ls, ls', rfl, henc, henc'⟩ := henc.append
    rw [List.flatMap_singleton] at hlive henc'
    obtain ⟨s, hs, hreads⟩ := ih hord henc
    have hlast : (e.observationRecords.getLast?.map Record.timestamp).getD e.boot.timestamp ≤ live.boot.timestamp := by
      rw [← e.last_eq]
      exact FileEpoch.last_le_of_forall fun r hr =>
        hle r (by simp [hr]) (.boot live.boot) (by simp [FileEpoch.records])
    have hin : Scanner.InEpoch { s with index := s.index + 1, sawNonblank := true }
        (es.flatMap FileEpoch.committedRecords) e.boot e.observationRecords :=
      ⟨hreads.inEpoch.state, hreads.inEpoch.committed, hreads.inEpoch.bound⟩
    have hboot := hin.boot hlast
    rw [← FileEpoch.records, ← e.committedRecords_eq] at hboot
    obtain ⟨s', hs', hreads'⟩ := scanLines_epoch hboot hreads.needsSeparator hlive henc'
    refine ⟨s', scanLines_append_eq_ok.2 ⟨s, hs, hs'⟩, ?_⟩
    rwa [List.flatMap_append, List.flatMap_singleton]

/-- A scan of an intact file. -/
theorem validateCanonical_intact {es : List (FileEpoch V)} {live : FileEpoch V} {lines : List (List UInt8)}
    (hord : InOrder ((es ++ [live]).flatMap FileEpoch.records))
    (henc : Encodes json ((es ++ [live]).flatMap FileEpoch.records) lines) :
    ∃ replay, validateCanonical json (joinLines 10 lines) = .ok replay ∧
      replay.records = (es ++ [live]).flatMap FileEpoch.committedRecords ∧
      replay.orderingBound = some live.last ∧ replay.needsSeparator = false := by
  obtain ⟨s, hs, hreads⟩ := scanLines_intact hord henc
  have hsplit : splitLines 10 (joinLines 10 lines) = (lines, []) := by
    rw [← List.append_nil (joinLines _ _)]
    exact splitLines_file henc.not_mem List.not_mem_nil
  have hrest : s.rest json [] = .ok s := rfl
  have hbound := hreads.inEpoch.bound
  rw [← live.last_eq] at hbound
  have hstate := hreads.inEpoch.state
  have hfinish : ∃ replay, s.finish = .ok replay ∧
      replay.records = (es ++ [live]).flatMap FileEpoch.committedRecords ∧
      replay.orderingBound = some live.last ∧ replay.needsSeparator = false := by
    rw [Scanner.finish, hreads.sawNonblank, if_pos rfl, List.flatMap_append, List.flatMap_singleton,
      live.committedRecords_eq]
    refine ⟨_, rfl, ?_⟩
    by_cases hnil : live.observationRecords = []
    · rw [if_pos hnil] at hstate ⊢
      rw [hstate, List.append_nil]
      exact ⟨(records_openGap _ _).trans hreads.inEpoch.committed, (openGap_orderingBound _ _).trans hbound,
        (needsSeparator_openGap _ _).trans hreads.needsSeparator⟩
    · rw [if_neg hnil] at hstate ⊢
      rw [hstate]
      exact ⟨congrArg (· ++ _) hreads.inEpoch.committed, hbound, hreads.needsSeparator⟩
  obtain ⟨replay, hfin, hrecords⟩ := hfinish
  refine ⟨replay, validateCanonical_eq_ok.2 ⟨s, s, ?_, ?_, hfin⟩, hrecords⟩
  · rw [hsplit]
    exact hs
  · rw [hsplit]
    exact hrest

/-! ### Compaction of an intact file -/

/-- A committed epoch is an epoch of a file. -/
def CommittedEpoch.toFile {V : Type} (e : CommittedEpoch V) : FileEpoch V where
  boot := e.boot
  observations := e.observations
  opens := by
    obtain ⟨o, os, hos, ho⟩ := e.opens
    rw [hos]
    intro o' ho'
    exact Option.some.inj ho' ▸ ho

omit [F64 V] in
theorem committed_toFile (e : CommittedEpoch V) : e.toFile.committed = [e] := by
  obtain ⟨boot, observations, o, os, rfl, ho⟩ := e
  rfl

theorem flatMap_committed_points (es : List (FileEpoch V)) :
    (es.flatMap FileEpoch.committed).flatMap CommittedEpoch.points = es.flatMap FileEpoch.points := by
  rw [List.flatMap_assoc]
  exact List.flatMap_congr fun e _ => e.committed_points

/-- What a compaction with the cutoff `c` leaves of the epochs `es` and `live`. -/
structure Compaction (es es' : List (FileEpoch V)) (live live' : FileEpoch V) (c : Nat) : Prop where
  boot : live'.boot = live.boot
  boots : ((es'.flatMap FileEpoch.committed).map (·.boot)).Sublist ((es.flatMap FileEpoch.committed).map (·.boot))
  stateAfter : stateAfter none live'.observations = stateAfter none live.observations
  points : (es'.flatMap FileEpoch.points).filter (c ≤ ·.t) = (es.flatMap FileEpoch.points).filter (c ≤ ·.t)
  livePoints : live'.points.filter (c ≤ ·.t) = live.points.filter (c ≤ ·.t)
  committed : live'.observations ≠ []
  whole : ∀ e ∈ es', e.committedRecords = e.records

theorem retained_intact {es : List (FileEpoch V)} {live : FileEpoch V}
    (hord : InOrder ((es ++ [live]).flatMap FileEpoch.committedRecords)) (hne : live.observations ≠ []) (c : Nat) :
    ∃ es' live', retainedCompactionRecords id ((es ++ [live]).flatMap FileEpoch.committedRecords) c
        live.boot.bootId true = (es' ++ [live']).flatMap FileEpoch.records ∧ Compaction es es' live live' c := by
  obtain ⟨l, hl, hboot, hos⟩ := FileEpoch.committed_of_ne_nil hne
  have hrecords : (es ++ [live]).flatMap FileEpoch.committedRecords =
      (es.flatMap FileEpoch.committed).flatMap CommittedEpoch.records ++ l.records := by
    rw [List.flatMap_append, List.flatMap_singleton, FileEpoch.committedRecords, hl, List.flatMap_singleton,
      List.flatMap_assoc]
    rfl
  rw [hrecords] at hord ⊢
  obtain ⟨hord, hlive, -⟩ := InOrder.append.1 hord
  obtain ⟨cs, hcs, hboots, hpoints⟩ := retained_records hord c live.boot.bootId true
  obtain ⟨hdead, -⟩ | ⟨l', hl', hkept⟩ := retainEpoch_records hlive c live.boot.bootId true
  · exact absurd (.inl ⟨rfl, congrArg _ hboot⟩) hdead
  have hsingle : retainedCompactionRecords id l.records c live.boot.bootId true = l'.records := by
    rw [← hl', ← List.flatMap_singleton CommittedEpoch.records l, retained_flatMap, List.flatMap_singleton,
      List.flatMap_singleton]
  refine ⟨cs.map CommittedEpoch.toFile, l'.toFile, ?_, ?_⟩
  · rw [retained_append (by rfl), hcs, hsingle, List.flatMap_append, List.flatMap_singleton, List.flatMap_map]
    rfl
  · have hcommitted : (cs.map CommittedEpoch.toFile).flatMap FileEpoch.committed = cs := by
      rw [List.flatMap_map]
      simp only [committed_toFile, List.flatMap_singleton']
    refine ⟨hkept.boot.trans hboot, ?_, ?_, ?_, ?_, ?_, ?_⟩
    · rw [hcommitted]
      exact hboots
    · exact hkept.stateAfter.trans (congrArg _ hos)
    · rw [List.flatMap_map, ← flatMap_committed_points]
      exact hpoints
    · have hl : l.points = live.points := congrArg _ hos
      rw [← hl]
      exact hkept.points
    · obtain ⟨o, os, hos', -⟩ := l'.opens
      exact fun hnil => List.cons_ne_nil o os (hos'.symm.trans hnil)
    · intro e he
      obtain ⟨c, -, rfl⟩ := List.mem_map.1 he
      rw [FileEpoch.committedRecords, committed_toFile, List.flatMap_singleton]
      rfl

omit [F64 V] in
theorem getLast?_filter_times {os : List (Observation V)} {o : Observation V} {c : Nat} (h : c ≤ o.t) :
    (((os ++ [o]).map (·.t)).filter (c ≤ ·)).getLast? = some o.t := by
  rw [List.map_append, List.filter_append, List.map_singleton, List.filter_cons_of_pos (by simpa using h),
    List.filter_nil]
  exact List.getLast?_concat

omit [F64 V] in
theorem FileEpoch.last_of_append {e : FileEpoch V} {os : List (Observation V)} {o : Observation V}
    (h : e.observations = os ++ [o]) : e.last = o.t := by
  rw [FileEpoch.last, h, List.getLast?_concat]
  rfl

omit [F64 V] in
theorem FileEpoch.inOrder_observations {e : FileEpoch V} (h : InOrder e.records) :
    (e.observations.map (·.t)).Pairwise (· ≤ ·) := by
  rw [InOrder, FileEpoch.records, FileEpoch.observationRecords, List.map_cons, List.map_map] at h
  have hmap : e.observations.map (Record.timestamp ∘ Observation.record e.boot.bootId) = e.observations.map (·.t) :=
    List.map_congr_left fun o _ => o.timestamp_record e.boot.bootId
  rw [hmap] at h
  exact (List.pairwise_cons.1 h).2

/-- The last observation stays if the cutoff is not after it. -/
theorem Compaction.last_eq {es es' : List (FileEpoch V)} {live live' : FileEpoch V} {c : Nat}
    (h : Compaction es es' live live' c) (hne : live.observations ≠ []) (hord : InOrder live'.records)
    (hc : c ≤ live.last) : live'.last = live.last := by
  have htimes : (live'.observations.map (·.t)).filter (c ≤ ·) = (live.observations.map (·.t)).filter (c ≤ ·) := by
    have := congrArg (List.map (·.t)) h.livePoints
    rw [← pointsFrom_t none, ← pointsFrom_t none, List.filter_map, List.filter_map]
    exact this
  have hos := (List.dropLast_append_getLast hne).symm
  have hos' := (List.dropLast_append_getLast h.committed).symm
  generalize live.observations.dropLast = os, live.observations.getLast hne = o at hos
  generalize live'.observations.dropLast = os', live'.observations.getLast h.committed = o' at hos'
  rw [FileEpoch.last_of_append hos] at hc ⊢
  rw [FileEpoch.last_of_append hos']
  rw [hos, hos'] at htimes
  have hlast : (((os ++ [o]).map (·.t)).filter (c ≤ ·)).getLast? = some o.t := getLast?_filter_times hc
  rw [← htimes] at hlast
  -- the last observation is still there, so what ends the epoch now is at or after the cutoff as well
  have hle : o.t ≤ o'.t := by
    have hmem := (List.mem_filter.1 (List.mem_of_getLast? hlast)).1
    have hsorted := FileEpoch.inOrder_observations hord
    rw [hos', List.map_append, List.pairwise_append] at hsorted
    rw [List.map_append] at hmem
    rcases List.mem_append.1 hmem with hmem | hmem
    · exact hsorted.2.2 _ hmem _ List.mem_cons_self
    · exact (List.mem_singleton.1 hmem).le
  rw [getLast?_filter_times (hc.trans hle)] at hlast
  exact Option.some.inj hlast

end

end OpenProxy
