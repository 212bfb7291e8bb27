import OpenProxy.Accounting

/-!
# A second scan (`append_recovery_separator`, `validate_canonical` of `history/store.rs`)

Opening a file excludes its unterminated rest and then ends it: with a delimiter if it is not blank, with the
text of the boot record otherwise. The next scan meets the rest as a line. It judges it as the first scan did,
unless the line is a record that the scanner takes; `EndsIn` says when it does in terms of the lines alone.
-/

namespace OpenProxy

open Lines

section
variable {V : Type} [F64 V]

/-- The timestamps the lines hold the following ones to. -/
def times (json : SerdeJson V) (lines : List (List UInt8)) : List Nat := lines.filterMap (lineTimestamp json)

/-- The lines end in an epoch: a boot record, then the records of its process, a sample first. -/
inductive EndsIn (json : SerdeJson V) : List (List UInt8) → BootRecord → List (Record V) → Prop where
  | boot {lines : List (List UInt8)} {line : List UInt8} {boot : BootRecord} (nonblank : isBlank line = false)
      (decode : decodeRecord json line = .ok (.boot boot)) (inTime : ∀ t ∈ times json lines, t ≤ boot.timestamp) :
      EndsIn json (lines ++ [line]) boot []
  | record {lines : List (List UInt8)} {line : List UInt8} {boot : BootRecord} {records : List (Record V)}
      {r : Record V} (epoch : EndsIn json lines boot records) (nonblank : isBlank line = false)
      (decode : decodeRecord json line = .ok r) (isBoot : r.isBoot = false) (bootId : r.bootId = boot.bootId)
      (opens : records = [] → r.isSample = true) (inTime : ∀ t ∈ times json lines, t ≤ r.timestamp) :
      EndsIn json (lines ++ [line]) boot (records ++ [r])
  | blank {lines : List (List UInt8)} {line : List UInt8} {boot : BootRecord} {records : List (Record V)}
      (epoch : EndsIn json lines boot records) (blank : isBlank line = true) :
      EndsIn json (lines ++ [line]) boot records

/-- What the last of the lines is to the epoch they end in. -/
theorem endsIn_concat {json : SerdeJson V} {lines : List (List UInt8)} {line : List UInt8} {boot : BootRecord}
    {records : List (Record V)} (h : EndsIn json (lines ++ [line]) boot records) :
    (isBlank line = true ∧ EndsIn json lines boot records) ∨
    (isBlank line = false ∧ decodeRecord json line = .ok (.boot boot) ∧
      (∀ t ∈ times json lines, t ≤ boot.timestamp) ∧ records = []) ∨
    (isBlank line = false ∧ ∃ init r, records = init ++ [r] ∧ EndsIn json lines boot init ∧
      decodeRecord json line = .ok r ∧ r.isBoot = false ∧ r.bootId = boot.bootId ∧
      (init = [] → r.isSample = true) ∧ ∀ t ∈ times json lines, t ≤ r.timestamp) := by
  generalize hl : lines ++ [line] = ls at h
  cases h with
  | boot nonblank decode inTime =>
    obtain ⟨rfl, hline⟩ := List.append_inj' hl rfl
    obtain rfl := List.singleton_inj.1 hline
    exact .inr (.inl ⟨nonblank, decode, inTime, rfl⟩)
  | record epoch nonblank decode isBoot bootId opens inTime =>
    obtain ⟨rfl, hline⟩ := List.append_inj' hl rfl
    obtain rfl := List.singleton_inj.1 hline
    exact .inr (.inr ⟨nonblank, _, _, rfl, epoch, decode, isBoot, bootId, opens, inTime⟩)
  | blank epoch blank =>
    obtain ⟨rfl, hline⟩ := List.append_inj' hl rfl
    obtain rfl := List.singleton_inj.1 hline
    exact .inl ⟨blank, epoch⟩

/-! ### The candidate epoch is the one the lines end in -/

theorem times_le_iff {json : SerdeJson V} {lines : List (List UInt8)} {s : Scanner V}
    (h : scanLines json {} lines = .ok s) {b : Nat} :
    (∀ t ∈ times json lines, t ≤ b) ↔ s.replay.orderingBound.getD 0 ≤ b := by
  have hstart : ({} : Scanner V).replay.orderingBound.any (b < ·) = false := rfl
  rw [← Scanner.not_any_lt, any_orderingBound_scanLines h, hstart, Bool.false_or, times, List.any_eq_false]
  simp only [decide_eq_true_eq, not_lt]

namespace Scanner

/-- The state in the epoch of `boot` after `records`. -/
def stateIn (boot : BootRecord) (records : List (Record V)) : ScannerState V :=
  if records = [] then .awaitSample ⟨boot.bootId, boot.timestamp, [.boot boot]⟩
  else .usable ⟨boot.bootId, boot.timestamp, .boot boot :: records⟩

omit [F64 V] in
theorem candidate_stateIn {s : Scanner V} {boot : BootRecord} {records : List (Record V)}
    (h : s.state = stateIn boot records) :
    s.candidate = some ⟨boot.bootId, boot.timestamp, .boot boot :: records⟩ := by
  rw [candidate, h, stateIn]
  by_cases hnil : records = []
  · rw [if_pos hnil, hnil]
  · rw [if_neg hnil]

omit [F64 V] in
theorem stateIn_inj {boot boot' : BootRecord} {records records' : List (Record V)}
    (h : stateIn boot records = stateIn boot' records') : boot = boot' ∧ records = records' := by
  have hc : Scanner.candidate ({ state := stateIn boot records } : Scanner V) =
      Scanner.candidate ({ state := stateIn boot' records' } : Scanner V) := by rw [h]
  rw [candidate_stateIn rfl, candidate_stateIn rfl] at hc
  simp only [Option.some.injEq, Epoch.mk.injEq, List.cons.injEq, Record.boot.injEq] at hc
  exact hc.2.2

omit [F64 V] in
theorem continues_iff {s : Scanner V} {boot : BootRecord} {records : List (Record V)} {r : Record V}
    (h : s.state = stateIn boot records) :
    s.Continues r ↔ r.bootId = boot.bootId ∧ (records = [] → r.isSample = true) := by
  rw [Continues, candidate_stateIn h, h, stateIn]
  constructor
  · rintro ⟨epoch, he, hid, hsample⟩
    obtain rfl := Option.some.inj he
    refine ⟨hid.symm, fun hnil => hsample ?_⟩
    rw [if_pos hnil, hnil]
  · rintro ⟨hid, hsample⟩
    refine ⟨_, rfl, hid.symm, fun hstate => ?_⟩
    by_cases hnil : records = []
    · exact hsample hnil
    · rw [if_neg hnil] at hstate
      cases hstate

omit [F64 V] in
theorem exists_stateIn {s : Scanner V} {epoch : Epoch V} (h : IsEpoch s.state) (hc : s.candidate = some epoch) :
    ∃ boot records, s.state = stateIn boot records := by
  rw [candidate] at hc
  cases hs : s.state with
  | awaitBoot | invalidEpoch =>
    rw [hs] at hc
    cases hc
  | awaitSample e =>
    rw [hs] at h
    obtain ⟨boot, rfl⟩ := h
    exact ⟨boot, [], rfl⟩
  | usable e =>
    rw [hs] at h
    obtain ⟨⟨boot, os, o, rest, rfl, hsome⟩, rfl⟩ := h
    exact ⟨boot, (o :: rest).map (Observation.record boot.bootId), rfl⟩

omit [F64 V] in
theorem record_not_takes {s : Scanner V} {r : Record V} (h : ¬ s.Takes r) :
    s.record r = s.damaged (some r.timestamp) := by
  rcases record_cases s r with ⟨-, hs⟩ | ⟨b, rfl, hle, -⟩ | ⟨hr, hle, hcont, -⟩
  · exact hs
  · exact absurd ⟨hle, .inl rfl⟩ h
  · exact absurd ⟨hle, .inr hcont⟩ h

omit [F64 V] in
theorem state_damaged (s : Scanner V) (t : Option Nat) : (s.damaged t).state = .invalidEpoch :=
  (lost_damaged s t).state

omit [F64 V] in
theorem invalidEpoch_ne_stateIn (boot : BootRecord) (records : List (Record V)) :
    ScannerState.invalidEpoch ≠ stateIn boot records := by
  intro h
  rw [stateIn] at h
  split at h <;> cases h

omit [F64 V] in
/-- The epoch the scanner stands in after a record. -/
theorem state_record_iff {s : Scanner V} (h : IsEpoch s.state) (r : Record V) (boot : BootRecord)
    (records : List (Record V)) : (s.record r).state = stateIn boot records ↔
      s.Takes r ∧ ((r = .boot boot ∧ records = []) ∨
        (r.isBoot = false ∧ ∃ init, records = init ++ [r] ∧ s.state = stateIn boot init)) := by
  rcases record_cases s r with ⟨hnot, hs⟩ | ⟨b, rfl, hle, hs⟩ | ⟨hr, hle, hcont, epoch, hc, hs⟩
  · rw [hs, state_damaged]
    exact ⟨fun h => absurd h (invalidEpoch_ne_stateIn boot records), fun h => absurd h.1 hnot⟩
  · have hstate : (s.record (.boot b)).state = stateIn b [] := by
      rw [hs]
      rfl
    rw [hstate]
    constructor
    · intro hb
      obtain ⟨rfl, rfl⟩ := stateIn_inj hb
      exact ⟨⟨hle, .inl rfl⟩, .inl ⟨rfl, rfl⟩⟩
    · rintro ⟨-, ⟨hb, rfl⟩ | ⟨hr, -⟩⟩
      · rw [Record.boot.inj hb]
      · cases hr
  · obtain ⟨b, rs, hstate⟩ := exists_stateIn h hc
    rw [candidate_stateIn hstate] at hc
    obtain rfl := Option.some.inj hc
    have hpush : (s.record r).state = stateIn b (rs ++ [r]) := by
      rw [hs, stateIn, if_neg (List.append_ne_nil_of_right_ne_nil _ (List.cons_ne_nil _ _))]
      rfl
    rw [hpush, hstate]
    constructor
    · intro hb
      obtain ⟨rfl, rfl⟩ := stateIn_inj hb
      exact ⟨⟨hle, .inr hcont⟩, .inr ⟨hr, rs, rfl, rfl⟩⟩
    · rintro ⟨-, ⟨rfl, -⟩ | ⟨-, init, rfl, hb⟩⟩
      · cases hr
      · obtain ⟨rfl, rfl⟩ := stateIn_inj hb
        rfl

end Scanner

/-- The same of the lines. -/
theorem endsIn_concat_iff {json : SerdeJson V} {lines : List (List UInt8)} {s : Scanner V}
    (hlines : scanLines json {} lines = .ok s)
    (hstate : ∀ boot records, s.state = Scanner.stateIn boot records ↔ EndsIn json lines boot records)
    {line : List UInt8} {r : Record V} (hb : isBlank line = false) (hd : decodeRecord json line = .ok r)
    (boot : BootRecord) (records : List (Record V)) : EndsIn json (lines ++ [line]) boot records ↔
      s.Takes r ∧ ((r = .boot boot ∧ records = []) ∨
        (r.isBoot = false ∧ ∃ init, records = init ++ [r] ∧ s.state = Scanner.stateIn boot init)) := by
  constructor
  · intro he
    rcases endsIn_concat he with ⟨hb', -⟩ | ⟨-, hd', htime, hnil⟩ | ⟨-, init, r', rfl, he', hd', hr, hid, hopens, htime⟩
    · rw [hb] at hb'
      cases hb'
    · obtain rfl : r = .boot boot := Except.ok.inj (hd.symm.trans hd')
      exact ⟨⟨(times_le_iff hlines).1 htime, .inl rfl⟩, .inl ⟨rfl, hnil⟩⟩
    · obtain rfl : r = r' := Except.ok.inj (hd.symm.trans hd')
      have hs := (hstate boot init).2 he'
      exact ⟨⟨(times_le_iff hlines).1 htime, .inr ((Scanner.continues_iff hs).2 ⟨hid, hopens⟩)⟩,
        .inr ⟨hr, init, rfl, hs⟩⟩
  · rintro ⟨⟨hle, htakes⟩, ⟨rfl, rfl⟩ | ⟨hr, init, rfl, hs⟩⟩
    · exact .boot hb hd ((times_le_iff hlines).2 hle)
    · rcases htakes with hboot | hcont
      · rw [hr] at hboot
        cases hboot
      · obtain ⟨hid, hopens⟩ := (Scanner.continues_iff hs).1 hcont
        exact .record ((hstate boot init).1 hs) hb hd hr hid hopens ((times_le_iff hlines).2 hle)

/-- The scanner stands in an epoch exactly when the lines end in it. -/
theorem state_iff_endsIn {json : SerdeJson V} {lines : List (List UInt8)} {s : Scanner V}
    (h : scanLines json {} lines = .ok s) (boot : BootRecord) (records : List (Record V)) :
    s.state = Scanner.stateIn boot records ↔ EndsIn json lines boot records := by
  induction lines using List.reverseRecOn generalizing s boot records with
  | nil =>
    obtain rfl := Except.ok.inj h
    constructor
    · intro hs
      rw [Scanner.stateIn] at hs
      split at hs <;> cases hs
    · intro he
      generalize hl : ([] : List (List UInt8)) = ls at he
      cases he <;> simp at hl
  | append_singleton lines line ih =>
    obtain ⟨s₁, hlines, hlast⟩ := scanLines_append_eq_ok.1 h
    obtain ⟨s', hline, hs'⟩ := scanLines_cons_eq_ok.1 hlast
    obtain rfl := Except.ok.inj hs'
    have hepoch := (Scanner.accounts_start.scanLines hlines).candidate
    rcases Scanner.line_cases json s₁ line with ⟨hb, hs⟩ | ⟨-, -, e, hs⟩ | ⟨hb, -, hs⟩
    · rw [hline] at hs
      obtain rfl := Except.ok.inj hs
      refine (ih hlines boot records).trans ⟨fun he => he.blank hb, fun he => ?_⟩
      rcases endsIn_concat he with ⟨-, he⟩ | ⟨hb', -⟩ | ⟨hb', -⟩
      · exact he
      · rw [hb] at hb'
        cases hb'
      · rw [hb] at hb'
        cases hb'
    · rw [hline] at hs
      cases hs
    · rw [hline] at hs
      obtain rfl := Except.ok.inj hs
      cases hd : decodeRecord json line with
      | error e =>
        dsimp only
        rw [Scanner.state_damaged]
        refine ⟨fun hs => absurd hs (Scanner.invalidEpoch_ne_stateIn boot records), fun he => ?_⟩
        rcases endsIn_concat he with ⟨hb', -⟩ | ⟨-, hd', -⟩ | ⟨-, _, _, -, -, hd', -⟩
        · rw [hb] at hb'
          cases hb'
        · rw [hd] at hd'
          cases hd'
        · rw [hd] at hd'
          cases hd'
      | ok r =>
        rw [endsIn_concat_iff hlines (ih hlines) hb hd]
        exact Scanner.state_record_iff (s := { s₁ with index := s₁.index + 1, sawNonblank := true }) hepoch r boot records

end

/-! ### Gaps as lists -/

/-- `open_gap` on the list. -/
def openGaps (t : Nat) (gaps : List RecoveryGap) : List RecoveryGap :=
  (({ gaps := gaps } : Replay Unit).openGap t).gaps

/-- `close_open_gap` on the list. -/
def closeGaps (t : Nat) (gaps : List RecoveryGap) : List RecoveryGap := (Replay.closeFirst t gaps.reverse).reverse

theorem openGaps_of_open {init : List RecoveryGap} {gap : RecoveryGap} (h : gap.isOpen) (t : Nat) :
    openGaps t (init ++ [gap]) = init ++ [{ gap with «from» := min gap.from t }] := by
  have h : gap.«to» = maxU64 := h
  simp [openGaps, Replay.openGap, h]

theorem openGaps_of_closed {init : List RecoveryGap} {gap : RecoveryGap} (h : ¬ gap.isOpen) (t : Nat) :
    openGaps t (init ++ [gap]) = init ++ [gap, ⟨t, maxU64⟩] := by
  have h : ¬ gap.«to» = maxU64 := h
  simp [openGaps, Replay.openGap, h]

theorem closeGaps_of_open {init : List RecoveryGap} {gap : RecoveryGap} (h : gap.isOpen) (t : Nat) :
    closeGaps t (init ++ [gap]) = init ++ [{ gap with «to» := t }] := by
  have h : gap.«to» = maxU64 := h
  simp [closeGaps, Replay.closeFirst, h]

/-- A gap that is closed and opened again at one timestamp is two, unless that timestamp closes nothing. -/
theorem split_gap {init : List RecoveryGap} {gap : RecoveryGap} (h : gap.isOpen) (t u : Nat) :
    closeGaps u (openGaps t (closeGaps t (init ++ [gap]))) =
      if t = maxU64 then init ++ [⟨min gap.from t, u⟩] else init ++ [⟨gap.from, t⟩, ⟨t, u⟩] := by
  rw [closeGaps_of_open h]
  by_cases ht : t = maxU64
  · have hopen : ({ gap with «to» := t } : RecoveryGap).isOpen := ht
    have hopen' : (⟨min gap.from t, t⟩ : RecoveryGap).isOpen := ht
    rw [if_pos ht, openGaps_of_open hopen]
    exact closeGaps_of_open hopen' u
  · have hclosed : ¬ ({ gap with «to» := t } : RecoveryGap).isOpen := ht
    rw [if_neg ht, openGaps_of_closed hclosed, List.append_cons]
    have hopen : (⟨t, maxU64⟩ : RecoveryGap).isOpen := rfl
    rw [closeGaps_of_open hopen, List.append_assoc]
    rfl

theorem split_gap_iff {init : List RecoveryGap} {gap : RecoveryGap} (h : gap.isOpen) (t u : Nat) :
    closeGaps u (openGaps t (closeGaps t (init ++ [gap]))) = init ++ [⟨min gap.from t, u⟩] ↔ t = maxU64 := by
  rw [split_gap h]
  by_cases ht : t = maxU64
  · rw [if_pos ht]
    exact ⟨fun _ => ht, fun _ => rfl⟩
  · rw [if_neg ht]
    refine ⟨fun heq => ?_, fun h => absurd h ht⟩
    have := congrArg List.length heq
    simp at this

/-- The gap of a lost epoch ends the list. -/
theorem exists_openGaps (t : Nat) (gaps : List RecoveryGap) :
    ∃ init gap, openGaps t gaps = init ++ [gap] ∧ gap.isOpen ∧ gap.from ≤ t := by
  rcases gaps_openGap ({ gaps := gaps } : Replay Unit) t with ⟨-, hg⟩ | ⟨init, gap, -, hopen, hg⟩
  · exact ⟨_, _, hg, rfl, le_rfl⟩
  · exact ⟨init, _, hg, hopen, min_le_right _ _⟩

section
variable {V : Type}

theorem gaps_openGap_eq (replay : Replay V) (t : Nat) : (replay.openGap t).gaps = openGaps t replay.gaps := by
  unfold openGaps Replay.openGap
  dsimp only
  split
  · split <;> rfl
  · rfl

/-- What a scan decides about the lines before a boot record at `t`. -/
def Replay.verdict (replay : Replay V) (t : Nat) : List (Record V) × Nat × List RecoveryGap :=
  (replay.records, replay.excludedRecords, closeGaps t replay.gaps)

namespace Scanner

/-- Where the gap of a damaged line starts. -/
def lostFrom (s : Scanner V) (timestamp : Option Nat) : Nat :=
  s.candidate.elim ((timestamp.or s.replay.orderingBound).getD 0) Epoch.from

theorem verdict_damaged (s : Scanner V) (timestamp : Option Nat) (t : Nat) :
    (s.damaged timestamp).decided.verdict t = (s.replay.records,
      s.replay.excludedRecords + s.candidateRecords.length + 1,
      closeGaps t (openGaps (s.lostFrom timestamp) s.replay.gaps)) := by
  have hinvalidate : ∀ (s : Scanner V) (at' : Nat), (s.invalidate at').decided.verdict t = (s.replay.records,
      s.replay.excludedRecords + s.candidateRecords.length + 1,
      closeGaps t (openGaps (s.candidate.elim at' Epoch.from) s.replay.gaps)) := by
    intro s at'
    rcases invalidate_cases s at' with ⟨epoch, hc, hs⟩ | ⟨hc, hs⟩
    · rw [hs, excludeEpoch_eq, candidateRecords, hc, gaps_openGap_eq]
      rfl
    · rw [hs, excludeRecord_eq, candidateRecords, hc, gaps_openGap_eq]
      rfl
  cases timestamp with
  | none => exact hinvalidate s _
  | some timestamp => exact hinvalidate (s.advance timestamp) timestamp

theorem records_damaged (s : Scanner V) (timestamp : Option Nat) :
    (s.damaged timestamp).replay.records = s.replay.records := by
  have hdecided : (s.damaged timestamp).decided = (s.damaged timestamp).replay := by
    rw [decided, (lost_damaged s timestamp).state]
  rw [← hdecided]
  exact (Prod.mk.inj (verdict_damaged s timestamp 0)).1

theorem decided_advance (s : Scanner V) (t : Nat) : (s.advance t).decided =
    { s.decided with orderingBound := (s.replay.advanceOrderingBound t).orderingBound } := by
  unfold decided advance
  dsimp only
  cases s.state with
  | awaitSample epoch =>
    dsimp only
    rw [excludeEpoch_eq, excludeEpoch_eq, gaps_openGap_eq, gaps_openGap_eq]
    rfl
  | usable epoch | awaitBoot | invalidEpoch => rfl

theorem verdict_startBoot (s : Scanner V) (boot : BootRecord) (t : Nat) :
    ((s.advance boot.timestamp).startBoot boot).decided.verdict t = (s.decided.records,
      s.decided.excludedRecords + 1, closeGaps t (openGaps boot.timestamp (closeGaps boot.timestamp s.decided.gaps))) := by
  have hdecided : ((s.advance boot.timestamp).startBoot boot).decided =
      ((s.advance boot.timestamp).decided.closeOpenGap boot.timestamp).excludeEpoch
        ⟨boot.bootId, boot.timestamp, [.boot boot]⟩ false := rfl
  rw [hdecided, excludeEpoch_eq, gaps_openGap_eq, decided_advance]
  rfl

/-- A boot record and its first sample after what has been scanned. -/
theorem verdict_reopened {s s₁ : Scanner V} {boot : BootRecord} {sample : SampleRecord V}
    (hle : s.replay.orderingBound.getD 0 ≤ boot.timestamp) (hid : sample.bootId = boot.bootId)
    (ht : boot.timestamp ≤ sample.timestamp) (hstate : s₁.state = (s.record (.boot boot)).state)
    (hreplay : s₁.replay = (s.record (.boot boot)).replay) :
    (s₁.record (.sample sample)).decided.records = s.decided.records ++ [.boot boot, .sample sample] ∧
      (s₁.record (.sample sample)).decided.excludedRecords = s.decided.excludedRecords ∧
      (s₁.record (.sample sample)).decided.gaps = closeGaps boot.timestamp s.decided.gaps := by
  have hboot : s.record (.boot boot) = (s.advance boot.timestamp).startBoot boot := by
    rcases record_cases s (.boot boot) with ⟨hnot, -⟩ | ⟨b, hb, -, hs⟩ | ⟨hr, -⟩
    · exact absurd ⟨hle, .inl rfl⟩ hnot
    · rw [hs, Record.boot.inj hb]
    · cases hr
  rw [hboot] at hstate hreplay
  have hbound : s₁.replay.orderingBound = some boot.timestamp := by
    rw [hreplay]
    exact (orderingBound_startBoot _ _).trans (orderingBound_advance hle)
  have hc : s₁.candidate = some ⟨boot.bootId, boot.timestamp, [.boot boot]⟩ := by
    rw [candidate, hstate]
    rfl
  have hstart : s₁.replay = (s.advance boot.timestamp).decided.closeOpenGap boot.timestamp := hreplay
  rw [decided_advance] at hstart
  rcases record_cases s₁ (.sample sample) with ⟨hnot, -⟩ | ⟨b, hb, -⟩ | ⟨-, -, -, epoch, hc', hs⟩
  · refine absurd ⟨?_, .inr ⟨_, hc, hid.symm, fun _ => rfl⟩⟩ hnot
    rw [hbound]
    exact ht
  · cases hb
  · obtain rfl := Option.some.inj (hc.symm.trans hc')
    rw [hs]
    refine ⟨?_, ?_, ?_⟩
    · show s₁.replay.records ++ _ = _
      rw [hstart]
      rfl
    · show s₁.replay.excludedRecords = _
      rw [hstart]
      rfl
    · show s₁.replay.gaps = _
      rw [hstart]
      rfl

/-- How the scanner can stand without a candidate epoch: at the start of the file, or in an open gap. -/
structure Stands (s : Scanner V) (blank : Prop) : Prop where
  awaitBoot : s.state = .awaitBoot ↔ blank
  start : blank → s.replay = {}
  lost : s.state = .invalidEpoch → s.replay.HasOpenGap

variable [F64 V] {json : SerdeJson V}

theorem stands_line {s s' : Scanner V} {blank : Prop} {line : List UInt8} (h : s.Stands blank)
    (hs : s.line json line = .ok s') : s'.Stands (blank ∧ isBlank line = true) := by
  rcases line_cases json s line with ⟨hb, hl⟩ | ⟨-, -, e, hl⟩ | ⟨hb, -, hl⟩
  · rw [hs] at hl
    obtain rfl := Except.ok.inj hl
    exact ⟨h.awaitBoot.trans (by simp [hb]), fun hblank => h.start hblank.1, h.lost⟩
  · rw [hs] at hl
    cases hl
  rw [hs] at hl
  obtain rfl := Except.ok.inj hl
  have hnot : ¬ (blank ∧ isBlank line = true) := fun h => by
    rw [hb] at h
    cases h.2
  have hdamaged : ∀ (s : Scanner V) (t : Option Nat), (s.damaged t).Stands (blank ∧ isBlank line = true) := by
    intro s t
    refine ⟨?_, fun h => absurd h hnot, fun _ => (lost_damaged s t).gap⟩
    rw [state_damaged]
    exact ⟨fun h => (by cases h), fun h => absurd h hnot⟩
  cases decodeRecord json line with
  | error e => exact hdamaged _ _
  | ok r =>
    dsimp only
    rcases record_cases { s with index := s.index + 1, sawNonblank := true } r with
      ⟨-, hr⟩ | ⟨boot, -, -, hr⟩ | ⟨-, -, -, epoch, -, hr⟩
    · rw [hr]
      exact hdamaged _ _
    · rw [hr]
      exact ⟨⟨fun h => (by cases h), fun h => absurd h hnot⟩, fun h => absurd h hnot, fun h => (by cases h)⟩
    · rw [hr]
      exact ⟨⟨fun h => (by cases h), fun h => absurd h hnot⟩, fun h => absurd h hnot, fun h => (by cases h)⟩

theorem stands_scanLines {s s' : Scanner V} {blank : Prop} {lines : List (List UInt8)} (h : s.Stands blank)
    (hs : scanLines json s lines = .ok s') : s'.Stands (blank ∧ ∀ line ∈ lines, isBlank line = true) := by
  induction lines generalizing s blank with
  | nil =>
    obtain rfl := Except.ok.inj hs
    simpa using h
  | cons line lines ih =>
    obtain ⟨s₁, hline, hlines⟩ := scanLines_cons_eq_ok.1 hs
    have := ih (stands_line h hline) hlines
    simpa [and_assoc] using this

omit [F64 V] in
theorem stands_start : ({} : Scanner V).Stands True :=
  ⟨⟨fun _ => trivial, fun _ => rfl⟩, fun _ => rfl, fun h => by cases h⟩

theorem needsSeparator_line {s s' : Scanner V} {line : List UInt8} (hs : s.line json line = .ok s') :
    s'.replay.needsSeparator = s.replay.needsSeparator := by
  rcases line_cases json s line with ⟨-, hl⟩ | ⟨-, -, e, hl⟩ | ⟨-, -, hl⟩
  · rw [hs] at hl
    obtain rfl := Except.ok.inj hl
    rfl
  · rw [hs] at hl
    cases hl
  · rw [hs] at hl
    obtain rfl := Except.ok.inj hl
    cases decodeRecord json line with
    | ok r => exact (record_frame _ r).2
    | error e =>
      have hinvalidate : ∀ (s : Scanner V) (t : Nat), (s.invalidate t).replay.needsSeparator = s.replay.needsSeparator := by
        intro s t
        unfold invalidate
        split <;> exact needsSeparator_openGap _ _
      cases ht : json.timestamp line with
      | none => exact hinvalidate _ _
      | some t => exact hinvalidate _ _

theorem needsSeparator_scanLines {s s' : Scanner V} {lines : List (List UInt8)} (hs : scanLines json s lines = .ok s') :
    s'.replay.needsSeparator = s.replay.needsSeparator := by
  induction lines generalizing s with
  | nil =>
    obtain rfl := Except.ok.inj hs
    rfl
  | cons line lines ih =>
    obtain ⟨s₁, hline, hlines⟩ := scanLines_cons_eq_ok.1 hs
    exact (ih hlines).trans (needsSeparator_line hline)

omit [F64 V] in
/-- A boot record taken from the rest leaves the verdict as it is only at the start of the file, or at `u64::MAX` when
nothing is committed by it. -/
theorem verdict_boot_iff {s : Scanner V} {n : Nat} {blank : Prop} (hacc : s.Accounts n) (hstands : s.Stands blank)
    {boot : BootRecord} (hle : s.replay.orderingBound.getD 0 ≤ boot.timestamp) (t : Nat) :
    ((s.advance boot.timestamp).startBoot boot).decided.verdict t =
        (s.damaged (some boot.timestamp)).decided.verdict t ↔
      blank ∨ (boot.timestamp = maxU64 ∧ ∀ boot' records', s.state = stateIn boot' records' → records' = []) := by
  rw [verdict_startBoot, verdict_damaged]
  cases hs : s.state with
  | awaitBoot =>
    have hblank := hstands.awaitBoot.1 hs
    have hdecided : s.decided = s.replay := by rw [decided, hs]
    have hc : s.candidate = none := by rw [candidate, hs]
    rw [hdecided, hstands.start hblank, lostFrom, candidateRecords, hc]
    exact ⟨fun _ => .inl hblank, fun _ => rfl⟩
  | invalidEpoch =>
    have hblank : ¬ blank := fun h => by
      rw [hstands.awaitBoot.2 h] at hs
      cases hs
    have hdecided : s.decided = s.replay := by rw [decided, hs]
    have hc : s.candidate = none := by rw [candidate, hs]
    obtain ⟨init, gap, hgaps, hopen⟩ := hacc.gaps.exists_concat (hstands.lost hs)
    have hlost : closeGaps t (openGaps boot.timestamp (init ++ [gap])) =
        init ++ [⟨min gap.from boot.timestamp, t⟩] := by
      have hmin : RecoveryGap.isOpen { gap with «from» := min gap.from boot.timestamp } := hopen
      rw [openGaps_of_open hopen]
      exact closeGaps_of_open hmin t
    rw [hdecided, lostFrom, candidateRecords, hc, hgaps, or_iff_right hblank]
    simp only [Option.elim_none, Option.some_or, Option.getD_some, List.length_nil, Nat.add_zero, Prod.mk.injEq,
      true_and, hlost]
    rw [split_gap_iff hopen]
    exact ⟨fun h => ⟨h, fun boot' records' h' => absurd h' (invalidEpoch_ne_stateIn _ _)⟩, fun h => h.1⟩
  | awaitSample epoch =>
    have hblank : ¬ blank := fun h => by
      rw [hstands.awaitBoot.2 h] at hs
      cases hs
    obtain ⟨b, rfl⟩ : ∃ b : BootRecord, epoch = ⟨b.bootId, b.timestamp, [.boot b]⟩ := by
      have := hacc.candidate
      rw [hs] at this
      exact this
    have hc : s.candidate = some ⟨b.bootId, b.timestamp, [.boot b]⟩ := by rw [candidate, hs]
    have hb : b.timestamp ≤ boot.timestamp := by
      refine (hacc.bound (.boot b) (List.mem_append_right _ ?_)).trans hle
      rw [candidateRecords, hc]
      exact List.mem_cons_self
    have hdecided : s.decided = s.replay.excludeEpoch ⟨b.bootId, b.timestamp, [.boot b]⟩ false := by rw [decided, hs]
    obtain ⟨init, gap, hgaps, hopen, hfrom⟩ := exists_openGaps b.timestamp s.replay.gaps
    have hlost : closeGaps t (init ++ [gap]) = init ++ [⟨min gap.from boot.timestamp, t⟩] := by
      rw [closeGaps_of_open hopen, min_eq_left (hfrom.trans hb)]
    rw [hdecided, excludeEpoch_eq, gaps_openGap_eq, lostFrom, candidateRecords, hc, hgaps, or_iff_right hblank]
    simp only [Option.elim_some, Bool.toNat_false, Nat.add_zero, Prod.mk.injEq, true_and, hgaps, hlost]
    rw [split_gap_iff hopen]
    refine ⟨fun h => ⟨h, fun boot' records' h' => ?_⟩, fun h => h.1⟩
    have hempty : stateIn b [] = stateIn boot' records' := h'
    exact (stateIn_inj hempty).2.symm
  | usable epoch =>
    have hblank : ¬ blank := fun h => by
      rw [hstands.awaitBoot.2 h] at hs
      cases hs
    have hc : s.candidate = some epoch := by rw [candidate, hs]
    obtain ⟨b, rs, hstate⟩ := exists_stateIn hacc.candidate hc
    have hne : rs ≠ [] := fun hnil => by
      rw [hs, stateIn, if_pos hnil] at hstate
      cases hstate
    have hdecided : s.decided.records = s.replay.records ++ epoch.records := by rw [decided, hs]; rfl
    have hrecords : epoch.records = .boot b :: rs := by
      rw [candidate_stateIn hstate] at hc
      rw [← Option.some.inj hc]
    rw [or_iff_right hblank, hdecided, hrecords]
    constructor
    · intro h
      have := (Prod.mk.inj h).1
      simp at this
    · rintro ⟨-, h⟩
      exact absurd (h b rs (hs ▸ hstate)) hne

end Scanner
/-! ### The second scan -/

variable [F64 V] {json : SerdeJson V}

/-- The rest of the file, as a line of its own, is taken into an epoch; a boot record that starts one is of account
when something stands before it. -/
def TailTaken (json : SerdeJson V) (lines : List (List UInt8)) (rest : List UInt8) : Prop :=
  ∃ boot records, EndsIn json (lines ++ [rest]) boot records ∧
    (records = [] → (∃ line ∈ lines, isBlank line = false) ∧
      (boot.timestamp = maxU64 → ∃ boot' records', EndsIn json lines boot' records' ∧ records' ≠ []))

/-- The file is terminated, or its rest is neither blank nor taken. -/
def KeepsVerdict (json : SerdeJson V) (bytes : List UInt8) : Prop :=
  (splitLines 10 bytes).2 = [] ∨
    (isBlank (splitLines 10 bytes).2 = false ∧ ¬ TailTaken json (splitLines 10 bytes).1 (splitLines 10 bytes).2)

/-- The scan of `after` decides about the records of `bytes` what their own scan did, with `gaps` closed, and
commits the new epoch. -/
def VerdictKept (json : SerdeJson V) (bytes after : List UInt8) (boot : BootRecord) (sample : Record V)
    (gaps : List RecoveryGap) : Prop :=
  ∃ replay replay', validateCanonical json bytes = .ok replay ∧ validateCanonical json after = .ok replay' ∧
    replay'.records = replay.records ++ [.boot boot, sample] ∧
    replay'.excludedRecords = replay.excludedRecords ∧ replay'.gaps = gaps

theorem validateCanonical_joinLines {lines : List (List UInt8)} {replay : Replay V} (h : ∀ line ∈ lines, 10 ∉ line) :
    validateCanonical json (joinLines 10 lines) = .ok replay ↔
      ∃ s, scanLines json {} lines = .ok s ∧ s.sawNonblank = true ∧ s.decided = replay := by
  have hsplit : splitLines 10 (joinLines 10 lines) = (lines, []) := by
    rw [← List.append_nil (joinLines _ _)]
    exact splitLines_file h List.not_mem_nil
  rw [validateCanonical_eq_ok, hsplit]
  constructor
  · rintro ⟨s, s', hs, hrest, hfin⟩
    obtain rfl : s = s' := Except.ok.inj hrest
    exact ⟨s, hs, Scanner.finish_eq_ok.1 hfin⟩
  · rintro ⟨s, hs, hfin⟩
    exact ⟨s, s, hs, rfl, Scanner.finish_eq_ok.2 hfin⟩

/-- The rest as a line is judged as the rest was, unless it is taken. -/
theorem verdict_line_iff {lines : List (List UInt8)} {rest : List UInt8} {s t : Scanner V}
    (hlines : scanLines json {} lines = .ok s) (hline : s.line json rest = .ok t) (hnon : isBlank rest = false)
    (htrusted : ∀ r, decodeRecord json rest = .ok r → json.timestamp rest = some r.timestamp) (b : Nat) :
    t.decided.verdict b = (s.damaged (json.timestamp rest)).decided.verdict b ↔ ¬ TailTaken json lines rest := by
  have hacc := Scanner.accounts_start.scanLines hlines
  have hstands := Scanner.stands_scanLines Scanner.stands_start hlines
  have hends : ∀ boot records, t.state = Scanner.stateIn boot records ↔ EndsIn json (lines ++ [rest]) boot records :=
    state_iff_endsIn (scanLines_append_eq_ok.2 ⟨s, hlines, scanLines_cons_eq_ok.2 ⟨t, hline, rfl⟩⟩)
  have hlost : t.state = .invalidEpoch → ¬ TailTaken json lines rest := by
    rintro hstate ⟨boot, records, hin, -⟩
    rw [← hends, hstate] at hin
    exact Scanner.invalidEpoch_ne_stateIn _ _ hin
  rcases Scanner.line_cases json s rest with ⟨hb, -⟩ | ⟨-, -, e, hs⟩ | ⟨-, -, hs⟩
  · rw [hnon] at hb
    cases hb
  · rw [hline] at hs
    cases hs
  rw [hline] at hs
  have hs := Except.ok.inj hs
  cases hd : decodeRecord json rest with
  | error e =>
    rw [hd] at hs
    dsimp only at hs
    refine iff_of_true ?_ (hlost ?_)
    · rw [hs, Scanner.verdict_damaged, Scanner.verdict_damaged]
      rfl
    · rw [hs]
      exact Scanner.state_damaged _ _
  | ok r =>
    rw [hd] at hs
    dsimp only at hs
    rw [htrusted r hd]
    rcases Scanner.record_cases { s with index := s.index + 1, sawNonblank := true } r with
      ⟨-, hr⟩ | ⟨boot, rfl, hle, hr⟩ | ⟨hr, hle, hcont, epoch, hc, hpush⟩
    · rw [hr] at hs
      refine iff_of_true ?_ (hlost ?_)
      · rw [hs, Scanner.verdict_damaged, Scanner.verdict_damaged]
        rfl
      · rw [hs]
        exact Scanner.state_damaged _ _
    · rw [hr] at hs
      have hstate : t.state = Scanner.stateIn boot [] := by
        rw [hs]
        rfl
      have hverdict : t.decided.verdict b = ((s.advance boot.timestamp).startBoot boot).decided.verdict b := by
        rw [hs]
        rfl
      rw [hverdict, Record.timestamp, Scanner.verdict_boot_iff hacc hstands hle, TailTaken]
      simp only [← hends, ← state_iff_endsIn hlines, hstate]
      constructor
      · rintro hkept ⟨boot', records', hin, htaken⟩
        obtain ⟨rfl, rfl⟩ := Scanner.stateIn_inj hin
        obtain ⟨⟨line, hmem, hline⟩, hmax⟩ := htaken rfl
        rcases hkept with ⟨-, hblank⟩ | ⟨ht, hnil⟩
        · rw [hblank line hmem] at hline
          cases hline
        · obtain ⟨boot', records', hin', hne⟩ := hmax ht
          exact hne (hnil boot' records' hin')
      · intro hnot
        by_contra hkept
        simp only [true_and, not_or, not_and, not_forall, Bool.not_eq_true] at hkept
        obtain ⟨⟨line, hmem, hline⟩, hmax⟩ := hkept
        refine hnot ⟨boot, [], rfl, fun _ => ⟨⟨line, hmem, hline⟩, fun ht => ?_⟩⟩
        obtain ⟨boot', records', hin', hne⟩ := hmax ht
        exact ⟨boot', records', hin', hne⟩
    · refine iff_of_false ?_ (not_not_intro ?_)
      · rw [Scanner.verdict_damaged, hs, hpush]
        intro heq
        have hrecords : s.replay.records ++ (epoch.records ++ [r]) = s.replay.records := (Prod.mk.inj heq).1
        simp at hrecords
      · obtain ⟨boot, records, hstate⟩ := Scanner.exists_stateIn hacc.candidate hc
        have hin := (Scanner.state_record_iff (s := { s with index := s.index + 1, sawNonblank := true })
          hacc.candidate r boot (records ++ [r])).2 ⟨⟨hle, .inr hcont⟩, .inr ⟨hr, records, rfl, hstate⟩⟩
        rw [← hs, hends] at hin
        exact ⟨boot, _, hin, fun hnil => by simp at hnil⟩

section
variable {boot : BootRecord} {sample : SampleRecord V} {line line' : List UInt8}

/-- After lines that leave the scanner at `s`, the new epoch is committed and what the lines leave open is decided. -/
theorem scan_reopened {lines : List (List UInt8)} {s : Scanner V} (hlines : ∀ line ∈ lines, 10 ∉ line)
    (hs : scanLines json {} lines = .ok s) (hle : s.replay.orderingBound.getD 0 ≤ boot.timestamp)
    (hid : sample.bootId = boot.bootId) (ht : boot.timestamp ≤ sample.timestamp) (hone : 10 ∉ line)
    (hnon : isBlank line = false) (hdecode : decodeRecord json line = .ok (.boot boot))
    (hline' : LineOf json [] (.sample sample) line') :
    ∃ replay, validateCanonical json (joinLines 10 (lines ++ [line, line'])) = .ok replay ∧
      replay.records = s.decided.records ++ [.boot boot, .sample sample] ∧
      replay.excludedRecords = s.decided.excludedRecords ∧ replay.gaps = closeGaps boot.timestamp s.decided.gaps := by
  obtain ⟨s₁, hs₁⟩ : ∃ s₁, s₁ = Scanner.record { s with index := s.index + 1, sawNonblank := true } (.boot boot) :=
    ⟨_, rfl⟩
  have hboot : s.line json line = .ok s₁ := by
    rw [Scanner.line, hnon, hdecode, hs₁]
    rfl
  have hsample := Scanner.line_lineOf hline' s₁
  obtain ⟨s', hs'⟩ : ∃ s' : Scanner V, s' = { s₁ with index := s₁.index + 1, sawNonblank := true } := ⟨_, rfl⟩
  have hverdict := Scanner.verdict_reopened (s := { s with index := s.index + 1, sawNonblank := true }) hle hid ht
    (show s'.state = _ by rw [hs', hs₁]) (show s'.replay = _ by rw [hs', hs₁])
  subst hs'
  refine ⟨_, (validateCanonical_joinLines ?_).2 ⟨_, scanLines_append_eq_ok.2 ⟨s, hs,
    scanLines_cons_eq_ok.2 ⟨_, hboot, scanLines_cons_eq_ok.2 ⟨_, hsample, rfl⟩⟩⟩, ?_, rfl⟩, hverdict⟩
  · intro l hl
    rcases List.mem_append.1 hl with hl | hl
    · exact hlines l hl
    · rcases List.mem_cons.1 hl with rfl | hl
      · exact hone
      · rw [List.mem_singleton.1 hl]
        exact hline'.oneLine
  · exact (Scanner.record_frame _ _).1

/-- So the verdict is kept when they leave it as the first scan did. -/
theorem verdictKept_iff {bytes : List UInt8} {replay : Replay V} {lines : List (List UInt8)} {s : Scanner V}
    (hbytes : validateCanonical json bytes = .ok replay) (hlines : ∀ line ∈ lines, 10 ∉ line)
    (hs : scanLines json {} lines = .ok s) (hle : s.replay.orderingBound.getD 0 ≤ boot.timestamp)
    (hid : sample.bootId = boot.bootId) (ht : boot.timestamp ≤ sample.timestamp) (hone : 10 ∉ line)
    (hnon : isBlank line = false) (hdecode : decodeRecord json line = .ok (.boot boot))
    (hline' : LineOf json [] (.sample sample) line') :
    VerdictKept json bytes (joinLines 10 (lines ++ [line, line'])) boot (.sample sample)
      (closeGaps boot.timestamp replay.gaps) ↔ s.decided.verdict boot.timestamp = replay.verdict boot.timestamp := by
  obtain ⟨after, hafter, hrecords, hexcluded, hgaps⟩ :=
    scan_reopened hlines hs hle hid ht hone hnon hdecode hline'
  simp only [VerdictKept, hbytes, hafter, Except.ok.injEq, exists_and_left, exists_eq_left', hrecords, hexcluded,
    hgaps, List.append_cancel_right_eq, Replay.verdict, Prod.mk.injEq]

omit [F64 V] in
/-- The next line is a record like any other when the scanner has lost the epoch. -/
theorem records_lost {s : Scanner V} (hs : s.state = .invalidEpoch) (r : SampleRecord V) :
    (s.record (.sample r)).decided.records = s.replay.records := by
  have hnot : ¬ s.Takes (.sample r) := by
    rintro ⟨-, h | ⟨epoch, hc, -⟩⟩
    · cases h
    · rw [Scanner.candidate, hs] at hc
      cases hc
  rw [Scanner.record_not_takes hnot]
  exact (Prod.mk.inj (Scanner.verdict_damaged s (some r.timestamp) 0)).1

omit [F64 V] in
theorem excludedRecords_decided_le (s : Scanner V) :
    s.decided.excludedRecords ≤ s.replay.excludedRecords + s.candidateRecords.length := by
  unfold Scanner.decided Scanner.candidateRecords Scanner.candidate
  cases s.state with
  | awaitSample epoch =>
    dsimp only
    rw [excludeEpoch_eq]
    exact le_rfl
  | usable epoch | awaitBoot | invalidEpoch => exact Nat.le_add_right _ _

/-- A blank rest is lost: either it is no line of its own, or the boot record is lost with it. -/
theorem not_verdictKept_blank {bytes : List UInt8} {replay : Replay V} {lines : List (List UInt8)} {rest : List UInt8}
    {s : Scanner V} (hbytes : validateCanonical json bytes = .ok replay)
    (hreplay : replay.verdict boot.timestamp = (s.damaged (json.timestamp rest)).decided.verdict boot.timestamp)
    (hlines : ∀ line ∈ lines, 10 ∉ line) (hs : scanLines json {} lines = .ok s)
    (hle : s.replay.orderingBound.getD 0 ≤ boot.timestamp) (hid : sample.bootId = boot.bootId)
    (ht : boot.timestamp ≤ sample.timestamp) (hrest : 10 ∉ rest) (hline : LineOf json rest (.boot boot) line)
    (hline' : LineOf json [] (.sample sample) line') (gaps : List RecoveryGap) :
    ¬ VerdictKept json bytes (joinLines 10 (lines ++ [rest ++ line, line'])) boot (.sample sample) gaps := by
  rintro ⟨replay₁, replay', hbytes', hafter, hrecords, hexcluded, -⟩
  obtain rfl := Except.ok.inj (hbytes.symm.trans hbytes')
  rw [Scanner.verdict_damaged, Replay.verdict, Prod.mk.injEq, Prod.mk.injEq] at hreplay
  have hnon : isBlank (rest ++ line) = false := by
    have := hline.nonblank
    unfold isBlank at this ⊢
    rw [List.all_append, this, Bool.and_false]
  have hone : 10 ∉ rest ++ line := fun h => (List.mem_append.1 h).elim hrest hline.oneLine
  rcases hline.decode with hd | ⟨-, hd⟩
  · obtain ⟨after, hafter', -, hexcluded', -⟩ := scan_reopened hlines hs hle hid ht hone hnon hd hline'
    obtain rfl := Except.ok.inj (hafter'.symm.trans hafter)
    have := excludedRecords_decided_le s
    omega
  · have hboot : s.line json (rest ++ line) =
        .ok ({ s with index := s.index + 1, sawNonblank := true }.damaged (json.timestamp (rest ++ line))) := by
      rw [Scanner.line, hnon, hd]
      rfl
    have hall : ∀ l ∈ lines ++ [rest ++ line, line'], 10 ∉ l := by
      intro l hl
      rcases List.mem_append.1 hl with hl | hl
      · exact hlines l hl
      · rcases List.mem_cons.1 hl with rfl | hl
        · exact hone
        · rw [List.mem_singleton.1 hl]
          exact hline'.oneLine
    obtain ⟨s₂, hs₂, -, hdecided⟩ := (validateCanonical_joinLines hall).1 hafter
    obtain ⟨s₀, hs₀, hs₂⟩ := scanLines_append_eq_ok.1 hs₂
    obtain rfl := Except.ok.inj (hs.symm.trans hs₀)
    obtain ⟨s₁, hs₁, hs₂⟩ := scanLines_cons_eq_ok.1 hs₂
    obtain rfl := Except.ok.inj (hboot.symm.trans hs₁)
    obtain ⟨s₃, hs₃, hs₂⟩ := scanLines_cons_eq_ok.1 hs₂
    obtain rfl := Except.ok.inj ((Scanner.line_lineOf hline' _).symm.trans hs₃)
    obtain rfl := Except.ok.inj hs₂
    rw [← hdecided, hreplay.1] at hrecords
    refine absurd (congrArg List.length (hrecords.symm.trans (records_lost ?_ sample))) ?_
    · exact Scanner.state_damaged _ _
    · show ¬ _ = List.length (Scanner.damaged _ _).replay.records
      rw [Scanner.records_damaged, List.length_append]
      simp

end

/-! ### Opening and appending -/

/-- What the first append leaves. -/
theorem appendSample_first_eq_ok [DecidableEq V] {w w' : Writer V} {timestamp : Nat} {capacity : Capacity}
    {state : List (StateEntry V)} (h : w.appendSample json timestamp capacity state none = (w', .ok ()))
    (hstate : w.store.lastState = none) :
    ∃ line, encodeRecord json (.sample ⟨timestamp, w.store.bootId, capacity, state⟩) = .ok line ∧
      w.store.lastTimestamp.getD 0 ≤ timestamp ∧ w'.disk = w.disk.append w.store.file (line ++ [10]) := by
  rw [Writer.appendSample, hstate] at h
  split at h
  · cases (Prod.mk.inj h).2
  rw [if_neg (by simp), Writer.write] at h
  split at h
  · cases (Prod.mk.inj h).2
  rename_i hlate
  rw [appendRecord] at h
  cases henc : encodeRecord json (.sample ⟨timestamp, w.store.bootId, capacity, state⟩) with
  | error e =>
    rw [henc] at h
    cases (Prod.mk.inj h).2
  | ok line =>
    rw [henc] at h
    obtain rfl := (Prod.mk.inj h).1
    exact ⟨line, rfl, Scanner.not_any_lt.1 (eq_false_of_ne_true hlate), rfl⟩

omit [F64 V] in
theorem needsSeparator_decided (s : Scanner V) : s.decided.needsSeparator = s.replay.needsSeparator := by
  unfold Scanner.decided
  cases s.state with
  | awaitSample epoch => exact needsSeparator_openGap _ _
  | usable epoch | awaitBoot | invalidEpoch => rfl

omit [F64 V] in
theorem needsSeparator_damaged (s : Scanner V) (t : Option Nat) :
    (s.damaged t).replay.needsSeparator = s.replay.needsSeparator := by
  have hinvalidate : ∀ (s : Scanner V) (t : Nat), (s.invalidate t).replay.needsSeparator = s.replay.needsSeparator := by
    intro s t
    unfold Scanner.invalidate
    split <;> exact needsSeparator_openGap _ _
  cases t with
  | none => exact hinvalidate _ _
  | some t => exact hinvalidate _ _

/-- What opening and the first append leave: the file, a separator if the first scan asks for one, and two lines. -/
theorem reopened_lines [DecidableEq V] {bytes : List UInt8} {boot : BootRecord} {w w' : Writer V} {timestamp : Nat}
    {capacity : Capacity} {state : List (StateEntry V)} (hopen : openExisting json bytes boot = .ok w)
    (happend : w.appendSample json timestamp capacity state none = (w', .ok ())) :
    ∃ replay line line', validateCanonical json bytes = .ok replay ∧
      replay.orderingBound.getD 0 ≤ boot.timestamp ∧ boot.timestamp ≤ timestamp ∧
      encodeRecord json (.boot boot) = .ok line ∧
      encodeRecord json (.sample ⟨timestamp, boot.bootId, capacity, state⟩) = .ok line' ∧
      w.store.replay.gaps = closeGaps boot.timestamp replay.gaps ∧
      w'.disk.read w'.disk.canonical =
        bytes ++ (if replay.needsSeparator then [10] else []) ++ line ++ [10] ++ (line' ++ [10]) := by
  obtain ⟨replay, line, hv, hle, hline, hdisk, hstore⟩ := openExisting_eq_ok hopen
  obtain ⟨line', hline', ht, hdisk'⟩ := appendSample_first_eq_ok happend (by rw [hstore])
  rw [hstore] at hline' ht hdisk'
  refine ⟨replay, line, line', hv, hle, ht, hline, hline', ?_, ?_⟩
  · rw [hstore]
    rfl
  · rw [hdisk', hdisk]
    rfl

/-- The lines leave no later bound than the whole file. -/
theorem orderingBound_rest_le {s s' : Scanner V} {rest : List UInt8} {t : Nat} (h : s.rest json rest = .ok s')
    (hle : s'.replay.orderingBound.getD 0 ≤ t) : s.replay.orderingBound.getD 0 ≤ t := by
  rw [← Scanner.not_any_lt, Scanner.any_orderingBound_rest h, Bool.or_eq_false_iff] at hle
  exact Scanner.not_any_lt.1 hle.1

/-- As a line of its own the rest has no later timestamp than as a rest. -/
theorem orderingBound_line_le {s s' s₁ : Scanner V} {rest : List UInt8} {t : Nat} (hne : rest ≠ [])
    (hb : isBlank rest = false)
    (htrusted : ∀ r, decodeRecord json rest = .ok r → json.timestamp rest = some r.timestamp)
    (hrest : s.rest json rest = .ok s') (hline : s.line json rest = .ok s₁)
    (hle : s'.replay.orderingBound.getD 0 ≤ t) : s₁.replay.orderingBound.getD 0 ≤ t := by
  have htime : lineTimestamp json rest = json.timestamp rest := by
    rw [lineTimestamp, hb, if_neg Bool.false_ne_true]
    cases hd : decodeRecord json rest with
    | error e => rfl
    | ok r => exact (htrusted r hd).symm
  rw [← Scanner.not_any_lt, Scanner.any_orderingBound_line hline, htime]
  rw [← Scanner.not_any_lt, Scanner.any_orderingBound_rest hrest] at hle
  cases hr : json.timestamp rest <;> simpa [hr, hne] using hle

/-- A rest that is a line of its own: the verdict is kept exactly when the scanner does not take it. -/
theorem verdictKept_line_iff {bytes : List UInt8} {replay : Replay V} {lines : List (List UInt8)}
    {rest line line' : List UInt8} {s s' : Scanner V} {boot : BootRecord} {sample : SampleRecord V}
    (hbytes : validateCanonical json bytes = .ok replay)
    (hreplay : replay.verdict boot.timestamp = (s.damaged (json.timestamp rest)).decided.verdict boot.timestamp)
    (hlines : ∀ line ∈ lines, 10 ∉ line) (hs : scanLines json {} lines = .ok s) (hrest : 10 ∉ rest) (hne : rest ≠ [])
    (hb : isBlank rest = false)
    (htrusted : ∀ r, decodeRecord json rest = .ok r → json.timestamp rest = some r.timestamp)
    (hscan : s.rest json rest = .ok s') (hle : s'.replay.orderingBound.getD 0 ≤ boot.timestamp)
    (hid : sample.bootId = boot.bootId) (ht : boot.timestamp ≤ sample.timestamp)
    (hline : LineOf json [] (.boot boot) line) (hline' : LineOf json [] (.sample sample) line') :
    VerdictKept json bytes (joinLines 10 ((lines ++ [rest]) ++ [line, line'])) boot (.sample sample)
      (closeGaps boot.timestamp replay.gaps) ↔ ¬ TailTaken json lines rest := by
  obtain ⟨t, htaken⟩ := Scanner.line_of_rest hscan
  have hscan' : scanLines json {} (lines ++ [rest]) = .ok t :=
    scanLines_append_eq_ok.2 ⟨s, hs, scanLines_cons_eq_ok.2 ⟨t, htaken, rfl⟩⟩
  have hall : ∀ line ∈ lines ++ [rest], 10 ∉ line := by
    intro l hl
    rcases List.mem_append.1 hl with hl | hl
    · exact hlines l hl
    · rw [List.mem_singleton.1 hl]
      exact hrest
  rw [verdictKept_iff hbytes hall hscan' (orderingBound_line_le hne hb htrusted hscan htaken hle) hid ht hline.oneLine
    hline.nonblank hline.decode_nil hline', hreplay, verdict_line_iff hs htaken hb htrusted]

/-- The next scan of what opening and the first append leave keeps the verdict exactly when the file is terminated, or
its rest is neither blank nor, as a line, taken. The new epoch has the sample as its line reads back. -/
theorem verdictKept_reopened_iff [DecidableEq V] {bytes : List UInt8} {boot : BootRecord} {w w' : Writer V}
    {timestamp : Nat} {capacity : Capacity} {state : List (StateEntry V)}
    (hopen : openExisting json bytes boot = .ok w)
    (happend : w.appendSample json timestamp capacity state none = (w', .ok ()))
    (hboot : json.Keeps [] (.boot boot))
    (hblank : isBlank (splitLines 10 bytes).2 = true → json.Keeps (splitLines 10 bytes).2 (.boot boot))
    (hsample : json.Rounds (.sample ⟨timestamp, boot.bootId, capacity, state⟩))
    (htrusted : ∀ r, decodeRecord json (splitLines 10 bytes).2 = .ok r →
      json.timestamp (splitLines 10 bytes).2 = some r.timestamp) :
    VerdictKept json bytes (w'.disk.read w'.disk.canonical) boot
      (readBack json (.sample ⟨timestamp, boot.bootId, capacity, state⟩)) w.store.replay.gaps ↔
        KeepsVerdict json bytes := by
  obtain ⟨replay, line, line', hv, hle, ht, hline, hline', hgaps, hread⟩ := reopened_lines hopen happend
  have hboot := lineOf_encode hboot hline
  obtain ⟨hsample, hround⟩ := lineOf_readBack hsample hline'
  obtain ⟨state', hback⟩ := hround.sample_eq
  rw [hback] at hsample ⊢
  obtain ⟨s, s', hlines, hrest, hfin⟩ := validateCanonical_eq_ok.1 hv
  have hnot := not_mem_splitLines (d := 10) bytes
  have hbytes := joinLines_splitLines (d := 10) bytes
  rw [hgaps, hread, KeepsVerdict]
  generalize splitLines 10 bytes = p at *
  obtain ⟨lines, rest⟩ := p
  dsimp only at *
  obtain ⟨-, hdecided⟩ := Scanner.finish_eq_ok.1 hfin
  have hbound' : s'.replay.orderingBound.getD 0 ≤ boot.timestamp := by
    rw [← Scanner.orderingBound_decided, hdecided]
    exact hle
  have hbound := orderingBound_rest_le hrest hbound'
  have hseparator : replay.needsSeparator = s'.replay.needsSeparator := by
    rw [← hdecided, needsSeparator_decided]
  have hsep : s.replay.needsSeparator = false := Scanner.needsSeparator_scanLines hlines
  rcases Scanner.rest_cases json s rest with ⟨rfl, hs⟩ | ⟨-, -, e, hs⟩ | ⟨hne, -, hs⟩
  · -- the file is terminated
    obtain rfl := Except.ok.inj (hs.symm.trans hrest)
    rw [hseparator, hsep, if_neg Bool.false_ne_true]
    have hfile : bytes ++ [] ++ line ++ [10] ++ (line' ++ [10]) = joinLines 10 (lines ++ [line, line']) := by
      rw [← hbytes]
      simp [joinLines]
    rw [hfile, verdictKept_iff hv hnot.1 hlines hbound rfl ht hboot.oneLine hboot.nonblank hboot.decode_nil hsample,
      hdecided]
    exact iff_of_true rfl (.inl rfl)
  · rw [hs] at hrest
    cases hrest
  obtain rfl := Except.ok.inj (hs.symm.trans hrest)
  have hverdict : replay.verdict boot.timestamp =
      (s.damaged (json.timestamp rest)).decided.verdict boot.timestamp := by
    rw [← hdecided, Scanner.verdict_damaged, Scanner.verdict_damaged]
    rfl
  rw [hseparator, needsSeparator_damaged, or_iff_right hne]
  cases hb : isBlank rest with
  | true =>
    -- the boot record goes on the rest
    have hfile : bytes ++ (if (!true) = true then [10] else []) ++ line ++ [10] ++ (line' ++ [10]) =
        joinLines 10 (lines ++ [rest ++ line, line']) := by
      rw [← hbytes]
      simp [joinLines]
    dsimp only
    rw [hfile]
    refine iff_of_false ?_ (fun h => by cases h.1)
    exact not_verdictKept_blank hv hverdict hnot.1 hlines hbound rfl ht hnot.2 (lineOf_encode (hblank hb) hline)
      hsample _
  | false =>
    -- the rest is a line of its own
    have hfile : bytes ++ (if (!false) = true then [10] else []) ++ line ++ [10] ++ (line' ++ [10]) =
        joinLines 10 ((lines ++ [rest]) ++ [line, line']) := by
      rw [← hbytes]
      simp [joinLines]
    dsimp only
    rw [hfile, verdictKept_line_iff hv hverdict hnot.1 hlines hnot.2 hne hb htrusted hs hbound' rfl ht hboot hsample]
    exact ⟨fun h => ⟨rfl, h⟩, fun h => h.2⟩

end

/-- The objects of two processes with a sample each. -/
def sampledTwice : List (RawRecord ℚ) :=
  twoProcesses 3 4 5 6 (.entries []) ++ [⟨format, version, "sample", 7, "b", ⟨40, 1, [40]⟩, .entries []⟩]

/-- The file of the first, with its checkpoint cut after `written` bytes. -/
def cutFile (written : Nat) : List UInt8 :=
  joinLines 10 ((sampledTwice.take 2).map (·.text.toUTF8.data.toList)) ++
    ((sampledTwice.drop 2).head?.elim [] (·.text.toUTF8.data.toList)).take written

/-- What the second process does. -/
def reopened (bytes : List UInt8) : Option (Writer ℚ × Writer ℚ) :=
  (openExisting (.table sampledTwice) bytes ⟨6, "b", ⟨40, 1, [40]⟩⟩).toOption.bind fun w =>
    match w.appendSample (.table sampledTwice) 7 ⟨40, 1, [40]⟩ [] none with
    | (w', .ok ()) => some (w, w')
    | _ => none

theorem of_reopened {bytes : List UInt8} {p : Writer ℚ × Writer ℚ} (h : reopened bytes = some p) :
    openExisting (.table sampledTwice) bytes ⟨6, "b", ⟨40, 1, [40]⟩⟩ = .ok p.1 ∧
      p.1.appendSample (.table sampledTwice) 7 ⟨40, 1, [40]⟩ [] none = (p.2, .ok ()) := by
  obtain ⟨w, hopen, h⟩ := Option.bind_eq_some_iff.1 h
  split at h
  · rename_i w' happend
    obtain rfl := Option.some.inj h
    exact ⟨toOption_eq_some hopen, happend⟩
  · cases h

theorem verdictKept_reopened_torn :
    ∃ w w', openExisting (.table sampledTwice) (cutFile 40) ⟨6, "b", ⟨40, 1, [40]⟩⟩ = .ok w ∧
      w.appendSample (.table sampledTwice) 7 ⟨40, 1, [40]⟩ [] none = (w', .ok ()) ∧
      VerdictKept (.table sampledTwice) (cutFile 40) (w'.disk.read w'.disk.canonical) ⟨6, "b", ⟨40, 1, [40]⟩⟩
        (.sample ⟨7, "b", ⟨40, 1, [40]⟩, []⟩) w.store.replay.gaps := by
  have hrun : (reopened (cutFile 40)).isSome = true := by decide +kernel
  have hrest : isBlank (splitLines 10 (cutFile 40)).2 = false := by decide +kernel
  have hdecode : decodeRecord (.table sampledTwice) (splitLines 10 (cutFile 40)).2 = .error .invalidJson := by
    decide +kernel
  obtain ⟨⟨w, w'⟩, hp⟩ := Option.isSome_iff_exists.1 hrun
  obtain ⟨hopen, happend⟩ := of_reopened hp
  refine ⟨w, w', hopen, happend, (verdictKept_reopened_iff hopen happend (by decide +kernel) ?_ (by decide +kernel)
    ?_).2 (.inr ⟨hrest, ?_⟩)⟩
  · intro hb
    rw [hrest] at hb
    cases hb
  · intro r hr
    rw [hdecode] at hr
    cases hr
  · rintro ⟨boot, records, hin, -⟩
    rcases endsIn_concat hin with ⟨hb, -⟩ | ⟨-, hd, -⟩ | ⟨-, _, _, -, -, hd, -⟩
    · rw [hrest] at hb
      cases hb
    · rw [hdecode] at hd
      cases hd
    · rw [hdecode] at hd
      cases hd

/-- Cut before its newline, the checkpoint is excluded with its epoch by the first scan and committed by the next. -/
theorem not_verdictKept_reopened_whole :
    ∃ w w' replay replay', openExisting (.table sampledTwice) (cutFile 1000) ⟨6, "b", ⟨40, 1, [40]⟩⟩ = .ok w ∧
      w.appendSample (.table sampledTwice) 7 ⟨40, 1, [40]⟩ [] none = (w', .ok ()) ∧
      validateCanonical (.table sampledTwice) (cutFile 1000) = .ok replay ∧
      replay.records.length = 0 ∧ replay.excludedRecords = 3 ∧ w.store.replay.gaps = [⟨3, 6⟩] ∧
      validateCanonical (.table sampledTwice) (w'.disk.read w'.disk.canonical) = .ok replay' ∧
      replay'.records.length = 5 ∧ replay'.excludedRecords = 0 ∧ replay'.gaps = [] ∧
      ¬ VerdictKept (.table sampledTwice) (cutFile 1000) (w'.disk.read w'.disk.canonical) ⟨6, "b", ⟨40, 1, [40]⟩⟩
        (.sample ⟨7, "b", ⟨40, 1, [40]⟩, []⟩) w.store.replay.gaps := by
  have hrun : ((reopened (cutFile 1000)).any fun p =>
      (validateCanonical (.table sampledTwice) (cutFile 1000)).toOption.any fun replay =>
        (validateCanonical (.table sampledTwice) (p.2.disk.read p.2.disk.canonical)).toOption.any fun replay' =>
          decide (replay.records.length = 0 ∧ replay.excludedRecords = 3 ∧ p.1.store.replay.gaps = [⟨3, 6⟩] ∧
            replay'.records.length = 5 ∧ replay'.excludedRecords = 0 ∧ replay'.gaps = [])) = true := by
    decide +kernel
  obtain ⟨⟨w, w'⟩, hp, hrun⟩ := (Option.any_eq_true ..).1 hrun
  obtain ⟨hopen, happend⟩ := of_reopened hp
  obtain ⟨replay, hv, hrun⟩ := (Option.any_eq_true ..).1 hrun
  obtain ⟨replay', hv', hrun⟩ := (Option.any_eq_true ..).1 hrun
  obtain ⟨hrecords, hexcluded, hgaps, hrecords', hexcluded', hgaps'⟩ := of_decide_eq_true hrun
  have hv := toOption_eq_some hv
  have hv' := toOption_eq_some hv'
  refine ⟨w, w', replay, replay', hopen, happend, hv, hrecords, hexcluded, hgaps, hv', hrecords', hexcluded', hgaps', ?_⟩
  rintro ⟨r, r', hr, hr', -, hcount, -⟩
  obtain rfl := Except.ok.inj (hv.symm.trans hr)
  obtain rfl := Except.ok.inj (hv'.symm.trans hr')
  omega

end OpenProxy
