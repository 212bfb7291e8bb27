import OpenProxy.Lib.Lines
import OpenProxy.Record

/-!
# Scanning the canonical file (`validate_canonical` of `history/store.rs`)

The scanner reads the file line by line and commits epochs: a boot record, a sample of the same process,
then its samples and checkpoints. Whatever else it meets invalidates the epoch it stands in, up to the
next boot record, and opens a recovery gap that this boot record closes. A gap that is still open ends
at `u64::MAX`.
-/

namespace OpenProxy

open Lines

def maxU64 : Nat := 2 ^ 64 - 1

structure RecoveryGap where
  «from» : Nat
  «to» : Nat
  deriving DecidableEq, Repr

/-- Of the diagnostics the scanner keeps, those the store looks at. -/
structure Replay (V : Type) where
  records : List (Record V) := []
  excludedEpochs : Nat := 0
  excludedRecords : Nat := 0
  gaps : List RecoveryGap := []
  orderingBound : Option Nat := none
  needsSeparator : Bool := false
  deriving DecidableEq

structure Epoch (V : Type) where
  bootId : String
  «from» : Nat
  records : List (Record V)
  deriving DecidableEq

inductive ScannerState (V : Type) where
  | awaitBoot
  | awaitSample (epoch : Epoch V)
  | usable (epoch : Epoch V)
  | invalidEpoch
  deriving DecidableEq

structure Scanner (V : Type) where
  state : ScannerState V := .awaitBoot
  replay : Replay V := {}
  /-- Lines read. -/
  index : Nat := 0
  sawNonblank : Bool := false
  deriving DecidableEq

inductive OpenError where
  | io
  | emptyCanonical
  | invalidCanonical (line : Nat) (error : DecodeError)
  | invalidStream (line : Nat) (reason : String)
  deriving DecidableEq, Repr

section
variable {V : Type}

namespace Replay

def excludeRecord (replay : Replay V) : Replay V := { replay with excludedRecords := replay.excludedRecords + 1 }

/-- `open_gap`: the last gap is extended while it is open. -/
def openGap (replay : Replay V) («from» : Nat) : Replay V :=
  match replay.gaps.getLast? with
  | some gap =>
    if gap.«to» = maxU64 then
      { replay with gaps := replay.gaps.dropLast ++ [{ gap with «from» := min gap.«from» «from» }] }
    else { replay with gaps := replay.gaps ++ [⟨«from», maxU64⟩] }
  | none => { replay with gaps := [⟨«from», maxU64⟩] }

/-- Set the end of the first open gap of the reversed list. -/
def closeFirst (timestamp : Nat) : List RecoveryGap → List RecoveryGap
  | [] => []
  | gap :: gaps =>
    if gap.«to» = maxU64 then { gap with «to» := timestamp } :: gaps else gap :: closeFirst timestamp gaps

def closeOpenGap (replay : Replay V) (timestamp : Nat) : Replay V :=
  { replay with gaps := (closeFirst timestamp replay.gaps.reverse).reverse }

def excludeEpoch (replay : Replay V) (epoch : Epoch V) (damaging : Bool) : Replay V :=
  let replay := { replay with
    excludedEpochs := replay.excludedEpochs + 1
    excludedRecords := replay.excludedRecords + epoch.records.length + damaging.toNat }
  replay.openGap epoch.from

def commitEpoch (replay : Replay V) (epoch : Epoch V) : Replay V :=
  { replay with records := replay.records ++ epoch.records }

def advanceOrderingBound (replay : Replay V) (timestamp : Nat) : Replay V :=
  { replay with orderingBound := some (max (replay.orderingBound.getD 0) timestamp) }

end Replay

def Epoch.push (epoch : Epoch V) (record : Record V) : Epoch V :=
  { epoch with records := epoch.records ++ [record] }

namespace Scanner

/-- `invalidate`: the epoch is lost, or one more record outside an epoch is. -/
def invalidate (s : Scanner V) («at» : Nat) : Scanner V :=
  match s.state with
  | .awaitSample epoch | .usable epoch =>
    { s with state := .invalidEpoch, replay := s.replay.excludeEpoch epoch true }
  | .awaitBoot | .invalidEpoch =>
    { s with state := .invalidEpoch, replay := s.replay.excludeRecord.openGap «at» }

def startBoot (s : Scanner V) (boot : BootRecord) : Scanner V :=
  let replay := match s.state with
    | .awaitSample epoch => s.replay.excludeEpoch epoch false
    | .usable epoch => s.replay.commitEpoch epoch
    | .awaitBoot | .invalidEpoch => s.replay
  { s with
    state := .awaitSample ⟨boot.bootId, boot.timestamp, [.boot boot]⟩
    replay := replay.closeOpenGap boot.timestamp }

/-- A sample or a checkpoint. -/
def ingestRecord (s : Scanner V) (record : Record V) : Scanner V :=
  match s.state, record with
  | .awaitSample epoch, .sample _ =>
    if epoch.bootId = record.bootId then { s with state := .usable (epoch.push record) }
    else s.invalidate record.timestamp
  | .usable epoch, _ =>
    if epoch.bootId = record.bootId then { s with state := .usable (epoch.push record) }
    else s.invalidate record.timestamp
  | _, _ => s.invalidate record.timestamp

def record (s : Scanner V) (record : Record V) : Scanner V :=
  if s.replay.orderingBound.any (record.timestamp < ·) then s.invalidate record.timestamp
  else
    let s := { s with replay := s.replay.advanceOrderingBound record.timestamp }
    match record with
    | .boot boot => s.startBoot boot
    | _ => s.ingestRecord record

/-- A line that is no record; `timestamp` is the one it can be trusted with. -/
def damaged (s : Scanner V) (timestamp : Option Nat) : Scanner V :=
  let replay := timestamp.elim s.replay s.replay.advanceOrderingBound
  { s with replay }.invalidate ((timestamp.or replay.orderingBound).getD 0)

end Scanner

variable [F64 V]

/-- The errors that refuse the whole file. -/
def DecodeError.unsupported : DecodeError → Bool
  | .unsupportedFormat | .unsupportedVersion => true
  | _ => false

namespace Scanner

/-- A terminated line. -/
def line (json : SerdeJson V) (s : Scanner V) (line : List UInt8) : Except OpenError (Scanner V) :=
  let s := { s with index := s.index + 1 }
  if isBlank line then .ok s
  else
    let s := { s with sawNonblank := true }
    match decodeRecord json line with
    | .ok r => .ok (s.record r)
    | .error error =>
      if error.unsupported then .error (.invalidCanonical s.index error)
      else .ok (s.damaged (json.timestamp line))

/-- The unterminated rest of the file. -/
def rest (json : SerdeJson V) (s : Scanner V) (rest : List UInt8) : Except OpenError (Scanner V) :=
  if rest.isEmpty then .ok s
  else
    let s := { s with index := s.index + 1, sawNonblank := s.sawNonblank || !isBlank rest }
    let damaged := { s with replay.needsSeparator := !isBlank rest }.damaged (json.timestamp rest)
    match decodeRecord json rest with
    | .ok _ => .ok damaged
    | .error error => if error.unsupported then .error (.invalidCanonical s.index error) else .ok damaged

def finish (s : Scanner V) : Except OpenError (Replay V) :=
  let replay := match s.state with
    | .usable epoch => s.replay.commitEpoch epoch
    | .awaitSample epoch => s.replay.excludeEpoch epoch false
    | .awaitBoot | .invalidEpoch => s.replay
  if s.sawNonblank then .ok replay else .error .emptyCanonical

end Scanner

def scanLines (json : SerdeJson V) (s : Scanner V) (lines : List (List UInt8)) : Except OpenError (Scanner V) :=
  lines.foldlM (Scanner.line json) s

/-- `validate_canonical`, from the bytes of the file. -/
def validateCanonical (json : SerdeJson V) (bytes : List UInt8) : Except OpenError (Replay V) := do
  let (lines, rest) := splitLines 10 bytes
  let s ← scanLines json {} lines
  let s ← s.rest json rest
  s.finish

end

/-! ### A lost epoch -/

section
variable {V : Type}

def Replay.HasOpenGap (replay : Replay V) : Prop := ∃ gap ∈ replay.gaps, gap.«to» = maxU64

theorem openGap_orderingBound (replay : Replay V) (t : Nat) :
    (replay.openGap t).orderingBound = replay.orderingBound := by
  unfold Replay.openGap
  split
  · split <;> rfl
  · rfl

theorem records_openGap (replay : Replay V) (t : Nat) : (replay.openGap t).records = replay.records := by
  unfold Replay.openGap
  split
  · split <;> rfl
  · rfl

theorem needsSeparator_openGap (replay : Replay V) (t : Nat) :
    (replay.openGap t).needsSeparator = replay.needsSeparator := by
  unfold Replay.openGap
  split
  · split <;> rfl
  · rfl

theorem hasOpenGap_openGap (replay : Replay V) (t : Nat) : (replay.openGap t).HasOpenGap := by
  unfold Replay.openGap
  split
  · split
    · rename_i h
      exact ⟨_, List.mem_append_right _ (List.mem_singleton.2 rfl), h⟩
    · exact ⟨_, List.mem_append_right _ (List.mem_singleton.2 rfl), rfl⟩
  · exact ⟨_, List.mem_singleton.2 rfl, rfl⟩

namespace Scanner

/-- The scanner waits for the next boot record, which will close the gap it has open. -/
structure Lost (s : Scanner V) : Prop where
  state : s.state = .invalidEpoch
  gap : s.replay.HasOpenGap

theorem lost_invalidate (s : Scanner V) (t : Nat) : (s.invalidate t).Lost := by
  unfold invalidate
  split <;> exact ⟨rfl, hasOpenGap_openGap _ _⟩

theorem lost_damaged (s : Scanner V) (t : Option Nat) : (s.damaged t).Lost := lost_invalidate _ _

theorem Lost.record {s : Scanner V} (h : s.Lost) {r : Record V} (hr : r.isBoot = false) : (s.record r).Lost := by
  unfold Scanner.record
  split
  · exact lost_invalidate _ _
  · cases r with
    | boot r => cases hr
    | sample r | checkpoint r =>
      simp only [ingestRecord, h.state]
      exact lost_invalidate _ _

/-- A record is neither blank nor unterminated. -/
theorem record_frame (s : Scanner V) (r : Record V) : (s.record r).sawNonblank = s.sawNonblank ∧
    (s.record r).replay.needsSeparator = s.replay.needsSeparator := by
  have hinvalidate : ∀ (s : Scanner V) (t : Nat), (s.invalidate t).sawNonblank = s.sawNonblank ∧
      (s.invalidate t).replay.needsSeparator = s.replay.needsSeparator := by
    intro s t
    unfold invalidate
    split <;> exact ⟨rfl, needsSeparator_openGap _ _⟩
  have hingest : ∀ s : Scanner V, (s.ingestRecord r).sawNonblank = s.sawNonblank ∧
      (s.ingestRecord r).replay.needsSeparator = s.replay.needsSeparator := by
    intro s
    unfold ingestRecord
    split
    · split
      · exact ⟨rfl, rfl⟩
      · exact hinvalidate _ _
    · split
      · exact ⟨rfl, rfl⟩
      · exact hinvalidate _ _
    · exact hinvalidate _ _
  unfold Scanner.record
  split
  · exact hinvalidate _ _
  cases r with
  | boot boot =>
    refine ⟨rfl, ?_⟩
    simp only [startBoot, Replay.closeOpenGap]
    cases s.state with
    | awaitSample epoch => exact needsSeparator_openGap _ _
    | usable epoch | awaitBoot | invalidEpoch => rfl
  | sample r | checkpoint r => exact hingest _

/-! ### A live epoch -/

/-- The scanner stands in the epoch of `boot` after `records`, with `older` committed before it. -/
structure InEpoch (s : Scanner V) (older : List (Record V)) (boot : BootRecord) (records : List (Record V)) : Prop where
  state : s.state =
    let epoch := ⟨boot.bootId, boot.timestamp, .boot boot :: records⟩
    if records = [] then .awaitSample epoch else .usable epoch
  committed : s.replay.records = older
  bound : s.replay.orderingBound = some ((records.getLast?.map Record.timestamp).getD boot.timestamp)

/-- In the epoch of `boot`, or lost. -/
def Tracks (s : Scanner V) (older : List (Record V)) (boot : BootRecord) (records : List (Record V)) : Prop :=
  s.InEpoch older boot records ∨ s.Lost

theorem not_any_lt {bound : Option Nat} {t : Nat} : bound.any (t < ·) = false ↔ bound.getD 0 ≤ t := by
  cases bound <;> simp

theorem orderingBound_advance {replay : Replay V} {t : Nat} (h : replay.orderingBound.getD 0 ≤ t) :
    (replay.advanceOrderingBound t).orderingBound = some t :=
  congrArg some (max_eq_right h)

theorem inEpoch_boot {s : Scanner V} {boot : BootRecord} (h : s.replay.orderingBound.getD 0 ≤ boot.timestamp) :
    (s.record (.boot boot)).InEpoch (s.record (.boot boot)).replay.records boot [] := by
  rw [Scanner.record, Record.timestamp, not_any_lt.2 h, if_neg Bool.false_ne_true]
  refine ⟨rfl, rfl, ?_⟩
  simp only [startBoot, Replay.closeOpenGap, List.getLast?_nil, Option.map_none, Option.getD_none]
  cases s.state with
  | awaitSample epoch => exact (openGap_orderingBound _ _).trans (orderingBound_advance h)
  | usable epoch | awaitBoot | invalidEpoch => exact orderingBound_advance h

/-- The next boot record commits the epoch, if it has an observation. -/
theorem InEpoch.boot {s : Scanner V} {older : List (Record V)} {boot : BootRecord} {records : List (Record V)}
    (h : s.InEpoch older boot records) {boot' : BootRecord}
    (ht : (records.getLast?.map Record.timestamp).getD boot.timestamp ≤ boot'.timestamp) :
    (s.record (.boot boot')).InEpoch (older ++ if records = [] then [] else .boot boot :: records) boot' [] := by
  have hle : s.replay.orderingBound.getD 0 ≤ boot'.timestamp := by
    rw [h.bound]
    exact ht
  have hrecords : (s.record (.boot boot')).replay.records =
      older ++ if records = [] then [] else .boot boot :: records := by
    have hstate := h.state
    rw [Scanner.record, Record.timestamp, not_any_lt.2 hle, if_neg Bool.false_ne_true]
    by_cases hnil : records = []
    · rw [if_pos hnil] at hstate
      simp only [startBoot, hstate, if_pos hnil, List.append_nil]
      exact (records_openGap _ _).trans h.committed
    · rw [if_neg hnil] at hstate
      simp only [startBoot, hstate, if_neg hnil]
      exact congrArg (· ++ _) h.committed
  have hboot := inEpoch_boot hle
  rwa [hrecords] at hboot

theorem tracks_boot (s : Scanner V) (boot : BootRecord) :
    (s.record (.boot boot)).Tracks (s.record (.boot boot)).replay.records boot [] := by
  by_cases h : s.replay.orderingBound.getD 0 ≤ boot.timestamp
  · exact .inl (inEpoch_boot h)
  · right
    rw [Scanner.record, Record.timestamp, eq_true_of_ne_false (mt not_any_lt.1 h), if_pos rfl]
    exact lost_invalidate _ _

/-- The first observation of an epoch has to be a sample. -/
theorem InEpoch.record {s : Scanner V} {older : List (Record V)} {boot : BootRecord} {records : List (Record V)}
    (h : s.InEpoch older boot records) {r : Record V} (hr : r.isBoot = false) (hid : r.bootId = boot.bootId)
    (ht : (records.getLast?.map Record.timestamp).getD boot.timestamp ≤ r.timestamp) :
    if records = [] ∧ r.isSample = false then (s.record r).Lost
    else (s.record r).InEpoch older boot (records ++ [r]) := by
  have hle : s.replay.orderingBound.getD 0 ≤ r.timestamp := by
    rw [h.bound]
    exact ht
  have hbound : (s.replay.advanceOrderingBound r.timestamp).orderingBound =
      some (((records ++ [r]).getLast?.map Record.timestamp).getD boot.timestamp) := by
    rw [orderingBound_advance hle]
    simp
  have hstate := h.state
  have hne : records ++ [r] ≠ [] := List.append_ne_nil_of_right_ne_nil _ (List.cons_ne_nil _ _)
  rw [Scanner.record, not_any_lt.2 hle, if_neg Bool.false_ne_true]
  by_cases hnil : records = []
  · subst hnil
    rw [if_pos rfl] at hstate
    cases r with
    | boot r => cases hr
    | checkpoint r =>
      rw [if_pos ⟨rfl, rfl⟩]
      simp only [ingestRecord, hstate]
      exact lost_invalidate _ _
    | sample r =>
      rw [if_neg (by simp [Record.isSample])]
      simp only [ingestRecord, hstate]
      rw [if_pos hid.symm]
      exact ⟨rfl, h.committed, hbound⟩
  · rw [if_neg hnil] at hstate
    rw [if_neg fun h' => hnil h'.1]
    have hcase : ({ s with replay := s.replay.advanceOrderingBound r.timestamp }.ingestRecord r).InEpoch older
        boot (records ++ [r]) := by
      simp only [ingestRecord, hstate]
      rw [if_pos hid.symm]
      refine ⟨?_, h.committed, hbound⟩
      rw [if_neg hne]
      rfl
    cases r with
    | boot r => cases hr
    | sample r | checkpoint r => exact hcase

theorem Tracks.record {s : Scanner V} {older : List (Record V)} {boot : BootRecord} {records : List (Record V)}
    (h : s.Tracks older boot records) {r : Record V} (hr : r.isBoot = false) (hid : r.bootId = boot.bootId)
    (ht : (records.getLast?.map Record.timestamp).getD boot.timestamp ≤ r.timestamp) :
    (s.record r).Tracks older boot (records ++ [r]) := by
  rcases h with h | h
  · have hstep := h.record hr hid ht
    split at hstep
    · exact .inr hstep
    · exact .inl hstep
  · exact .inr (h.record hr)

end Scanner

end

/-! ### Lines of a live epoch -/

def InOrder {V : Type} (records : List (Record V)) : Prop :=
  (records.map Record.timestamp).Pairwise (· ≤ ·)

theorem InOrder.last_le {V : Type} {boot : BootRecord} {records : List (Record V)} {r : Record V} {rs : List (Record V)}
    (h : InOrder (.boot boot :: (records ++ r :: rs))) :
    (records.getLast?.map Record.timestamp).getD boot.timestamp ≤ r.timestamp := by
  rw [InOrder, List.map_cons, List.pairwise_cons] at h
  obtain ⟨hboot, h⟩ := h
  cases hl : records.getLast? with
  | none => exact hboot _ (List.mem_map_of_mem (by simp))
  | some last =>
    rw [List.map_append, List.pairwise_append] at h
    exact h.2.2 _ (List.mem_map_of_mem (List.mem_of_getLast? hl)) _ (List.mem_map_of_mem List.mem_cons_self)

theorem InOrder.snoc {V : Type} {boot : BootRecord} {records : List (Record V)} {r : Record V}
    (h : InOrder (.boot boot :: records))
    (hr : (records.getLast?.map Record.timestamp).getD boot.timestamp ≤ r.timestamp) :
    InOrder (.boot boot :: (records ++ [r])) := by
  have hlast : ∀ t ∈ (Record.boot boot :: records).map Record.timestamp, t ≤ r.timestamp := by
    intro t ht
    refine le_trans ?_ hr
    rcases List.eq_nil_or_concat records with rfl | ⟨pre, last, rfl⟩
    · exact (List.mem_singleton.1 ht).le
    · rw [InOrder, List.concat_eq_append, ← List.cons_append, List.map_append, List.pairwise_append] at h
      rw [List.concat_eq_append, ← List.cons_append, List.map_append] at ht
      simp only [List.concat_eq_append, List.getLast?_append, List.getLast?_singleton, Option.some_or,
        Option.map_some, Option.getD_some]
      rcases List.mem_append.1 ht with ht | ht
      · exact h.2.2 t ht _ List.mem_cons_self
      · exact (List.mem_singleton.1 ht).le
  rw [InOrder, ← List.cons_append, List.map_append, List.pairwise_append]
  exact ⟨h, List.pairwise_singleton _ _, fun t ht t' ht' => (List.mem_singleton.1 ht') ▸ hlast t ht⟩

section
variable {V : Type} [F64 V] {json : SerdeJson V}

/-- The lines that read back as the records. -/
def Encodes (json : SerdeJson V) : List (Record V) → List (List UInt8) → Prop :=
  List.Forall₂ (LineOf json [])

theorem Encodes.not_mem {records : List (Record V)} {lines : List (List UInt8)}
    (h : Encodes json records lines) : ∀ line ∈ lines, 10 ∉ line := by
  induction h with
  | nil => intro line hl; cases hl
  | cons hr _ ih =>
    intro line hl
    rcases List.mem_cons.1 hl with rfl | hl
    · exact hr.oneLine
    · exact ih line hl

theorem Encodes.append {rs rs' : List (Record V)} {lines : List (List UInt8)} (h : Encodes json (rs ++ rs') lines) :
    ∃ ls ls', lines = ls ++ ls' ∧ Encodes json rs ls ∧ Encodes json rs' ls' := by
  induction rs generalizing lines with
  | nil => exact ⟨[], lines, rfl, .nil, h⟩
  | cons r rs ih =>
    obtain _ | ⟨hline, h⟩ := h
    obtain ⟨ls, ls', rfl, henc, henc'⟩ := ih h
    exact ⟨_ :: ls, ls', rfl, .cons hline henc, henc'⟩

theorem scanLines_append_eq_ok {s t : Scanner V} {lines lines' : List (List UInt8)} :
    scanLines json s (lines ++ lines') = .ok t ↔
      ∃ s', scanLines json s lines = .ok s' ∧ scanLines json s' lines' = .ok t := by
  rw [scanLines, List.foldlM_append, bind_eq_ok]
  rfl

theorem scanLines_cons_eq_ok {s t : Scanner V} {line : List UInt8} {lines : List (List UInt8)} :
    scanLines json s (line :: lines) = .ok t ↔ ∃ s', s.line json line = .ok s' ∧ scanLines json s' lines = .ok t := by
  rw [scanLines, List.foldlM_cons, bind_eq_ok]
  rfl

theorem splitLines_file {lines : List (List UInt8)} {torn : List UInt8} (hlines : ∀ line ∈ lines, 10 ∉ line)
    (htorn : 10 ∉ torn) : splitLines 10 (joinLines 10 lines ++ torn) = (lines, torn) := by
  rw [splitLines_joinLines hlines, splitLines_rest htorn, List.append_nil]

theorem validateCanonical_eq_ok {bytes : List UInt8} {replay : Replay V} :
    validateCanonical json bytes = .ok replay ↔ ∃ s s', scanLines json {} (splitLines 10 bytes).1 = .ok s ∧
      s.rest json (splitLines 10 bytes).2 = .ok s' ∧ s'.finish = .ok replay := by
  simp only [validateCanonical, bind_eq_ok, exists_and_left]

namespace Scanner

theorem line_lineOf {r : Record V} {line : List UInt8} (h : LineOf json [] r line) (s : Scanner V) :
    s.line json line = .ok ({ s with index := s.index + 1, sawNonblank := true }.record r) := by
  rw [Scanner.line, h.nonblank, h.decode_nil]
  rfl

/-- An unterminated rest that does not refuse the file does not as a line either. -/
theorem line_of_rest {s s' : Scanner V} {rest : List UInt8} (h : s.rest json rest = .ok s') :
    ∃ t, s.line json rest = .ok t := by
  rw [Scanner.line]
  split
  · exact ⟨_, rfl⟩
  rename_i hblank
  have hne : rest.isEmpty = false := by
    cases rest with
    | nil => exact absurd rfl hblank
    | cons b rest => rfl
  rw [Scanner.rest, hne, if_neg Bool.false_ne_true] at h
  cases hd : decodeRecord json rest with
  | ok r => exact ⟨_, rfl⟩
  | error e =>
    rw [hd] at h
    dsimp only at h ⊢
    split at h
    · cases h
    · rename_i hu
      rw [if_neg hu]
      exact ⟨_, rfl⟩

/-- The line of the boot record, when blanks precede it. -/
theorem line_boot {blank : List UInt8} {boot : BootRecord} {line : List UInt8}
    (h : LineOf json blank (.boot boot) line) (s : Scanner V) :
    ∃ s', s.line json (blank ++ line) = .ok s' ∧ s'.Tracks s'.replay.records boot [] := by
  have hblank : isBlank (blank ++ line) = false := by
    have := h.nonblank
    unfold isBlank at this ⊢
    rw [List.all_append, this, Bool.and_false]
  rw [Scanner.line, hblank]
  rcases h.decode with hd | ⟨-, hd⟩
  · rw [hd]
    exact ⟨_, rfl, tracks_boot _ _⟩
  · rw [hd]
    exact ⟨_, rfl, .inr (lost_damaged _ _)⟩

theorem Tracks.lines {s : Scanner V} {older : List (Record V)} {boot : BootRecord}
    {records rs : List (Record V)} {lines : List (List UInt8)} (h : s.Tracks older boot records)
    (hrs : ∀ r ∈ rs, r.isBoot = false ∧ r.bootId = boot.bootId)
    (hord : InOrder (.boot boot :: (records ++ rs))) (henc : Encodes json rs lines) :
    ∃ s', scanLines json s lines = .ok s' ∧ s'.Tracks older boot (records ++ rs) := by
  induction henc generalizing s records with
  | nil => exact ⟨s, rfl, by simpa using h⟩
  | @cons r line rs lines hr _ ih =>
    obtain ⟨hboot, hid⟩ := hrs r List.mem_cons_self
    have hs : Tracks { s with index := s.index + 1, sawNonblank := true } older boot records :=
      h.imp (fun h => ⟨h.state, h.committed, h.bound⟩) fun h => ⟨h.state, h.gap⟩
    have hstep := hs.record hboot hid (InOrder.last_le hord)
    rw [List.append_cons] at hord
    obtain ⟨s', hs', htracks⟩ := ih hstep (fun r' h' => hrs r' (List.mem_cons_of_mem _ h')) hord
    refine ⟨s', ?_, by simpa using htracks⟩
    rw [scanLines, List.foldlM_cons, line_lineOf hr s]
    exact hs'

/-- A scan that leaves no gap open has committed the live epoch, and nothing follows it. -/
theorem Tracks.finish {s s' : Scanner V} {older : List (Record V)} {boot : BootRecord} {records : List (Record V)}
    {torn : List UInt8} {replay : Replay V} (h : s.Tracks older boot records) (hrest : s.rest json torn = .ok s')
    (hfin : s'.finish = .ok replay) (hgap : ¬ replay.HasOpenGap) :
    torn = [] ∧ records ≠ [] ∧ replay.records = older ++ .boot boot :: records := by
  have hlost : ¬ s'.Lost := fun hl => hgap <| by
    rw [Scanner.finish, hl.state] at hfin
    split at hfin
    · cases hfin; exact hl.gap
    · cases hfin
  rw [Scanner.rest] at hrest
  split at hrest
  · rename_i hempty
    obtain rfl := Except.ok.inj hrest
    have hin := h.resolve_right hlost
    refine ⟨List.isEmpty_iff.1 hempty, ?_⟩
    have hstate := hin.state
    by_cases hnil : records = []
    · rw [if_pos hnil] at hstate
      rw [Scanner.finish, hstate] at hfin
      split at hfin
      · cases hfin; exact absurd (hasOpenGap_openGap _ _) hgap
      · cases hfin
    · rw [if_neg hnil] at hstate
      rw [Scanner.finish, hstate] at hfin
      split at hfin
      · cases hfin
        exact ⟨hnil, congrArg (· ++ _) hin.committed⟩
      · cases hfin
  · split at hrest
    · cases hrest; exact absurd (lost_damaged _ _) hlost
    · split at hrest
      · cases hrest
      · cases hrest; exact absurd (lost_damaged _ _) hlost

end Scanner

/-! ### What is committed is read from the lines -/

/-- The record of a line that is not blank. -/
def lineRecord (json : SerdeJson V) (line : List UInt8) : Option (Record V) :=
  if isBlank line then none else (decodeRecord json line).toOption

namespace Scanner

omit [F64 V]

/-- What is committed, and then what the candidate epoch holds. -/
def held (s : Scanner V) : List (Record V) :=
  s.replay.records ++
    match s.state with
    | .awaitSample epoch | .usable epoch => epoch.records
    | .awaitBoot | .invalidEpoch => []

theorem held_invalidate (s : Scanner V) (t : Nat) : (s.invalidate t).held = s.replay.records := by
  unfold invalidate held
  split <;> exact (List.append_nil _).trans (records_openGap _ _)

theorem records_sublist_held (s : Scanner V) : s.replay.records.Sublist s.held := List.sublist_append_left _ _

theorem held_invalidate_sublist (s : Scanner V) (t : Nat) (r : Record V) :
    (s.invalidate t).held.Sublist (s.held ++ [r]) := by
  rw [held_invalidate]
  exact s.records_sublist_held.trans (List.sublist_append_left _ _)

theorem held_startBoot (s : Scanner V) (boot : BootRecord) :
    (s.startBoot boot).held.Sublist (s.held ++ [.boot boot]) := by
  refine List.Sublist.append ?_ (List.Sublist.refl _)
  show (Replay.records _).Sublist _
  unfold startBoot Replay.closeOpenGap held
  cases s.state with
  | awaitSample epoch =>
    show (Replay.openGap _ _).records.Sublist _
    rw [records_openGap]
    exact List.sublist_append_left _ _
  | usable epoch => exact List.Sublist.refl _
  | awaitBoot | invalidEpoch => exact List.sublist_append_left _ _

theorem held_ingestRecord (s : Scanner V) (r : Record V) : (s.ingestRecord r).held.Sublist (s.held ++ [r]) := by
  have hpush : ∀ epoch : Epoch V, s.state = .awaitSample epoch ∨ s.state = .usable epoch →
      ({ s with state := .usable (epoch.push r) } : Scanner V).held.Sublist (s.held ++ [r]) := by
    intro epoch hstate
    have hheld : s.held = s.replay.records ++ epoch.records := by
      rcases hstate with hstate | hstate <;> rw [held, hstate]
    rw [hheld, List.append_assoc]
    exact List.Sublist.refl _
  unfold ingestRecord
  split
  · rename_i epoch _ hstate
    split
    · exact hpush epoch (.inl hstate)
    · exact held_invalidate_sublist s _ _
  · rename_i epoch hstate
    split
    · exact hpush epoch (.inr hstate)
    · exact held_invalidate_sublist s _ _
  · exact held_invalidate_sublist s _ _

theorem held_record (s : Scanner V) (r : Record V) : (s.record r).held.Sublist (s.held ++ [r]) := by
  rw [Scanner.record]
  split
  · exact held_invalidate_sublist s _ r
  cases r with
  | boot boot => exact held_startBoot { s with replay := s.replay.advanceOrderingBound boot.timestamp } boot
  | sample r => exact held_ingestRecord { s with replay := s.replay.advanceOrderingBound r.timestamp } (.sample r)
  | checkpoint r =>
    exact held_ingestRecord { s with replay := s.replay.advanceOrderingBound r.timestamp } (.checkpoint r)

theorem held_damaged (s : Scanner V) (t : Option Nat) : (s.damaged t).held.Sublist s.held := by
  rw [damaged, held_invalidate]
  cases t with
  | none => exact s.records_sublist_held
  | some t => exact s.records_sublist_held

end Scanner

theorem Scanner.held_line {s s' : Scanner V} {line : List UInt8} (h : s.line json line = .ok s') :
    s'.held.Sublist (s.held ++ (lineRecord json line).toList) := by
  rw [Scanner.line] at h
  rw [lineRecord]
  split at h
  · rename_i hblank
    obtain rfl := Except.ok.inj h
    rw [if_pos hblank]
    exact List.sublist_append_left _ _
  rename_i hblank
  rw [if_neg hblank]
  cases hd : decodeRecord json line with
  | ok r =>
    rw [hd] at h
    obtain rfl := Except.ok.inj h
    exact Scanner.held_record _ r
  | error e =>
    rw [hd] at h
    dsimp only at h
    split at h
    · cases h
    obtain rfl := Except.ok.inj h
    exact (Scanner.held_damaged _ _).trans (List.sublist_append_left _ _)

theorem held_scanLines {s s' : Scanner V} {lines : List (List UInt8)} (h : scanLines json s lines = .ok s') :
    s'.held.Sublist (s.held ++ lines.filterMap (lineRecord json)) := by
  induction lines generalizing s with
  | nil =>
    obtain rfl := Except.ok.inj h
    exact List.sublist_append_left _ _
  | cons line lines ih =>
    obtain ⟨t, ht, h⟩ := scanLines_cons_eq_ok.1 h
    have hfilter : (line :: lines).filterMap (lineRecord json) =
        (lineRecord json line).toList ++ lines.filterMap (lineRecord json) := by
      cases hr : lineRecord json line with
      | none => rw [List.filterMap_cons_none hr]; rfl
      | some r => rw [List.filterMap_cons_some hr]; rfl
    rw [hfilter, ← List.append_assoc]
    exact (ih h).trans ((Scanner.held_line ht).append_right _)

/-- The records of a file of whole lines are some of those that its lines read as, in their order. -/
theorem records_sublist {lines : List (List UInt8)} {replay : Replay V} (hlines : ∀ line ∈ lines, 10 ∉ line)
    (h : validateCanonical json (joinLines 10 lines) = .ok replay) :
    replay.records.Sublist (lines.filterMap (lineRecord json)) := by
  rw [← List.append_nil (joinLines 10 lines)] at h
  obtain ⟨s, s', hs, hrest, hfin⟩ := validateCanonical_eq_ok.1 h
  rw [splitLines_file hlines List.not_mem_nil] at hs hrest
  obtain rfl := Except.ok.inj hrest
  refine List.Sublist.trans ?_ (held_scanLines hs)
  rw [Scanner.finish] at hfin
  split at hfin
  · obtain rfl := Except.ok.inj hfin
    unfold Scanner.held
    cases s.state with
    | awaitSample epoch =>
      show (Replay.openGap _ _).records.Sublist _
      rw [records_openGap]
      exact List.sublist_append_left _ _
    | usable epoch => exact List.Sublist.refl _
    | awaitBoot | invalidEpoch => exact List.sublist_append_left _ _
  · cases hfin

theorem lineOf_of_lineRecord {line : List UInt8} {r : Record V} (hone : 10 ∉ line)
    (h : lineRecord json line = some r) : LineOf json [] r line := by
  rw [lineRecord] at h
  split at h
  · cases h
  · rename_i hblank
    exact ⟨hone, eq_false_of_ne_true hblank, .inl (toOption_eq_some h)⟩

/-- As many records as lines: every line reads back as its record. -/
theorem encodes_of_sublist {lines : List (List UInt8)} {records : List (Record V)} (hlines : ∀ line ∈ lines, 10 ∉ line)
    (hsub : records.Sublist (lines.filterMap (lineRecord json))) (hlen : records.length = lines.length) :
    Encodes json records lines := by
  induction lines generalizing records with
  | nil =>
    rw [List.eq_nil_of_length_eq_zero hlen]
    exact .nil
  | cons line lines ih =>
    have hle := List.length_filterMap_le (lineRecord json) lines
    cases hr : lineRecord json line with
    | none =>
      rw [List.filterMap_cons_none hr] at hsub
      have := hsub.length_le
      rw [List.length_cons] at hlen
      omega
    | some r =>
      rw [List.filterMap_cons_some hr] at hsub
      obtain rfl : records = r :: lines.filterMap (lineRecord json) :=
        hsub.eq_of_length_le (by rw [hlen, List.length_cons, List.length_cons]; omega)
      exact .cons (lineOf_of_lineRecord (hlines line List.mem_cons_self) hr)
        (ih (fun l hl => hlines l (List.mem_cons_of_mem _ hl)) (List.Sublist.refl _) (Nat.succ.inj hlen))

end

end OpenProxy
