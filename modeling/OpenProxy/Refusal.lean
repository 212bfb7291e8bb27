import OpenProxy.Store

/-!
# Files of another format or version (`open_inner` of `history/store.rs`)

A line that declares another format or version refuses the file, but only once it has been read as the
object of a record: the codec deserializes all of it before it looks at `format` and `v`. What opening
does with a file is told here from its lines alone: the ones that refuse it, and the timestamps the boot
record is compared with.
-/

namespace OpenProxy

open Lines

/-! ### What a file declares -/

/-- A field of a JSON object. -/
inductive JsonField where
  | missing
  | string (s : String)
  | integer (n : Int)
  | other
  deriving DecidableEq, Repr

/-- The fields of a JSON object that tell its format. -/
structure Declaration where
  format : JsonField
  v : JsonField
  deriving DecidableEq, Repr

/-- Another format, or another version of this one. -/
def Declaration.unsupported (d : Declaration) : Prop :=
  (∃ s, d.format = .string s ∧ s ≠ OpenProxy.format) ∨
    (d.format = .string OpenProxy.format ∧ ∃ n : Int, d.v = .integer n ∧ n ≠ version)

section
variable {V : Type} [F64 V]

/-- The line has all the fields of a record, and declares another format or version. -/
def ReadsUnsupported (json : SerdeJson V) (line : List UInt8) : Prop :=
  (ByteArray.mk line.toArray).validateUTF8 = true ∧
    ∃ raw, json.fromSlice line = .ok raw ∧ (raw.format ≠ format ∨ raw.v ≠ version)

/-- One of the lines of the file does, the unterminated rest included. -/
def HasUnsupported (json : SerdeJson V) (bytes : List UInt8) : Prop :=
  (∃ line ∈ (splitLines 10 bytes).1, isBlank line = false ∧ ReadsUnsupported json line) ∨
    (splitLines 10 bytes).2 ≠ [] ∧ ReadsUnsupported json (splitLines 10 bytes).2

/-- The timestamp a terminated line holds the following ones to. -/
def lineTimestamp (json : SerdeJson V) (line : List UInt8) : Option Nat :=
  if isBlank line then none
  else
    match decodeRecord json line with
    | .ok r => some r.timestamp
    | .error _ => json.timestamp line

/-- The timestamps of a file. -/
def fileTimestamps (json : SerdeJson V) (bytes : List UInt8) : List Nat :=
  let (lines, rest) := splitLines 10 bytes
  lines.filterMap (lineTimestamp json) ++ if rest.isEmpty then [] else (json.timestamp rest).toList

/-! ### Opening a file -/

/-- `open_inner` on an existing file, with the bytes it leaves. -/
def openInner (json : SerdeJson V) (bytes : List UInt8) (boot : BootRecord) :
    List UInt8 × Except OpenError (HistoryStore V) :=
  match validateCanonical json bytes with
  | .error error => (bytes, .error error)
  | .ok replay =>
    if replay.orderingBound.any (boot.timestamp < ·) then (bytes, .error (.invalidStream 0 "timestamp regresses"))
    else
      -- the separator is on the disk before the boot record is encoded
      let bytes := bytes ++ if replay.needsSeparator then [10] else []
      match encodeRecord json (.boot boot) with
      | .error _ => (bytes, .error .io)
      | .ok line =>
        let replay := { replay with records := replay.records ++ [Record.boot boot] }.closeOpenGap boot.timestamp
        (bytes ++ line ++ [10], .ok ⟨0, boot.bootId, none, replay, some boot.timestamp, false⟩)

theorem openExisting_eq (json : SerdeJson V) (bytes : List UInt8) (boot : BootRecord) :
    openExisting json bytes boot =
      (openInner json bytes boot).2.map fun store => ⟨⟨[(openInner json bytes boot).1], 0⟩, store⟩ := by
  unfold openExisting openInner
  cases hv : validateCanonical json bytes with
  | error e => rfl
  | ok replay =>
    simp only [bind, Except.bind]
    split
    · rfl
    · cases encodeRecord json (.boot boot) <;> rfl

/-! ### What the scanner makes of the lines -/

theorem unsupported_decodeRecord {json : SerdeJson V} {line : List UInt8} :
    (∃ e, decodeRecord json line = .error e ∧ e.unsupported = true) ↔ ReadsUnsupported json line := by
  have hstate : ∀ (raw : List (RawStateEntry V)) (series : List (StateKind × MetricKey)) (e : DecodeError),
      decodeEntries series raw = .error e → e.unsupported = false := by
    intro raw
    induction raw with
    | nil => intro series e h; cases h
    | cons entry raw ih =>
      intro series e h
      rw [decodeEntries] at h
      split at h
      · cases h; rfl
      · split at h
        · dsimp only at h
          split at h
          · cases h; rfl
          · rename_i kind _ _ _
            cases hrest : decodeEntries ((kind, (⟨entry.metric, entry.labels⟩ : MetricKey)) :: series) raw with
            | error e' => rw [hrest] at h; cases h; exact ih _ _ hrest
            | ok rest => rw [hrest] at h; cases h
        · cases h; rfl
  have hraw : ∀ raw : RawRecord V, (∃ e, decodeRaw raw = .error e ∧ e.unsupported = true) ↔
      (raw.format ≠ format ∨ raw.v ≠ version) := by
    intro raw
    rw [decodeRaw]
    split
    · rename_i h
      exact ⟨fun _ => .inl h, fun _ => ⟨_, rfl, rfl⟩⟩
    split
    · rename_i h
      exact ⟨fun _ => .inr h, fun _ => ⟨_, rfl, rfl⟩⟩
    rename_i hf hv
    refine ⟨?_, fun h => absurd h (not_or.2 ⟨hf, hv⟩)⟩
    rintro ⟨e, he, hu⟩
    split at he
    · cases he
    · cases he
    · cases hs : decodeState (V := V) _ with
      | ok s => rw [hs] at he; cases he
      | error e' =>
        rw [hs] at he
        cases he
        rw [hstate _ _ _ hs] at hu
        cases hu
    all_goals
      cases he
      cases hu
  rw [ReadsUnsupported, decodeRecord]
  split
  · rename_i hutf
    cases hs : json.fromSlice line with
    | ok raw => simp [hraw, hutf]
    | error e => cases e <;> simp [hutf, DecodeError.unsupported]
  · rename_i hutf
    simp [hutf, DecodeError.unsupported]

namespace Scanner

omit [F64 V] in
theorem any_advanceOrderingBound (replay : Replay V) (t b : Nat) :
    (replay.advanceOrderingBound t).orderingBound.any (b < ·) = (replay.orderingBound.any (b < ·) || decide (b < t)) := by
  rw [Replay.advanceOrderingBound]
  cases replay.orderingBound with
  | none => simp
  | some bound => simp

omit [F64 V] in
theorem orderingBound_invalidate (s : Scanner V) (t : Nat) :
    (s.invalidate t).replay.orderingBound = s.replay.orderingBound := by
  unfold invalidate
  split <;> exact openGap_orderingBound _ _

omit [F64 V] in
theorem orderingBound_damaged (s : Scanner V) (t : Option Nat) :
    (s.damaged t).replay.orderingBound = (t.elim s.replay s.replay.advanceOrderingBound).orderingBound :=
  orderingBound_invalidate _ _

omit [F64 V] in
theorem orderingBound_startBoot (s : Scanner V) (boot : BootRecord) :
    (s.startBoot boot).replay.orderingBound = s.replay.orderingBound := by
  simp only [startBoot, Replay.closeOpenGap]
  cases s.state with
  | awaitSample epoch => exact openGap_orderingBound _ _
  | usable epoch | awaitBoot | invalidEpoch => rfl

omit [F64 V] in
theorem orderingBound_ingestRecord (s : Scanner V) (r : Record V) :
    (s.ingestRecord r).replay.orderingBound = s.replay.orderingBound := by
  unfold ingestRecord
  split
  · split
    · rfl
    · exact orderingBound_invalidate _ _
  · split
    · rfl
    · exact orderingBound_invalidate _ _
  · exact orderingBound_invalidate _ _

omit [F64 V] in
/-- A record that regresses is below the bound already. -/
theorem any_orderingBound_record (s : Scanner V) (r : Record V) (b : Nat) :
    (s.record r).replay.orderingBound.any (b < ·) = (s.replay.orderingBound.any (b < ·) || decide (b < r.timestamp)) := by
  unfold Scanner.record
  split
  · rename_i h
    rw [orderingBound_invalidate]
    cases hb : s.replay.orderingBound with
    | none => rw [hb] at h; cases h
    | some bound =>
      rw [hb] at h
      simp only [Option.any_some, decide_eq_true_eq] at h ⊢
      rw [← Bool.decide_or]
      exact decide_eq_decide.2 ⟨.inl, fun h' => h'.elim id fun h' => h'.trans h⟩
  · cases r with
    | boot boot => exact (congrArg _ (orderingBound_startBoot _ _)).trans (any_advanceOrderingBound _ _ _)
    | sample r | checkpoint r => exact (congrArg _ (orderingBound_ingestRecord _ _)).trans (any_advanceOrderingBound _ _ _)

omit [F64 V] in
theorem sawNonblank_damaged (s : Scanner V) (t : Option Nat) : (s.damaged t).sawNonblank = s.sawNonblank := by
  unfold damaged invalidate
  dsimp only
  split <;> rfl

/-- What a terminated line does. -/
theorem line_cases (json : SerdeJson V) (s : Scanner V) (line : List UInt8) :
    (isBlank line = true ∧ s.line json line = .ok { s with index := s.index + 1 }) ∨
    (isBlank line = false ∧ ReadsUnsupported json line ∧ ∃ e, s.line json line = .error e) ∨
    (isBlank line = false ∧ ¬ ReadsUnsupported json line ∧
      s.line json line = .ok (match decodeRecord json line with
        | .ok r => { s with index := s.index + 1, sawNonblank := true }.record r
        | .error _ => { s with index := s.index + 1, sawNonblank := true }.damaged (json.timestamp line))) := by
  rw [Scanner.line]
  cases hb : isBlank line with
  | true => exact .inl ⟨rfl, rfl⟩
  | false =>
    right
    by_cases hu : ReadsUnsupported json line
    · left
      obtain ⟨e, he, hunsup⟩ := unsupported_decodeRecord.2 hu
      refine ⟨rfl, hu, ?_⟩
      rw [he]
      simp [hunsup]
    · right
      refine ⟨rfl, hu, ?_⟩
      cases hd : decodeRecord json line with
      | ok r => rfl
      | error e =>
        have he : e.unsupported = false := by
          by_contra h
          exact hu (unsupported_decodeRecord.1 ⟨e, hd, eq_true_of_ne_false h⟩)
        simp [he]

theorem any_orderingBound_line {json : SerdeJson V} {s s' : Scanner V} {line : List UInt8}
    (h : s.line json line = .ok s') (b : Nat) :
    s'.replay.orderingBound.any (b < ·) =
      (s.replay.orderingBound.any (b < ·) || (lineTimestamp json line).any (b < ·)) := by
  rcases line_cases json s line with ⟨hb, hs⟩ | ⟨hb, -, e, hs⟩ | ⟨hb, -, hs⟩
  · rw [hs] at h
    obtain rfl := Except.ok.inj h
    rw [lineTimestamp, hb]
    simp
  · rw [hs] at h
    cases h
  · rw [hs] at h
    obtain rfl := Except.ok.inj h
    rw [lineTimestamp, hb, if_neg Bool.false_ne_true]
    cases hd : decodeRecord json line with
    | ok r => exact any_orderingBound_record _ r b
    | error e =>
      refine (congrArg _ (orderingBound_damaged _ _)).trans ?_
      dsimp only
      cases json.timestamp line with
      | none => exact (Bool.or_false _).symm
      | some t => exact any_advanceOrderingBound _ t b

theorem sawNonblank_line {json : SerdeJson V} {s s' : Scanner V} {line : List UInt8}
    (h : s.line json line = .ok s') : s'.sawNonblank = (s.sawNonblank || !isBlank line) := by
  rcases line_cases json s line with ⟨hb, hs⟩ | ⟨hb, -, e, hs⟩ | ⟨hb, -, hs⟩
  · rw [hs] at h
    obtain rfl := Except.ok.inj h
    simp [hb]
  · rw [hs] at h
    cases h
  · rw [hs] at h
    obtain rfl := Except.ok.inj h
    rw [hb]
    cases decodeRecord json line with
    | ok r => exact (record_frame _ r).1.trans (by simp)
    | error e => exact (sawNonblank_damaged _ _).trans (by simp)

end Scanner

/-- The scanner gets through the lines that do not refuse the file. -/
theorem scanLines_eq_ok_iff {json : SerdeJson V} {s : Scanner V} {lines : List (List UInt8)} :
    (∃ s', scanLines json s lines = .ok s') ↔
      ∀ line ∈ lines, isBlank line = false → ¬ ReadsUnsupported json line := by
  induction lines generalizing s with
  | nil => exact ⟨fun _ line h => absurd h List.not_mem_nil, fun _ => ⟨s, rfl⟩⟩
  | cons line lines ih =>
    simp only [scanLines_cons_eq_ok, List.forall_mem_cons]
    constructor
    · rintro ⟨s', s₁, hline, hlines⟩
      refine ⟨fun hb hu => ?_, ih.1 ⟨s', hlines⟩⟩
      rcases Scanner.line_cases json s line with ⟨hb', -⟩ | ⟨-, -, e, hs⟩ | ⟨-, hu', -⟩
      · rw [hb] at hb'
        cases hb'
      · rw [hs] at hline
        cases hline
      · exact hu' hu
    · rintro ⟨hline, hlines⟩
      have hs : ∃ s₁, s.line json line = .ok s₁ := by
        rcases Scanner.line_cases json s line with ⟨-, hs⟩ | ⟨hb, hu, -⟩ | ⟨-, -, hs⟩
        · exact ⟨_, hs⟩
        · exact absurd hu (hline hb)
        · exact ⟨_, hs⟩
      obtain ⟨s₁, hs⟩ := hs
      obtain ⟨s', hs'⟩ := ih.2 hlines
      exact ⟨s', s₁, hs, hs'⟩

theorem any_orderingBound_scanLines {json : SerdeJson V} {s s' : Scanner V} {lines : List (List UInt8)}
    (h : scanLines json s lines = .ok s') (b : Nat) :
    s'.replay.orderingBound.any (b < ·) =
      (s.replay.orderingBound.any (b < ·) || (lines.filterMap (lineTimestamp json)).any (b < ·)) := by
  induction lines generalizing s with
  | nil =>
    obtain rfl := Except.ok.inj h
    simp
  | cons line lines ih =>
    obtain ⟨s₁, hline, hlines⟩ := scanLines_cons_eq_ok.1 h
    rw [ih hlines, Scanner.any_orderingBound_line hline, Bool.or_assoc, List.filterMap_cons]
    cases lineTimestamp json line <;> simp

theorem sawNonblank_scanLines {json : SerdeJson V} {s s' : Scanner V} {lines : List (List UInt8)}
    (h : scanLines json s lines = .ok s') : s'.sawNonblank = (s.sawNonblank || lines.any (!isBlank ·)) := by
  induction lines generalizing s with
  | nil =>
    obtain rfl := Except.ok.inj h
    simp
  | cons line lines ih =>
    obtain ⟨s₁, hline, hlines⟩ := scanLines_cons_eq_ok.1 h
    rw [ih hlines, Scanner.sawNonblank_line hline, Bool.or_assoc, List.any_cons]
namespace Scanner

/-- What the unterminated rest does. -/
theorem rest_cases (json : SerdeJson V) (s : Scanner V) (rest : List UInt8) :
    (rest = [] ∧ s.rest json rest = .ok s) ∨
    (rest ≠ [] ∧ ReadsUnsupported json rest ∧ ∃ e, s.rest json rest = .error e) ∨
    (rest ≠ [] ∧ ¬ ReadsUnsupported json rest ∧
      s.rest json rest = .ok (Scanner.damaged { s with
        index := s.index + 1, sawNonblank := s.sawNonblank || !isBlank rest,
        replay.needsSeparator := !isBlank rest } (json.timestamp rest))) := by
  cases rest with
  | nil => exact .inl ⟨rfl, rfl⟩
  | cons b rest =>
    right
    rw [Scanner.rest, List.isEmpty_cons, if_neg Bool.false_ne_true]
    by_cases hu : ReadsUnsupported json (b :: rest)
    · left
      obtain ⟨e, he, hunsup⟩ := unsupported_decodeRecord.2 hu
      refine ⟨List.cons_ne_nil _ _, hu, ?_⟩
      rw [he]
      simp [hunsup]
    · right
      refine ⟨List.cons_ne_nil _ _, hu, ?_⟩
      cases hd : decodeRecord json (b :: rest) with
      | ok r => rfl
      | error e =>
        have he : e.unsupported = false := by
          by_contra h
          exact hu (unsupported_decodeRecord.1 ⟨e, hd, eq_true_of_ne_false h⟩)
        simp [he]

theorem any_orderingBound_rest {json : SerdeJson V} {s s' : Scanner V} {rest : List UInt8}
    (h : s.rest json rest = .ok s') (b : Nat) :
    s'.replay.orderingBound.any (b < ·) = (s.replay.orderingBound.any (b < ·) ||
      (if rest.isEmpty then [] else (json.timestamp rest).toList).any (b < ·)) := by
  rcases rest_cases json s rest with ⟨rfl, hs⟩ | ⟨-, -, e, hs⟩ | ⟨hne, -, hs⟩
  · rw [hs] at h
    obtain rfl := Except.ok.inj h
    simp
  · rw [hs] at h
    cases h
  · rw [hs] at h
    obtain rfl := Except.ok.inj h
    rw [if_neg (by simpa using hne)]
    refine (congrArg _ (orderingBound_damaged _ _)).trans ?_
    cases json.timestamp rest with
    | none => exact (Bool.or_false _).symm
    | some t => exact (any_advanceOrderingBound _ t b).trans (by simp)

theorem sawNonblank_rest {json : SerdeJson V} {s s' : Scanner V} {rest : List UInt8}
    (h : s.rest json rest = .ok s') : s'.sawNonblank = (s.sawNonblank || !isBlank rest) := by
  rcases rest_cases json s rest with ⟨rfl, hs⟩ | ⟨-, -, e, hs⟩ | ⟨-, -, hs⟩
  · rw [hs] at h
    obtain rfl := Except.ok.inj h
    simp [isBlank]
  · rw [hs] at h
    cases h
  · rw [hs] at h
    obtain rfl := Except.ok.inj h
    exact sawNonblank_damaged _ _

omit [F64 V] in
theorem finish_cases (s : Scanner V) :
    (s.sawNonblank = false ∧ s.finish = .error .emptyCanonical) ∨
      s.sawNonblank = true ∧ ∃ replay, s.finish = .ok replay ∧ replay.orderingBound = s.replay.orderingBound := by
  rw [finish]
  cases hs : s.sawNonblank with
  | false => exact .inl ⟨rfl, rfl⟩
  | true =>
    refine .inr ⟨rfl, _, rfl, ?_⟩
    cases s.state with
    | awaitSample epoch => exact openGap_orderingBound _ _
    | usable epoch | awaitBoot | invalidEpoch => rfl

end Scanner

/-- A file is scanned to its end unless a line of it is unsupported, or none of them holds anything. -/
theorem exists_validateCanonical_iff {json : SerdeJson V} {bytes : List UInt8} :
    (∃ replay, validateCanonical json bytes = .ok replay) ↔ ¬ HasUnsupported json bytes ∧
      ((∃ line ∈ (splitLines 10 bytes).1, isBlank line = false) ∨ isBlank (splitLines 10 bytes).2 = false) := by
  simp only [validateCanonical_eq_ok, HasUnsupported, not_or, not_exists, not_and]
  generalize splitLines 10 bytes = p
  obtain ⟨lines, rest⟩ := p
  dsimp only
  constructor
  · rintro ⟨replay, s, s', hlines, hrest, hfin⟩
    refine ⟨⟨scanLines_eq_ok_iff.1 ⟨s, hlines⟩, fun hne hu => ?_⟩, ?_⟩
    · rcases Scanner.rest_cases json s rest with ⟨rfl, -⟩ | ⟨-, -, e, hs⟩ | ⟨-, hu', -⟩
      · exact hne rfl
      · rw [hs] at hrest
        cases hrest
      · exact hu' hu
    · rcases Scanner.finish_cases s' with ⟨-, hs⟩ | ⟨hsaw, -⟩
      · rw [hs] at hfin
        cases hfin
      · rw [Scanner.sawNonblank_rest hrest, sawNonblank_scanLines hlines] at hsaw
        simpa using hsaw
  · rintro ⟨⟨hlines, hrest⟩, hblank⟩
    obtain ⟨s, hs⟩ := (scanLines_eq_ok_iff (s := {})).2 hlines
    have hs' : ∃ s', s.rest json rest = .ok s' := by
      rcases Scanner.rest_cases json s rest with ⟨-, hs⟩ | ⟨hne, hu, -⟩ | ⟨-, -, hs⟩
      · exact ⟨_, hs⟩
      · exact absurd hu (hrest hne)
      · exact ⟨_, hs⟩
    obtain ⟨s', hs'⟩ := hs'
    have hsaw : s'.sawNonblank = true := by
      rw [Scanner.sawNonblank_rest hs', sawNonblank_scanLines hs]
      simpa using hblank
    rcases Scanner.finish_cases s' with ⟨hf, -⟩ | ⟨-, replay, hfin, -⟩
    · rw [hsaw] at hf
      cases hf
    · exact ⟨replay, s, s', hs, hs', hfin⟩

/-- The boot record is compared with every timestamp of the file. -/
theorem any_orderingBound_validateCanonical {json : SerdeJson V} {bytes : List UInt8} {replay : Replay V}
    (h : validateCanonical json bytes = .ok replay) (b : Nat) :
    replay.orderingBound.any (b < ·) = true ↔ ∃ t ∈ fileTimestamps json bytes, b < t := by
  obtain ⟨s, s', hlines, hrest, hfin⟩ := validateCanonical_eq_ok.1 h
  have hbound : replay.orderingBound = s'.replay.orderingBound := by
    rcases Scanner.finish_cases s' with ⟨-, hs⟩ | ⟨-, replay', hs, hb⟩
    · rw [hs] at hfin
      cases hfin
    · rw [hs] at hfin
      obtain rfl := Except.ok.inj hfin
      exact hb
  rw [hbound, Scanner.any_orderingBound_rest hrest, any_orderingBound_scanLines hlines, fileTimestamps]
  simp only [Option.any_none, Bool.false_or, ← List.any_append]
  simp only [List.any_eq_true, decide_eq_true_eq]

/-! ### Refusal -/

/-- A file with an object of another format or version is refused, and left as it is, exactly when one of its
lines is a whole record of another format or version, or one is later than the boot record. -/
theorem refused_iff {json : SerdeJson V} (object : List UInt8 → Option Declaration) {bytes : List UInt8}
    (boot : BootRecord) (hobject : ∀ line d, object line = some d → isBlank line = false)
    (hforeign : ∃ line ∈ (splitLines 10 bytes).1, ∃ d, object line = some d ∧ d.unsupported) :
    ((∃ e, (openInner json bytes boot).2 = .error e) ∧ (openInner json bytes boot).1 = bytes) ↔
      HasUnsupported json bytes ∨ ∃ t ∈ fileTimestamps json bytes, boot.timestamp < t := by
  obtain ⟨line, hline, d, hd, -⟩ := hforeign
  have hblank : ∃ line ∈ (splitLines 10 bytes).1, isBlank line = false := ⟨line, hline, hobject line d hd⟩
  by_cases hu : HasUnsupported json bytes
  · refine ⟨fun _ => .inl hu, fun _ => ?_⟩
    cases hv : validateCanonical json bytes with
    | ok replay => exact absurd hu (exists_validateCanonical_iff.1 ⟨replay, hv⟩).1
    | error e =>
      rw [openInner, hv]
      exact ⟨⟨e, rfl⟩, rfl⟩
  · obtain ⟨replay, hv⟩ := exists_validateCanonical_iff.2 ⟨hu, .inl hblank⟩
    rw [or_iff_right hu, ← any_orderingBound_validateCanonical hv, openInner, hv]
    dsimp only
    split
    · rename_i hlate
      exact ⟨fun _ => hlate, fun _ => ⟨⟨_, rfl⟩, rfl⟩⟩
    · rename_i hlate
      refine ⟨?_, fun h => absurd h hlate⟩
      rintro ⟨⟨e, he⟩, -⟩
      cases he

end

/-- A boot record of a second version of the format. -/
def secondVersion : RawRecord ℚ := ⟨format, 2, "boot", 3, "a", ⟨40, 1, [40]⟩, .missing⟩

/-- An object of the second version that has other fields than a record of the first. -/
def otherShape : List UInt8 :=
  (jsonObject [("format", jsonString format), ("v", "2"), ("kind", jsonString "epoch")]).toUTF8.data.toList

/-- What these two declare. -/
def declares (line : List UInt8) : Option Declaration :=
  if line = secondVersion.text.toUTF8.data.toList ∨ line = otherShape then some ⟨.string format, .integer 2⟩ else none

theorem isBlank_of_declares {line : List UInt8} {d : Declaration} (h : declares line = some d) :
    isBlank line = false := by
  rw [declares] at h
  split at h
  · rename_i hline
    rcases hline with rfl | rfl <;> decide +kernel
  · cases h

theorem declares_unsupported : Declaration.unsupported ⟨.string format, .integer 2⟩ :=
  .inr ⟨rfl, 2, rfl, by decide⟩

/-- The file of a process that wrote the second version. -/
def secondVersionFile : List UInt8 := joinLines 10 [secondVersion.text.toUTF8.data.toList]

theorem refused_secondVersion :
    (∃ e, (openInner (.table [secondVersion]) secondVersionFile ⟨5, "b", ⟨40, 1, [40]⟩⟩).2 = .error e) ∧
      (openInner (.table [secondVersion]) secondVersionFile ⟨5, "b", ⟨40, 1, [40]⟩⟩).1 = secondVersionFile :=
  (refused_iff declares _ (fun _ _ => isBlank_of_declares)
    ⟨secondVersion.text.toUTF8.data.toList, by decide +kernel, _, if_pos (.inl rfl), declares_unsupported⟩).2
    (.inl (.inl ⟨secondVersion.text.toUTF8.data.toList, by decide +kernel, by decide +kernel, by decide +kernel,
      secondVersion, by decide +kernel, by decide +kernel⟩))

/-- The boot record of a process that speaks the first version only. -/
def olderBoot : BootRecord := ⟨5, "b", ⟨40, 1, [40]⟩⟩

def olderBootText : List UInt8 :=
  (RawRecord.text ⟨format, version, "boot", 5, "b", ⟨40, 1, [40]⟩, .missing⟩).toUTF8.data.toList

/-- The JSON library on the boot record of that process and on the other object, which has no `timestamp`. -/
def otherShapeJson : SerdeJson ℚ :=
  let boot := SerdeJson.table [⟨format, version, "boot", 5, "b", ⟨40, 1, [40]⟩, .missing⟩]
  { boot with fromSlice := fun line => if line = otherShape then .error .data else boot.fromSlice line }

/-- The object is taken for a damaged record, and the boot record is appended after it. -/
theorem not_refused_otherShape :
    (∃ line ∈ (splitLines 10 (otherShape ++ [10])).1, ∃ d, declares line = some d ∧ d.unsupported) ∧
    (openInner otherShapeJson (otherShape ++ [10]) olderBoot).1 = otherShape ++ [10] ++ olderBootText ++ [10] ∧
    ∃ store, (openInner otherShapeJson (otherShape ++ [10]) olderBoot).2 = .ok store ∧
      store.replay.excludedRecords = 1 := by
  have hopen : (openInner otherShapeJson (otherShape ++ [10]) olderBoot).2.toOption.map
      (·.replay.excludedRecords) = some 1 := by decide +kernel
  refine ⟨⟨otherShape, by decide +kernel, _, if_pos (.inr rfl), declares_unsupported⟩, by decide +kernel, ?_⟩
  obtain ⟨store, hv, hexcluded⟩ := Option.map_eq_some_iff.1 hopen
  exact ⟨store, toOption_eq_some hv, hexcluded⟩

end OpenProxy
