import OpenProxy.Lib.Lines

/-!
# Observing an event stream (`SseObserver` of `observation.rs`)

The observer reads the bytes of a streamed response beside the relay and keeps at most one event of it. An
event that would take more than the bound is discarded as it comes, up to the blank line that ends it. The
reference reads the whole sequence at once: it cuts it at the line feeds, cuts the lines at the blank ones,
and joins the data values of each event that stays within the bound.
-/

namespace OpenProxy.Sse

open Lines

def maxEventBytes : Nat := 1024 * 1024

def ascii (s : String) : List UInt8 := s.toList.map fun c => UInt8.ofNat c.toNat

inductive StreamOutcome where
  | completed
  | deadline
  | disconnected
  | truncated
  deriving DecidableEq, Repr

/-- What the observer does with payloads: the JSON library (`from_utf8` and `from_str`), and the operations of
the observation state. -/
structure Payloads (σ Value ρ : Type) where
  fromStr : List UInt8 → Option Value
  observeStream : σ → Value → σ × Bool
  rememberChoiceIndexes : σ → Value → σ
  finish : σ → StreamOutcome → Bool → Option Nat → Option Nat → ρ

structure SseObserver (σ : Type) where
  state : σ
  currentData : List UInt8 := []
  currentLine : List UInt8 := []
  discardedEvent : Bool := false
  discardedLineHasContent : Bool := false
  discardedLineEndsCr : Bool := false
  completionEvents : Nat := 0

/-- The value of a `data:` line, without the space that may follow the colon. -/
def dataValue (line : List UInt8) : Option (List UInt8) :=
  if (ascii "data:").isPrefixOf line then
    let data := line.drop 5
    some (if data.head? = some 32 then data.tail else data)
  else none

def stripCr (line : List UInt8) : List UInt8 := if line.getLast? = some 13 then line.dropLast else line

section
variable {σ Value ρ : Type} (p : Payloads σ Value ρ)

/-- What `classify_event` does with a payload. -/
def classify (a : σ × Nat) (payload : List UInt8) : σ × Nat :=
  if payload = ascii "[DONE]" then a
  else
    match p.fromStr payload with
    | none => a
    | some value =>
      let (state, completion) := p.observeStream a.1 value
      (state, if completion then min (a.2 + 1) (2 ^ 64 - 1) else a.2)

def rememberPayload (state : σ) (payload : List UInt8) : σ :=
  match p.fromStr payload with
  | none => state
  | some value => p.rememberChoiceIndexes state value

namespace SseObserver

variable {p}

def retainedLen (s : SseObserver σ) : Nat := s.currentData.length + s.currentLine.length

def discard (s : SseObserver σ) : SseObserver σ :=
  { s with
    currentData := []
    currentLine := []
    discardedEvent := true
    discardedLineHasContent := true
    discardedLineEndsCr := false }

variable (p)

def classifyEvent (s : SseObserver σ) : SseObserver σ :=
  let (state, completionEvents) := classify p (s.state, s.completionEvents) s.currentData
  { s with state, completionEvents, currentData := [], currentLine := [] }

def finishLine (s : SseObserver σ) : SseObserver σ :=
  if s.discardedEvent then
    { s with
      currentLine := []
      discardedEvent := s.discardedLineHasContent
      discardedLineHasContent := false
      discardedLineEndsCr := false }
  else
    let line := stripCr s.currentLine
    if line.isEmpty then classifyEvent p { s with currentLine := line }
    else
      match dataValue line with
      | none => { s with currentLine := [] }
      | some data =>
        let separator := (!s.currentData.isEmpty).toNat
        if maxEventBytes - s.currentData.length < data.length + separator then discard { s with currentLine := line }
        else
          { s with
            currentData := s.currentData ++ (if separator = 1 then [10] else []) ++ data
            currentLine := [] }

def pushByte (s : SseObserver σ) (byte : UInt8) : SseObserver σ :=
  if byte = 10 then s.finishLine p
  else if s.discardedEvent then
    if byte = 13 then
      { s with
        discardedLineHasContent := s.discardedLineHasContent || s.discardedLineEndsCr
        discardedLineEndsCr := true }
    else { s with discardedLineHasContent := true, discardedLineEndsCr := false }
  else if s.retainedLen = maxEventBytes then s.discard
  else { s with currentLine := s.currentLine ++ [byte] }

def push (s : SseObserver σ) (bytes : List UInt8) : SseObserver σ := bytes.foldl (pushByte p) s

/-- `remember_unterminated_indexes`. -/
def rememberUnterminatedIndexes (s : SseObserver σ) : σ :=
  let state := rememberPayload p s.state s.currentData
  (dataValue s.currentLine).elim state (rememberPayload p state)

def finish (s : SseObserver σ) (outcome : StreamOutcome) (promptEstimate : Option Nat) : ρ :=
  let unterminated := s.discardedEvent || !s.currentData.isEmpty || !s.currentLine.isEmpty
  let state := if outcome = .completed ∧ unterminated then s.rememberUnterminatedIndexes p else s.state
  let incomplete := decide (outcome ≠ .completed) || unterminated
  let estimate := if outcome = .completed ∧ !unterminated then some s.completionEvents else none
  p.finish state outcome incomplete estimate promptEstimate

end SseObserver

/-! ### The reference -/

def isBlankLine (line : List UInt8) : Bool := (stripCr line).isEmpty

/-- The events of terminated lines, and the lines of an event that goes on. -/
def cutEvents (lines : List (List UInt8)) : List (List (List UInt8)) × List (List UInt8) :=
  lines.foldl (fun e line => if isBlankLine line then (e.1 ++ [e.2], []) else (e.1, e.2 ++ [line])) ([], [])

def values (lines : List (List UInt8)) : List (List UInt8) := lines.filterMap (dataValue <| stripCr ·)

/-- The data values joined by line feeds; empty values before the first other one do not count. -/
def payload (lines : List (List UInt8)) : List UInt8 := [10].intercalate ((values lines).dropWhile List.isEmpty)

/-- At some line the data so far and the line, its CR included, take more than the bound. -/
def overBound (payload : List (List UInt8) → List UInt8) (lines : List (List UInt8)) : Bool :=
  (List.range lines.length).any fun i =>
    decide (maxEventBytes < (payload (lines.take i)).length + (lines.getD i []).length)

section
variable (payload : List (List UInt8) → List UInt8)

def observeEvent (a : σ × Nat) (event : List (List UInt8)) : σ × Nat :=
  if overBound payload event then a else classify p a (payload event)

def reference (init : σ) (bytes : List UInt8) (outcome : StreamOutcome) (promptEstimate : Option Nat) : ρ :=
  let (lines, rest) := splitLines 10 bytes
  let (events, pending) := cutEvents lines
  let (state, completionEvents) := events.foldl (observeEvent p payload) (init, 0)
  let discarded := overBound payload (pending ++ [rest])
  let data := if discarded then [] else payload pending
  let line := if discarded then [] else rest
  let unterminated := discarded || !data.isEmpty || !line.isEmpty
  let remembered := rememberPayload p state data
  p.finish
    (if outcome = .completed ∧ unterminated then (dataValue line).elim remembered (rememberPayload p remembered)
      else state)
    outcome (decide (outcome ≠ .completed) || unterminated)
    (if outcome = .completed ∧ !unterminated then some completionEvents else none) promptEstimate

end

end

/-! ### Lines and payloads -/

theorem isBlankLine_iff {line : List UInt8} : isBlankLine line = true ↔ line = [] ∨ line = [13] := by
  rw [isBlankLine, stripCr, List.isEmpty_iff]
  split
  · rename_i h
    obtain ⟨init, rfl⟩ := List.getLast?_eq_some_iff.1 h
    rw [List.dropLast_concat]
    constructor
    · rintro rfl
      exact .inr rfl
    · rintro (h | h)
      · exact absurd h (List.append_ne_nil_of_right_ne_nil _ (List.cons_ne_nil _ _))
      · exact List.append_left_eq_self.1 h
  · rename_i h
    refine ⟨.inl, ?_⟩
    rintro (rfl | rfl)
    · rfl
    · exact absurd rfl h

theorem length_stripCr_le (line : List UInt8) : (stripCr line).length ≤ line.length := by
  unfold stripCr
  split
  · rw [List.length_dropLast]
    omega
  · exact le_rfl

theorem length_dataValue {line data : List UInt8} (h : dataValue line = some data) :
    data.length + 5 ≤ line.length := by
  rw [dataValue] at h
  split at h
  · rename_i hprefix
    have hlen : 5 ≤ line.length := (List.isPrefixOf_iff_prefix.1 hprefix).length_le
    have hdrop : (line.drop 5).length = line.length - 5 := List.length_drop
    obtain rfl := Option.some.inj h
    split
    · rw [List.length_tail]
      omega
    · omega
  · cases h

theorem intercalate_concat (sep : List UInt8) (values : List (List UInt8)) (h : values ≠ []) (value : List UInt8) :
    sep.intercalate (values ++ [value]) = sep.intercalate values ++ sep ++ value := by
  induction values with
  | nil => exact absurd rfl h
  | cons v values ih =>
    cases values with
    | nil =>
      rw [List.singleton_append, List.intercalate_cons_cons, List.intercalate_singleton, List.intercalate_singleton]
    | cons v' values =>
      rw [List.cons_append, List.intercalate_cons_of_ne_nil (List.append_ne_nil_of_right_ne_nil _ (by simp)),
        ih (List.cons_ne_nil _ _), List.intercalate_cons_cons]
      simp only [List.append_assoc]

theorem payload_isEmpty (lines : List (List UInt8)) :
    (payload lines).isEmpty = ((values lines).dropWhile List.isEmpty).isEmpty := by
  rw [payload]
  cases hvs : (values lines).dropWhile List.isEmpty with
  | nil => rfl
  | cons v vs =>
    have hv : v.isEmpty = false := by
      have := List.head_dropWhile_not List.isEmpty (l := values lines) (by simp [hvs])
      simpa [hvs] using this
    cases v with
    | nil => cases hv
    | cons a v =>
      cases vs with
      | nil => rfl
      | cons v' vs => rfl

/-- One more data value. -/
theorem payload_value {lines : List (List UInt8)} {line data : List UInt8} (h : dataValue (stripCr line) = some data) :
    payload (lines ++ [line]) =
      payload lines ++ (if (payload lines).isEmpty then [] else [10]) ++ data := by
  have hvalues : values (lines ++ [line]) = values lines ++ [data] := by
    rw [values, List.filterMap_append, List.filterMap_cons, h]
    rfl
  rw [payload_isEmpty, payload, hvalues, List.dropWhile_append, payload]
  split
  · rename_i hempty
    rw [List.isEmpty_iff.1 hempty, List.intercalate_nil, List.nil_append, List.nil_append]
    cases data with
    | nil => rfl
    | cons a data => exact List.intercalate_singleton
  · rename_i hempty
    exact intercalate_concat _ _ (fun h' => hempty (List.isEmpty_iff.2 h')) _

theorem payload_other {lines : List (List UInt8)} {line : List UInt8} (h : dataValue (stripCr line) = none) :
    payload (lines ++ [line]) = payload lines := by
  have hvalues : values (lines ++ [line]) = values lines := by
    rw [values, List.filterMap_append, List.filterMap_cons, h]
    exact List.append_nil _
  rw [payload, hvalues, payload]

theorem getD_append_left {lines lines' : List (List UInt8)} {i : Nat} (h : i < lines.length) :
    (lines ++ lines').getD i [] = lines.getD i [] := by
  rw [List.getD_eq_getElem?_getD, List.getD_eq_getElem?_getD, List.getElem?_append_left h]

theorem getD_concat (lines : List (List UInt8)) (line : List UInt8) :
    (lines ++ [line]).getD lines.length [] = line := by
  rw [List.getD_eq_getElem?_getD, List.getElem?_concat_length]
  rfl

theorem overBound_concat (f : List (List UInt8) → List UInt8) (lines : List (List UInt8)) (line : List UInt8) :
    overBound f (lines ++ [line]) =
      (overBound f lines || decide (maxEventBytes < (f lines).length + line.length)) := by
  rw [Bool.eq_iff_iff, Bool.or_eq_true, decide_eq_true_iff]
  simp only [overBound, List.any_eq_true, List.mem_range, List.length_append, List.length_singleton,
    decide_eq_true_iff]
  constructor
  · rintro ⟨i, hi, hover⟩
    rcases Nat.lt_succ_iff_lt_or_eq.1 hi with hi | rfl
    · rw [List.take_append_of_le_length (by omega), getD_append_left hi] at hover
      exact .inl ⟨i, hi, hover⟩
    · rw [List.take_left, getD_concat] at hover
      exact .inr hover
  · rintro (⟨i, hi, hover⟩ | hover)
    · refine ⟨i, by omega, ?_⟩
      rwa [List.take_append_of_le_length (by omega), getD_append_left hi]
    · refine ⟨lines.length, by omega, ?_⟩
      rwa [List.take_left, getD_concat]

/-- A payload within the bound leaves room for the name of the field. -/
theorem length_payload {lines : List (List UInt8)} (h : overBound payload lines = false) :
    (payload lines).length + 4 ≤ maxEventBytes := by
  induction lines using List.reverseRecOn with
  | nil => decide
  | append_singleton lines line ih =>
    rw [overBound_concat, Bool.or_eq_false_iff, decide_eq_false_iff_not] at h
    obtain ⟨hover, hlen⟩ := h
    cases hdata : dataValue (stripCr line) with
    | none =>
      rw [payload_other hdata]
      exact ih hover
    | some data =>
      have h₁ := length_dataValue hdata
      have h₂ := length_stripCr_le line
      rw [payload_value hdata, List.length_append, List.length_append]
      split
      · rw [List.length_nil]
        omega
      · rw [List.length_singleton]
        omega

theorem cutEvents_concat (lines : List (List UInt8)) (line : List UInt8) :
    cutEvents (lines ++ [line]) =
      if isBlankLine line then ((cutEvents lines).1 ++ [(cutEvents lines).2], [])
      else ((cutEvents lines).1, (cutEvents lines).2 ++ [line]) := by
  rw [cutEvents, List.foldl_append]
  rfl

/-- After the end of an event, what comes is cut on its own. -/
theorem cutEvents_append {lines : List (List UInt8)} (h : (cutEvents lines).2 = []) (lines' : List (List UInt8)) :
    cutEvents (lines ++ lines') = ((cutEvents lines).1 ++ (cutEvents lines').1, (cutEvents lines').2) := by
  induction lines' using List.reverseRecOn with
  | nil =>
    rw [List.append_nil]
    exact Prod.ext (List.append_nil _).symm h
  | append_singleton lines' line ih =>
    rw [← List.append_assoc, cutEvents_concat, ih, cutEvents_concat]
    split
    · rw [List.append_assoc]
    · rfl

theorem cutEvents_open {lines : List (List UInt8)} (h : ∀ line ∈ lines, isBlankLine line = false) :
    cutEvents lines = ([], lines) := by
  induction lines using List.reverseRecOn with
  | nil => rfl
  | append_singleton lines line ih =>
    rw [cutEvents_concat, h line (List.mem_append_right _ List.mem_cons_self),
      ih fun line hl => h line (List.mem_append_left _ hl)]
    rfl

/-! ### The state after some bytes -/

/-- The observer after the bytes of terminated lines and a rest. -/
structure Reads {σ Value ρ : Type} (p : Payloads σ Value ρ) (init : σ) (lines : List (List UInt8))
    (rest : List UInt8) (s : SseObserver σ) : Prop where
  events : (s.state, s.completionEvents) = (cutEvents lines).1.foldl (observeEvent p payload) (init, 0)
  kept : overBound payload ((cutEvents lines).2 ++ [rest]) = false →
    s.currentData = payload (cutEvents lines).2 ∧ s.currentLine = rest ∧ s.discardedEvent = false
  dropped : overBound payload ((cutEvents lines).2 ++ [rest]) = true →
    s.currentData = [] ∧ s.currentLine = [] ∧ s.discardedEvent = true ∧
      s.discardedLineHasContent = !isBlankLine rest ∧
      (isBlankLine rest = true → s.discardedLineEndsCr = !rest.isEmpty)

section
variable {σ Value ρ : Type} {p : Payloads σ Value ρ} {init : σ} {lines : List (List UInt8)} {rest : List UInt8}
  {s : SseObserver σ}

theorem isBlankLine_concat {rest : List UInt8} (h : isBlankLine rest = false) (byte : UInt8) :
    isBlankLine (rest ++ [byte]) = false := by
  rw [← Bool.not_eq_true, isBlankLine_iff] at h ⊢
  rintro (h' | h')
  · exact List.append_ne_nil_of_right_ne_nil _ (List.cons_ne_nil _ _) h'
  · exact h (.inl (List.append_eq_singleton_iff.1 h' |>.elim (·.1) fun h₂ => absurd h₂.2 (List.cons_ne_nil _ _)))

theorem Reads.step_discarded {byte : UInt8} (h : Reads p init lines rest s) (hbyte : byte ≠ 10)
    (hover : overBound payload ((cutEvents lines).2 ++ [rest]) = true) :
    Reads p init lines (rest ++ [byte]) (s.pushByte p byte) := by
  obtain ⟨hdata, hline, hflag, hcontent, hcr⟩ := h.dropped hover
  have hover' : overBound payload ((cutEvents lines).2 ++ [rest ++ [byte]]) = true := by
    rw [overBound_concat, Bool.or_eq_true, decide_eq_true_iff] at hover ⊢
    refine hover.imp_right fun hlen => hlen.trans_le ?_
    rw [List.length_append]
    omega
  rw [SseObserver.pushByte, if_neg hbyte, if_pos hflag]
  split
  · rename_i hbyte
    refine ⟨h.events, fun h' => absurd hover' (by rw [h']; exact Bool.false_ne_true), fun _ => ?_⟩
    refine ⟨hdata, hline, hflag, ?_, fun _ => ?_⟩
    · rw [hcontent, hbyte]
      cases hblank : isBlankLine rest with
      | false =>
        rw [isBlankLine_concat hblank]
        rfl
      | true =>
        rw [hcr hblank]
        rcases isBlankLine_iff.1 hblank with rfl | rfl <;> rfl
    · cases rest <;> rfl
  · rename_i hbyte
    refine ⟨h.events, fun h' => absurd hover' (by rw [h']; exact Bool.false_ne_true), fun _ => ?_⟩
    have hblank : isBlankLine (rest ++ [byte]) = false := by
      rw [← Bool.not_eq_true, isBlankLine_iff]
      rintro (h' | h')
      · exact List.append_ne_nil_of_right_ne_nil _ (List.cons_ne_nil _ _) h'
      · exact hbyte (by simpa using congrArg List.getLast? h')
    rw [hblank]
    exact ⟨hdata, hline, hflag, rfl, fun h' => nomatch h'⟩

theorem Reads.step_byte {byte : UInt8} (h : Reads p init lines rest s) (hbyte : byte ≠ 10) :
    Reads p init lines (rest ++ [byte]) (s.pushByte p byte) := by
  cases hover : overBound payload ((cutEvents lines).2 ++ [rest]) with
  | true => exact h.step_discarded hbyte hover
  | false =>
    obtain ⟨hdata, hline, hflag⟩ := h.kept hover
    rw [overBound_concat, Bool.or_eq_false_iff, decide_eq_false_iff_not] at hover
    have hpush : s.pushByte p byte =
        if s.retainedLen = maxEventBytes then s.discard else { s with currentLine := s.currentLine ++ [byte] } := by
      rw [SseObserver.pushByte, if_neg hbyte, hflag]
      rfl
    have hlen : s.retainedLen = (payload (cutEvents lines).2).length + rest.length := by
      rw [SseObserver.retainedLen, hdata, hline]
    have hover' : overBound payload ((cutEvents lines).2 ++ [rest ++ [byte]]) = decide (s.retainedLen = maxEventBytes) := by
      rw [overBound_concat, hover.1, Bool.false_or, List.length_append, List.length_singleton, decide_eq_decide, hlen]
      omega
    rw [hpush]
    split
    · rename_i hfull
      -- the payload leaves room for some bytes, so the line that fills the bound is not blank
      have hrest : isBlankLine rest = false := by
        have hroom := length_payload hover.1
        rw [← Bool.not_eq_true, isBlankLine_iff]
        rintro (rfl | rfl)
        · rw [List.length_nil] at hlen
          omega
        · rw [List.length_singleton] at hlen
          omega
      refine ⟨h.events, fun h' => ?_, fun _ => ?_⟩
      · rw [hover', decide_eq_false_iff_not] at h'
        exact absurd hfull h'
      · rw [isBlankLine_concat hrest]
        exact ⟨rfl, rfl, rfl, rfl, fun h' => nomatch h'⟩
    · rename_i hfull
      refine ⟨h.events, fun _ => ⟨hdata, congrArg (· ++ [byte]) hline, hflag⟩, fun h' => ?_⟩
      rw [hover', decide_eq_true_iff] at h'
      exact absurd h' hfull

theorem overBound_blank (h : isBlankLine rest = true) :
    overBound payload (lines ++ [rest]) = overBound payload lines := by
  rw [overBound_concat]
  cases hover : overBound payload lines with
  | true => rfl
  | false =>
    rw [Bool.false_or, decide_eq_false_iff_not]
    have hroom := length_payload hover
    have hlen : rest.length ≤ 1 := by
      rcases isBlankLine_iff.1 h with rfl | rfl
      · exact Nat.zero_le 1
      · exact le_rfl
    omega

theorem overBound_concat_nil (h : overBound payload lines = false) :
    overBound payload (lines ++ [[]]) = false :=
  (overBound_blank rfl).trans h

theorem overBound_nil : overBound payload [[]] = false :=
  show overBound payload ([] ++ [[]]) = false from overBound_concat_nil rfl

theorem Reads.step_line (h : Reads p init lines rest s) :
    Reads p init (lines ++ [rest]) [] (s.pushByte p 10) := by
  have hfinish : s.pushByte p 10 = s.finishLine p := if_pos rfl
  rw [hfinish]
  cases hover : overBound payload ((cutEvents lines).2 ++ [rest]) with
  | true =>
    obtain ⟨hdata, -, hflag, hcontent, -⟩ := h.dropped hover
    rw [SseObserver.finishLine, if_pos hflag]
    cases hblank : isBlankLine rest with
    | true =>
      rw [overBound_blank hblank] at hover
      rw [hblank] at hcontent
      have hcut : cutEvents (lines ++ [rest]) = ((cutEvents lines).1 ++ [(cutEvents lines).2], []) := by
        rw [cutEvents_concat, if_pos hblank]
      refine ⟨?_, fun _ => ?_, fun h' => ?_⟩
      · rw [hcut, List.foldl_append, ← h.events, List.foldl_cons, List.foldl_nil, observeEvent, if_pos hover]
      · rw [hcut]
        exact ⟨hdata, rfl, hcontent⟩
      · rw [hcut] at h'
        exact absurd h' (ne_true_of_eq_false overBound_nil)
    | false =>
      rw [hblank] at hcontent
      have hcut : cutEvents (lines ++ [rest]) = ((cutEvents lines).1, (cutEvents lines).2 ++ [rest]) := by
        rw [cutEvents_concat, hblank]
        rfl
      refine ⟨?_, fun h' => ?_, fun _ => ⟨hdata, rfl, hcontent, rfl, fun _ => rfl⟩⟩
      · rw [hcut]
        exact h.events
      · rw [hcut, overBound_concat, hover] at h'
        cases h'
  | false =>
    obtain ⟨hdata, hline, hflag⟩ := h.kept hover
    rw [SseObserver.finishLine, hflag, if_neg Bool.false_ne_true]
    dsimp only
    rw [hline, hdata]
    cases hblank : isBlankLine rest with
    | true =>
      rw [overBound_blank hblank] at hover
      have hcut : cutEvents (lines ++ [rest]) = ((cutEvents lines).1 ++ [(cutEvents lines).2], []) := by
        rw [cutEvents_concat, if_pos hblank]
      rw [if_pos (show (stripCr rest).isEmpty = true from hblank)]
      refine ⟨?_, fun _ => ?_, fun h' => ?_⟩
      · rw [hcut, List.foldl_append, ← h.events, List.foldl_cons, List.foldl_nil, observeEvent, hover, ← hdata]
        rfl
      · rw [hcut]
        exact ⟨rfl, rfl, rfl⟩
      · rw [hcut] at h'
        exact absurd h' (ne_true_of_eq_false overBound_nil)
    | false =>
      have hcut : cutEvents (lines ++ [rest]) = ((cutEvents lines).1, (cutEvents lines).2 ++ [rest]) := by
        rw [cutEvents_concat, hblank]
        rfl
      have hover' := overBound_concat_nil hover
      rw [if_neg (show ¬(stripCr rest).isEmpty = true from ne_true_of_eq_false hblank)]
      split
      · rename_i hvalue
        refine ⟨hcut ▸ h.events, fun _ => ?_, fun h' => ?_⟩
        · rw [hcut, payload_other hvalue]
          exact ⟨rfl, rfl, rfl⟩
        · rw [hcut, hover'] at h'
          cases h'
      · rename_i data hvalue
        have hroom := length_payload hover
        rw [payload_value hvalue, List.length_append, List.length_append] at hroom
        have hfits : ¬maxEventBytes - (payload (cutEvents lines).2).length <
            data.length + (!(payload (cutEvents lines).2).isEmpty).toNat := by
          cases hempty : (payload (cutEvents lines).2).isEmpty with
          | true =>
            simp only [Bool.not_true, Bool.toNat_false]
            omega
          | false =>
            rw [hempty, if_neg Bool.false_ne_true, List.length_singleton] at hroom
            simp only [Bool.not_false, Bool.toNat_true]
            omega
        rw [if_neg hfits]
        refine ⟨hcut ▸ h.events, fun _ => ?_, fun h' => ?_⟩
        · rw [hcut, payload_value hvalue]
          refine ⟨?_, rfl, rfl⟩
          cases (payload (cutEvents lines).2).isEmpty <;> rfl
        · rw [hcut, hover'] at h'
          cases h'

theorem Reads.nil : Reads p init [] [] { state := init } :=
  ⟨rfl, fun _ => ⟨rfl, rfl, rfl⟩, fun h => absurd h (ne_true_of_eq_false overBound_nil)⟩

theorem Reads.push {bytes : List UInt8} (h : Reads p init (splitLines 10 bytes).1 (splitLines 10 bytes).2 s)
    (bytes' : List UInt8) :
    Reads p init (splitLines 10 (bytes ++ bytes')).1 (splitLines 10 (bytes ++ bytes')).2 (s.push p bytes') := by
  induction bytes' using List.reverseRecOn with
  | nil => rwa [List.append_nil]
  | append_singleton bytes' byte ih =>
    rw [SseObserver.push, List.foldl_append, ← List.append_assoc]
    by_cases hbyte : byte = 10
    · rw [hbyte, splitLines_concat_delim]
      exact ih.step_line
    · rw [splitLines_concat _ hbyte]
      exact ih.step_byte hbyte

theorem Reads.pushes (chunks : List (List UInt8)) :
    Reads p init (splitLines 10 chunks.flatten).1 (splitLines 10 chunks.flatten).2
      (chunks.foldl (SseObserver.push p) { state := init }) := by
  induction chunks using List.reverseRecOn with
  | nil => exact .nil
  | append_singleton chunks chunk ih =>
    rw [List.foldl_append, List.flatten_append, List.flatten_singleton]
    exact ih.push chunk

theorem Reads.retainedLen_le (h : Reads p init lines rest s) : s.retainedLen ≤ maxEventBytes := by
  cases hover : overBound payload ((cutEvents lines).2 ++ [rest]) with
  | true =>
    obtain ⟨hdata, hline, -⟩ := h.dropped hover
    rw [SseObserver.retainedLen, hdata, hline]
    exact Nat.zero_le _
  | false =>
    obtain ⟨hdata, hline, -⟩ := h.kept hover
    rw [overBound_concat, Bool.or_eq_false_iff, decide_eq_false_iff_not] at hover
    rw [SseObserver.retainedLen, hdata, hline]
    omega

/-- The observations of a whole stream. -/
def observe (p : Payloads σ Value ρ) (init : σ) (chunks : List (List UInt8)) (outcome : StreamOutcome)
    (promptEstimate : Option Nat) : ρ :=
  (chunks.foldl (SseObserver.push p) { state := init }).finish p outcome promptEstimate

theorem observe_eq (p : Payloads σ Value ρ) (init : σ) (chunks : List (List UInt8)) (outcome : StreamOutcome)
    (promptEstimate : Option Nat) :
    observe p init chunks outcome promptEstimate =
      reference p payload init chunks.flatten outcome promptEstimate := by
  have h : Reads p init _ _ _ := .pushes chunks
  rw [observe]
  generalize chunks.foldl (SseObserver.push p) { state := init } = s at h ⊢
  rw [reference, SseObserver.finish, SseObserver.rememberUnterminatedIndexes]
  generalize splitLines 10 chunks.flatten = cut at h ⊢
  obtain ⟨lines, rest⟩ := cut
  dsimp only at h ⊢
  rw [← h.events]
  cases hover : overBound payload ((cutEvents lines).2 ++ [rest]) with
  | true =>
    obtain ⟨hdata, hline, hflag, -⟩ := h.dropped hover
    rw [hdata, hline, hflag]
    rfl
  | false =>
    obtain ⟨hdata, hline, hflag⟩ := h.kept hover
    rw [hdata, hline, hflag]
    rfl

/-- The bytes stop where an event may begin. -/
def AtBoundary (bytes : List UInt8) : Prop :=
  (splitLines 10 bytes).2 = [] ∧ (cutEvents (splitLines 10 bytes).1).2 = []

/-- The bytes of an event over the bound and of the blank line that ends it. -/
structure OverEvent (lines : List (List UInt8)) (blank bytes : List UInt8) : Prop where
  content : ∀ line ∈ lines, 10 ∉ line ∧ isBlankLine line = false
  exceeds : overBound payload lines = true
  ended : isBlankLine blank = true
  joined : bytes = joinLines 10 (lines ++ [blank])

theorem AtBoundary.split {pre : List UInt8} (h : AtBoundary pre) (bytes : List UInt8) :
    splitLines 10 (pre ++ bytes) =
      ((splitLines 10 pre).1 ++ (splitLines 10 bytes).1, (splitLines 10 bytes).2) := by
  rw [splitLines_append, h.1]
  rfl

theorem AtBoundary.cut {pre : List UInt8} (h : AtBoundary pre) (bytes : List UInt8) :
    cutEvents (splitLines 10 (pre ++ bytes)).1 =
      ((cutEvents (splitLines 10 pre).1).1 ++ (cutEvents (splitLines 10 bytes).1).1,
        (cutEvents (splitLines 10 bytes).1).2) := by
  rw [h.split, cutEvents_append h.2]

theorem OverEvent.split {blank event : List UInt8} (h : OverEvent lines blank event) (suf : List UInt8) :
    splitLines 10 (event ++ suf) = (lines ++ blank :: (splitLines 10 suf).1, (splitLines 10 suf).2) := by
  have hmem : ∀ line ∈ lines ++ [blank], 10 ∉ line := by
    intro line hline
    rcases List.mem_append.1 hline with hline | hline
    · exact (h.content line hline).1
    · rw [List.mem_singleton.1 hline]
      rcases isBlankLine_iff.1 h.ended with hblank | hblank <;> rw [hblank] <;> decide
  rw [h.joined, splitLines_joinLines hmem, List.append_assoc]
  rfl

theorem OverEvent.cut {blank event : List UInt8} (h : OverEvent lines blank event) (suf : List UInt8) :
    cutEvents (splitLines 10 (event ++ suf)).1 =
      (lines :: (cutEvents (splitLines 10 suf).1).1, (cutEvents (splitLines 10 suf).1).2) := by
  have hevent : cutEvents (lines ++ [blank]) = ([lines], []) := by
    rw [cutEvents_concat, if_pos h.ended, cutEvents_open fun line hline => (h.content line hline).2]
    rfl
  rw [h.split, ← List.singleton_append, ← List.append_assoc, cutEvents_append (by rw [hevent]), hevent]
  rfl

/-- A stream that completes where its last event ends. -/
theorem reference_ended (f : List (List UInt8) → List UInt8) (hf : f [] = []) {bytes : List UInt8}
    {events : List (List (List UInt8))} (hsplit : splitLines 10 bytes = (lines, []))
    (hcut : cutEvents lines = (events, [])) (promptEstimate : Option Nat) :
    reference p f init bytes .completed promptEstimate =
      p.finish (events.foldl (observeEvent p f) (init, 0)).1 .completed false
        (some (events.foldl (observeEvent p f) (init, 0)).2) promptEstimate := by
  have hover : overBound f [[]] = false := by
    rw [← List.nil_append [[]], overBound_concat, hf]
    rfl
  simp only [reference, hsplit, hcut, List.nil_append, hover, hf]
  rfl

/-- An event over the bound leaves no trace. -/
theorem reference_overEvent {pre event : List UInt8} {blank : List UInt8} (hpre : AtBoundary pre)
    (h : OverEvent lines blank event) (suf : List UInt8) (outcome : StreamOutcome) (promptEstimate : Option Nat) :
    reference p payload init (pre ++ event ++ suf) outcome promptEstimate =
      reference p payload init (pre ++ suf) outcome promptEstimate := by
  have hevents : (cutEvents (splitLines 10 (pre ++ event ++ suf)).1).1.foldl (observeEvent p payload) (init, 0) =
      (cutEvents (splitLines 10 (pre ++ suf)).1).1.foldl (observeEvent p payload) (init, 0) := by
    rw [List.append_assoc, hpre.cut, h.cut, hpre.cut, List.foldl_append, List.foldl_append, List.foldl_cons]
    congr 1
    exact if_pos h.exceeds
  have hpending : (cutEvents (splitLines 10 (pre ++ event ++ suf)).1).2 =
      (cutEvents (splitLines 10 (pre ++ suf)).1).2 := by
    rw [List.append_assoc, hpre.cut, h.cut, hpre.cut]
  have hrest : (splitLines 10 (pre ++ event ++ suf)).2 = (splitLines 10 (pre ++ suf)).2 := by
    rw [List.append_assoc, hpre.split, h.split, hpre.split]
  unfold reference
  dsimp only
  rw [hevents, hpending, hrest]

/-- The observer reads what the reference reads, however the stream is cut; it never holds more than the bound;
and an event over the bound changes nothing for what stands before and after it. -/
theorem observe_reference (p : Payloads σ Value ρ) (init : σ) :
    (∀ (chunks : List (List UInt8)) outcome promptEstimate,
      observe p init chunks outcome promptEstimate =
        reference p payload init chunks.flatten outcome promptEstimate) ∧
    (∀ chunks : List (List UInt8),
      (chunks.foldl (SseObserver.push p) { state := init }).retainedLen ≤ maxEventBytes) ∧
    (∀ pre lines blank event suf (chunks chunks' : List (List UInt8)) outcome promptEstimate, AtBoundary pre →
      OverEvent lines blank event → chunks.flatten = pre ++ event ++ suf → chunks'.flatten = pre ++ suf →
      observe p init chunks outcome promptEstimate = observe p init chunks' outcome promptEstimate) := by
  refine ⟨observe_eq p init, fun chunks => (Reads.pushes (p := p) chunks).retainedLen_le, ?_⟩
  intro pre lines blank event suf chunks chunks' outcome promptEstimate hpre hevent hchunks hchunks'
  rw [observe_eq, observe_eq, hchunks, hchunks', reference_overEvent hpre hevent]

end

/-! ### The bound as documented, and an event at it -/

/-- The data values joined by line feeds. -/
def joinedValues (lines : List (List UInt8)) : List UInt8 := [10].intercalate (values lines)

def completionJson : List UInt8 := ascii "\x7b\"choices\":[\x7b\"index\":0\x7d]\x7d"

/-- Counts the completion events of a stream that completes. -/
def completions : Payloads Unit Unit (Option Nat) where
  fromStr text := if text.dropWhile (· = 32) = completionJson then some () else none
  observeStream state _ := (state, true)
  rememberChoiceIndexes state _ := state
  finish _ _ _ estimate _ := estimate

theorem observe_reference_longLine :
    observe completions () [joinLines 10 [List.replicate (maxEventBytes + 1) 120, []]] .completed none =
      observe completions () [[]] .completed none := by
  have hblank : isBlankLine (List.replicate (maxEventBytes + 1) 120) = false := by
    rw [← Bool.not_eq_true, isBlankLine_iff]
    rintro (h | h)
    · exact absurd (congrArg List.length h) (by rw [List.length_replicate]; decide)
    · exact absurd (congrArg List.length h) (by rw [List.length_replicate]; decide)
  have hevent : OverEvent [List.replicate (maxEventBytes + 1) 120] []
      (joinLines 10 [List.replicate (maxEventBytes + 1) 120, []]) := by
    refine ⟨fun line hline => ?_, ?_, rfl, rfl⟩
    · rw [List.mem_singleton.1 hline]
      exact ⟨fun h => absurd (List.eq_of_mem_replicate h) (by decide), hblank⟩
    · rw [← List.nil_append [_], overBound_concat, List.length_replicate]
      rfl
  exact (observe_reference completions ()).2.2 [] _ _ _ [] _ _ _ _ ⟨rfl, rfl⟩ hevent
    (by rw [List.flatten_singleton, List.nil_append, List.append_nil]) rfl

/-- A `data:` line as long as the bound: spaces, and a chunk of one choice. -/
def fullLine : List UInt8 :=
  ascii "data:" ++ (List.replicate (maxEventBytes - 5 - completionJson.length) 32 ++ completionJson)

def fullEvent : List UInt8 := joinLines 10 [ascii "data:", ascii "data:", fullLine, []]

theorem length_fullLine : fullLine.length = maxEventBytes := by
  have hjson : completionJson.length ≤ 100 := by decide
  have hfield : (ascii "data:").length = 5 := rfl
  rw [fullLine, List.length_append, List.length_append, List.length_replicate, hfield, maxEventBytes]
  omega

theorem stripCr_fullLine : stripCr fullLine = fullLine := by
  refine if_neg ?_
  rw [fullLine, List.getLast?_append, List.getLast?_append]
  decide

theorem dataValue_spaces (n : Nat) (text : List UInt8) :
    dataValue (ascii "data:" ++ (List.replicate (n + 1) 32 ++ text)) = some (List.replicate n 32 ++ text) := by
  rw [dataValue, if_pos (List.isPrefixOf_iff_prefix.2 (List.prefix_append _ _))]
  rfl

theorem dataValue_fullLine :
    ∃ n, dataValue (stripCr fullLine) = some (List.replicate n 32 ++ completionJson) := by
  refine ⟨maxEventBytes - 6 - completionJson.length, ?_⟩
  have hlen : maxEventBytes - 5 - completionJson.length = maxEventBytes - 6 - completionJson.length + 1 := by
    have hjson : completionJson.length ≤ 100 := by decide
    rw [maxEventBytes]
    omega
  rw [stripCr_fullLine, fullLine, hlen]
  exact dataValue_spaces _ _

theorem isBlankLine_fullLine : isBlankLine fullLine = false := by
  rw [isBlankLine, stripCr_fullLine, fullLine]
  rfl

theorem not_mem_fullLine : 10 ∉ fullLine := by
  intro h
  rcases List.mem_append.1 h with h | h
  · revert h
    decide
  · rcases List.mem_append.1 h with h | h
    · exact absurd (List.eq_of_mem_replicate h) (by decide)
    · revert h
      decide

theorem splitLines_fullEvent :
    splitLines 10 fullEvent = ([ascii "data:", ascii "data:", fullLine, []], []) := by
  have hmem : ∀ line ∈ [ascii "data:", ascii "data:", fullLine, []], 10 ∉ line := by
    intro line hline
    simp only [List.mem_cons, List.not_mem_nil, or_false] at hline
    rcases hline with rfl | rfl | rfl | rfl
    · decide
    · decide
    · exact not_mem_fullLine
    · exact List.not_mem_nil
  have := splitLines_joinLines hmem []
  rwa [List.append_nil] at this

theorem cutEvents_fullEvent :
    cutEvents [ascii "data:", ascii "data:", fullLine, []] = ([[ascii "data:", ascii "data:", fullLine]], []) := by
  have hopen : cutEvents [ascii "data:", ascii "data:", fullLine] = ([], [ascii "data:", ascii "data:", fullLine]) := by
    refine cutEvents_open fun line hline => ?_
    simp only [List.mem_cons, List.not_mem_nil, or_false] at hline
    rcases hline with rfl | rfl | rfl
    · decide
    · decide
    · exact isBlankLine_fullLine
  have := cutEvents_concat [ascii "data:", ascii "data:", fullLine] []
  rw [hopen] at this
  exact this

/-- Both values are empty: the observer has nothing yet, the reference a line feed. -/
theorem payload_emptyValues :
    payload [ascii "data:", ascii "data:"] = [] ∧ joinedValues [ascii "data:", ascii "data:"] = [10] := by
  decide

theorem overBound_fullEvent :
    overBound payload [ascii "data:", ascii "data:", fullLine] = false ∧
      overBound joinedValues [ascii "data:", ascii "data:", fullLine] = true := by
  obtain ⟨hpayload, hjoined⟩ := payload_emptyValues
  have h := fun f => overBound_concat f [ascii "data:", ascii "data:"] fullLine
  rw [List.cons_append, List.cons_append, List.nil_append] at h
  rw [h, h, hpayload, hjoined, length_fullLine]
  decide

theorem classify_fullEvent :
    classify completions ((), 0) (payload [ascii "data:", ascii "data:", fullLine]) = ((), 1) := by
  obtain ⟨n, hvalue⟩ := dataValue_fullLine
  have hpayload : payload [ascii "data:", ascii "data:", fullLine] = List.replicate n 32 ++ completionJson := by
    have h : payload ([ascii "data:", ascii "data:"] ++ [fullLine]) = _ := payload_value hvalue
    rw [payload_emptyValues.1, List.isEmpty_nil, if_pos rfl, List.nil_append, List.nil_append] at h
    exact h
  have hdone : List.replicate n 32 ++ completionJson ≠ ascii "[DONE]" := by
    intro h
    have hlast : completionJson.getLast? = some 125 := by decide
    have h' := congrArg List.getLast? h
    rw [List.getLast?_append, hlast, Option.some_or] at h'
    exact absurd h' (by decide)
  have hjson : completions.fromStr (List.replicate n 32 ++ completionJson) = some () := by
    refine if_pos ?_
    rw [List.dropWhile_append_of_pos fun a ha => decide_eq_true (List.eq_of_mem_replicate ha)]
    decide
  rw [hpayload, classify, if_neg hdone, hjson]
  rfl

/-- Two empty values before a line at the bound: their line feed would put the event over it, but the observer does
not count it. -/
theorem not_observe_joinedValues :
    observe completions () [fullEvent] .completed none = some 1 ∧
      reference completions joinedValues () fullEvent .completed none = some 0 := by
  have hfinish : ∀ f, f [] = [] → reference completions f () fullEvent .completed none = _ := fun f hf =>
    reference_ended f hf splitLines_fullEvent cutEvents_fullEvent none
  refine ⟨?_, ?_⟩
  · rw [observe_eq, List.flatten_singleton, hfinish payload rfl, List.foldl_cons, List.foldl_nil, observeEvent,
      overBound_fullEvent.1, if_neg Bool.false_ne_true, classify_fullEvent]
    rfl
  · rw [hfinish joinedValues rfl, List.foldl_cons, List.foldl_nil, observeEvent, if_pos overBound_fullEvent.2]
    rfl

end OpenProxy.Sse
