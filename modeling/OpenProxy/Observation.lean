import OpenProxy.Json
import OpenProxy.Lib.Join
import OpenProxy.Sse

/-!
# Response observations (`observation.rs`)

What the observer makes of the values of a response: five usage numbers, the finish reason of each choice and the
number of tool calls. A number or a reason that is seen again has to be the same; the tables of choices and of tool
calls are bounded. At the end the usage numbers are checked against each other.
-/

namespace OpenProxy.Observer

open Join Lines Sse

inductive Observation where
  | measured (n : Nat)
  | estimated (n : Nat)
  | unavailable
  | invalid
  deriving DecidableEq, Repr

structure UsageObservations where
  cachedTokens : Observation
  completionTokens : Observation
  promptTokens : Observation
  reasoningTokens : Observation
  totalTokens : Observation
  deriving DecidableEq, Repr

inductive FinishReason where
  | contentFilter
  | functionCall
  | length
  | other
  | stop
  | toolCalls
  deriving DecidableEq, Repr

inductive FinishResult where
  | measured (reason : FinishReason)
  | unavailable
  | invalid
  deriving DecidableEq, Repr

structure FinishObservation where
  choiceIndex : Nat
  result : FinishResult
  deriving DecidableEq, Repr

structure ResponseObservations where
  finishReasons : List FinishObservation
  toolCalls : Observation
  usage : UsageObservations
  deriving DecidableEq, Repr

def maxIndexedStreamObservations : Nat := 128

/-- A field that is missing or `null` says nothing. -/
def silent : Option Json.Value → Bool
  | none | some .null => true
  | _ => false

/-! ### What was seen -/

section
variable {α : Type} [DecidableEq α]

/-- `SeenNumber` and `SeenFinish` take a next value, which is never absent. -/
def seenNext (seen next : Flat α) : Flat α :=
  match seen, next with
  | .absent, next => next
  | .value a, .value b => if a = b then .value a else .invalid
  | _, _ => .invalid

/-- `observe` of `SeenNumber` and of `SeenFinish`; `read` says what the value is. -/
def seenObserve (read : Json.Value → Flat α) (seen : Flat α) (value : Option Json.Value) : Flat α :=
  match value with
  | none => seen
  | some value => if silent (some value) then seen else seenNext seen (read value)

end

abbrev SeenNumber := Flat Nat

namespace SeenNumber

def read (value : Json.Value) : SeenNumber := value.asU64.elim .invalid .value

def observe : SeenNumber → Option Json.Value → SeenNumber := seenObserve read

def result : SeenNumber → Observation
  | .absent => .unavailable
  | .invalid => .invalid
  | .value n => .measured n

end SeenNumber

abbrev SeenFinish := Flat FinishReason

namespace SeenFinish

def read (value : Json.Value) : SeenFinish :=
  match value.asStr with
  | some "content_filter" => .value .contentFilter
  | some "function_call" => .value .functionCall
  | some "length" => .value .length
  | some "stop" => .value .stop
  | some "tool_calls" => .value .toolCalls
  | some _ => .value .other
  | none => .invalid

def observe : SeenFinish → Option Json.Value → SeenFinish := seenObserve read

def result (seen : SeenFinish) (incomplete : Bool) : FinishResult :=
  if incomplete then .unavailable
  else
    match seen with
    | .absent => .unavailable
    | .invalid => .invalid
    | .value reason => .measured reason

end SeenFinish

/-! ### Usage -/

structure UsageState where
  cached : SeenNumber := .absent
  completion : SeenNumber := .absent
  prompt : SeenNumber := .absent
  reasoning : SeenNumber := .absent
  total : SeenNumber := .absent
  deriving DecidableEq

/-- A number in an object of details that may be missing. -/
def observeDetail (seen : SeenNumber) (details : Option Json.Value) (key : String) : SeenNumber :=
  match details with
  | none => seen
  | some .null => seen
  | some (.object fields) => seen.observe ((Json.Value.object fields).get key)
  | some _ => .invalid

namespace UsageState

def observe (s : UsageState) (usage : Option Json.Value) : UsageState :=
  match usage with
  | none => s
  | some .null => s
  | some (.object fields) =>
    let usage := Json.Value.object fields
    { prompt := s.prompt.observe (usage.get "prompt_tokens")
      completion := s.completion.observe (usage.get "completion_tokens")
      total := s.total.observe (usage.get "total_tokens")
      cached := observeDetail s.cached (usage.get "prompt_tokens_details") "cached_tokens"
      reasoning := observeDetail s.reasoning (usage.get "completion_tokens_details") "reasoning_tokens" }
  | some _ => ⟨.invalid, .invalid, .invalid, .invalid, .invalid⟩

end UsageState

/-- The total is at least what its parts add up to, and they add up to a number of 64 bits. -/
def checkTotal (prompt completion total : Observation) : Observation :=
  match prompt, completion with
  | .measured prompt, .measured completion =>
    if 2 ^ 64 ≤ prompt + completion then .invalid
    else
      match total with
      | .measured value => if value < prompt + completion then .invalid else total
      | _ => total
  | _, _ => total

/-- A measured part of a number is no more than the number. -/
def checkPart (part parent : Observation) : Observation :=
  match part with
  | .measured value =>
    match parent with
    | .measured n => if value ≤ n then part else .invalid
    | _ => .invalid
  | _ => part

def estimateOr (seen : Observation) (estimate : Option Nat) : Observation :=
  match seen with
  | .unavailable =>
    match estimate.filter (0 < ·) with
    | some count => .estimated count
    | none => .unavailable
  | _ => seen

def UsageState.finish (s : UsageState) (estimate promptEstimate : Option Nat) : UsageObservations :=
  let prompt := s.prompt.result
  let completion := s.completion.result
  { totalTokens := checkTotal prompt completion s.total.result
    cachedTokens := checkPart s.cached.result prompt
    reasoningTokens := checkPart s.reasoning.result completion
    completionTokens := estimateOr completion estimate
    promptTokens := estimateOr prompt promptEstimate }

def unavailableUsage : UsageObservations := ⟨.unavailable, .unavailable, .unavailable, .unavailable, .unavailable⟩

/-! ### The state -/

structure ObservationState where
  finishes : Std.ExtTreeMap Nat SeenFinish := ∅
  finishesOverflowed : Bool := false
  bufferedToolCalls : Nat := 0
  observedStream : Bool := false
  toolsInvalid : Bool := false
  toolsPresent : Bool := false
  toolPairs : Finset (Nat × Nat) := ∅
  usage : UsageState := {}

namespace ObservationState

/-- The table with an entry for the choice, and whether it has one. -/
def finishFor (s : ObservationState) (index : Nat) : ObservationState × Bool :=
  if index ∈ s.finishes ∨ s.finishes.size < maxIndexedStreamObservations then
    ({ s with finishes := s.finishes.insertIfNew index .absent }, true)
  else ({ s with finishesOverflowed := true }, false)

def observeFinish (s : ObservationState) (index : Nat) (finish : Option Json.Value) : ObservationState :=
  let (s, found) := s.finishFor index
  if found then { s with finishes := s.finishes.modify index (·.observe finish) } else s

theorem observeFinish_room {s : ObservationState} {index : Nat}
    (h : index ∈ s.finishes ∨ s.finishes.size < maxIndexedStreamObservations) (finish : Option Json.Value) :
    s.observeFinish index finish =
      { s with finishes := (s.finishes.insertIfNew index .absent).modify index (·.observe finish) } := by
  rw [observeFinish, finishFor, if_pos h]
  rfl

theorem observeFinish_full {s : ObservationState} {index : Nat}
    (h : ¬(index ∈ s.finishes ∨ s.finishes.size < maxIndexedStreamObservations)) (finish : Option Json.Value) :
    s.observeFinish index finish = { s with finishesOverflowed := true } := by
  rw [observeFinish, finishFor, if_neg h]
  rfl

def rememberToolPair (s : ObservationState) (pair : Nat × Nat) : ObservationState :=
  if pair ∈ s.toolPairs ∨ s.toolPairs.card < maxIndexedStreamObservations then
    { s with toolPairs := insert pair s.toolPairs }
  else { s with toolsInvalid := true }

def invalidTools (s : ObservationState) : ObservationState := { s with toolsInvalid := true }

/-- One choice of a buffered body, with the number of calls before it. -/
def observeMessage (a : ObservationState × Nat) (choice : Json.Value) : ObservationState × Nat :=
  match choice with
  | .object _ =>
    match (choice.get "index").bind Json.Value.asU64 with
    | none => (a.1.invalidTools, a.2)
    | some index =>
      let s := a.1.observeFinish index (choice.get "finish_reason")
      match choice.get "message" with
      | none => (s, a.2)
      | some (.object message) =>
        match (Json.Value.object message).get "tool_calls" with
        | none => (s, a.2)
        | some (.array toolCalls) =>
          if a.2 + toolCalls.length < 2 ^ 64 then (s, a.2 + toolCalls.length) else (s.invalidTools, a.2)
        | some _ => (s.invalidTools, a.2)
      | some _ => (s.invalidTools, a.2)
  | _ => (a.1.invalidTools, a.2)

def observeBuffered (s : ObservationState) (value : Json.Value) : ObservationState :=
  let s := { s with usage := s.usage.observe (value.get "usage") }
  match value.get "choices" with
  | none => s
  | some choices =>
    match choices.asArray with
    | none => s.invalidTools
    | some choices =>
      let (s, calls) := choices.foldl observeMessage ({ s with toolsPresent := true }, 0)
      { s with bufferedToolCalls := calls }

def observeToolCall (index : Nat) (s : ObservationState) (toolCall : Json.Value) : ObservationState :=
  match toolCall with
  | .object _ =>
    match (toolCall.get "index").bind Json.Value.asU64 with
    | none => s.invalidTools
    | some toolIndex => s.rememberToolPair (index, toolIndex)
  | _ => s.invalidTools

/-- One choice of a streamed value; the flag says whether the value counts as a completion event. -/
def observeDelta (a : ObservationState × Bool) (choice : Json.Value) : ObservationState × Bool :=
  match choice with
  | .object _ =>
    match (choice.get "index").bind Json.Value.asU64 with
    | none => (a.1.invalidTools, false)
    | some index =>
      let s := a.1.observeFinish index (choice.get "finish_reason")
      let countable := a.2 && silent (choice.get "finish_reason")
      match choice.get "delta" with
      | none => (s, countable)
      | some (.object delta) =>
        match (Json.Value.object delta).get "tool_calls" with
        | none => (s, countable)
        | some (.array toolCalls) => (toolCalls.foldl (observeToolCall index) s, countable)
        | some _ => (s.invalidTools, countable)
      | some _ => (s.invalidTools, countable)
  | _ => (a.1.invalidTools, false)

def observeStream (s : ObservationState) (value : Json.Value) : ObservationState × Bool :=
  let s := { s with observedStream := true, usage := s.usage.observe (value.get "usage") }
  match value.get "choices" with
  | none => (s, false)
  | some choices =>
    match choices.asArray with
    | none => (s.invalidTools, false)
    | some choices => choices.foldl observeDelta ({ s with toolsPresent := true }, !choices.isEmpty)

def rememberChoiceIndexes (s : ObservationState) (value : Json.Value) : ObservationState :=
  match (value.get "choices").bind Json.Value.asArray with
  | none => s
  | some choices =>
    choices.foldl (fun s choice =>
      match (choice.get "index").bind Json.Value.asU64 with
      | none => s
      | some index => (s.finishFor index).1) s

def finish (s : ObservationState) (outcome : StreamOutcome) (incomplete : Bool) (estimate promptEstimate : Option Nat) :
    ResponseObservations where
  usage := if outcome = .disconnected ∨ outcome = .truncated then unavailableUsage
    else s.usage.finish estimate promptEstimate
  toolCalls :=
    if incomplete then .unavailable
    else if s.toolsInvalid then .invalid
    else if !s.toolsPresent then .unavailable
    else if s.observedStream then .measured s.toolPairs.card
    else .measured s.bufferedToolCalls
  finishReasons := s.finishes.toList.map fun (choiceIndex, seen) =>
    ⟨choiceIndex,
      if incomplete then seen.result true
      else if s.finishesOverflowed then .invalid
      else seen.result false⟩

end ObservationState

section
variable (fromStr : List UInt8 → Option Json.Value)

/-- The observer of an event stream over the JSON library's `from_str`. -/
def payloads : Payloads ObservationState Json.Value ResponseObservations where
  fromStr := fromStr
  observeStream := ObservationState.observeStream
  rememberChoiceIndexes := ObservationState.rememberChoiceIndexes
  finish := ObservationState.finish

def observeStreamed (chunks : List (List UInt8)) (outcome : StreamOutcome) (promptEstimate : Option Nat) :
    ResponseObservations :=
  observe (payloads fromStr) {} chunks outcome promptEstimate

/-- `observe_buffered` of a body, over `from_slice`. -/
def observeBuffered (fromSlice : List UInt8 → Option Json.Value) (body : List UInt8) (promptEstimate : Option Nat) :
    ResponseObservations :=
  let state : ObservationState := (fromSlice body).elim {} (ObservationState.observeBuffered {})
  state.finish .completed false none promptEstimate

end

/-! ### Seen values form a join -/

section
variable {α : Type} [DecidableEq α] {read : Json.Value → Flat α}

theorem seenNext_eq_sup (seen : Flat α) {next : Flat α} (h : next ≠ .absent) : seenNext seen next = seen ⊔ next := by
  rw [Flat.sup_eq_join]
  cases seen <;> cases next <;> simp_all [seenNext, Flat.join]

theorem seenObserve_of_silent (read : Json.Value → Flat α) (seen : Flat α) {value : Option Json.Value}
    (h : silent value = true) : seenObserve read seen value = seen := by
  cases value with
  | none => rfl
  | some value => rw [seenObserve, if_pos h]

theorem seenObserve_eq_sup (hread : ∀ value, read value ≠ .absent) (seen : Flat α) (value : Option Json.Value) :
    seenObserve read seen value = seen ⊔ seenObserve read ⊥ value := by
  cases hsilent : silent value with
  | true => rw [seenObserve_of_silent read _ hsilent, seenObserve_of_silent read _ hsilent, sup_bot_eq]
  | false =>
    obtain _ | value := value
    · cases hsilent
    · simp only [seenObserve, hsilent, Bool.false_eq_true, if_false]
      rw [seenNext_eq_sup _ (hread value), seenNext_eq_sup _ (hread value), bot_sup_eq]

theorem seenObserve_bot_iff (hread : ∀ value, read value ≠ .absent) (value : Option Json.Value) :
    seenObserve read ⊥ value = ⊥ ↔ silent value = true := by
  refine ⟨fun h => ?_, seenObserve_of_silent read _⟩
  by_contra hsilent
  obtain _ | value := value
  · exact hsilent rfl
  · simp only [seenObserve, if_neg hsilent] at h
    rw [seenNext_eq_sup _ (hread value), bot_sup_eq] at h
    exact hread value h

end

theorem SeenNumber.read_ne_absent (value : Json.Value) : SeenNumber.read value ≠ .absent := by
  rw [SeenNumber.read]
  cases value.asU64 <;> simp

theorem SeenFinish.read_ne_absent (value : Json.Value) : SeenFinish.read value ≠ .absent := by
  rw [SeenFinish.read]
  split <;> simp

theorem SeenNumber.observe_eq_sup (seen : SeenNumber) (value : Option Json.Value) :
    seen.observe value = seen ⊔ observe ⊥ value :=
  seenObserve_eq_sup read_ne_absent seen value

theorem SeenFinish.observe_eq_sup (seen : SeenFinish) (value : Option Json.Value) :
    seen.observe value = seen ⊔ observe ⊥ value :=
  seenObserve_eq_sup read_ne_absent seen value

theorem observeDetail_eq_sup (seen : SeenNumber) (details : Option Json.Value) (key : String) :
    observeDetail seen details key = seen ⊔ observeDetail ⊥ details key := by
  unfold observeDetail
  split
  · rw [sup_bot_eq]
  · rw [sup_bot_eq]
  · exact SeenNumber.observe_eq_sup _ _
  · exact (sup_top_eq seen).symm

namespace UsageState

def fields (s : UsageState) : SeenNumber × SeenNumber × SeenNumber × SeenNumber × SeenNumber :=
  (s.cached, s.completion, s.prompt, s.reasoning, s.total)

theorem fields_injective : Function.Injective fields := by
  rintro ⟨⟩ ⟨⟩ h
  simp only [fields, Prod.mk.injEq] at h
  simp only [mk.injEq]
  exact h

instance : SemilatticeSup UsageState where
  le s s' := s.fields ≤ s'.fields
  le_refl s := le_refl s.fields
  le_trans s s' s'' h h' := le_trans (α := SeenNumber × SeenNumber × SeenNumber × SeenNumber × SeenNumber) h h'
  le_antisymm s s' h h' := fields_injective (le_antisymm h h')
  sup s s' := ⟨s.cached ⊔ s'.cached, s.completion ⊔ s'.completion, s.prompt ⊔ s'.prompt, s.reasoning ⊔ s'.reasoning,
    s.total ⊔ s'.total⟩
  le_sup_left s s' := (le_sup_left : s.fields ≤ s.fields ⊔ s'.fields)
  le_sup_right s s' := (le_sup_right : s'.fields ≤ s.fields ⊔ s'.fields)
  sup_le s s' s'' h h' := (sup_le h h' : s.fields ⊔ s'.fields ≤ s''.fields)

instance : OrderBot UsageState where
  bot := {}
  bot_le s := (bot_le : (⊥ : SeenNumber × SeenNumber × SeenNumber × SeenNumber × SeenNumber) ≤ s.fields)

@[simp] theorem sup_completion (s s' : UsageState) : (s ⊔ s').completion = s.completion ⊔ s'.completion := rfl

@[simp] theorem sup_prompt (s s' : UsageState) : (s ⊔ s').prompt = s.prompt ⊔ s'.prompt := rfl

theorem observe_eq_sup (s : UsageState) (usage : Option Json.Value) : s.observe usage = s ⊔ observe ⊥ usage := by
  unfold observe
  split
  · exact (sup_bot_eq s).symm
  · exact (sup_bot_eq s).symm
  · exact fields_injective <| Prod.ext (observeDetail_eq_sup _ _ _) <| Prod.ext (SeenNumber.observe_eq_sup _ _) <|
      Prod.ext (SeenNumber.observe_eq_sup _ _) <| Prod.ext (observeDetail_eq_sup _ _ _) (SeenNumber.observe_eq_sup _ _)
  · refine (sup_eq_right.2 ?_).symm
    show s.fields ≤ (⊤, ⊤, ⊤, ⊤, ⊤)
    exact ⟨le_top, le_top, le_top, le_top, le_top⟩

end UsageState

/-- The value says nothing of the number. -/
def unreported (key : String) (value : Json.Value) : Bool :=
  match value.get "usage" with
  | none | some .null => true
  | some (.object fields) => silent ((Json.Value.object fields).get key)
  | some _ => false

def usageOf (value : Json.Value) : UsageState := UsageState.observe ⊥ (value.get "usage")

theorem completion_usageOf (value : Json.Value) :
    (usageOf value).completion = ⊥ ↔ unreported "completion_tokens" value = true := by
  unfold usageOf UsageState.observe unreported
  split
  · exact iff_of_true rfl rfl
  · exact iff_of_true rfl rfl
  · exact seenObserve_bot_iff SeenNumber.read_ne_absent _
  · simp [Flat.bot_eq]

theorem prompt_usageOf (value : Json.Value) :
    (usageOf value).prompt = ⊥ ↔ unreported "prompt_tokens" value = true := by
  unfold usageOf UsageState.observe unreported
  split
  · exact iff_of_true rfl rfl
  · exact iff_of_true rfl rfl
  · exact seenObserve_bot_iff SeenNumber.read_ne_absent _
  · simp [Flat.bot_eq]

/-! ### What a value tells, one thing at a time -/

inductive Note where
  | stream
  | usage (value : Option Json.Value)
  | malformed
  | present
  | finish (index : Nat) (value : Option Json.Value)
  | pair (pair : Nat × Nat)

def Note.ofToolCall (index : Nat) (toolCall : Json.Value) : Note :=
  match toolCall with
  | .object _ =>
    match (toolCall.get "index").bind Json.Value.asU64 with
    | none => .malformed
    | some toolIndex => .pair (index, toolIndex)
  | _ => .malformed

def Note.ofChoice (choice : Json.Value) : List Note :=
  match choice with
  | .object _ =>
    match (choice.get "index").bind Json.Value.asU64 with
    | none => [.malformed]
    | some index =>
      .finish index (choice.get "finish_reason") ::
      match choice.get "delta" with
      | none => []
      | some (.object delta) =>
        match (Json.Value.object delta).get "tool_calls" with
        | none => []
        | some (.array toolCalls) => toolCalls.map (ofToolCall index)
        | some _ => [.malformed]
      | some _ => [.malformed]
  | _ => [.malformed]

def notes (value : Json.Value) : List Note :=
  .stream :: .usage (value.get "usage") ::
  match value.get "choices" with
  | none => []
  | some choices =>
    match choices.asArray with
    | none => [.malformed]
    | some choices => .present :: choices.flatMap Note.ofChoice

def usageOfNote : Note → UsageState
  | .usage value => UsageState.observe ⊥ value
  | _ => ⊥

namespace ObservationState

def note (s : ObservationState) : Note → ObservationState
  | .stream => { s with observedStream := true }
  | .usage value => { s with usage := s.usage.observe value }
  | .malformed => s.invalidTools
  | .present => { s with toolsPresent := true }
  | .finish index value => s.observeFinish index value
  | .pair pair => s.rememberToolPair pair

theorem observeToolCall_eq (index : Nat) (s : ObservationState) (toolCall : Json.Value) :
    observeToolCall index s toolCall = s.note (.ofToolCall index toolCall) := by
  unfold observeToolCall Note.ofToolCall
  split
  · split <;> rfl
  · rfl

theorem observeDelta_fst (a : ObservationState × Bool) (choice : Json.Value) :
    (observeDelta a choice).1 = (Note.ofChoice choice).foldl note a.1 := by
  unfold observeDelta Note.ofChoice
  split
  · split
    · rfl
    · rw [List.foldl_cons]
      dsimp only
      split
      · rfl
      · split
        · rfl
        · rename_i index _ _ _ _ _ _ _
          rw [List.foldl_map, ← funext fun s => funext (observeToolCall_eq index s)]
          rfl
        · rfl
      · rfl
  · rfl

theorem observeStream_fst (s : ObservationState) (value : Json.Value) :
    (s.observeStream value).1 = (notes value).foldl note s := by
  unfold observeStream notes
  rw [List.foldl_cons, List.foldl_cons]
  dsimp only
  split
  · rfl
  · split
    · rfl
    · rename_i choices _
      rw [List.foldl_cons]
      show (List.foldl observeDelta (((s.note .stream).note (.usage (value.get "usage"))).note .present, _) choices).1 = _
      generalize ((s.note .stream).note (.usage (value.get "usage"))).note .present = s
      generalize (!choices.isEmpty) = countable
      clear * -
      induction choices generalizing s countable with
      | nil => rfl
      | cons choice choices ih =>
        rw [List.foldl_cons, List.flatMap_cons, List.foldl_append, ← observeDelta_fst (s, countable) choice]
        exact ih _ _

theorem usage_finishFor (s : ObservationState) (index : Nat) : (s.finishFor index).1.usage = s.usage := by
  rw [finishFor]
  split <;> rfl

theorem usage_note (s : ObservationState) (n : Note) : (s.note n).usage = s.usage ⊔ usageOfNote n := by
  cases n with
  | usage value => exact UsageState.observe_eq_sup s.usage value
  | finish index value =>
    rw [← usage_finishFor s index]
    refine (?_ : (s.observeFinish index value).usage = _).trans (sup_bot_eq _).symm
    unfold observeFinish
    dsimp only
    split <;> rfl
  | pair pair =>
    refine (?_ : (s.rememberToolPair pair).usage = _).trans (sup_bot_eq _).symm
    rw [rememberToolPair]
    split <;> rfl
  | _ => exact (sup_bot_eq _).symm

theorem usage_notes (s : ObservationState) (l : List Note) :
    (l.foldl note s).usage = l.foldl (fun u n => u ⊔ usageOfNote n) s.usage :=
  (List.foldl_hom usage fun s n => (usage_note s n).symm).symm

theorem usage_rememberChoiceIndexes (s : ObservationState) (value : Json.Value) :
    (s.rememberChoiceIndexes value).usage = s.usage := by
  rw [rememberChoiceIndexes]
  split
  · rfl
  · refine List.foldlRecOn (motive := fun t : ObservationState => t.usage = s.usage) _ _ rfl fun t ht choice _ => ?_
    split
    · exact ht
    · rw [usage_finishFor, ht]

theorem usageOfNote_ofChoice {choice : Json.Value} {n : Note} (h : n ∈ Note.ofChoice choice) : usageOfNote n = ⊥ := by
  unfold Note.ofChoice at h
  split at h
  · split at h
    · rw [List.mem_singleton.1 h]
      rfl
    · rcases List.mem_cons.1 h with rfl | h
      · rfl
      · split at h
        · simp at h
        · split at h
          · simp at h
          · obtain ⟨toolCall, -, rfl⟩ := List.mem_map.1 h
            unfold Note.ofToolCall
            split
            · split <;> rfl
            · rfl
          · rw [List.mem_singleton.1 h]
            rfl
        · rw [List.mem_singleton.1 h]
          rfl
  · rw [List.mem_singleton.1 h]
    rfl

theorem usage_observeStream (s : ObservationState) (value : Json.Value) :
    (s.observeStream value).1.usage = s.usage ⊔ usageOf value := by
  rw [observeStream_fst, usage_notes, notes, List.foldl_cons, List.foldl_cons]
  show List.foldl _ ((s.usage ⊔ ⊥) ⊔ usageOf value) _ = _
  rw [sup_bot_eq]
  refine foldl_sup_eq_of_le fun n hn => le_of_eq_of_le ?_ bot_le
  split at hn
  · simp at hn
  · split at hn
    · rw [List.mem_singleton.1 hn]
      rfl
    · rcases List.mem_cons.1 hn with rfl | hn
      · rfl
      · obtain ⟨choice, -, hn⟩ := List.mem_flatMap.1 hn
        exact usageOfNote_ofChoice hn

theorem usage_stream (s : ObservationState) (values : List Json.Value) :
    (values.foldl (fun s value => (s.observeStream value).1) s).usage =
      values.foldl (fun u value => u ⊔ usageOf value) s.usage :=
  (List.foldl_hom usage fun s value => (usage_observeStream s value).symm).symm

end ObservationState

/-! ### The stream -/

section
variable (fromStr : List UInt8 → Option Json.Value)

/-- The value of an event, if the observer makes one of it. -/
def eventValue (event : List (List UInt8)) : Option Json.Value :=
  if overBound payload event ∨ payload event = ascii "[DONE]" then none else fromStr (payload event)

/-- The values that the observer sees of a stream. -/
def received (bytes : List UInt8) : List Json.Value :=
  (cutEvents (splitLines 10 bytes).1).1.filterMap (eventValue fromStr)

theorem observeEvent_fst (a : ObservationState × Nat) (event : List (List UInt8)) :
    (observeEvent (payloads fromStr) payload a event).1 =
      (eventValue fromStr event).elim a.1 fun value => (a.1.observeStream value).1 := by
  unfold observeEvent eventValue classify
  split
  · rename_i hover
    rw [if_pos (.inl hover)]
    rfl
  · rename_i hover
    split
    · rename_i hdone
      rw [if_pos (.inr hdone)]
      rfl
    · rename_i hdone
      rw [if_neg (by simp [hover, hdone])]
      dsimp only [payloads]
      cases fromStr (payload event) <;> rfl

theorem observeEvents_fst (events : List (List (List UInt8))) (a : ObservationState × Nat) :
    (events.foldl (observeEvent (payloads fromStr) payload) a).1 =
      (events.filterMap (eventValue fromStr)).foldl (fun s value => (s.observeStream value).1) a.1 := by
  induction events generalizing a with
  | nil => rfl
  | cons event events ih =>
    rw [List.foldl_cons, ih, observeEvent_fst]
    cases heq : eventValue fromStr event with
    | none => rw [List.filterMap_cons_none heq]; rfl
    | some value => rw [List.filterMap_cons_some heq]; rfl

theorem usage_rememberPayload (s : ObservationState) (data : List UInt8) :
    (rememberPayload (payloads fromStr) s data).usage = s.usage := by
  rw [rememberPayload]
  split
  · rfl
  · exact ObservationState.usage_rememberChoiceIndexes _ _

/-- The usage at the end is that of the values, whatever the last bytes are. -/
theorem observeStreamed_usage (chunks : List (List UInt8)) (outcome : StreamOutcome) (promptEstimate : Option Nat) :
    ∃ s : ObservationState, s.usage = (received fromStr chunks.flatten).foldl (fun u value => u ⊔ usageOf value) ⊥ ∧
      ∃ incomplete estimate, observeStreamed fromStr chunks outcome promptEstimate =
        s.finish outcome incomplete estimate promptEstimate := by
  rw [observeStreamed, observe_eq, reference, received]
  generalize splitLines 10 chunks.flatten = cut
  obtain ⟨lines, rest⟩ := cut
  dsimp only
  generalize (if overBound payload ((cutEvents lines).2 ++ [rest]) then [] else payload (cutEvents lines).2) = data
  generalize (if overBound payload ((cutEvents lines).2 ++ [rest]) then [] else rest) = line
  generalize hevents : (cutEvents lines).1.foldl (observeEvent (payloads fromStr) payload) ({}, 0) = a
  refine ⟨_, ?_, _, _, rfl⟩
  have husage : a.1.usage = _ := (congrArg ObservationState.usage
    (hevents ▸ observeEvents_fst fromStr (cutEvents lines).1 ({}, 0))).trans (ObservationState.usage_stream _ _)
  refine Eq.trans ?_ husage
  split
  · cases dataValue line with
    | none => exact usage_rememberPayload fromStr _ _
    | some value => exact (usage_rememberPayload fromStr _ _).trans (usage_rememberPayload fromStr _ _)
  · rfl

end

/-! ### Consistency of the final usage -/

structure Consistent (values : List Json.Value) (u : UsageObservations) : Prop where
  cached_le : ∀ n, u.cachedTokens = .measured n → ∃ prompt, u.promptTokens = .measured prompt ∧ n ≤ prompt
  reasoning_le : ∀ n, u.reasoningTokens = .measured n →
    ∃ completion, u.completionTokens = .measured completion ∧ n ≤ completion
  le_total : ∀ total prompt completion, u.totalTokens = .measured total → u.promptTokens = .measured prompt →
    u.completionTokens = .measured completion → prompt + completion < 2 ^ 64 ∧ prompt + completion ≤ total
  not_estimated : ∀ n, u.cachedTokens ≠ .estimated n ∧ u.reasoningTokens ≠ .estimated n ∧ u.totalTokens ≠ .estimated n
  prompt_estimated : ∀ n, u.promptTokens = .estimated n →
    0 < n ∧ ∀ value ∈ values, unreported "prompt_tokens" value = true
  completion_estimated : ∀ n, u.completionTokens = .estimated n →
    0 < n ∧ ∀ value ∈ values, unreported "completion_tokens" value = true

theorem SeenNumber.result_ne_estimated (seen : SeenNumber) (n : Nat) : seen.result ≠ .estimated n := by
  cases seen <;> simp [SeenNumber.result]

theorem SeenNumber.result_eq_unavailable {seen : SeenNumber} : seen.result = .unavailable ↔ seen = ⊥ := by
  cases seen <;> simp [SeenNumber.result, Flat.bot_eq]

theorem estimateOr_eq_measured {seen : Observation} {estimate : Option Nat} {n : Nat} :
    estimateOr seen estimate = .measured n ↔ seen = .measured n := by
  unfold estimateOr
  split
  · split <;> simp
  · rfl

theorem estimateOr_eq_estimated {seen : Observation} {estimate : Option Nat} {n : Nat} (hseen : seen ≠ .estimated n)
    (h : estimateOr seen estimate = .estimated n) : seen = .unavailable ∧ 0 < n := by
  unfold estimateOr at h
  split at h
  · split at h
    · rename_i hcount
      cases h
      exact ⟨rfl, by simpa using (Option.filter_eq_some_iff.1 hcount).2⟩
    · cases h
  · exact absurd h hseen

theorem checkPart_eq_measured {part parent : Observation} {n : Nat} (h : checkPart part parent = .measured n) :
    ∃ m, parent = .measured m ∧ n ≤ m := by
  unfold checkPart at h
  split at h
  · split at h
    · split at h
      · rename_i hle
        cases h
        exact ⟨_, rfl, hle⟩
      · cases h
    · cases h
  · rename_i hpart
    exact absurd h (hpart n)

theorem checkPart_ne_estimated {part : Observation} {n : Nat} (hpart : part ≠ .estimated n) (parent : Observation) :
    checkPart part parent ≠ .estimated n := by
  unfold checkPart
  split
  · split
    · split <;> simp
    · simp
  · exact hpart

theorem checkTotal_ne_estimated (prompt completion : Observation) {total : Observation} {n : Nat}
    (htotal : total ≠ .estimated n) : checkTotal prompt completion total ≠ .estimated n := by
  unfold checkTotal
  split
  · split
    · simp
    · split
      · split <;> simp
      · exact htotal
  · exact htotal

theorem checkTotal_eq_measured {prompt completion n : Nat} {total : Observation}
    (h : checkTotal (.measured prompt) (.measured completion) total = .measured n) :
    prompt + completion < 2 ^ 64 ∧ prompt + completion ≤ n := by
  simp only [checkTotal] at h
  split at h
  · cases h
  · split at h
    · split at h
      · cases h
      · cases h
        omega
    · rename_i htotal
      exact absurd h (htotal n)

theorem consistent_finish {values : List Json.Value} {s : UsageState}
    (hprompt : s.prompt = ⊥ → ∀ value ∈ values, unreported "prompt_tokens" value = true)
    (hcompletion : s.completion = ⊥ → ∀ value ∈ values, unreported "completion_tokens" value = true)
    (estimate promptEstimate : Option Nat) : Consistent values (s.finish estimate promptEstimate) where
  cached_le n h := by
    obtain ⟨prompt, hp, hle⟩ := checkPart_eq_measured h
    exact ⟨prompt, estimateOr_eq_measured.2 hp, hle⟩
  reasoning_le n h := by
    obtain ⟨completion, hc, hle⟩ := checkPart_eq_measured h
    exact ⟨completion, estimateOr_eq_measured.2 hc, hle⟩
  le_total total prompt completion ht hp hc := by
    replace ht : checkTotal s.prompt.result s.completion.result s.total.result = .measured total := ht
    rw [estimateOr_eq_measured.1 hp, estimateOr_eq_measured.1 hc] at ht
    exact checkTotal_eq_measured ht
  not_estimated n := ⟨checkPart_ne_estimated (s.cached.result_ne_estimated n) _,
    checkPart_ne_estimated (s.reasoning.result_ne_estimated n) _,
    checkTotal_ne_estimated _ _ (s.total.result_ne_estimated n)⟩
  prompt_estimated n h := by
    obtain ⟨hseen, hpos⟩ := estimateOr_eq_estimated (s.prompt.result_ne_estimated n) h
    exact ⟨hpos, hprompt (SeenNumber.result_eq_unavailable.1 hseen)⟩
  completion_estimated n h := by
    obtain ⟨hseen, hpos⟩ := estimateOr_eq_estimated (s.completion.result_ne_estimated n) h
    exact ⟨hpos, hcompletion (SeenNumber.result_eq_unavailable.1 hseen)⟩

theorem consistent_unavailable (values : List Json.Value) : Consistent values unavailableUsage := by
  constructor <;> simp [unavailableUsage]

theorem prompt_join (values : List Json.Value) (u : UsageState) :
    (values.foldl (fun u value => u ⊔ usageOf value) u).prompt =
      values.foldl (fun n value => n ⊔ (usageOf value).prompt) u.prompt :=
  (List.foldl_hom UsageState.prompt fun _ _ => rfl).symm

theorem completion_join (values : List Json.Value) (u : UsageState) :
    (values.foldl (fun u value => u ⊔ usageOf value) u).completion =
      values.foldl (fun n value => n ⊔ (usageOf value).completion) u.completion :=
  (List.foldl_hom UsageState.completion fun _ _ => rfl).symm

theorem consistent_of_join {values : List Json.Value} {s : UsageState}
    (hs : s = values.foldl (fun u value => u ⊔ usageOf value) ⊥) (estimate promptEstimate : Option Nat) :
    Consistent values (s.finish estimate promptEstimate) := by
  refine consistent_finish (fun h value hvalue => ?_) (fun h value hvalue => ?_) estimate promptEstimate
  · rw [hs, prompt_join] at h
    exact (prompt_usageOf value).1 (foldl_sup_eq_bot_iff.1 h value hvalue)
  · rw [hs, completion_join] at h
    exact (completion_usageOf value).1 (foldl_sup_eq_bot_iff.1 h value hvalue)

theorem usage_observeMessage (a : ObservationState × Nat) (choice : Json.Value) :
    (ObservationState.observeMessage a choice).1.usage = a.1.usage := by
  have hfinish (index : Nat) (value : Option Json.Value) : (a.1.observeFinish index value).usage = a.1.usage :=
    (ObservationState.usage_note a.1 (.finish index value)).trans (sup_bot_eq _)
  unfold ObservationState.observeMessage
  split
  · split
    · rfl
    · dsimp only
      split
      · exact hfinish _ _
      · split
        · exact hfinish _ _
        · split <;> exact hfinish _ _
        · exact hfinish _ _
      · exact hfinish _ _
  · rfl

theorem usage_observeBuffered (s : ObservationState) (value : Json.Value) :
    (s.observeBuffered value).usage = s.usage ⊔ usageOf value := by
  rw [usageOf, ← UsageState.observe_eq_sup]
  unfold ObservationState.observeBuffered
  dsimp only
  split
  · rfl
  · split
    · rfl
    · rename_i choices _
      refine List.foldlRecOn (motive := fun t : ObservationState × Nat => t.1.usage = _) choices _ rfl ?_
      intro a ha choice _
      rw [usage_observeMessage, ha]

/-- The final usage of a streamed and of a buffered response is consistent, and nothing is said of a response that was
cut off. -/
theorem final_usage_consistent (fromStr fromSlice : List UInt8 → Option Json.Value) (promptEstimate : Option Nat) :
    (∀ chunks outcome,
      Consistent (received fromStr chunks.flatten) (observeStreamed fromStr chunks outcome promptEstimate).usage ∧
      (outcome = .disconnected ∨ outcome = .truncated →
        (observeStreamed fromStr chunks outcome promptEstimate).usage = unavailableUsage)) ∧
    ∀ body, Consistent (fromSlice body).toList (observeBuffered fromSlice body promptEstimate).usage := by
  refine ⟨fun chunks outcome => ?_, fun body => ?_⟩
  · obtain ⟨s, hs, incomplete, estimate, hfinal⟩ := observeStreamed_usage fromStr chunks outcome promptEstimate
    rw [hfinal]
    show Consistent _ (if _ then _ else _) ∧ (_ → (if _ then _ else _) = _)
    split
    · exact ⟨consistent_unavailable _, fun _ => rfl⟩
    · rename_i houtcome
      exact ⟨consistent_of_join hs estimate promptEstimate, fun h => absurd h houtcome⟩
  · refine consistent_of_join (s := ((fromSlice body).elim {} (ObservationState.observeBuffered {})).usage) ?_ none
      promptEstimate
    cases fromSlice body with
    | none => rfl
    | some value => exact usage_observeBuffered {} value

end OpenProxy.Observer
