import OpenProxy.Reordering

/-!
# Buffered and streamed observation (`observe_buffered`, `observe_stream` of `observation.rs`)

A buffered body and an event of a stream are read in loops of their own, the tool calls of a choice from its `message`
in the first and from its `delta` in the second. What else the loops read of a document they read alike.
-/

namespace OpenProxy.Observer

open Join Lines Sse

/-! ### A stream of one event -/

def dataLine (document : List UInt8) : List UInt8 := ascii "data: " ++ document

/-- The only event of the stream carries the document, in lines that end with LF or with CRLF. -/
structure Carries (document stream : List UInt8) : Prop where
  lf : 10 ∉ document
  cr : 13 ∉ document
  framed : ∃ cr ∈ [[], [13]], (dataLine document ++ cr).length ≤ maxEventBytes ∧
    stream = joinLines 10 [dataLine document ++ cr, cr]

section
variable {document stream cr : List UInt8}

theorem stripCr_dataLine (h : 13 ∉ document) (hcr : cr ∈ [[], [13]]) :
    stripCr (dataLine document ++ cr) = dataLine document := by
  rcases List.mem_cons.1 hcr with rfl | hcr
  · rw [List.append_nil]
    refine if_neg fun hlast => ?_
    rcases List.mem_append.1 (List.mem_of_getLast? hlast) with hmem | hmem
    · exact absurd hmem (by decide)
    · exact h hmem
  · obtain rfl := List.mem_singleton.1 hcr
    rw [stripCr, if_pos List.getLast?_concat, List.dropLast_concat]

theorem dataValue_dataLine (document : List UInt8) : dataValue (dataLine document) = some document :=
  dataValue_spaces 0 document

theorem payload_dataLine (h : 13 ∉ document) (hcr : cr ∈ [[], [13]]) : payload [dataLine document ++ cr] = document := by
  have hvalue : payload ([] ++ [dataLine document ++ cr]) = _ :=
    payload_value ((congrArg dataValue (stripCr_dataLine h hcr)).trans (dataValue_dataLine document))
  rw [List.nil_append] at hvalue
  rw [hvalue]
  rfl

theorem isBlankLine_dataLine (h : 13 ∉ document) (hcr : cr ∈ [[], [13]]) :
    isBlankLine (dataLine document ++ cr) = false := by
  rw [isBlankLine, stripCr_dataLine h hcr]
  rfl

theorem Carries.split (h : Carries document stream) : ∃ line blank, splitLines 10 stream = ([line, blank], []) ∧
    cutEvents [line, blank] = ([[line]], []) ∧ overBound payload [line] = false ∧ payload [line] = document := by
  obtain ⟨cr, hcr, hfits, rfl⟩ := h.framed
  have hlf : 10 ∉ cr := by
    rcases List.mem_cons.1 hcr with rfl | hcr
    · exact List.not_mem_nil
    · rw [List.mem_singleton.1 hcr]
      decide
  have hline : 10 ∉ dataLine document ++ cr := by
    intro hmem
    rcases List.mem_append.1 hmem with hmem | hmem
    · rcases List.mem_append.1 hmem with hmem | hmem
      · exact absurd hmem (by decide)
      · exact h.lf hmem
    · exact hlf hmem
  have hblank : isBlankLine cr = true := by
    rw [isBlankLine_iff]
    simpa using hcr
  have hopen : cutEvents [dataLine document ++ cr] = ([], [dataLine document ++ cr]) :=
    cutEvents_open fun line hmem => by
      rw [List.mem_singleton.1 hmem]
      exact isBlankLine_dataLine h.cr hcr
  refine ⟨dataLine document ++ cr, cr, ?_, ?_, ?_, payload_dataLine h.cr hcr⟩
  · have hlines : ∀ line ∈ [dataLine document ++ cr, cr], 10 ∉ line := by simp [hline, hlf]
    have := splitLines_joinLines hlines []
    rwa [List.append_nil] at this
  · have := cutEvents_concat [dataLine document ++ cr] cr
    rw [hopen, if_pos hblank] at this
    exact this
  · have := overBound_concat payload [] (dataLine document ++ cr)
    rw [List.nil_append] at this
    rw [this, Bool.or_eq_false_iff, decide_eq_false_iff_not]
    exact ⟨rfl, by rw [show payload [] = [] from rfl, List.length_nil, Nat.zero_add]; exact Nat.not_lt.2 hfits⟩

theorem Carries.received (h : Carries document stream) (fromStr : List UInt8 → Option Json.Value) :
    AtBoundary stream ∧
      received fromStr stream = (if document = ascii "[DONE]" then none else fromStr document).toList := by
  obtain ⟨line, blank, hsplit, hcut, hbound, hpayload⟩ := h.split
  refine ⟨⟨by rw [hsplit], by rw [hsplit, hcut]⟩, ?_⟩
  rw [Observer.received, hsplit, hcut, List.filterMap_cons, List.filterMap_nil, eventValue, hbound, hpayload]
  simp only [Bool.false_eq_true, false_or]
  generalize (if document = ascii "[DONE]" then none else fromStr document) = value
  cases value <;> rfl

end

/-! ### What both loops keep -/

/-- The states have seen the same finish reasons and usage numbers. -/
structure SameChoices (s s' : ObservationState) : Prop where
  finishes : s.finishes = s'.finishes
  overflowed : s.finishesOverflowed = s'.finishesOverflowed
  usage : s.usage = s'.usage

/-- What both loops do with a choice. -/
def ObservationState.observeChoice (s : ObservationState) (choice : Json.Value) : ObservationState :=
  match (choice.get "index").bind Json.Value.asU64 with
  | none => s
  | some index => s.observeFinish index (choice.get "finish_reason")

namespace SameChoices
variable {s s' s₁ s₂ : ObservationState}

theorem refl (s : ObservationState) : SameChoices s s := ⟨rfl, rfl, rfl⟩

theorem trans (h : SameChoices s s₁) (h' : SameChoices s₁ s₂) : SameChoices s s₂ :=
  ⟨h.finishes.trans h'.finishes, h.overflowed.trans h'.overflowed, h.usage.trans h'.usage⟩

theorem symm (h : SameChoices s s') : SameChoices s' s := ⟨h.finishes.symm, h.overflowed.symm, h.usage.symm⟩

theorem observeFinish (h : SameChoices s s') (index : Nat) (finish : Option Json.Value) :
    SameChoices (s.observeFinish index finish) (s'.observeFinish index finish) := by
  by_cases hroom : index ∈ s.finishes ∨ s.finishes.size < maxIndexedStreamObservations
  · rw [ObservationState.observeFinish_room hroom, ObservationState.observeFinish_room (h.finishes ▸ hroom)]
    exact ⟨by simp only [h.finishes], h.overflowed, h.usage⟩
  · rw [ObservationState.observeFinish_full hroom, ObservationState.observeFinish_full (h.finishes ▸ hroom)]
    exact ⟨h.finishes, rfl, h.usage⟩

theorem observeChoice (h : SameChoices s s') (choice : Json.Value) :
    SameChoices (s.observeChoice choice) (s'.observeChoice choice) := by
  unfold ObservationState.observeChoice
  split
  · exact h
  · exact h.observeFinish _ _

theorem rememberToolPair (s : ObservationState) (pair : Nat × Nat) : SameChoices (s.rememberToolPair pair) s := by
  unfold ObservationState.rememberToolPair
  split <;> exact ⟨rfl, rfl, rfl⟩

theorem toolCalls (s : ObservationState) (index : Nat) (calls : List Json.Value) :
    SameChoices (calls.foldl (ObservationState.observeToolCall index) s) s := by
  induction calls generalizing s with
  | nil => exact refl s
  | cons call calls ih =>
    refine (ih _).trans ?_
    unfold ObservationState.observeToolCall
    split
    · split
      · exact ⟨rfl, rfl, rfl⟩
      · exact rememberToolPair s _
    · exact ⟨rfl, rfl, rfl⟩

end SameChoices

theorem get_of_not_object {v : Json.Value} (h : ∀ fields, v = .object fields → False) (key : String) :
    v.get key = none := by
  cases v with
  | object fields => exact (h fields rfl).elim
  | _ => rfl

theorem observeChoice_of_none {s : ObservationState} {choice : Json.Value}
    (h : (choice.get "index").bind Json.Value.asU64 = none) : s.observeChoice choice = s := by
  rw [ObservationState.observeChoice, h]

theorem observeChoice_of_some {s : ObservationState} {choice : Json.Value} {index : Nat}
    (h : (choice.get "index").bind Json.Value.asU64 = some index) :
    s.observeChoice choice = s.observeFinish index (choice.get "finish_reason") := by
  rw [ObservationState.observeChoice, h]

section
variable (a : ObservationState × Nat) (b : ObservationState × Bool) (choice : Json.Value)

theorem sameChoices_observeMessage :
    SameChoices (ObservationState.observeMessage a choice).1 (a.1.observeChoice choice) := by
  unfold ObservationState.observeMessage
  split
  · split
    · rename_i hindex
      rw [observeChoice_of_none hindex]
      exact ⟨rfl, rfl, rfl⟩
    · rename_i index hindex
      rw [observeChoice_of_some hindex]
      dsimp only
      split
      · exact .refl _
      · split
        · exact .refl _
        · split
          · exact .refl _
          · exact ⟨rfl, rfl, rfl⟩
        · exact ⟨rfl, rfl, rfl⟩
      · exact ⟨rfl, rfl, rfl⟩
  · rename_i hobject
    rw [observeChoice_of_none (by rw [get_of_not_object hobject]; rfl)]
    exact ⟨rfl, rfl, rfl⟩

theorem sameChoices_observeDelta :
    SameChoices (ObservationState.observeDelta b choice).1 (b.1.observeChoice choice) := by
  unfold ObservationState.observeDelta
  split
  · split
    · rename_i hindex
      rw [observeChoice_of_none hindex]
      exact ⟨rfl, rfl, rfl⟩
    · rename_i index hindex
      rw [observeChoice_of_some hindex]
      dsimp only
      split
      · exact .refl _
      · split
        · exact .refl _
        · exact .toolCalls _ _ _
        · exact ⟨rfl, rfl, rfl⟩
      · exact ⟨rfl, rfl, rfl⟩
  · rename_i hobject
    rw [observeChoice_of_none (by rw [get_of_not_object hobject]; rfl)]
    exact ⟨rfl, rfl, rfl⟩

end

/-- The two loops over the same choices. -/
theorem SameChoices.foldl {a : ObservationState × Nat} {b : ObservationState × Bool} (h : SameChoices a.1 b.1)
    (choices : List Json.Value) :
    SameChoices (choices.foldl ObservationState.observeMessage a).1 (choices.foldl ObservationState.observeDelta b).1 := by
  induction choices generalizing a b with
  | nil => exact h
  | cons choice choices ih =>
    exact ih ((sameChoices_observeMessage a choice).trans
      ((h.observeChoice choice).trans (sameChoices_observeDelta b choice).symm))

theorem sameChoices_observe (document : Json.Value) :
    SameChoices (ObservationState.observeBuffered {} document) (ObservationState.observeStream {} document).1 := by
  unfold ObservationState.observeBuffered ObservationState.observeStream
  dsimp only
  split
  · exact ⟨rfl, rfl, rfl⟩
  · split
    · exact ⟨rfl, rfl, rfl⟩
    · rename_i choices _
      obtain ⟨hfinishes, hoverflowed, husage⟩ := SameChoices.foldl
        (a := ({ usage := UsageState.observe {} (document.get "usage"), toolsPresent := true }, 0))
        (b := ({ observedStream := true, usage := UsageState.observe {} (document.get "usage"), toolsPresent := true },
          !choices.isEmpty)) ⟨rfl, rfl, rfl⟩ choices
      exact ⟨hfinishes, hoverflowed, husage⟩

/-! ### A document as an event -/

/-- `message` under the name `delta`, in place of a `delta` that is there. -/
def renameMessage (choice : Json.Value) : Json.Value :=
  match choice with
  | .object fields =>
    match fields.lookup "message" with
    | some message => .object (("delta", message) :: fields.filter fun f => f.1 ≠ "message" && f.1 ≠ "delta")
    | none => choice
  | choice => choice

def renameChoices (choices : Json.Value) : Json.Value :=
  match choices with
  | .array choices => .array (choices.map renameMessage)
  | choices => choices

/-- The streamed form of a buffered document. -/
def renameMessages (document : Json.Value) : Json.Value :=
  match document with
  | .object fields => .object (fields.map fun f => (f.1, if f.1 = "choices" then renameChoices f.2 else f.2))
  | document => document

/-- The tool calls of a buffered choice, each with the index of the choice. -/
def messageCalls (choice : Json.Value) : List (Nat × Json.Value) :=
  match (choice.get "index").bind Json.Value.asU64 with
  | none => []
  | some index =>
    ((((choice.get "message").bind (·.get "tool_calls")).bind Json.Value.asArray).getD []).map fun call => (index, call)

def choicesOf (document : Json.Value) : List Json.Value := ((document.get "choices").bind Json.Value.asArray).getD []

def documentCalls (document : Json.Value) : List (Nat × Json.Value) := (choicesOf document).flatMap messageCalls

/-- The indexes of the choice and of the call. -/
def callPair (call : Nat × Json.Value) : Option (Nat × Nat) :=
  ((call.2.get "index").bind Json.Value.asU64).map fun index => (call.1, index)

/-- At most as many tool calls as the observer keeps, objects with an index, and no two with the same indexes. -/
structure Numbered (calls : List (Nat × Json.Value)) : Prop where
  few : calls.length ≤ maxIndexedStreamObservations
  paired : ∀ call ∈ calls, (callPair call).isSome = true
  distinct : (calls.map callPair).Nodup

/-- No choice has a `delta` without a `message`. -/
def NoDelta (document : Json.Value) : Prop :=
  ∀ choice ∈ choicesOf document, choice.get "message" = none → choice.get "delta" = none

theorem lookup_filter {p : String → Bool} {key : String} (h : p key = true) (fields : List (String × Json.Value)) :
    (fields.filter fun f => p f.1).lookup key = fields.lookup key := by
  induction fields with
  | nil => rfl
  | cons f fields ih =>
    obtain ⟨name, value⟩ := f
    rw [List.filter_cons]
    by_cases hname : key = name
    · subst hname
      simp only [h, if_true, List.lookup_cons, beq_self_eq_true]
    · have hne : (key == name) = false := beq_false_of_ne hname
      split
      · simp only [List.lookup_cons, hne, ih]
      · simp only [List.lookup_cons, hne, ih]

theorem lookup_map (g : String → Json.Value → Json.Value) (key : String) (fields : List (String × Json.Value)) :
    (fields.map fun f => (f.1, g f.1 f.2)).lookup key = (fields.lookup key).map (g key) := by
  induction fields with
  | nil => rfl
  | cons f fields ih =>
    obtain ⟨name, value⟩ := f
    rw [List.map_cons, List.lookup_cons, List.lookup_cons]
    by_cases hname : key = name
    · subst hname
      simp only [beq_self_eq_true, Option.map_some]
    · have hne : (key == name) = false := beq_false_of_ne hname
      simp only [hne, ih]

theorem get_renameMessage {choice : Json.Value} {key : String} (hmessage : key ≠ "message") (hdelta : key ≠ "delta") :
    (renameMessage choice).get key = choice.get key := by
  unfold renameMessage
  split
  · rename_i fields
    split
    · rename_i message _
      have hne : (key == "delta") = false := beq_false_of_ne hdelta
      show List.lookup key _ = List.lookup key fields
      rw [List.lookup_cons, hne]
      exact lookup_filter (p := fun name => name ≠ "message" && name ≠ "delta") (by simp [hmessage, hdelta]) fields
    · rfl
  · rfl

theorem delta_renameMessage {choice : Json.Value} (h : choice.get "message" = none → choice.get "delta" = none) :
    (renameMessage choice).get "delta" = choice.get "message" := by
  unfold renameMessage
  split
  · rename_i fields
    split
    · rename_i message hmessage
      rw [Json.Value.get, Json.Value.get, List.lookup_cons_self, hmessage]
    · rename_i hmessage
      exact (h hmessage).trans hmessage.symm
  · rename_i hobject
    have hnone (key : String) : choice.get key = none := by
      cases choice <;> first | rfl | exact absurd rfl (hobject _)
    rw [hnone, hnone]

theorem get_renameMessages (document : Json.Value) (key : String) :
    (renameMessages document).get key =
      (document.get key).map fun value => if key = "choices" then renameChoices value else value := by
  cases document with
  | object fields => exact lookup_map (fun name value => if name = "choices" then renameChoices value else value) key fields
  | _ => rfl

theorem choices_renameMessages (document : Json.Value) :
    (renameMessages document).get "choices" = (document.get "choices").map renameChoices := by
  rw [get_renameMessages]
  rfl

/-! ### Tool calls -/

theorem tools_observeFinish (s : ObservationState) (index : Nat) (finish : Option Json.Value) :
    (s.observeFinish index finish).toolsInvalid = s.toolsInvalid ∧
      (s.observeFinish index finish).toolPairs = s.toolPairs := by
  by_cases hroom : index ∈ s.finishes ∨ s.finishes.size < maxIndexedStreamObservations
  · rw [ObservationState.observeFinish_room hroom]
    exact ⟨rfl, rfl⟩
  · rw [ObservationState.observeFinish_full hroom]
    exact ⟨rfl, rfl⟩

/-- What the two loops have counted, with the calls they still have to read. -/
structure Tallies (a : ObservationState × Nat) (b : ObservationState × Bool) (rest : List (Nat × Json.Value)) : Prop where
  invalid : a.1.toolsInvalid = b.1.toolsInvalid
  count : a.2 = b.1.toolPairs.card
  few : a.2 + rest.length ≤ maxIndexedStreamObservations
  paired : ∀ call ∈ rest, (callPair call).isSome = true
  fresh : ∀ call ∈ rest, ∀ pair ∈ callPair call, pair ∉ b.1.toolPairs
  distinct : (rest.map callPair).Nodup

/-- The streamed calls of a choice are new pairs, for which there is room. -/
theorem foldl_toolCalls {calls : List Json.Value} {index : Nat} {s : ObservationState} {n : Nat}
    (hcount : n = s.toolPairs.card) (hfew : n + calls.length ≤ maxIndexedStreamObservations)
    (hpaired : ∀ call ∈ calls, (callPair (index, call)).isSome = true)
    (hfresh : ∀ call ∈ calls, ∀ pair ∈ callPair (index, call), pair ∉ s.toolPairs)
    (hdistinct : (calls.map fun call => callPair (index, call)).Nodup) :
    let t := calls.foldl (ObservationState.observeToolCall index) s
    t.toolsInvalid = s.toolsInvalid ∧ n + calls.length = t.toolPairs.card ∧
      ∀ pair ∈ t.toolPairs, pair ∈ s.toolPairs ∨ ∃ call ∈ calls, callPair (index, call) = some pair := by
  induction calls generalizing s n with
  | nil => exact ⟨rfl, hcount, fun pair hpair => .inl hpair⟩
  | cons call calls ih =>
    obtain ⟨pair, hpair⟩ := Option.isSome_iff_exists.1 (hpaired call List.mem_cons_self)
    have hnew : pair ∉ s.toolPairs := hfresh call List.mem_cons_self pair hpair
    have hstep : ObservationState.observeToolCall index s call = { s with toolPairs := insert pair s.toolPairs } := by
      obtain ⟨toolIndex, hindex, rfl⟩ := Option.map_eq_some_iff.1 hpair
      have hroom : s.toolPairs.card < maxIndexedStreamObservations := by
        rw [List.length_cons] at hfew
        omega
      cases call with
      | object fields =>
        unfold ObservationState.observeToolCall
        dsimp only at hindex ⊢
        rw [hindex]
        exact if_pos (.inr hroom)
      | _ => cases hindex
    rw [List.map_cons, List.nodup_cons] at hdistinct
    rw [List.foldl_cons, hstep]
    obtain ⟨hinvalid, hcard, hmem⟩ := ih (s := { s with toolPairs := insert pair s.toolPairs }) (n := n + 1)
      (by rw [Finset.card_insert_of_notMem hnew, hcount]) (by rw [List.length_cons] at hfew; omega)
      (fun call' hcall => hpaired call' (List.mem_cons_of_mem _ hcall))
      (fun call' hcall pair' hpair' => by
        rw [Finset.mem_insert, not_or]
        refine ⟨fun heq => ?_, hfresh call' (List.mem_cons_of_mem _ hcall) pair' hpair'⟩
        refine hdistinct.1 (List.mem_map.2 ⟨call', hcall, ?_⟩)
        rw [hpair, ← heq]
        exact hpair')
      hdistinct.2
    refine ⟨hinvalid, by rw [List.length_cons, ← hcard]; omega, fun pair' hpair' => ?_⟩
    rcases hmem pair' hpair' with hpair' | ⟨call', hcall', hpair'⟩
    · rcases Finset.mem_insert.1 hpair' with rfl | hpair'
      · exact .inr ⟨call, List.mem_cons_self, hpair⟩
      · exact .inl hpair'
    · exact .inr ⟨call', List.mem_cons_of_mem _ hcall', hpair'⟩

namespace Tallies
variable {a : ObservationState × Nat} {b : ObservationState × Bool} {rest : List (Nat × Json.Value)}

/-- Nothing is counted, and the tools are marked invalid in both or in neither. -/
theorem congr (h : Tallies a b rest) {s s' : ObservationState} {countable : Bool}
    (hinvalid : s.toolsInvalid = s'.toolsInvalid) (hpairs : s'.toolPairs = b.1.toolPairs) :
    Tallies (s, a.2) (s', countable) rest :=
  ⟨hinvalid, h.count.trans (by rw [hpairs]), h.few, h.paired, by rw [hpairs]; exact h.fresh, h.distinct⟩

/-- The calls of a choice. -/
theorem calls {index : Nat} {calls : List Json.Value}
    (h : Tallies a b (calls.map (fun call => (index, call)) ++ rest)) {s s' : ObservationState}
    (hinvalid : s.toolsInvalid = s'.toolsInvalid) (hpairs : s'.toolPairs = b.1.toolPairs) (countable : Bool) :
    Tallies (s, a.2 + calls.length) (calls.foldl (ObservationState.observeToolCall index) s', countable) rest := by
  have hfew := h.few
  rw [List.length_append, List.length_map] at hfew
  have hdistinct := h.distinct
  rw [List.map_append, List.nodup_append, List.map_map] at hdistinct
  obtain ⟨hcalls, hrest, hdisjoint⟩ := hdistinct
  have hmem (call : Json.Value) (hcall : call ∈ calls) :
      (index, call) ∈ calls.map (fun call => (index, call)) ++ rest :=
    List.mem_append_left _ (List.mem_map.2 ⟨call, hcall, rfl⟩)
  obtain ⟨hinvalid', hcard, hpairs'⟩ := @foldl_toolCalls calls index s' a.2
    (h.count.trans (by rw [hpairs])) (by omega) (fun call hcall => h.paired _ (hmem call hcall))
    (fun call hcall => by rw [hpairs]; exact h.fresh _ (hmem call hcall)) hcalls
  refine ⟨hinvalid.trans hinvalid'.symm, hcard, by omega, fun call hcall => h.paired _ (List.mem_append_right _ hcall),
    fun call hcall pair hpair hold => ?_, hrest⟩
  rcases hpairs' pair hold with hold | ⟨call', hcall', hpair'⟩
  · exact h.fresh call (List.mem_append_right _ hcall) pair hpair (hpairs ▸ hold)
  · exact hdisjoint _ (List.mem_map.2 ⟨call', hcall', hpair'⟩) _ (List.mem_map.2 ⟨call, hcall, hpair⟩) rfl

theorem choice {choice : Json.Value} (h : Tallies a b (messageCalls choice ++ rest))
    (hdelta : choice.get "message" = none → choice.get "delta" = none) :
    Tallies (ObservationState.observeMessage a choice) (ObservationState.observeDelta b (renameMessage choice)) rest := by
  cases choice with
  | object fields =>
    obtain ⟨fields', hrename⟩ : ∃ fields', renameMessage (.object fields) = .object fields' := by
      unfold renameMessage
      dsimp only
      split <;> exact ⟨_, rfl⟩
    have hindex := @get_renameMessage (.object fields) "index" (by decide) (by decide)
    have hfinish := @get_renameMessage (.object fields) "finish_reason" (by decide) (by decide)
    have htools := delta_renameMessage hdelta
    rw [hrename] at hindex hfinish htools ⊢
    unfold messageCalls at h
    unfold ObservationState.observeMessage ObservationState.observeDelta
    dsimp only
    rw [hindex, hfinish, htools]
    cases hindex : ((Json.Value.object fields).get "index").bind Json.Value.asU64 with
    | none => exact (hindex ▸ h).congr rfl rfl
    | some index =>
      rw [hindex] at h
      generalize (Json.Value.object fields).get "finish_reason" = finish
      obtain ⟨hinvalid, -⟩ := tools_observeFinish a.1 index finish
      obtain ⟨hinvalid', hpairs⟩ := tools_observeFinish b.1 index finish
      have hsame := hinvalid.trans (h.invalid.trans hinvalid'.symm)
      cases hmessage : (Json.Value.object fields).get "message" with
      | none => exact (hmessage ▸ h).congr hsame hpairs
      | some message =>
        rw [hmessage, Option.bind_some] at h
        cases message with
        | object message =>
          dsimp only at h ⊢
          generalize (Json.Value.object message).get "tool_calls" = toolCalls at h ⊢
          cases toolCalls with
          | none => exact h.congr hsame hpairs
          | some toolCalls =>
            cases toolCalls with
            | array calls =>
              have hcalls := @Tallies.calls a b rest index calls h _ _ hsame hpairs (b.2 && silent finish)
              have hfew : a.2 + calls.length < 2 ^ 64 := by
                have := hcalls.few
                dsimp only [maxIndexedStreamObservations] at this
                omega
              dsimp only
              rw [if_pos hfew]
              exact hcalls
            | _ => exact h.congr rfl hpairs
        | _ => exact h.congr rfl hpairs
  | _ => exact h.congr rfl rfl

theorem foldl {choices : List Json.Value} (h : Tallies a b (choices.flatMap messageCalls))
    (hdelta : ∀ choice ∈ choices, choice.get "message" = none → choice.get "delta" = none) :
    Tallies (choices.foldl ObservationState.observeMessage a)
      ((choices.map renameMessage).foldl ObservationState.observeDelta b) [] := by
  induction choices generalizing a b with
  | nil => exact h
  | cons choice choices ih =>
    exact ih (h.choice (hdelta choice List.mem_cons_self))
      fun choice' hchoice => hdelta choice' (List.mem_cons_of_mem _ hchoice)

end Tallies

/-- What the loops leave alone: the kind of the response, and whether it has choices. -/
def ObservationState.kind (s : ObservationState) : Bool × Bool := (s.observedStream, s.toolsPresent)

theorem kind_observeFinish (s : ObservationState) (index : Nat) (finish : Option Json.Value) :
    (s.observeFinish index finish).kind = s.kind := by
  by_cases hroom : index ∈ s.finishes ∨ s.finishes.size < maxIndexedStreamObservations
  · rw [ObservationState.observeFinish_room hroom]
    rfl
  · rw [ObservationState.observeFinish_full hroom]
    rfl

theorem kind_observeToolCall (index : Nat) (s : ObservationState) (call : Json.Value) :
    (ObservationState.observeToolCall index s call).kind = s.kind := by
  unfold ObservationState.observeToolCall
  split
  · split
    · rfl
    · unfold ObservationState.rememberToolPair
      split <;> rfl
  · rfl

theorem kind_observeMessage (a : ObservationState × Nat) (choice : Json.Value) :
    (ObservationState.observeMessage a choice).1.kind = a.1.kind := by
  unfold ObservationState.observeMessage
  split
  · split
    · rfl
    · have hfinish := kind_observeFinish a.1
      dsimp only
      split
      · exact hfinish _ _
      · split
        · exact hfinish _ _
        · split <;> exact hfinish _ _
        · exact hfinish _ _
      · exact hfinish _ _
  · rfl

theorem kind_observeDelta (b : ObservationState × Bool) (choice : Json.Value) :
    (ObservationState.observeDelta b choice).1.kind = b.1.kind := by
  unfold ObservationState.observeDelta
  split
  · split
    · rfl
    · have hfinish := kind_observeFinish b.1
      dsimp only
      split
      · exact hfinish _ _
      · split
        · exact hfinish _ _
        · exact List.foldlRecOn (motive := fun s : ObservationState => s.kind = b.1.kind) _ _ (hfinish _ _)
            fun s hs call _ => (kind_observeToolCall _ s call).trans hs
        · exact hfinish _ _
      · exact hfinish _ _
  · rfl

theorem Tallies.toolCalls_eq {a : ObservationState × Nat} {b : ObservationState × Bool} (h : Tallies a b [])
    (hbuffered : a.1.kind = (false, true)) (hstreamed : b.1.kind = (true, true))
    (estimate estimate' promptEstimate promptEstimate' : Option Nat) :
    (b.1.finish .completed false estimate promptEstimate).toolCalls =
      (ObservationState.finish { a.1 with bufferedToolCalls := a.2 } .completed false estimate'
        promptEstimate').toolCalls := by
  obtain ⟨hstream, hpresent⟩ := Prod.mk.inj hbuffered
  obtain ⟨hstream', hpresent'⟩ := Prod.mk.inj hstreamed
  simp only [ObservationState.finish, Bool.false_eq_true, if_false, hstream, hpresent, hstream', hpresent', h.invalid,
    h.count, Bool.not_true, if_true]

/-- The tool calls of a document and of its streamed form. -/
theorem toolCalls_observe {document : Json.Value} (hcalls : Numbered (documentCalls document))
    (hdelta : NoDelta document) (estimate estimate' promptEstimate promptEstimate' : Option Nat) :
    ((ObservationState.observeStream {} (renameMessages document)).1.finish .completed false estimate
        promptEstimate).toolCalls =
      ((ObservationState.observeBuffered {} document).finish .completed false estimate' promptEstimate').toolCalls := by
  unfold ObservationState.observeStream ObservationState.observeBuffered
  rw [choices_renameMessages]
  unfold documentCalls choicesOf at hcalls
  unfold NoDelta choicesOf at hdelta
  cases hchoices : document.get "choices" with
  | none => rfl
  | some choices =>
    rw [hchoices, Option.bind_some] at hcalls hdelta
    rw [Option.map_some]
    cases choices with
    | array choices =>
      have hstart (s s' : ObservationState) (countable : Bool) (hinvalid : s.toolsInvalid = s'.toolsInvalid)
          (hempty : s'.toolPairs = ∅) : Tallies (s, 0) (s', countable) (choices.flatMap messageCalls) :=
        ⟨hinvalid, by rw [hempty, Finset.card_empty], (Nat.zero_add _).trans_le hcalls.few, hcalls.paired,
          fun _ _ _ _ => by rw [hempty]; exact Finset.notMem_empty _, hcalls.distinct⟩
      have hmessages (a : ObservationState × Nat) :
          (choices.foldl ObservationState.observeMessage a).1.kind = a.1.kind :=
        List.foldlRecOn (motive := fun a' : ObservationState × Nat => a'.1.kind = a.1.kind) _ _ rfl
          fun a' ha choice _ => (kind_observeMessage a' choice).trans ha
      have hdeltas (b : ObservationState × Bool) :
          ((choices.map renameMessage).foldl ObservationState.observeDelta b).1.kind = b.1.kind :=
        List.foldlRecOn (motive := fun b' : ObservationState × Bool => b'.1.kind = b.1.kind) _ _ rfl
          fun b' hb choice _ => (kind_observeDelta b' choice).trans hb
      exact ((hstart _ _ _ (by rfl) (by rfl)).foldl hdelta).toolCalls_eq (hmessages _) (hdeltas _) _ _ _ _
    | _ => rfl

/-! ### The agreement -/

inductive UsageField where
  | cachedTokens
  | completionTokens
  | promptTokens
  | reasoningTokens
  | totalTokens
  deriving DecidableEq, Repr

def UsageObservations.get (u : UsageObservations) : UsageField → Observation
  | .cachedTokens => u.cachedTokens
  | .completionTokens => u.completionTokens
  | .promptTokens => u.promptTokens
  | .reasoningTokens => u.reasoningTokens
  | .totalTokens => u.totalTokens

def Observation.isEstimated : Observation → Bool
  | .estimated _ => true
  | _ => false

/-- `from_str` and `from_slice` read the same text the same, and `[DONE]` is no JSON. -/
structure ReadsText (fromStr fromSlice : List UInt8 → Option Json.Value) : Prop where
  same : ∀ text, fromStr text = fromSlice text
  done : fromSlice (ascii "[DONE]") = none

theorem estimateOr_of_not_estimated {seen : Observation} {estimate : Option Nat}
    (h : (estimateOr seen estimate).isEstimated = false) : estimateOr seen estimate = seen := by
  unfold estimateOr at h ⊢
  split
  · split
    · rename_i hcount
      simp [hcount, Observation.isEstimated] at h
    · rfl
  · rfl

/-- Estimates aside, the same numbers are reported. -/
theorem get_finish (s : UsageState) (estimate estimate' promptEstimate promptEstimate' : Option Nat) (field : UsageField)
    (h : ((s.finish estimate promptEstimate).get field).isEstimated = false)
    (h' : ((s.finish estimate' promptEstimate').get field).isEstimated = false) :
    (s.finish estimate promptEstimate).get field = (s.finish estimate' promptEstimate').get field := by
  cases field with
  | completionTokens => exact (estimateOr_of_not_estimated h).trans (estimateOr_of_not_estimated h').symm
  | promptTokens => exact (estimateOr_of_not_estimated h).trans (estimateOr_of_not_estimated h').symm
  | _ => rfl

section
variable {fromStr fromSlice : List UInt8 → Option Json.Value}

/-- The observations of a completed stream whose only event carries a document. -/
theorem Carries.observeStreamed (hjson : ReadsText fromStr fromSlice) {text : List UInt8} {chunks : List (List UInt8)}
    {document : Json.Value} (hcarries : Carries text chunks.flatten) (hdocument : fromSlice text = some document)
    (promptEstimate : Option Nat) :
    ∃ estimate, observeStreamed fromStr chunks .completed promptEstimate =
      (ObservationState.observeStream {} document).1.finish .completed false estimate promptEstimate := by
  obtain ⟨hboundary, hreceived⟩ := hcarries.received fromStr
  obtain ⟨estimate, hfinal⟩ := observeStreamed_complete fromStr hboundary .completed promptEstimate
  refine ⟨estimate, ?_⟩
  have hdone : text ≠ ascii "[DONE]" := by
    rintro rfl
    rw [hjson.done] at hdocument
    cases hdocument
  rw [hfinal, hreceived, if_neg hdone, hjson.same, hdocument]
  rfl

/-- A document that fits into an event is observed alike in a buffered body and in a stream: the finish results, and
the usage numbers that are not estimated. The tool calls of a buffered document are those of its streamed form, if the
observer keeps that many, they are numbered, and no choice has a `delta` of its own. -/
theorem buffered_streamed_agree (hjson : ReadsText fromStr fromSlice) :
    (∀ (text : List UInt8) (chunks : List (List UInt8)) (promptEstimate promptEstimate' : Option Nat),
      (fromSlice text).isSome = true → Carries text chunks.flatten →
      (observeStreamed fromStr chunks .completed promptEstimate).finishReasons =
        (observeBuffered fromSlice text promptEstimate').finishReasons ∧
      ∀ field : UsageField,
        ((observeStreamed fromStr chunks .completed promptEstimate).usage.get field).isEstimated = false →
        ((observeBuffered fromSlice text promptEstimate').usage.get field).isEstimated = false →
        (observeStreamed fromStr chunks .completed promptEstimate).usage.get field =
          (observeBuffered fromSlice text promptEstimate').usage.get field) ∧
    ∀ (body text : List UInt8) (document : Json.Value) (chunks : List (List UInt8))
      (promptEstimate promptEstimate' : Option Nat),
      fromSlice body = some document → Numbered (documentCalls document) → NoDelta document →
      fromSlice text = some (renameMessages document) → Carries text chunks.flatten →
      (observeStreamed fromStr chunks .completed promptEstimate).toolCalls =
        (observeBuffered fromSlice body promptEstimate').toolCalls := by
  constructor
  · intro text chunks promptEstimate promptEstimate' htext hcarries
    obtain ⟨document, hdocument⟩ := Option.isSome_iff_exists.1 htext
    obtain ⟨estimate, hstreamed⟩ := hcarries.observeStreamed hjson hdocument promptEstimate
    obtain ⟨hfinishes, hoverflowed, husage⟩ := sameChoices_observe document
    rw [hstreamed, observeBuffered, hdocument, Option.elim_some]
    constructor
    · simp only [ObservationState.finish, hfinishes, hoverflowed]
    · intro field
      simp only [ObservationState.finish, reduceCtorEq, or_self, if_false, husage]
      exact get_finish _ _ _ _ _ field
  · intro body text document chunks promptEstimate promptEstimate' hbody hcalls hdelta htext hcarries
    obtain ⟨estimate, hstreamed⟩ := hcarries.observeStreamed hjson htext promptEstimate
    rw [hstreamed, observeBuffered, hbody, Option.elim_some]
    exact toolCalls_observe hcalls hdelta _ _ _ _

end

/-! ### A document with a tool call, and one with a stray `delta` -/

def chatText : List UInt8 := ascii
  "\x7b\"choices\":[\x7b\"index\":0,\"message\":\x7b\"tool_calls\":[\x7b\"index\":0\x7d]\x7d\x7d],\"usage\":\x7b\"total_tokens\":3\x7d\x7d"

def chatDeltaText : List UInt8 := ascii
  "\x7b\"choices\":[\x7b\"delta\":\x7b\"tool_calls\":[\x7b\"index\":0\x7d]\x7d,\"index\":0\x7d],\"usage\":\x7b\"total_tokens\":3\x7d\x7d"

/-- A choice with one tool call under the given name. -/
def chatChoices (name : String) : Json.Value :=
  let toolCall := .object [("index", .number (.posInt 0))]
  let fields := [("index", .number (.posInt 0)), (name, .object [("tool_calls", .array [toolCall])])]
  .array [.object (if name = "delta" then fields.reverse else fields)]

def chatDocument (name : String) : Json.Value :=
  .object [("choices", chatChoices name), ("usage", .object [("total_tokens", .number (.posInt 3))])]

def readChat (text : List UInt8) : Option Json.Value :=
  if text = chatText then some (chatDocument "message")
  else if text = chatDeltaText then some (chatDocument "delta")
  else none

/-- Two different texts, each in one short line. -/
theorem chat_texts : chatDeltaText ≠ chatText ∧
    ∀ text ∈ [chatText, chatDeltaText], 10 ∉ text ∧ 13 ∉ text ∧ text.length ≤ 1000 := by
  decide +kernel

theorem readChat_chatText : readChat chatText = some (chatDocument "message") := if_pos rfl

theorem readChat_chatDeltaText : readChat chatDeltaText = some (chatDocument "delta") :=
  (if_neg chat_texts.1).trans (if_pos rfl)

theorem readChat_readsText : ReadsText readChat readChat := ⟨fun _ => rfl, by decide +kernel⟩

theorem renameMessages_chatDocument : renameMessages (chatDocument "message") = chatDocument "delta" := rfl

/-- A short text in one line is what its event carries. -/
theorem carries_eventOf {text : List UInt8} (hlf : 10 ∉ text) (hcr : 13 ∉ text) (hshort : text.length ≤ 1000) :
    Carries text [eventOf text].flatten := by
  refine ⟨hlf, hcr, [], List.mem_cons_self, ?_, ?_⟩
  · have hprefix : (ascii "data: ").length = 6 := by decide
    rw [List.append_nil, dataLine, List.length_append, hprefix]
    exact (Nat.add_le_add_left hshort 6).trans (by decide)
  · simp [eventOf, dataLine, joinLines]

theorem carries_chatText : Carries chatText [eventOf chatText].flatten := by
  obtain ⟨hlf, hcr, hshort⟩ := chat_texts.2 chatText (by simp)
  exact carries_eventOf hlf hcr hshort

theorem carries_chatDeltaText : Carries chatDeltaText [eventOf chatDeltaText].flatten := by
  obtain ⟨hlf, hcr, hshort⟩ := chat_texts.2 chatDeltaText (by simp)
  exact carries_eventOf hlf hcr hshort

theorem buffered_streamed_agree_chat :
    (observeStreamed readChat [eventOf chatText] .completed none).usage.totalTokens =
        (observeBuffered readChat chatText none).usage.totalTokens ∧
      (observeStreamed readChat [eventOf chatDeltaText] .completed none).toolCalls =
        (observeBuffered readChat chatText none).toolCalls := by
  obtain ⟨hsame, htools⟩ := buffered_streamed_agree readChat_readsText
  constructor
  · refine (hsame chatText [eventOf chatText] none none (by rw [readChat_chatText]; rfl) carries_chatText).2
      .totalTokens ?_ ?_
    · decide +kernel
    · rw [observeBuffered, readChat_chatText]
      rfl
  · refine htools chatText chatDeltaText (chatDocument "message") _ none none readChat_chatText ?_ ?_ ?_
      carries_chatDeltaText
    · exact ⟨by decide +kernel, by decide +kernel, by decide +kernel⟩
    · intro choice hchoice hmessage
      obtain rfl := List.mem_singleton.1 hchoice
      cases hmessage
    · rw [readChat_chatDeltaText, renameMessages_chatDocument]

/-- The buffered observer does not look at a `delta`; the streamed one does, also where the document has no `message`
to be renamed. -/
theorem not_toolCalls_agree_strayDelta :
    ¬ ∀ (fromStr fromSlice : List UInt8 → Option Json.Value), ReadsText fromStr fromSlice →
      ∀ (body text : List UInt8) (document : Json.Value) (chunks : List (List UInt8))
        (promptEstimate promptEstimate' : Option Nat),
        fromSlice body = some document → Numbered (documentCalls document) →
        fromSlice text = some (renameMessages document) → Carries text chunks.flatten →
        (observeStreamed fromStr chunks .completed promptEstimate).toolCalls =
          (observeBuffered fromSlice body promptEstimate').toolCalls := by
  intro h
  have hrenamed : readChat chatDeltaText = some (renameMessages (chatDocument "delta")) := readChat_chatDeltaText
  have hsame := h readChat readChat readChat_readsText chatDeltaText chatDeltaText (chatDocument "delta")
    [eventOf chatDeltaText] none none readChat_chatDeltaText
    ⟨by decide +kernel, by decide +kernel, by decide +kernel⟩ hrenamed carries_chatDeltaText
  have hstreamed : (observeStreamed readChat [eventOf chatDeltaText] .completed none).toolCalls = .measured 1 := by
    decide +kernel
  have hbuffered : (observeBuffered readChat chatDeltaText none).toolCalls = .measured 0 := by
    rw [observeBuffered, readChat_chatDeltaText]
    rfl
  rw [hstreamed, hbuffered] at hsame
  cases hsame

end OpenProxy.Observer
