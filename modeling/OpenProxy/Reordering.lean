import OpenProxy.Observation

/-!
# Repeated and reordered events

A stream tells what its values tell, and each of these is a join or a table that refuses new keys when it is full. So
two streams of the same complete events end with the same observations, whatever the order and however often an event
is there.
-/

namespace OpenProxy.Observer

open Join Lines Sse

/-! ### What the notes of a stream come to -/

def pairs (l : List Note) : Finset (Nat × Nat) :=
  (l.filterMap fun n => match n with
    | .pair pair => some pair
    | _ => none).toFinset

def indexes (l : List Note) : Finset Nat :=
  (l.filterMap fun n => match n with
    | .finish index _ => some index
    | _ => none).toFinset

def finishAt (index : Nat) : Note → SeenFinish
  | .finish i value => if i = index then SeenFinish.observe ⊥ value else ⊥
  | _ => ⊥

theorem mem_pairs {l : List Note} {pair : Nat × Nat} : pair ∈ pairs l ↔ Note.pair pair ∈ l := by
  rw [pairs, List.mem_toFinset, List.mem_filterMap]
  constructor
  · rintro ⟨n, hn, h⟩
    cases n <;> simp_all
  · exact fun h => ⟨_, h, rfl⟩

theorem mem_indexes {l : List Note} {index : Nat} : index ∈ indexes l ↔ ∃ value, Note.finish index value ∈ l := by
  rw [indexes, List.mem_toFinset, List.mem_filterMap]
  constructor
  · rintro ⟨n, hn, h⟩
    cases n <;> simp_all
    exact ⟨_, hn⟩
  · rintro ⟨value, h⟩
    exact ⟨_, h, rfl⟩

theorem pairs_congr {l l' : List Note} (h : ∀ n, n ∈ l ↔ n ∈ l') : pairs l = pairs l' :=
  Finset.ext fun pair => by rw [mem_pairs, mem_pairs, h]

theorem indexes_congr {l l' : List Note} (h : ∀ n, n ∈ l ↔ n ∈ l') : indexes l = indexes l' :=
  Finset.ext fun index => by simp only [mem_indexes, h]

theorem pairs_concat_pair (l : List Note) (pair : Nat × Nat) : pairs (l ++ [.pair pair]) = insert pair (pairs l) :=
  Finset.ext fun pair' => by simp [mem_pairs, or_comm]

theorem indexes_concat_finish (l : List Note) (index : Nat) (value : Option Json.Value) :
    indexes (l ++ [.finish index value]) = insert index (indexes l) :=
  Finset.ext fun index' => by
    simp only [mem_indexes, List.mem_append, List.mem_singleton, Note.finish.injEq, Finset.mem_insert, exists_or]
    rw [or_comm]
    simp

theorem finishAt_eq_bot {l : List Note} {index : Nat} (h : index ∉ indexes l) {n : Note} (hn : n ∈ l) :
    finishAt index n = ⊥ := by
  cases n with
  | finish i value =>
    refine if_neg ?_
    rintro rfl
    exact h (mem_indexes.2 ⟨value, hn⟩)
  | _ => rfl

/-! ### Tables -/

section
variable (finishes : Std.ExtTreeMap Nat SeenFinish)

theorem card_keys : finishes.keys.toFinset.card = finishes.size := by
  rw [List.toFinset_card_of_nodup Std.ExtTreeMap.nodup_keys, Std.ExtTreeMap.length_keys]

theorem keys_insertIfNew (index : Nat) (seen : SeenFinish) :
    (finishes.insertIfNew index seen).keys.toFinset = insert index finishes.keys.toFinset := by
  ext i
  rw [List.mem_toFinset, Finset.mem_insert, List.mem_toFinset, Std.ExtTreeMap.mem_keys, Std.ExtTreeMap.mem_keys,
    Std.ExtTreeMap.mem_insertIfNew, Std.LawfulEqCmp.compare_eq_iff_eq, eq_comm]

theorem keys_modify (index : Nat) (f : SeenFinish → SeenFinish) :
    (finishes.modify index f).keys.toFinset = finishes.keys.toFinset := by
  ext i
  simp [Std.ExtTreeMap.mem_modify]

end

structure Holds (l : List Note) (s : ObservationState) : Prop where
  buffered : s.bufferedToolCalls = 0
  stream : s.observedStream = true ↔ .stream ∈ l
  present : s.toolsPresent = true ↔ .present ∈ l
  usage : s.usage = l.foldl (fun u n => u ⊔ usageOfNote n) ⊥
  /-- The flag says that something was malformed or that the table of pairs has refused one. -/
  tools : ∃ refused, Capped maxIndexedStreamObservations (pairs l) s.toolPairs refused ∧
    (s.toolsInvalid = true ↔ .malformed ∈ l ∨ refused = true)
  choices : Capped maxIndexedStreamObservations (indexes l) s.finishes.keys.toFinset s.finishesOverflowed
  seen : ∀ index seen, s.finishes[index]? = some seen → seen = l.foldl (fun x n => x ⊔ finishAt index n) ⊥

namespace Holds
variable {l : List Note} {s : ObservationState}

theorem nil : Holds [] {} where
  buffered := rfl
  stream := by simp
  present := by simp
  usage := rfl
  tools := ⟨false, .empty _, by simp⟩
  choices := .empty _
  seen index seen h := by simp at h

theorem tools_quiet (h : Holds l s) {n : Note} (hpair : ∀ pair, n ≠ .pair pair) (hmalformed : n ≠ .malformed) :
    ∃ refused, Capped maxIndexedStreamObservations (pairs (l ++ [n])) s.toolPairs refused ∧
      (s.toolsInvalid = true ↔ .malformed ∈ l ++ [n] ∨ refused = true) := by
  obtain ⟨refused, hcapped, hinvalid⟩ := h.tools
  have hsame : pairs (l ++ [n]) = pairs l :=
    Finset.ext fun pair => by simp [mem_pairs, (hpair pair).symm]
  exact ⟨refused, hsame ▸ hcapped, by simp [hinvalid, hmalformed.symm]⟩

theorem choices_quiet (h : Holds l s) {n : Note} (hfinish : ∀ index value, n ≠ .finish index value) :
    Capped maxIndexedStreamObservations (indexes (l ++ [n])) s.finishes.keys.toFinset s.finishesOverflowed := by
  have hsame : indexes (l ++ [n]) = indexes l :=
    Finset.ext fun index => by simp [mem_indexes, fun value => (hfinish index value).symm]
  exact hsame ▸ h.choices

theorem seen_quiet (h : Holds l s) {n : Note} (hfinish : ∀ index value, n ≠ .finish index value) {index : Nat}
    {seen : SeenFinish} (hs : s.finishes[index]? = some seen) :
    seen = (l ++ [n]).foldl (fun x n => x ⊔ finishAt index n) ⊥ := by
  rw [List.foldl_append, ← h.seen index seen hs]
  cases n with
  | finish i value => exact absurd rfl (hfinish i value)
  | _ => exact (sup_bot_eq _).symm

theorem usage_concat (h : Holds l s) (n : Note) :
    (s.note n).usage = (l ++ [n]).foldl (fun u n => u ⊔ usageOfNote n) ⊥ := by
  rw [ObservationState.usage_note, h.usage, List.foldl_append]
  rfl

theorem seen_concat (h : Holds l s) (index : Nat) (value : Option Json.Value)
    (hroom : index ∈ s.finishes ∨ s.finishes.size < maxIndexedStreamObservations) {i : Nat} {seen : SeenFinish}
    (hs : ((s.finishes.insertIfNew index .absent).modify index (·.observe value))[i]? = some seen) :
    seen = (l ++ [Note.finish index value]).foldl (fun x n => x ⊔ finishAt i n) ⊥ := by
  rw [List.foldl_append, List.foldl_cons, List.foldl_nil, finishAt]
  rw [Std.ExtTreeMap.getElem?_modify] at hs
  split at hs
  · rename_i hi
    obtain rfl := Std.LawfulEqCmp.compare_eq_iff_eq.1 hi
    rw [if_pos rfl]
    rw [Std.ExtTreeMap.getElem?_insertIfNew] at hs
    by_cases hmem : index ∈ s.finishes
    · rw [if_neg (by simp [hmem])] at hs
      obtain ⟨before, hbefore, rfl⟩ := Option.map_eq_some_iff.1 hs
      rw [SeenFinish.observe_eq_sup, ← h.seen index before hbefore]
    · rw [if_pos ⟨hi, hmem⟩] at hs
      obtain rfl := Option.some.inj hs
      have hnew : index ∉ indexes l := by
        rw [← h.choices.eq_of_room (by rw [card_keys]; exact hroom.resolve_left hmem)]
        simpa using hmem
      rw [foldl_sup_eq_bot_iff.2 fun n hn => finishAt_eq_bot hnew hn, bot_sup_eq]
      rfl
  · rename_i hi
    have hne : index ≠ i := fun heq => hi (Std.LawfulEqCmp.compare_eq_iff_eq.2 heq)
    rw [Std.ExtTreeMap.getElem?_insertIfNew, if_neg fun hboth => hi hboth.1] at hs
    rw [if_neg hne, sup_bot_eq, ← h.seen i seen hs]

theorem finish (h : Holds l s) (index : Nat) (value : Option Json.Value) :
    Holds (l ++ [.finish index value]) (s.observeFinish index value) := by
  have husage := h.usage_concat (.finish index value)
  have hstream : s.observedStream = true ↔ .stream ∈ l ++ [.finish index value] := by simp [h.stream]
  have hpresent : s.toolsPresent = true ↔ .present ∈ l ++ [.finish index value] := by simp [h.present]
  have htools := h.tools_quiet (n := .finish index value) (by simp) (by simp)
  rw [show s.note (.finish index value) = s.observeFinish index value from rfl] at husage
  by_cases hroom : index ∈ s.finishes ∨ s.finishes.size < maxIndexedStreamObservations
  · rw [ObservationState.observeFinish_room hroom] at husage ⊢
    refine ⟨h.buffered, hstream, hpresent, husage, htools, ?_, fun i seen => h.seen_concat index value hroom⟩
    show Capped _ _ ((s.finishes.insertIfNew index .absent).modify index (·.observe value)).keys.toFinset _
    rw [keys_modify, keys_insertIfNew, indexes_concat_finish]
    by_cases hmem : index ∈ s.finishes.keys.toFinset
    · rw [Finset.insert_eq_of_mem hmem]
      exact h.choices.again hmem
    · refine h.choices.insert index ?_
      rw [card_keys]
      exact hroom.resolve_left (by simpa using hmem)
  · rw [ObservationState.observeFinish_full hroom] at husage ⊢
    rw [not_or, Nat.not_lt] at hroom
    refine ⟨h.buffered, hstream, hpresent, husage, htools, ?_, fun i seen hs => ?_⟩
    · rw [indexes_concat_finish]
      exact h.choices.refuse (by simpa using hroom.1) (by rw [card_keys]; exact hroom.2)
    · rw [List.foldl_append, ← h.seen i seen hs]
      have hne : index ≠ i := by
        rintro rfl
        exact hroom.1 (Std.ExtTreeMap.mem_iff_isSome_getElem?.2 (by rw [hs]; rfl))
      rw [List.foldl_cons, List.foldl_nil, finishAt, if_neg hne, sup_bot_eq]

theorem pair (h : Holds l s) (pair : Nat × Nat) : Holds (l ++ [.pair pair]) (s.rememberToolPair pair) := by
  have husage := h.usage_concat (.pair pair)
  obtain ⟨refused, hcapped, hinvalid⟩ := h.tools
  have hstream : s.observedStream = true ↔ .stream ∈ l ++ [.pair pair] := by simp [h.stream]
  have hpresent : s.toolsPresent = true ↔ .present ∈ l ++ [.pair pair] := by simp [h.present]
  have hchoices := h.choices_quiet (n := .pair pair) (by simp)
  have hseen (index : Nat) (seen : SeenFinish) (hs : s.finishes[index]? = some seen) :=
    h.seen_quiet (n := .pair pair) (by simp) hs
  show Holds _ (s.rememberToolPair pair)
  rw [show s.note (.pair pair) = s.rememberToolPair pair from rfl] at husage
  unfold ObservationState.rememberToolPair at husage ⊢
  split
  · rename_i hroom
    rw [if_pos hroom] at husage
    refine ⟨h.buffered, hstream, hpresent, husage, ⟨refused, ?_, by simpa using hinvalid⟩, hchoices, hseen⟩
    rw [pairs_concat_pair]
    by_cases hmem : pair ∈ s.toolPairs
    · rw [Finset.insert_eq_of_mem hmem]
      exact hcapped.again hmem
    · exact hcapped.insert pair (hroom.resolve_left hmem)
  · rename_i hfull
    rw [if_neg hfull] at husage
    rw [not_or, Nat.not_lt] at hfull
    refine ⟨h.buffered, hstream, hpresent, husage, ⟨true, ?_, by simp⟩, hchoices, hseen⟩
    rw [pairs_concat_pair]
    exact hcapped.refuse hfull.1 hfull.2

theorem note (h : Holds l s) (n : Note) : Holds (l ++ [n]) (s.note n) := by
  have husage := h.usage_concat n
  cases n with
  | finish index value => exact h.finish index value
  | pair pair => exact h.pair pair
  | malformed =>
    obtain ⟨refused, hcapped, -⟩ := h.tools
    refine ⟨h.buffered, ?_, ?_, husage, ⟨refused, ?_, ?_⟩, h.choices_quiet (by simp), fun _ _ => h.seen_quiet (by simp)⟩
    · exact h.stream.trans (by simp)
    · exact h.present.trans (by simp)
    · have hsame : pairs (l ++ [.malformed]) = pairs l := Finset.ext fun pair => by simp [mem_pairs]
      exact hsame ▸ hcapped
    · exact iff_of_true rfl (by simp)
  | stream =>
    refine ⟨h.buffered, ?_, ?_, husage, h.tools_quiet (by simp) (by simp), h.choices_quiet (by simp),
      fun _ _ => h.seen_quiet (by simp)⟩
    · exact iff_of_true rfl (by simp)
    · exact h.present.trans (by simp)
  | present =>
    refine ⟨h.buffered, ?_, ?_, husage, h.tools_quiet (by simp) (by simp), h.choices_quiet (by simp),
      fun _ _ => h.seen_quiet (by simp)⟩
    · exact h.stream.trans (by simp)
    · exact iff_of_true rfl (by simp)
  | usage value =>
    refine ⟨h.buffered, ?_, ?_, husage, h.tools_quiet (by simp) (by simp), h.choices_quiet (by simp),
      fun _ _ => h.seen_quiet (by simp)⟩
    · exact h.stream.trans (by simp)
    · exact h.present.trans (by simp)

theorem notes (h : Holds l s) (l' : List Note) : Holds (l ++ l') (l'.foldl ObservationState.note s) := by
  induction l' generalizing l s with
  | nil => rwa [List.append_nil]
  | cons n l' ih =>
    rw [List.foldl_cons, ← List.singleton_append, ← List.append_assoc]
    exact ih (h.note n)

theorem values (values : List Json.Value) :
    Holds (values.flatMap Observer.notes) (values.foldl (fun s value => (s.observeStream value).1) {}) := by
  have h := nil.notes (values.flatMap Observer.notes)
  rw [List.nil_append, List.foldl_flatMap] at h
  simpa only [ObservationState.observeStream_fst] using h

/-! ### Two states that were told the same -/

section
variable {l' : List Note} {s' : ObservationState} (h : Holds l s) (h' : Holds l' s') (hsame : ∀ n, n ∈ l ↔ n ∈ l')
include h h' hsame

theorem usage_eq : s.usage = s'.usage := by
  rw [h.usage, h'.usage, foldl_sup_congr hsame]

theorem toolCalls_eq (outcome : StreamOutcome) (incomplete : Bool) (estimate estimate' promptEstimate : Option Nat) :
    (s.finish outcome incomplete estimate promptEstimate).toolCalls =
      (s'.finish outcome incomplete estimate' promptEstimate).toolCalls := by
  obtain ⟨refused, hcapped, hinvalid⟩ := h.tools
  obtain ⟨refused', hcapped', hinvalid'⟩ := h'.tools
  rw [← pairs_congr hsame] at hcapped'
  obtain rfl := hcapped.overflow_eq hcapped'
  have hi : s.toolsInvalid = s'.toolsInvalid := by rw [Bool.eq_iff_iff, hinvalid, hinvalid', hsame]
  have hp : s.toolsPresent = s'.toolsPresent := by rw [Bool.eq_iff_iff, h.present, h'.present, hsame]
  have hs : s.observedStream = s'.observedStream := by rw [Bool.eq_iff_iff, h.stream, h'.stream, hsame]
  cases hvalid : s'.toolsInvalid with
  | true => simp only [ObservationState.finish, hi, hvalid, if_true]
  | false =>
    have hrefused : refused = false := by
      refine Bool.eq_false_iff.2 fun hr => ?_
      rw [hinvalid'.2 (.inr hr)] at hvalid
      cases hvalid
    have hpairs : s.toolPairs = s'.toolPairs := by
      rw [hcapped.eq_of_kept hrefused, hcapped'.eq_of_kept hrefused]
    simp only [ObservationState.finish, hi, hp, hs, hvalid, hpairs, h.buffered, h'.buffered]

theorem finishReasons_eq (hfew : (indexes l).card ≤ maxIndexedStreamObservations) (outcome : StreamOutcome)
    (incomplete : Bool) (estimate estimate' promptEstimate : Option Nat) :
    (s.finish outcome incomplete estimate promptEstimate).finishReasons =
      (s'.finish outcome incomplete estimate' promptEstimate).finishReasons := by
  have hchoices' := h'.choices
  rw [← indexes_congr hsame] at hchoices'
  have ho := h.choices.overflow_eq hchoices'
  have hnone : s.finishesOverflowed = false :=
    Bool.eq_false_iff.2 fun ho => by have := h.choices.overflow_iff.1 ho; omega
  have hkeys : s.finishes.keys.toFinset = s'.finishes.keys.toFinset := by
    rw [h.choices.eq_of_kept hnone, hchoices'.eq_of_kept (ho ▸ hnone)]
  have hfinishes : s.finishes = s'.finishes := by
    refine Std.ExtTreeMap.ext_getElem? fun index => ?_
    have hmem : index ∈ s.finishes ↔ index ∈ s'.finishes := by
      rw [← Std.ExtTreeMap.mem_keys, ← List.mem_toFinset, hkeys, List.mem_toFinset, Std.ExtTreeMap.mem_keys]
    by_cases hs : index ∈ s.finishes
    · obtain ⟨seen, hseen⟩ := Option.isSome_iff_exists.1 (Std.ExtTreeMap.mem_iff_isSome_getElem?.1 hs)
      obtain ⟨seen', hseen'⟩ := Option.isSome_iff_exists.1 (Std.ExtTreeMap.mem_iff_isSome_getElem?.1 (hmem.1 hs))
      rw [hseen, hseen', h.seen index seen hseen, h'.seen index seen' hseen', foldl_sup_congr hsame]
    · rw [Std.ExtTreeMap.getElem?_eq_none hs, Std.ExtTreeMap.getElem?_eq_none fun hs' => hs (hmem.2 hs')]
  show s.finishes.toList.map _ = s'.finishes.toList.map _
  rw [hfinishes, ho]

end

end Holds

/-! ### Streams of complete events -/

theorem atBoundary_flatten {events : List (List UInt8)} (h : ∀ event ∈ events, AtBoundary event) :
    AtBoundary events.flatten := by
  induction events with
  | nil => exact ⟨rfl, rfl⟩
  | cons event events ih =>
    rw [List.forall_mem_cons] at h
    have htail := ih h.2
    rw [List.flatten_cons, AtBoundary, h.1.split, cutEvents_append h.1.2]
    exact htail

theorem received_flatten (fromStr : List UInt8 → Option Json.Value) {events : List (List UInt8)}
    (h : ∀ event ∈ events, AtBoundary event) :
    received fromStr events.flatten = events.flatMap (received fromStr) := by
  induction events with
  | nil => rfl
  | cons event events ih =>
    rw [List.forall_mem_cons] at h
    rw [List.flatten_cons, List.flatMap_cons, ← ih h.2, received, h.1.cut, List.filterMap_append]
    rfl

/-- A stream that ends where an event may begin leaves nothing out of its observations. -/
theorem observeStreamed_complete (fromStr : List UInt8 → Option Json.Value) {chunks : List (List UInt8)}
    (h : AtBoundary chunks.flatten) (outcome : StreamOutcome) (promptEstimate : Option Nat) :
    ∃ estimate, observeStreamed fromStr chunks outcome promptEstimate =
      ((received fromStr chunks.flatten).foldl (fun s value => (s.observeStream value).1) ({} : ObservationState)).finish
        outcome (decide (outcome ≠ .completed)) estimate promptEstimate := by
  unfold received
  rw [observeStreamed, observe_eq, reference]
  obtain ⟨hrest, hpending⟩ := h
  generalize splitLines 10 chunks.flatten = cut at hrest hpending ⊢
  obtain ⟨lines, rest⟩ := cut
  dsimp only at hrest hpending ⊢
  rw [hrest, hpending, List.nil_append, overBound_nil, ← observeEvents_fst fromStr _ ({}, 0)]
  have hpayload : (payload []).isEmpty = true := rfl
  simp only [Bool.false_eq_true, if_false, hpayload, List.isEmpty_nil, Bool.not_true, Bool.or_false, and_false]
  exact ⟨_, rfl⟩

/-- The choice indexes of a value. -/
def choiceIndexes (value : Json.Value) : List Nat :=
  (((value.get "choices").bind Json.Value.asArray).getD []).filterMap fun choice =>
    (choice.get "index").bind Json.Value.asU64

theorem ofToolCall_ne_finish (index i : Nat) (value : Option Json.Value) (toolCall : Json.Value) :
    Note.ofToolCall index toolCall ≠ .finish i value := by
  unfold Note.ofToolCall
  split
  · split <;> simp
  · simp

theorem exists_finish_ofChoice {choice : Json.Value} {i : Nat} :
    (∃ value, Note.finish i value ∈ Note.ofChoice choice) ↔ (choice.get "index").bind Json.Value.asU64 = some i := by
  unfold Note.ofChoice
  split
  · split
    · rename_i hindex
      simp [hindex]
    · rename_i index hindex
      rw [hindex, Option.some.injEq]
      constructor
      · rintro ⟨value, h⟩
        rcases List.mem_cons.1 h with h | h
        · cases h
          rfl
        · split at h
          · simp at h
          · split at h
            · simp at h
            · obtain ⟨toolCall, -, h⟩ := List.mem_map.1 h
              exact absurd h (ofToolCall_ne_finish _ _ _ _)
            · simp at h
          · simp at h
      · rintro rfl
        exact ⟨_, List.mem_cons_self⟩
  · rename_i hobject
    cases choice <;> simp_all [Json.Value.get]

theorem mem_indexes_notes {value : Json.Value} {i : Nat} :
    i ∈ indexes (notes value) ↔ i ∈ choiceIndexes value := by
  rw [mem_indexes, choiceIndexes, notes]
  cases value.get "choices" with
  | none => simp
  | some choices =>
    cases hchoices : choices.asArray with
    | none => simp [hchoices]
    | some choices' =>
      simp only [List.mem_cons, reduceCtorEq, false_or, List.mem_flatMap, Option.bind_some, hchoices,
        Option.getD_some, List.mem_filterMap, ← exists_finish_ofChoice]
      constructor
      · rintro ⟨reason, choice, hchoice, h⟩
        exact ⟨choice, hchoice, reason, h⟩
      · rintro ⟨choice, hchoice, reason, h⟩
        exact ⟨reason, choice, hchoice, h⟩

theorem indexes_notes (values : List Json.Value) :
    indexes (values.flatMap notes) = (values.flatMap choiceIndexes).toFinset := by
  ext i
  simp only [mem_indexes, List.mem_toFinset, List.mem_flatMap, ← mem_indexes_notes]
  constructor
  · rintro ⟨reason, value, hvalue, h⟩
    exact ⟨value, hvalue, reason, h⟩
  · rintro ⟨value, hvalue, reason, h⟩
    exact ⟨reason, value, hvalue, h⟩

/-- A number that was seen is not estimated. -/
theorem finish_congr {s : UsageState} (h : s.completion ≠ ⊥) (estimate estimate' promptEstimate : Option Nat) :
    s.finish estimate promptEstimate = s.finish estimate' promptEstimate := by
  have hseen : s.completion.result ≠ .unavailable := fun hr => h (SeenNumber.result_eq_unavailable.1 hr)
  have (estimate : Option Nat) : estimateOr s.completion.result estimate = s.completion.result := by
    unfold estimateOr
    split
    · rename_i hr
      exact absurd hr hseen
    · rfl
  simp only [UsageState.finish, this]

/-- Two streams of the same complete events, in whatever order and however often each event comes. -/
theorem observations_reordered (fromStr : List UInt8 → Option Json.Value) {events events' : List (List UInt8)}
    (hcomplete : ∀ event ∈ events, AtBoundary event) (hsame : ∀ event, event ∈ events ↔ event ∈ events')
    {chunks chunks' : List (List UInt8)} (hchunks : chunks.flatten = events.flatten)
    (hchunks' : chunks'.flatten = events'.flatten) (outcome : StreamOutcome) (promptEstimate : Option Nat) :
    ((∃ value ∈ received fromStr events.flatten, unreported "completion_tokens" value = false) →
      (observeStreamed fromStr chunks outcome promptEstimate).usage =
        (observeStreamed fromStr chunks' outcome promptEstimate).usage) ∧
    (observeStreamed fromStr chunks outcome promptEstimate).toolCalls =
      (observeStreamed fromStr chunks' outcome promptEstimate).toolCalls ∧
    (((received fromStr events.flatten).flatMap choiceIndexes).toFinset.card ≤ maxIndexedStreamObservations →
      (observeStreamed fromStr chunks outcome promptEstimate).finishReasons =
        (observeStreamed fromStr chunks' outcome promptEstimate).finishReasons) := by
  have hcomplete' : ∀ event ∈ events', AtBoundary event := fun event h => hcomplete event ((hsame event).2 h)
  obtain ⟨estimate, hfinal⟩ := observeStreamed_complete fromStr (hchunks ▸ atBoundary_flatten hcomplete) outcome
    promptEstimate
  obtain ⟨estimate', hfinal'⟩ := observeStreamed_complete fromStr (hchunks' ▸ atBoundary_flatten hcomplete') outcome
    promptEstimate
  rw [hfinal, hfinal', hchunks, hchunks']
  have hnotes : ∀ n, n ∈ (received fromStr events.flatten).flatMap notes ↔
      n ∈ (received fromStr events'.flatten).flatMap notes := by
    intro n
    rw [received_flatten fromStr hcomplete, received_flatten fromStr hcomplete']
    simp only [List.mem_flatMap, hsame]
  have h := Holds.values (received fromStr events.flatten)
  have h' := Holds.values (received fromStr events'.flatten)
  refine ⟨?_, h.toolCalls_eq h' hnotes outcome _ _ _ _, fun hfew => ?_⟩
  · rintro ⟨value, hvalue, hreported⟩
    have husage := h.usage_eq h' hnotes
    have hseen : ((received fromStr events.flatten).foldl (fun s value => (s.observeStream value).1)
        ({} : ObservationState)).usage.completion ≠ ⊥ := by
      rw [ObservationState.usage_stream, completion_join]
      intro hbot
      rw [(completion_usageOf value).1 (foldl_sup_eq_bot_iff.1 hbot value hvalue)] at hreported
      cases hreported
    show (if _ then _ else _) = (if _ then _ else _)
    rw [← husage, finish_congr hseen estimate estimate']
  · refine h.finishReasons_eq h' hnotes ?_ outcome _ _ _ _
    rwa [indexes_notes]

/-! ### A stream told twice -/

def usageText : List UInt8 := ascii "\x7b\"usage\":\x7b\"completion_tokens\":3\x7d\x7d"

def stopText : List UInt8 := ascii "\x7b\"choices\":[\x7b\"index\":0,\"finish_reason\":\"stop\"\x7d]\x7d"

def usageValue : Json.Value := .object [("usage", .object [("completion_tokens", .number (.posInt 3))])]

def stopValue : Json.Value :=
  .object [("choices", .array [.object [("finish_reason", .string "stop"), ("index", .number (.posInt 0))]])]

def readTwo (text : List UInt8) : Option Json.Value :=
  if text = usageText then some usageValue else if text = stopText then some stopValue else none

def eventOf (text : List UInt8) : List UInt8 := ascii "data: " ++ text ++ [10, 10]

theorem observations_reordered_twice :
    (observeStreamed readTwo [eventOf usageText, eventOf stopText] .completed none).usage =
      (observeStreamed readTwo [eventOf stopText, eventOf usageText, eventOf stopText] .completed none).usage ∧
    (observeStreamed readTwo [eventOf usageText, eventOf stopText] .completed none).finishReasons =
      (observeStreamed readTwo [eventOf stopText, eventOf usageText, eventOf stopText] .completed none).finishReasons := by
  have hreceived : received readTwo [eventOf usageText, eventOf stopText].flatten = [usageValue, stopValue] := by rfl
  obtain ⟨husage, -, hfinish⟩ := @observations_reordered readTwo [eventOf usageText, eventOf stopText]
    [eventOf stopText, eventOf usageText, eventOf stopText]
    (List.forall_mem_cons.2 ⟨⟨rfl, rfl⟩, List.forall_mem_cons.2 ⟨⟨rfl, rfl⟩, by simp⟩⟩)
    (fun event => by simp [or_comm]) [eventOf usageText, eventOf stopText]
    [eventOf stopText, eventOf usageText, eventOf stopText] rfl rfl .completed none
  exact ⟨husage ⟨usageValue, by rw [hreceived]; simp, rfl⟩, hfinish (by rw [hreceived]; decide)⟩

end OpenProxy.Observer
