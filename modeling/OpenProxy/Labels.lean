import OpenProxy.ModelScope

/-!
# The model labels that leave the proxy (`label_model` of `proxy.rs`)

Clients choose the model strings; the labels made of them stand in the metrics and the logs. Whatever the strings are,
each label is short and plain, and there are few of them.
-/

namespace OpenProxy.Labels

open ModelScope

/-- The labels of the strings, in the order they came. -/
def emitted (seen : List String) : List String → List String
  | [] => []
  | raw :: raws => (labelModel seen raw).1 :: emitted (labelModel seen raw).2 raws

def seenAfter (seen raws : List String) : List String := raws.foldl (fun seen raw => (labelModel seen raw).2) seen

/-- No quote, brace, blank or control character, and no longer than what is worth a time series. -/
structure Plain (label : String) : Prop where
  nonempty : label ≠ ""
  short : label.length ≤ 64
  charset : ∀ c ∈ label.toList, c.isAlpha ∨ c.isDigit ∨ c ∈ ['.', '_', '-', '/', ':']

theorem plain_none : Plain "none" := ⟨by decide, by decide, by simp⟩

theorem plain_other : Plain "other" := ⟨by decide, by decide, by simp⟩

theorem plain_sanitizeLabel (raw : String) : Plain (sanitizeLabel raw) := by
  rw [sanitizeLabel]
  split
  · exact plain_none
  · rename_i hne
    refine ⟨fun h => hne ?_, ?_, fun c hc => ?_⟩
    · rw [String.ofList_eq_empty_iff.1 h]
      rfl
    · rw [String.length_ofList, List.length_take]
      omega
    · rw [String.toList_ofList] at hc
      have hinert := (List.mem_filter.1 (List.mem_of_mem_take hc)).2
      simpa [inert, Char.isAlphanum, or_assoc] using hinert

/-! ### One more string -/

section
variable (seen : List String) (raw : String)

theorem label_eq : (labelModel seen raw).1 = sanitizeLabel raw ∨ (labelModel seen raw).1 = "other" := by
  rcases labelModel_cases seen raw with ⟨-, h⟩ | ⟨-, -, h⟩ | ⟨-, -, h⟩
  · exact .inl (by rw [h])
  · exact .inl (by rw [h])
  · exact .inr (by rw [h])

theorem seen_subset : seen ⊆ (labelModel seen raw).2 := by
  rcases labelModel_cases seen raw with ⟨-, h⟩ | ⟨-, -, h⟩ | ⟨-, -, h⟩
  · rw [h]
    exact List.Subset.refl _
  · rw [h]
    exact List.subset_cons_self _ _
  · rw [h]
    exact List.Subset.refl _

theorem length_seen (hcap : seen.length ≤ modelLabelCap) : (labelModel seen raw).2.length ≤ modelLabelCap := by
  rcases labelModel_cases seen raw with ⟨-, h⟩ | ⟨-, hroom, h⟩ | ⟨-, -, h⟩
  · rw [h]
    exact hcap
  · rw [h]
    exact hroom
  · rw [h]
    exact hcap

/-- The label is recorded, or it is the one for all that came too late. -/
theorem label_mem : (labelModel seen raw).1 ∈ "other" :: (labelModel seen raw).2 := by
  rcases labelModel_cases seen raw with ⟨hseen, h⟩ | ⟨-, -, h⟩ | ⟨-, -, h⟩
  · rw [h]
    exact List.mem_cons_of_mem _ hseen
  · rw [h]
    exact List.mem_cons_of_mem _ List.mem_cons_self
  · rw [h]
    exact List.mem_cons_self

end

/-! ### A stream of strings -/

theorem plain_of_mem {seen raws : List String} {label : String} (h : label ∈ emitted seen raws) : Plain label := by
  induction raws generalizing seen with
  | nil => cases h
  | cons raw raws ih =>
    rcases List.mem_cons.1 h with rfl | h
    · rcases label_eq seen raw with h | h
      · rw [h]
        exact plain_sanitizeLabel raw
      · rw [h]
        exact plain_other
    · exact ih h

theorem subset_seenAfter (seen raws : List String) : seen ⊆ seenAfter seen raws := by
  induction raws generalizing seen with
  | nil => exact List.Subset.refl _
  | cons raw raws ih => exact List.Subset.trans (seen_subset seen raw) (ih _)

theorem length_seenAfter {seen : List String} (raws : List String) (hcap : seen.length ≤ modelLabelCap) :
    (seenAfter seen raws).length ≤ modelLabelCap := by
  induction raws generalizing seen with
  | nil => exact hcap
  | cons raw raws ih => exact ih (length_seen seen raw hcap)

theorem emitted_subset (seen raws : List String) : emitted seen raws ⊆ "other" :: seenAfter seen raws := by
  induction raws generalizing seen with
  | nil => exact List.nil_subset _
  | cons raw raws ih =>
    refine List.cons_subset.2 ⟨?_, ih _⟩
    exact List.cons_subset_cons "other" (subset_seenAfter _ raws) (label_mem seen raw)

theorem getElem?_emitted (seen raws : List String) (i : Nat) :
    (emitted seen raws)[i]? = raws[i]?.map fun raw => (labelModel (seenAfter seen (raws.take i)) raw).1 := by
  induction raws generalizing seen i with
  | nil => rfl
  | cons raw raws ih =>
    cases i with
    | zero => rfl
    | succ i =>
      rw [emitted, List.getElem?_cons_succ, List.getElem?_cons_succ, ih, List.take_succ_cons]
      rfl

/-- What a string was labelled with it is labelled with again, whatever came in between. -/
theorem label_again (seen raws : List String) (raw : String) :
    (labelModel (seenAfter (labelModel seen raw).2 raws) raw).1 = (labelModel seen raw).1 := by
  have hrun {seen : List String} {r : Request} (h : Labelled seen r) : Labelled (seenAfter seen raws) r := by
    clear * - h
    induction raws generalizing seen with
    | nil => exact h
    | cons raw raws ih => exact ih (h.again raw)
  have hfirst := hrun (labelled_request { seen } raw "" {})
  exact (labelled_request { seen := seenAfter (labelModel seen raw).2 raws } raw "" {}).model_eq (hfirst.again raw) rfl

theorem emitted_again {seen raws : List String} {i j : Nat} {raw : String} (hij : i < j) (hi : raws[i]? = some raw)
    (hj : raws[j]? = some raw) : (emitted seen raws)[j]? = (emitted seen raws)[i]? := by
  induction raws generalizing seen i j with
  | nil => cases hi
  | cons raw' raws ih =>
    obtain _ | j := j
    · omega
    rw [List.getElem?_cons_succ] at hj
    cases i with
    | zero =>
      obtain rfl := Option.some.inj hi
      show (emitted (labelModel seen raw').2 raws)[j]? = some (labelModel seen raw').1
      rw [getElem?_emitted, hj, Option.map_some, label_again]
    | succ i =>
      rw [List.getElem?_cons_succ] at hi
      exact ih (by omega) hi hj

/-- Labels stay plain and few, and a string that has got its own label keeps it. -/
theorem labels_safe (raws : List String) :
    (∀ label ∈ emitted [] raws, Plain label) ∧
      (emitted [] raws).dedup.length ≤ modelLabelCap + 1 ∧
      ∀ (i j : Nat) (raw : String), i < j → raws[i]? = some raw → raws[j]? = some raw →
        (emitted [] raws)[i]? = some (sanitizeLabel raw) → (emitted [] raws)[j]? = some (sanitizeLabel raw) := by
  refine ⟨fun label h => plain_of_mem h, ?_, ?_⟩
  · have hsub : (emitted [] raws).dedup ⊆ "other" :: seenAfter [] raws :=
      List.Subset.trans (List.dedup_subset _) (emitted_subset [] raws)
    have hlen := ((List.nodup_dedup (emitted [] raws)).subperm hsub).length_le
    have hcap := @length_seenAfter [] raws (Nat.zero_le _)
    rw [List.length_cons] at hlen
    omega
  · intro i j raw hij hi hj hown
    rw [emitted_again hij hi hj, hown]

end OpenProxy.Labels
