import Mathlib

/-!
# Maps that remember the order of insertion

A key keeps the place at which it was first set. What a map says about a key is what was last set for it.
-/

structure OrderedMap (κ α : Type*) where
  entries : List (κ × α)
  nodup : (entries.map (·.1)).Nodup

namespace OrderedMap

variable {κ α : Type*} [DecidableEq κ] {m : OrderedMap κ α} {k k' : κ} {v v' : α}

def empty : OrderedMap κ α := ⟨[], List.nodup_nil⟩

def get? (m : OrderedMap κ α) (k : κ) : Option α := (m.entries.find? (·.1 = k)).map (·.2)

def contains (m : OrderedMap κ α) (k : κ) : Bool := (m.get? k).isSome

def values (m : OrderedMap κ α) : List α := m.entries.map (·.2)

/-- The entries after `k` has been set. -/
def setIn (k : κ) (v : α) : List (κ × α) → List (κ × α)
  | [] => [(k, v)]
  | e :: entries => if e.1 = k then (k, v) :: entries else e :: setIn k v entries

theorem keys_setIn (k : κ) (v : α) (entries : List (κ × α)) :
    (setIn k v entries).map (·.1) = entries.map (·.1) ∨
      k ∉ entries.map (·.1) ∧ (setIn k v entries).map (·.1) = entries.map (·.1) ++ [k] := by
  induction entries with
  | nil => exact .inr ⟨List.not_mem_nil, rfl⟩
  | cons e entries ih =>
    rw [setIn]
    split
    · rename_i he
      exact .inl (by rw [List.map_cons, List.map_cons, he])
    · rename_i he
      rcases ih with ih | ⟨hk, ih⟩
      · exact .inl (by rw [List.map_cons, List.map_cons, ih])
      · refine .inr ⟨fun h => ?_, by rw [List.map_cons, List.map_cons, ih, List.cons_append]⟩
        rcases List.mem_cons.1 h with h | h
        · exact he h.symm
        · exact hk h

def set (m : OrderedMap κ α) (k : κ) (v : α) : OrderedMap κ α where
  entries := setIn k v m.entries
  nodup := by
    rcases keys_setIn k v m.entries with h | ⟨hk, h⟩
    · rw [h]
      exact m.nodup
    · rw [h]
      refine List.nodup_append.2 ⟨m.nodup, List.nodup_singleton k, fun a ha b hb hab => hk ?_⟩
      rwa [hab, List.mem_singleton.1 hb] at ha

/-! ### Looking up -/

theorem find?_setIn (k : κ) (v : α) (entries : List (κ × α)) (k' : κ) :
    (setIn k v entries).find? (·.1 = k') = if k' = k then some (k, v) else entries.find? (·.1 = k') := by
  induction entries with
  | nil =>
    by_cases h : k' = k
    · simp [setIn, h]
    · simp [setIn, h, Ne.symm h]
  | cons e entries ih =>
    rw [setIn]
    split
    · rename_i he
      by_cases h : k' = k
      · simp [h]
      · simp [h, Ne.symm h, he]
    · rename_i he
      rw [List.find?_cons, List.find?_cons, ih]
      by_cases h : k' = k
      · simp [h, he]
      · simp [h]

@[simp] theorem get?_empty : (empty : OrderedMap κ α).get? k = none := rfl

theorem get?_set : (m.set k v).get? k' = if k' = k then some v else m.get? k' := by
  rw [get?, set, find?_setIn]
  split <;> rfl

/-- There is at most one entry for a key. -/
theorem filter_key {entries : List (κ × α)} (h : (entries.map (·.1)).Nodup) (k : κ) :
    entries.filter (·.1 = k) = (entries.find? (·.1 = k)).toList := by
  induction entries with
  | nil => rfl
  | cons e entries ih =>
    rw [List.map_cons, List.nodup_cons] at h
    rw [List.filter_cons, List.find?_cons]
    by_cases he : e.1 = k
    · have hnil : entries.filter (·.1 = k) = [] := by
        rw [List.filter_eq_nil_iff]
        intro e' he' heq
        exact h.1 (he ▸ of_decide_eq_true heq ▸ List.mem_map_of_mem he')
      simp only [he, decide_true, if_true, hnil, Option.toList_some]
    · simp only [he, decide_false, Bool.false_eq_true, if_false, ih h.2]

theorem mem_entries_iff : (k, v) ∈ m.entries ↔ m.get? k = some v := by
  have hfilter := filter_key m.nodup k
  constructor
  · intro h
    have hmem : (k, v) ∈ m.entries.filter (·.1 = k) := List.mem_filter.2 ⟨h, by simp⟩
    rw [hfilter, Option.mem_toList] at hmem
    rw [get?, hmem]
    rfl
  · intro h
    obtain ⟨e, he, rfl⟩ := Option.map_eq_some_iff.1 h
    have hkey : e.1 = k := by simpa using List.find?_some he
    exact hkey ▸ List.mem_of_find?_eq_some he

/-- The values that tell their keys. -/
theorem filter_values {p : α → Bool} (h : ∀ k' v, m.get? k' = some v → (p v = true ↔ k' = k)) :
    m.values.filter p = (m.get? k).toList := by
  have hkeys : m.entries.filter (p ∘ Prod.snd) = m.entries.filter (·.1 = k) := by
    refine List.filter_congr fun e he => ?_
    rw [Bool.eq_iff_iff, decide_eq_true_iff]
    exact h e.1 e.2 (mem_entries_iff.1 he)
  rw [values, List.filter_map, hkeys, filter_key m.nodup, get?]
  cases m.entries.find? (·.1 = k) <;> rfl

end OrderedMap
