import Mathlib

/-!
# Delimited lines

A sequence cut at a delimiter: the terminated lines and the unterminated rest. Cutting is compositional:
what follows the last delimiter of a prefix is the start of the next line, and nothing before it changes.
-/

namespace Lines

variable {α : Type*} {d : α}

/-- Each line with its delimiter. -/
def joinLines (d : α) (lines : List (List α)) : List α := lines.flatMap (· ++ [d])

@[simp] theorem joinLines_nil : joinLines d ([] : List (List α)) = [] := rfl

@[simp] theorem joinLines_append (lines lines' : List (List α)) :
    joinLines d (lines ++ lines') = joinLines d lines ++ joinLines d lines' := List.flatMap_append

theorem joinLines_cons (line : List α) (lines : List (List α)) :
    joinLines d (line :: lines) = line ++ d :: joinLines d lines := by
  simp [joinLines]

/-- An element before lines and a rest: the start of the first line. -/
def consElem (a : α) : List (List α) × List α → List (List α) × List α
  | ([], rest) => ([], a :: rest)
  | (line :: lines, rest) => ((a :: line) :: lines, rest)

/-- An empty line before lines and a rest. -/
def consLine (p : List (List α) × List α) : List (List α) × List α := ([] :: p.1, p.2)

variable [DecidableEq α]

/-- The terminated lines, and the rest after the last delimiter. -/
def splitLines (d : α) : List α → List (List α) × List α
  | [] => ([], [])
  | a :: as => if a = d then consLine (splitLines d as) else consElem a (splitLines d as)

theorem splitLines_line {line : List α} (h : d ∉ line) (rest : List α) :
    splitLines d (line ++ d :: rest) = (line :: (splitLines d rest).1, (splitLines d rest).2) := by
  induction line with
  | nil => exact if_pos rfl
  | cons a line ih =>
    have ha : a ≠ d := fun h' => h (h' ▸ List.mem_cons_self)
    rw [List.cons_append, splitLines, if_neg ha, ih fun h' => h (List.mem_cons_of_mem _ h')]
    rfl

theorem splitLines_rest {rest : List α} (h : d ∉ rest) : splitLines d rest = ([], rest) := by
  induction rest with
  | nil => rfl
  | cons a rest ih =>
    have ha : a ≠ d := fun h' => h (h' ▸ List.mem_cons_self)
    rw [splitLines, if_neg ha, ih fun h' => h (List.mem_cons_of_mem _ h')]
    rfl

theorem splitLines_joinLines {lines : List (List α)} (h : ∀ line ∈ lines, d ∉ line) (rest : List α) :
    splitLines d (joinLines d lines ++ rest) = (lines ++ (splitLines d rest).1, (splitLines d rest).2) := by
  induction lines with
  | nil => rfl
  | cons line lines ih =>
    rw [joinLines_cons, List.append_assoc, List.cons_append, splitLines_line (h line List.mem_cons_self),
      ih fun l hl => h l (List.mem_cons_of_mem _ hl)]
    rfl

/-- No line holds the delimiter, and neither does the rest. -/
theorem not_mem_splitLines (as : List α) :
    (∀ line ∈ (splitLines d as).1, d ∉ line) ∧ d ∉ (splitLines d as).2 := by
  induction as with
  | nil => exact ⟨fun _ h => absurd h List.not_mem_nil, List.not_mem_nil⟩
  | cons a as ih =>
    obtain ⟨hlines, hrest⟩ := ih
    rw [splitLines]
    generalize splitLines d as = p at hlines hrest ⊢
    obtain ⟨lines, rest⟩ := p
    split
    · refine ⟨fun line hl => ?_, hrest⟩
      rcases List.mem_cons.1 hl with rfl | hl
      · exact List.not_mem_nil
      · exact hlines line hl
    · rename_i ha
      have hcons : ∀ l : List α, d ∉ l → d ∉ a :: l := fun l hl h' => by
        rcases List.mem_cons.1 h' with h' | h'
        · exact ha h'.symm
        · exact hl h'
      cases lines with
      | nil => exact ⟨fun _ h => absurd h List.not_mem_nil, hcons _ hrest⟩
      | cons line lines =>
        refine ⟨fun line' hl => ?_, hrest⟩
        rcases List.mem_cons.1 hl with rfl | hl
        · exact hcons _ (hlines line List.mem_cons_self)
        · exact hlines line' (List.mem_cons_of_mem _ hl)

/-- Cutting loses nothing. -/
theorem joinLines_splitLines (as : List α) : joinLines d (splitLines d as).1 ++ (splitLines d as).2 = as := by
  induction as with
  | nil => rfl
  | cons a as ih =>
    rw [splitLines]
    generalize splitLines d as = p at ih ⊢
    obtain ⟨lines, rest⟩ := p
    split
    · rename_i ha
      rw [ha]
      exact congrArg (d :: ·) ih
    · cases lines <;> exact congrArg (a :: ·) ih

/-- Cutting is compositional: more elements go on from the rest. -/
theorem splitLines_append (as bs : List α) :
    splitLines d (as ++ bs) =
      ((splitLines d as).1 ++ (splitLines d ((splitLines d as).2 ++ bs)).1,
        (splitLines d ((splitLines d as).2 ++ bs)).2) := by
  have := splitLines_joinLines (not_mem_splitLines (d := d) as).1 ((splitLines d as).2 ++ bs)
  rwa [← List.append_assoc, joinLines_splitLines] at this

theorem splitLines_concat_delim (as : List α) :
    splitLines d (as ++ [d]) = ((splitLines d as).1 ++ [(splitLines d as).2], []) := by
  rw [splitLines_append, splitLines_line (not_mem_splitLines as).2 []]
  rfl

theorem splitLines_concat (as : List α) {a : α} (h : a ≠ d) :
    splitLines d (as ++ [a]) = ((splitLines d as).1, (splitLines d as).2 ++ [a]) := by
  have hrest : d ∉ (splitLines d as).2 ++ [a] := by
    intro hd
    rcases List.mem_append.1 hd with hd | hd
    · exact (not_mem_splitLines as).2 hd
    · exact h (List.mem_singleton.1 hd).symm
  rw [splitLines_append, splitLines_rest hrest, List.append_nil]

end Lines
