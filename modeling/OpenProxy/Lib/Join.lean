import Mathlib

/-!
# Joins that forget order and repetition

A fold of joins over a list depends only on which elements the list has. `Flat α` is the smallest semilattice in which
two different values of `α` disagree: nothing, one value, or a conflict. `Capped` says what a table of at most `n` keys
knows of all keys it was offered: while there are no more than `n` of them it has them all, and it has refused one as
soon as there are more, whatever the order they came in.
-/

namespace Join

/-! ### Folds -/

section
variable {α β : Type*} [SemilatticeSup β] {f : α → β}

theorem foldl_sup_le_iff {l : List α} {b c : β} : l.foldl (fun s x => s ⊔ f x) b ≤ c ↔ b ≤ c ∧ ∀ x ∈ l, f x ≤ c := by
  induction l generalizing b with
  | nil => simp
  | cons a l ih => rw [List.foldl_cons, ih, sup_le_iff, List.forall_mem_cons, and_assoc]

theorem le_foldl_sup {l : List α} {b : β} {x : α} (hx : x ∈ l) : f x ≤ l.foldl (fun s x => s ⊔ f x) b :=
  (foldl_sup_le_iff.1 le_rfl).2 x hx

/-- Two lists with the same elements have the same join. -/
theorem foldl_sup_congr {l l' : List α} (h : ∀ x, x ∈ l ↔ x ∈ l') (b : β) :
    l.foldl (fun s x => s ⊔ f x) b = l'.foldl (fun s x => s ⊔ f x) b := by
  refine le_antisymm ?_ ?_
  · rw [foldl_sup_le_iff]
    exact ⟨(foldl_sup_le_iff.1 le_rfl).1, fun x hx => le_foldl_sup ((h x).1 hx)⟩
  · rw [foldl_sup_le_iff]
    exact ⟨(foldl_sup_le_iff.1 le_rfl).1, fun x hx => le_foldl_sup ((h x).2 hx)⟩

theorem foldl_sup_eq_of_le {l : List α} {b : β} (h : ∀ x ∈ l, f x ≤ b) : l.foldl (fun s x => s ⊔ f x) b = b :=
  le_antisymm (foldl_sup_le_iff.2 ⟨le_rfl, h⟩) (foldl_sup_le_iff.1 le_rfl).1

theorem foldl_sup_eq_bot_iff [OrderBot β] {l : List α} :
    l.foldl (fun s x => s ⊔ f x) ⊥ = ⊥ ↔ ∀ x ∈ l, f x = ⊥ := by
  rw [← le_bot_iff, foldl_sup_le_iff]
  simp

end

/-! ### Agreement -/

/-- No value, one value, or values that disagree. -/
inductive Flat (α : Type*) where
  | absent
  | value (a : α)
  | invalid
  deriving DecidableEq, Repr

namespace Flat
variable {α : Type*}

instance : PartialOrder (Flat α) where
  le a b := a = absent ∨ b = invalid ∨ a = b
  le_refl _ := .inr (.inr rfl)
  le_trans a b c hab hbc := by
    rcases hab with rfl | rfl | rfl
    · exact .inl rfl
    · rcases hbc with hbc | rfl | rfl
      · cases hbc
      · exact .inr (.inl rfl)
      · exact .inr (.inl rfl)
    · exact hbc
  le_antisymm a b hab hba := by
    rcases hab with rfl | rfl | rfl
    · rcases hba with rfl | hba | rfl
      · rfl
      · cases hba
      · rfl
    · rcases hba with hba | rfl | rfl
      · cases hba
      · rfl
      · rfl
    · rfl

theorem le_def {a b : Flat α} : a ≤ b ↔ a = absent ∨ b = invalid ∨ a = b := Iff.rfl

instance : OrderBot (Flat α) where
  bot := absent
  bot_le _ := .inl rfl

instance : OrderTop (Flat α) where
  top := invalid
  le_top _ := .inr (.inl rfl)

theorem bot_eq : (⊥ : Flat α) = absent := rfl

variable [DecidableEq α]

def join (a b : Flat α) : Flat α :=
  match a, b with
  | absent, b => b
  | a, absent => a
  | value a, value b => if a = b then value a else invalid
  | _, _ => invalid

instance : SemilatticeSup (Flat α) where
  sup := join
  le_sup_left a b := by
    cases a <;> cases b <;> simp only [join, le_def, true_or, or_true]
    split <;> simp_all
  le_sup_right a b := by
    cases a <;> cases b <;> simp only [join, le_def, true_or, or_true]
    split <;> simp_all
  sup_le a b c hac hbc := by
    rcases hac with rfl | rfl | rfl
    · exact hbc
    · exact .inr (.inl rfl)
    · rcases hbc with rfl | rfl | rfl
      · cases a <;> exact .inr (.inr rfl)
      · exact .inr (.inl rfl)
      · cases b <;> simp [join]

theorem sup_eq_join (a b : Flat α) : a ⊔ b = join a b := rfl

end Flat

/-! ### Tables of bounded size -/

section
variable {κ : Type*} [DecidableEq κ] {n : ℕ} {all kept : Finset κ} {overflow : Bool}

/-- Of the keys `all` that were offered to a table with room for `n` it holds `kept`, and it has refused some or not. A
table that has refused a key stays full. -/
structure Capped (n : ℕ) (all kept : Finset κ) (overflow : Bool) : Prop where
  sub : kept ⊆ all
  card_le : kept.card ≤ n
  eq_of_kept : overflow = false → kept = all
  le_of_refused : overflow = true → n ≤ kept.card
  lt_of_refused : overflow = true → n < all.card

namespace Capped

omit [DecidableEq κ] in
theorem empty (n : ℕ) : Capped n (∅ : Finset κ) ∅ false :=
  ⟨Finset.Subset.refl _, Nat.zero_le _, fun _ => rfl, fun h => absurd h (by simp), fun h => absurd h (by simp)⟩

/-- A key the table holds is offered again. -/
theorem again (h : Capped n all kept overflow) {k : κ} (hk : k ∈ kept) : Capped n (insert k all) kept overflow := by
  rwa [Finset.insert_eq_of_mem (h.sub hk)]

theorem insert (h : Capped n all kept overflow) (k : κ) (hroom : kept.card < n) :
    Capped n (insert k all) (insert k kept) overflow where
  sub := Finset.insert_subset_insert k h.sub
  card_le := (Finset.card_insert_le k kept).trans hroom
  eq_of_kept := fun ho => by rw [h.eq_of_kept ho]
  le_of_refused := fun ho => (h.le_of_refused ho).trans (Finset.card_le_card (Finset.subset_insert k kept))
  lt_of_refused := fun ho => (h.lt_of_refused ho).trans_le (Finset.card_le_card (Finset.subset_insert k all))

/-- A new key finds the table full. -/
theorem refuse (h : Capped n all kept overflow) {k : κ} (hk : k ∉ kept) (hfull : n ≤ kept.card) :
    Capped n (Insert.insert k all) kept true where
  sub := h.sub.trans (Finset.subset_insert k all)
  card_le := h.card_le
  eq_of_kept := fun ho => absurd ho (by simp)
  le_of_refused := fun _ => hfull
  lt_of_refused := fun _ => by
    have hle := Finset.card_le_card (Finset.insert_subset_insert k h.sub)
    rw [Finset.card_insert_of_notMem hk] at hle
    omega

omit [DecidableEq κ] in
theorem eq_of_room (h : Capped n all kept overflow) (hroom : kept.card < n) : kept = all := by
  refine h.eq_of_kept (Bool.eq_false_iff.2 fun ho => ?_)
  have := h.le_of_refused ho
  omega

omit [DecidableEq κ] in
theorem overflow_iff (h : Capped n all kept overflow) : overflow = true ↔ n < all.card := by
  refine ⟨h.lt_of_refused, fun hlt => ?_⟩
  by_contra ho
  have heq := h.eq_of_kept (Bool.eq_false_iff.2 ho)
  have := h.card_le
  rw [heq] at this
  omega

omit [DecidableEq κ] in
theorem overflow_eq (h : Capped n all kept overflow) {kept' : Finset κ} {overflow' : Bool}
    (h' : Capped n all kept' overflow') : overflow = overflow' :=
  Bool.eq_iff_iff.2 (h.overflow_iff.trans h'.overflow_iff.symm)

end Capped

end

end Join
