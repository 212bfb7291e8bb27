import Mathlib

/-!
# Runs of a labelled step function

A system is a partial step function `step : σ → α → Option σ`: the label carries every choice the
environment makes (which party moves, what the clock reads, what the disk answers), and `none` means
the label is not enabled. `exec` runs a list of labels, `Meets C` says that every step of a run meets
a condition on the state before it and its label, and the invariant rules turn a step lemma into a
lemma about whole runs.
-/

namespace Transition

variable {σ α : Type*} (step : σ → α → Option σ)

/-- Run the labels in order; `none` as soon as one of them is not enabled. -/
def exec : σ → List α → Option σ
  | s, [] => some s
  | s, a :: as => (step s a).bind fun s' => exec s' as

/-- Every step of the run meets `C`, a condition on the state before the step and on its label. -/
def Meets (C : σ → α → Prop) : σ → List α → Prop
  | _, [] => True
  | s, a :: as => C s a ∧ ∀ s', step s a = some s' → Meets C s' as

/-- `P` holds in every state the run visits, the first and the last included. -/
def Always (P : σ → Prop) : σ → List α → Prop
  | s, [] => P s
  | s, a :: as => P s ∧ ∀ s', step s a = some s' → Always P s' as

variable {step} {s s' : σ} {a : α} {as bs : List α}

@[simp] theorem exec_nil : exec step s [] = some s := rfl

theorem exec_cons : exec step s (a :: as) = (step s a).bind fun s' => exec step s' as := rfl

theorem exec_cons_eq_some {t : σ} :
    exec step s (a :: as) = some t ↔ ∃ s', step s a = some s' ∧ exec step s' as = some t := by
  rw [exec_cons, Option.bind_eq_some_iff]

theorem exec_append : exec step s (as ++ bs) = (exec step s as).bind fun s' => exec step s' bs := by
  induction as generalizing s with
  | nil => rfl
  | cons a as ih =>
    simp only [List.cons_append, exec_cons]
    cases h : step s a with
    | none => rfl
    | some s' => simp only [Option.bind_some, ih]

theorem exec_append_eq_some {t : σ} :
    exec step s (as ++ bs) = some t ↔ ∃ s', exec step s as = some s' ∧ exec step s' bs = some t := by
  rw [exec_append, Option.bind_eq_some_iff]

theorem exec_snoc_eq_some {t : σ} :
    exec step s (as ++ [a]) = some t ↔ ∃ s', exec step s as = some s' ∧ step s' a = some t := by
  rw [exec_append_eq_some]
  simp only [exec_cons_eq_some, exec_nil, Option.some.injEq, exists_eq_right]

theorem Always.head {P : σ → Prop} (h : Always step P s as) : P s := by
  cases as with
  | nil => exact h
  | cons a as => exact h.1

/-- The invariant rule: what every step preserves, every run preserves. -/
theorem exec_invariant {I : σ → Prop} (hstep : ∀ s a s', I s → step s a = some s' → I s')
    (h₀ : I s) (h : exec step s as = some s') : I s' := by
  induction as generalizing s with
  | nil => cases h; exact h₀
  | cons a as ih =>
    obtain ⟨s₁, h₁, h₂⟩ := exec_cons_eq_some.1 h
    exact ih (hstep s a s₁ h₀ h₁) h₂

/-- The invariant rule for runs whose steps all meet `C`. -/
theorem exec_invariant_of_meets {C : σ → α → Prop} {I : σ → Prop}
    (hstep : ∀ s a s', I s → C s a → step s a = some s' → I s')
    (h₀ : I s) (hC : Meets step C s as) (h : exec step s as = some s') : I s' := by
  induction as generalizing s with
  | nil => cases h; exact h₀
  | cons a as ih =>
    obtain ⟨s₁, h₁, h₂⟩ := exec_cons_eq_some.1 h
    exact ih (hstep s a s₁ h₀ hC.1 h₁) (hC.2 s₁ h₁) h₂

/-- The invariant rule for runs whose labels all have a property. -/
theorem exec_invariant_of_forall {P : α → Prop} {I : σ → Prop}
    (hstep : ∀ s a s', I s → P a → step s a = some s' → I s')
    (h₀ : I s) (hP : ∀ a ∈ as, P a) (h : exec step s as = some s') : I s' := by
  induction as generalizing s with
  | nil => cases h; exact h₀
  | cons a as ih =>
    rw [List.forall_mem_cons] at hP
    obtain ⟨s₁, h₁, h₂⟩ := exec_cons_eq_some.1 h
    exact ih (hstep s a s₁ h₀ hP.1 h₁) hP.2 h₂

theorem Meets.append_left {C : σ → α → Prop} (h : Meets step C s (as ++ bs)) : Meets step C s as := by
  induction as generalizing s with
  | nil => trivial
  | cons a as ih => exact ⟨h.1, fun s' hs => ih (h.2 s' hs)⟩

theorem Meets.append_right {C : σ → α → Prop} (h : Meets step C s (as ++ bs))
    (hs : exec step s as = some s') : Meets step C s' bs := by
  induction as generalizing s with
  | nil => cases hs; exact h
  | cons a as ih =>
    obtain ⟨s₁, h₁, h₂⟩ := exec_cons_eq_some.1 hs
    exact ih (h.2 s₁ h₁) h₂

theorem Meets.imp {C D : σ → α → Prop} (hCD : ∀ s a, C s a → D s a) (h : Meets step C s as) : Meets step D s as := by
  induction as generalizing s with
  | nil => trivial
  | cons a as ih => exact ⟨hCD s a h.1, fun s' hs => ih (h.2 s' hs)⟩

theorem Meets.and {C D : σ → α → Prop} (hC : Meets step C s as) (hD : Meets step D s as) :
    Meets step (fun s a => C s a ∧ D s a) s as := by
  induction as generalizing s with
  | nil => trivial
  | cons a as ih => exact ⟨⟨hC.1, hD.1⟩, fun s' hs => ih (hC.2 s' hs) (hD.2 s' hs)⟩

instance decidableMeets {C : σ → α → Prop} [∀ s a, Decidable (C s a)] :
    ∀ s as, Decidable (Meets step C s as)
  | _, [] => isTrue trivial
  | s, a :: as =>
    match hs : step s a with
    | none => decidable_of_iff (C s a) ⟨fun h => ⟨h, fun s' h' => by rw [hs] at h'; cases h'⟩, fun h => h.1⟩
    | some s' =>
      have : Decidable (Meets step C s' as) := decidableMeets s' as
      decidable_of_iff (C s a ∧ Meets step C s' as)
        ⟨fun h => ⟨h.1, fun s'' h' => by rw [hs] at h'; cases h'; exact h.2⟩, fun h => ⟨h.1, h.2 s' hs⟩⟩

/-- A condition that keeps `P` where it is met and breaks it where it is not is the exact one. -/
theorem always_iff_meets {I P : σ → Prop} {C : σ → α → Prop}
    (hstep : ∀ s a s', I s → step s a = some s' → I s')
    (hgood : ∀ s a s', I s → P s → C s a → step s a = some s' → P s')
    (hbad : ∀ s a s', I s → ¬ C s a → step s a = some s' → ¬ P s')
    (h₀ : I s) (hP : P s) {t : σ} (h : exec step s as = some t) :
    Always step P s as ↔ Meets step C s as := by
  induction as generalizing s with
  | nil => exact ⟨fun _ => trivial, fun _ => hP⟩
  | cons a as ih =>
    obtain ⟨s₁, h₁, h₂⟩ := exec_cons_eq_some.1 h
    constructor
    · intro hA
      have hA₁ := hA.2 s₁ h₁
      have hC : C s a := by
        by_contra hC
        exact hbad s a s₁ h₀ hC h₁ hA₁.head
      refine ⟨hC, fun s' hs' => ?_⟩
      obtain rfl : s₁ = s' := Option.some.inj (h₁.symm.trans hs')
      exact (ih (hstep s a s₁ h₀ h₁) hA₁.head h₂).1 hA₁
    · rintro ⟨hC, hM⟩
      refine ⟨hP, fun s' hs' => ?_⟩
      obtain rfl : s₁ = s' := Option.some.inj (h₁.symm.trans hs')
      exact (ih (hstep s a s₁ h₀ h₁) (hgood s a s₁ h₀ hP hC h₁) h₂).2 (hM s₁ h₁)

end Transition
