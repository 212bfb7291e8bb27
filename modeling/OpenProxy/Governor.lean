import OpenProxy.Lib.Transition

/-!
# The model-pressure governor (`governor.rs`)

A gate for the requests in flight on each model. Exhaustion of the workers of a model opens a short drain gap and
engages a cap, which grows with time and dissolves; an override pins it. A cap of 0 is none.
-/

namespace OpenProxy

namespace Governor

/-- Instants and durations are in nanoseconds. -/
def second : Nat := 1000000000

def exhaustBackoff : Nat := 2 * second
def growInterval : Nat := 60 * second
def dissolveAfter : Nat := 30 * 60 * second

structure ModelState where
  limit : Nat := 0
  inflight : Nat := 0
  blockedUntil : Option Nat := none
  lastExhausted : Option Nat := none
  lastAdjusted : Option Nat := none
  deriving DecidableEq, Repr

namespace ModelState

/-- The adaptive part of `admit_at`: dissolve, or else grow. -/
def adapt (s : ModelState) (overrideLimit : Option Nat) (now : Nat) : ModelState :=
  if overrideLimit.isNone && decide (0 < s.limit) then
    if s.lastExhausted.any fun t => decide (dissolveAfter ≤ now - t) then
      { s with limit := 0, lastAdjusted := some now }
    else if s.lastAdjusted.any fun t => decide (growInterval ≤ now - t) then
      { s with limit := s.limit + 1, lastAdjusted := some now }
    else s
  else s

/-- `admit_at`, for the entry of the model. -/
def admitAt (s : ModelState) (overrideLimit : Option Nat) (now : Nat) : ModelState × Bool :=
  let s := s.adapt overrideLimit now
  if s.blockedUntil.any fun b => decide (now < b) then (s, false)
  else
    let limit := overrideLimit.getD s.limit
    if 0 < limit ∧ limit ≤ s.inflight then (s, false) else ({ s with inflight := s.inflight + 1 }, true)

def release (s : ModelState) : ModelState := { s with inflight := s.inflight - 1 }

/-- `note_exhausted_at`, for the entry of the model. -/
def noteExhausted (s : ModelState) (overrideLimit : Option Nat) (now : Nat) : ModelState :=
  let s := { s with blockedUntil := some (now + exhaustBackoff), lastExhausted := some now }
  if overrideLimit.isNone then { s with limit := max (s.inflight / 2) 1, lastAdjusted := some now } else s

/-- The cap an admission meets: that of the operator, or else the learned one, which is gone half an hour after the
last exhaustion and one higher a minute after it was last set. -/
def cap (s : ModelState) (overrideLimit : Option Nat) (now : Nat) : Nat :=
  match overrideLimit with
  | some limit => limit
  | none =>
    if s.limit = 0 ∨ ∃ t ∈ s.lastExhausted, dissolveAfter ≤ now - t then 0
    else if ∃ t ∈ s.lastAdjusted, growInterval ≤ now - t then s.limit + 1
    else s.limit

/-! ### One entry -/

variable (s : ModelState) (overrideLimit : Option Nat) (now : Nat)

theorem adapt_frame : (s.adapt overrideLimit now).inflight = s.inflight ∧
    (s.adapt overrideLimit now).blockedUntil = s.blockedUntil ∧
    (s.adapt overrideLimit now).lastExhausted = s.lastExhausted := by
  unfold adapt
  split
  · split
    · exact ⟨rfl, rfl, rfl⟩
    · split <;> exact ⟨rfl, rfl, rfl⟩
  · exact ⟨rfl, rfl, rfl⟩

theorem any_le_iff {o : Option Nat} {d : Nat} :
    (o.any fun t => decide (d ≤ now - t)) = true ↔ ∃ t ∈ o, d ≤ now - t := by
  cases o <;> simp

/-- The limit after adapting is the cap in force. -/
theorem cap_adapt : overrideLimit.getD (s.adapt overrideLimit now).limit = s.cap overrideLimit now := by
  cases overrideLimit with
  | some limit => rfl
  | none =>
    rw [Option.getD_none, cap, adapt]
    simp only [Option.isNone_none, Bool.true_and, decide_eq_true_eq, any_le_iff]
    by_cases hlimit : s.limit = 0
    · rw [if_neg (by omega), if_pos (.inl hlimit), hlimit]
    rw [if_pos (Nat.pos_of_ne_zero hlimit)]
    by_cases hclean : ∃ t ∈ s.lastExhausted, dissolveAfter ≤ now - t
    · rw [if_pos hclean, if_pos (.inr hclean)]
    have hcap : ¬ (s.limit = 0 ∨ ∃ t ∈ s.lastExhausted, dissolveAfter ≤ now - t) := by
      rintro (h | h)
      · exact hlimit h
      · exact hclean h
    rw [if_neg hclean, if_neg hcap]
    split <;> rfl

/-- An admission succeeds outside the drain gap and below the cap. -/
theorem admitAt_iff : (s.admitAt overrideLimit now).2 = true ↔
    (∀ b ∈ s.blockedUntil, b ≤ now) ∧
      (s.cap overrideLimit now = 0 ∨ s.inflight < s.cap overrideLimit now) := by
  obtain ⟨hinflight, hblocked, -⟩ := s.adapt_frame overrideLimit now
  have hgap : (s.blockedUntil.any fun b => decide (now < b)) = true ↔ ¬ ∀ b ∈ s.blockedUntil, b ≤ now := by
    cases s.blockedUntil <;> simp
  rw [admitAt]
  simp only [hblocked, hinflight, cap_adapt, hgap]
  split
  · simp_all
  · rename_i hopen
    rw [not_not] at hopen
    split
    · simp only [Bool.false_eq_true, false_iff, not_and]
      omega
    · simp only [true_iff]
      exact ⟨hopen, by omega⟩

/-- What an admission leaves: one more request in flight if it succeeds, and the drain gap as it is. -/
theorem admitAt_frame : (s.admitAt overrideLimit now).1.inflight =
      s.inflight + (if (s.admitAt overrideLimit now).2 then 1 else 0) ∧
    (s.admitAt overrideLimit now).1.blockedUntil = s.blockedUntil := by
  obtain ⟨hinflight, hblocked, -⟩ := s.adapt_frame overrideLimit now
  rw [admitAt]
  dsimp only
  split
  · exact ⟨hinflight, hblocked⟩
  · split
    · exact ⟨hinflight, hblocked⟩
    · exact ⟨congrArg (· + 1) hinflight, hblocked⟩

theorem noteExhausted_frame : (s.noteExhausted overrideLimit now).inflight = s.inflight ∧
    (s.noteExhausted overrideLimit now).blockedUntil = some (now + exhaustBackoff) := by
  unfold noteExhausted
  dsimp only
  split <;> exact ⟨rfl, rfl⟩

end ModelState

/-- What is recorded for a model. -/
inductive Event where
  | admitAt (overrideLimit : Option Nat) (now : Nat)
  | release
  | exhausted (overrideLimit : Option Nat) (now : Nat)
  deriving DecidableEq, Repr

def ModelState.apply (s : ModelState) : Event → ModelState
  | .admitAt overrideLimit now => (s.admitAt overrideLimit now).1
  | .release => s.release
  | .exhausted overrideLimit now => s.noteExhausted overrideLimit now

end Governor

/-- The entries of the models. -/
structure Governor where
  models : Std.ExtTreeMap String Governor.ModelState := ∅

namespace Governor

/-- The entry of a model, or the one it would get. -/
def get (g : Governor) (model : String) : ModelState := (g.models[model]?).getD {}

def admitAt (g : Governor) (model : String) (overrideLimit : Option Nat) (now : Nat) : Governor × Bool :=
  let (s, ok) := (g.get model).admitAt overrideLimit now
  (⟨g.models.insert model s⟩, ok)

def release (g : Governor) (model : String) : Governor :=
  match g.models[model]? with
  | some s => ⟨g.models.insert model s.release⟩
  | none => g

def noteExhaustedAt (g : Governor) (model : String) (overrideLimit : Option Nat) (now : Nat) : Governor :=
  ⟨g.models.insert model ((g.get model).noteExhausted overrideLimit now)⟩

def apply (g : Governor) (model : String) : Event → Governor
  | .admitAt overrideLimit now => (g.admitAt model overrideLimit now).1
  | .release => g.release model
  | .exhausted overrideLimit now => g.noteExhaustedAt model overrideLimit now

theorem get_empty (model : String) : ({} : Governor).get model = {} := by
  rw [get, Std.ExtTreeMap.getElem?_empty, Option.getD_none]

variable (g : Governor) (model : String)

theorem get_insert (s : ModelState) (model' : String) :
    get ⟨g.models.insert model s⟩ model' = if model = model' then s else g.get model' := by
  rw [get, Std.ExtTreeMap.getElem?_insert]
  simp only [Std.LawfulEqCmp.compare_eq_iff_eq]
  split <;> rfl

/-- An operation changes the entry of its own model only. -/
theorem get_apply (event : Event) (model' : String) :
    (g.apply model event).get model' = if model = model' then (g.get model).apply event else g.get model' := by
  cases event with
  | admitAt overrideLimit now => exact get_insert ..
  | exhausted overrideLimit now => exact get_insert ..
  | release =>
    rw [apply, release]
    cases h : g.models[model]? with
    | some s =>
      have hget : g.get model = s := by rw [get, h, Option.getD_some]
      rw [get_insert, hget]
      rfl
    | none =>
      dsimp only
      split
      · rename_i heq
        rw [← heq, get, h]
        rfl
      · rfl

theorem admitAt_snd (overrideLimit : Option Nat) (now : Nat) :
    (g.admitAt model overrideLimit now).2 = ((g.get model).admitAt overrideLimit now).2 := rfl

end Governor

end OpenProxy
