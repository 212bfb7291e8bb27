import OpenProxy.Governor

/-!
# Permits and drain gaps (`Governor::admit`, `ModelPermit`, `note_exhausted` of `governor.rs`)

Requests take permits, drop them and report exhausted workers in any order, at times that do not go back.
-/

namespace OpenProxy.Permits

open Transition Governor

structure State where
  governor : Governor := {}
  /-- The models of the permits that are held. -/
  permits : List String := []
  /-- The exhaustions recorded, with their times. -/
  exhaustions : List (String × Nat) := []
  now : Nat := 0

inductive Op where
  | admitAt (model : String) (overrideLimit : Option Nat) (now : Nat)
  | drop (model : String)
  | noteExhausted (model : String) (overrideLimit : Option Nat) (now : Nat)

def Op.model : Op → String
  | .admitAt model _ _ | .drop model | .noteExhausted model _ _ => model

def step (s : State) : Op → Option State
  | .admitAt model overrideLimit now =>
    if s.now ≤ now then
      let (governor, ok) := s.governor.admitAt model overrideLimit now
      some { s with governor, permits := if ok then model :: s.permits else s.permits, now }
    else none
  | .drop model =>
    if model ∈ s.permits then
      some { s with governor := s.governor.release model, permits := s.permits.erase model }
    else none
  | .noteExhausted model overrideLimit now =>
    if s.now ≤ now then
      some { s with
        governor := s.governor.noteExhaustedAt model overrideLimit now
        exhaustions := (model, now) :: s.exhaustions
        now }
    else none

/-- What an operation does to the entry of its model. -/
def Op.event : Op → Event
  | .admitAt _ overrideLimit now => .admitAt overrideLimit now
  | .drop _ => .release
  | .noteExhausted _ overrideLimit now => .exhausted overrideLimit now

theorem step_governor {s s' : State} {op : Op} (hs : step s op = some s') :
    s'.governor = s.governor.apply op.model op.event := by
  cases op with
  | admitAt model overrideLimit now =>
    rw [step] at hs
    split at hs
    · obtain rfl := Option.some.inj hs
      rfl
    · cases hs
  | drop model =>
    rw [step] at hs
    split at hs
    · obtain rfl := Option.some.inj hs
      rfl
    · cases hs
  | noteExhausted model overrideLimit now =>
    rw [step] at hs
    split at hs
    · obtain rfl := Option.some.inj hs
      rfl
    · cases hs

theorem get_step {s s' : State} {op : Op} (hs : step s op = some s') (model : String) :
    s'.governor.get model =
      if op.model = model then (s.governor.get model).apply op.event else s.governor.get model := by
  rw [step_governor hs, get_apply]
  split
  · rename_i h
    rw [h]
  · rfl

/-! ### The invariant -/

/-- The drain gap of an entry is that of the last of the recorded exhaustions. -/
structure Gap (s : State) (model : String) : Prop where
  reached : ∀ t, (model, t) ∈ s.exhaustions → ∃ b ∈ (s.governor.get model).blockedUntil, t + exhaustBackoff ≤ b
  recorded : ∀ b ∈ (s.governor.get model).blockedUntil, ∃ t, (model, t) ∈ s.exhaustions ∧ b = t + exhaustBackoff

structure Inv (s : State) : Prop where
  inflight : ∀ model, (s.governor.get model).inflight = s.permits.count model
  gap : ∀ model, Gap s model
  past : ∀ e ∈ s.exhaustions, e.2 ≤ s.now

theorem inv_start : Inv {} where
  inflight model := by
    show (({} : Governor).get model).inflight = 0
    rw [get_empty]
  gap model := by
    refine ⟨nofun, fun b hb => ?_⟩
    have hb : b ∈ (({} : Governor).get model).blockedUntil := hb
    rw [get_empty] at hb
    cases hb
  past := nofun

/-- An operation that records no exhaustion and leaves the drain gap of its model leaves every gap. -/
theorem Gap.congr {s s' : State} {model : String} (h : Gap s model) (hexhaustions : s'.exhaustions = s.exhaustions)
    (hblocked : (s'.governor.get model).blockedUntil = (s.governor.get model).blockedUntil) : Gap s' model := by
  obtain ⟨hreached, hrecorded⟩ := h
  constructor
  · rw [hexhaustions, hblocked]
    exact hreached
  · rw [hexhaustions, hblocked]
    exact hrecorded

theorem admitAt_step {s s' : State} (h : Inv s) {model : String} {overrideLimit : Option Nat} {now : Nat}
    (hs : step s (.admitAt model overrideLimit now) = some s') : Inv s' := by
  have hget : ∀ model', s'.governor.get model' =
      if model = model' then (s.governor.get model').apply (.admitAt overrideLimit now) else s.governor.get model' := get_step hs
  rw [step] at hs
  split at hs
  · rename_i hnow
    obtain rfl := Option.some.inj hs
    refine ⟨fun model' => ?_, fun model' => ?_, fun e he => (h.past e he).trans hnow⟩
    · rw [hget]
      obtain ⟨hinflight, -⟩ := (s.governor.get model).admitAt_frame overrideLimit now
      have hok := s.governor.admitAt_snd model overrideLimit now
      show (if model = model' then (s.governor.get model').apply (.admitAt overrideLimit now)
        else s.governor.get model').inflight =
          (if (s.governor.admitAt model overrideLimit now).2 then model :: s.permits else s.permits).count model'
      rw [hok]
      by_cases hmodel : model = model'
      · subst hmodel
        rw [if_pos rfl]
        show ((s.governor.get model).admitAt overrideLimit now).1.inflight = _
        rw [hinflight, h.inflight]
        split
        · rw [List.count_cons_self]
        · rw [Nat.add_zero]
      · rw [if_neg hmodel, h.inflight]
        split
        · rw [List.count_cons_of_ne hmodel]
        · rfl
    · refine (h.gap model').congr rfl ?_
      rw [hget]
      split
      · exact (ModelState.admitAt_frame _ _ _).2
      · rfl
  · cases hs

theorem drop_step {s s' : State} (h : Inv s) {model : String} (hs : step s (.drop model) = some s') : Inv s' := by
  have hget : ∀ model', s'.governor.get model' =
      if model = model' then (s.governor.get model').apply .release else s.governor.get model' := get_step hs
  rw [step] at hs
  split at hs
  · rename_i hmem
    obtain rfl := Option.some.inj hs
    refine ⟨fun model' => ?_, fun model' => ?_, h.past⟩
    · rw [hget]
      show (if model = model' then (s.governor.get model').release else s.governor.get model').inflight =
        (s.permits.erase model).count model'
      by_cases hmodel : model = model'
      · subst hmodel
        rw [if_pos rfl, List.count_erase_self, ← h.inflight]
        rfl
      · rw [if_neg hmodel, List.count_erase_of_ne (Ne.symm hmodel), h.inflight]
    · refine (h.gap model').congr rfl ?_
      rw [hget]
      split <;> rfl
  · cases hs

theorem noteExhausted_step {s s' : State} (h : Inv s) {model : String} {overrideLimit : Option Nat} {now : Nat}
    (hs : step s (.noteExhausted model overrideLimit now) = some s') : Inv s' := by
  have hget : ∀ model', s'.governor.get model' =
      if model = model' then (s.governor.get model').apply (.exhausted overrideLimit now) else s.governor.get model' := get_step hs
  rw [step] at hs
  split at hs
  · rename_i hnow
    obtain rfl := Option.some.inj hs
    refine ⟨fun model' => ?_, fun model' => ?_, fun e he => ?_⟩
    · rw [hget]
      split
      · exact ((ModelState.noteExhausted_frame _ _ _).1).trans (h.inflight model')
      · exact h.inflight model'
    · have hgap := h.gap model'
      by_cases hmodel : model = model'
      · subst hmodel
        have hblocked := ((s.governor.get model).noteExhausted_frame overrideLimit now).2
        constructor
        · intro t ht
          rw [hget, if_pos rfl]
          refine ⟨now + exhaustBackoff, hblocked, ?_⟩
          rcases List.mem_cons.1 ht with ht | ht
          · rw [(Prod.mk.inj ht).2]
          · exact Nat.add_le_add_right ((h.past _ ht).trans hnow) _
        · intro b hb
          rw [hget, if_pos rfl] at hb
          have hb : some (now + exhaustBackoff) = some b := hblocked.symm.trans hb
          exact ⟨now, List.mem_cons_self, (Option.some.inj hb).symm⟩
      · constructor
        · intro t ht
          rw [hget, if_neg hmodel]
          rcases List.mem_cons.1 ht with ht | ht
          · exact absurd (Prod.mk.inj ht).1.symm hmodel
          · exact hgap.reached t ht
        · intro b hb
          rw [hget, if_neg hmodel] at hb
          obtain ⟨t, ht, hb⟩ := hgap.recorded b hb
          exact ⟨t, List.mem_cons_of_mem _ ht, hb⟩
    · rcases List.mem_cons.1 he with rfl | he
      · exact le_rfl
      · exact (h.past e he).trans hnow
  · cases hs

theorem step_inv {s s' : State} {op : Op} (h : Inv s) (hs : step s op = some s') : Inv s' := by
  cases op with
  | admitAt model overrideLimit now => exact admitAt_step h hs
  | drop model => exact drop_step h hs
  | noteExhausted model overrideLimit now => exact noteExhausted_step h hs

/-! ### Runs -/

/-- In every state of every run: the requests in flight on a model are the permits held on it, so that a drop takes
one off; an admission succeeds exactly if the drain gap of every recorded exhaustion of the model has passed and the
permits are below the cap, or there is none; and an operation leaves the entries of the other models. -/
theorem permits_accounted {ops : List Op} {s : State} (hs : exec step {} ops = some s) :
    (∀ model, (s.governor.get model).inflight = s.permits.count model) ∧
    (∀ model ∈ s.permits, (s.governor.get model).release.inflight + 1 = (s.governor.get model).inflight) ∧
    (∀ model overrideLimit now, (s.governor.admitAt model overrideLimit now).2 = true ↔
      (∀ t, (model, t) ∈ s.exhaustions → t + exhaustBackoff ≤ now) ∧
        ((s.governor.get model).cap overrideLimit now = 0 ∨
          s.permits.count model < (s.governor.get model).cap overrideLimit now)) ∧
    ∀ op s', step s op = some s' → ∀ model, model ≠ op.model → s'.governor.get model = s.governor.get model := by
  have h : Inv s := exec_invariant (fun _ _ _ h hstep => step_inv h hstep) inv_start hs
  refine ⟨h.inflight, fun model hmodel => ?_, fun model overrideLimit now => ?_, fun op s' hstep model hmodel => ?_⟩
  · have hpos : 0 < (s.governor.get model).inflight := by
      rw [h.inflight]
      exact List.count_pos_iff.2 hmodel
    exact Nat.sub_add_cancel hpos
  · have hgap : (∀ b ∈ (s.governor.get model).blockedUntil, b ≤ now) ↔
        ∀ t, (model, t) ∈ s.exhaustions → t + exhaustBackoff ≤ now := by
      constructor
      · intro hopen t ht
        obtain ⟨b, hb, hle⟩ := (h.gap model).reached t ht
        exact hle.trans (hopen b hb)
      · intro hopen b hb
        obtain ⟨t, ht, rfl⟩ := (h.gap model).recorded b hb
        exact hopen t ht
    rw [admitAt_snd, ModelState.admitAt_iff, hgap, h.inflight]
  · rw [get_step hstep, if_neg (Ne.symm hmodel)]

/-- Six requests in flight when the workers run out, then four are done. -/
def exhaustedRun : List Op :=
  List.replicate 6 (.admitAt "m" none 0) ++ [.noteExhausted "m" none 0] ++ List.replicate 4 (.drop "m")

/-- Three in flight are allowed after that, once the gap has passed, and four a minute later. -/
theorem permits_accounted_exhausted :
    ∃ s, exec step {} exhaustedRun = some s ∧ s.permits.count "m" = 2 ∧
      (s.governor.admitAt "m" none second).2 = false ∧ (s.governor.admitAt "m" none (2 * second)).2 = true ∧
      ((s.governor.admitAt "m" none (60 * second)).1.get "m").limit = 4 := by
  have hrun : (exec step {} exhaustedRun).any (fun s => decide (s.permits.count "m" = 2 ∧
      s.exhaustions = [("m", 0)] ∧ (s.governor.get "m").cap none (2 * second) = 3 ∧
      ((s.governor.admitAt "m" none (60 * second)).1.get "m").limit = 4)) = true := by decide +kernel
  obtain ⟨s, hs, hrun⟩ := (Option.any_eq_true ..).1 hrun
  obtain ⟨hcount, hexhaustions, hcap, hlimit⟩ := of_decide_eq_true hrun
  obtain ⟨-, -, hadmitted, -⟩ := permits_accounted hs
  refine ⟨s, hs, hcount, ?_, ?_, hlimit⟩
  · rw [Bool.eq_false_iff]
    intro hok
    have := ((hadmitted "m" none second).1 hok).1 0 (by rw [hexhaustions]; exact List.mem_singleton.2 rfl)
    exact absurd this (by decide)
  · refine (hadmitted "m" none (2 * second)).2 ⟨fun t ht => ?_, .inr ?_⟩
    · rw [hexhaustions, List.mem_singleton] at ht
      rw [(Prod.mk.inj ht).2]
      decide
    · rw [hcount, hcap]
      decide

end OpenProxy.Permits
