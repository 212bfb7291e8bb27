import OpenProxy.Permits

/-!
# The learned cap over time (`admit_at`, `note_exhausted_at` of `governor.rs`)

A cap engages at half of what is in flight, and some of that may have come before the cap there was. `Halved` relates
the two: at most twice the cap and one more are in flight, so that half of them is not above it. Between exhaustions
a cap grows by one at a time, no sooner than a minute after it was last set.
-/

namespace OpenProxy

namespace Governor

namespace ModelState

/-- A cap is at least half of what is in flight. -/
def Halved (s : ModelState) : Prop := 0 < s.limit → s.inflight ≤ 2 * s.limit + 1

/-- The cap was last set at some time since `t`, and has grown by at most the minutes from `t` to then. -/
def Grown (t engaged now : Nat) (s : ModelState) : Prop :=
  ∃ a ∈ s.lastAdjusted, t ≤ a ∧ a ≤ now ∧ s.limit ≤ engaged + (a - t) / growInterval

variable {s : ModelState} {t engaged now : Nat}

/-- Without an override: the cap dissolves, or it grows a minute after it was set, or it stays. -/
theorem adapt_cases (s : ModelState) (now : Nat) :
    s.adapt none now = { s with limit := 0, lastAdjusted := some now } ∨
      (0 < s.limit ∧ ∃ a ∈ s.lastAdjusted, growInterval ≤ now - a ∧
        s.adapt none now = { s with limit := s.limit + 1, lastAdjusted := some now }) ∨
      s.adapt none now = s := by
  unfold adapt
  split
  · rename_i hcapped
    split
    · exact .inl rfl
    · split
      · rename_i hgrow
        obtain ⟨a, ha, hle⟩ := (any_le_iff now).1 hgrow
        exact .inr (.inl ⟨of_decide_eq_true (Bool.and_eq_true_iff.1 hcapped).2, a, ha, hle, rfl⟩)
      · exact .inr (.inr rfl)
  · exact .inr (.inr rfl)

/-- An admission adapts the cap, and takes a request on if there is none or room below it. -/
theorem admitAt_cases (s : ModelState) (now : Nat) :
    (s.admitAt none now).1 = s.adapt none now ∨
      ((s.adapt none now).limit = 0 ∨ (s.adapt none now).inflight < (s.adapt none now).limit) ∧
        (s.admitAt none now).1 = { s.adapt none now with inflight := (s.adapt none now).inflight + 1 } := by
  unfold admitAt
  dsimp only
  split
  · exact .inl rfl
  · split
    · exact .inl rfl
    · rename_i hroom
      rw [Option.getD_none] at hroom
      exact .inr ⟨by omega, rfl⟩

namespace Halved

theorem adapt (h : s.Halved) (now : Nat) : (s.adapt none now).Halved := by
  rcases s.adapt_cases now with heq | ⟨hpos, a, -, -, heq⟩ | heq
  · rw [heq]
    exact fun hpos => absurd hpos (Nat.lt_irrefl 0)
  · have := h hpos
    rw [heq]
    intro _
    show s.inflight ≤ 2 * (s.limit + 1) + 1
    omega
  · rw [heq]
    exact h

theorem admitAt (h : s.Halved) (now : Nat) : (s.admitAt none now).1.Halved := by
  rcases s.admitAt_cases now with heq | ⟨hroom, heq⟩
  · rw [heq]
    exact h.adapt now
  · rw [heq]
    intro hpos
    have hpos : 0 < (s.adapt none now).limit := hpos
    show (s.adapt none now).inflight + 1 ≤ 2 * (s.adapt none now).limit + 1
    omega

theorem release (h : s.Halved) : s.release.Halved := fun hpos => (Nat.sub_le s.inflight 1).trans (h hpos)

theorem noteExhausted (s : ModelState) (now : Nat) : (s.noteExhausted none now).Halved := by
  intro _
  show s.inflight ≤ 2 * max (s.inflight / 2) 1 + 1
  omega

/-- Half of what is in flight is not above a cap there is. -/
theorem limit_noteExhausted (h : s.Halved) (hpos : 0 < s.limit) (now : Nat) :
    (s.noteExhausted none now).limit ≤ s.limit := by
  have := h hpos
  show max (s.inflight / 2) 1 ≤ s.limit
  omega

end Halved

namespace Grown

theorem noteExhausted (s : ModelState) (now : Nat) :
    Grown now (s.noteExhausted none now).limit now (s.noteExhausted none now) :=
  ⟨now, rfl, le_rfl, le_rfl, Nat.le_add_right _ _⟩

theorem mono (h : Grown t engaged now s) {now' : Nat} (hle : now ≤ now') : Grown t engaged now' s := by
  obtain ⟨a, ha, hta, hanow, hlimit⟩ := h
  exact ⟨a, ha, hta, hanow.trans hle, hlimit⟩

theorem limit_le (h : Grown t engaged now s) : s.limit ≤ engaged + (now - t) / growInterval := by
  obtain ⟨a, -, -, hanow, hlimit⟩ := h
  exact hlimit.trans (Nat.add_le_add_left (Nat.div_le_div_right (Nat.sub_le_sub_right hanow t)) _)

theorem adapt (h : Grown t engaged now s) {now' : Nat} (hle : now ≤ now') :
    Grown t engaged now' (s.adapt none now') := by
  obtain ⟨a, ha, hta, hanow, hlimit⟩ := h
  rcases s.adapt_cases now' with heq | ⟨-, b, hb, hminute, heq⟩ | heq
  · rw [heq]
    exact ⟨now', rfl, hta.trans (hanow.trans hle), le_rfl, Nat.zero_le _⟩
  · obtain rfl : a = b := Option.some.inj (ha.symm.trans hb)
    have hstep : (a - t) / growInterval + 1 ≤ (now' - t) / growInterval := by
      rw [← Nat.add_div_right _ (by decide)]
      exact Nat.div_le_div_right (by omega)
    rw [heq]
    refine ⟨now', rfl, hta.trans (hanow.trans hle), le_rfl, ?_⟩
    show s.limit + 1 ≤ engaged + (now' - t) / growInterval
    omega
  · rw [heq]
    exact ⟨a, ha, hta, hanow.trans hle, hlimit⟩

theorem admitAt (h : Grown t engaged now s) {now' : Nat} (hle : now ≤ now') :
    Grown t engaged now' (s.admitAt none now').1 := by
  have hadapt := h.adapt hle
  rcases s.admitAt_cases now' with heq | ⟨-, heq⟩
  · rw [heq]
    exact hadapt
  · rw [heq]
    exact hadapt

end Grown

end ModelState

end Governor

namespace Permits

open Transition Governor

/-! ### Runs without an override -/

def Op.overrideLimit : Op → Option Nat
  | .admitAt _ overrideLimit _ | .noteExhausted _ overrideLimit _ => overrideLimit
  | .drop _ => none

def Op.time : Op → Option Nat
  | .admitAt _ _ now | .noteExhausted _ _ now => some now
  | .drop _ => none

/-- The operations on the model are without an override. -/
def Adaptive (model : String) (ops : List Op) : Prop := ∀ op ∈ ops, op.model = model → op.overrideLimit = none

def Op.Exhausts (model : String) : Op → Prop
  | .noteExhausted model' _ _ => model' = model
  | .admitAt .. | .drop _ => False

variable {s s' : State} {op : Op} {ops : List Op} {model : String} {t engaged : Nat}

/-- Time goes on to that of the operation. -/
theorem step_now (hs : step s op = some s') : s.now ≤ s'.now ∧ s'.now = op.time.getD s.now := by
  cases op with
  | admitAt model overrideLimit now =>
    rw [step] at hs
    split at hs
    · rename_i hnow
      obtain rfl := Option.some.inj hs
      exact ⟨hnow, rfl⟩
    · cases hs
  | drop model =>
    rw [step] at hs
    split at hs
    · obtain rfl := Option.some.inj hs
      exact ⟨le_rfl, rfl⟩
    · cases hs
  | noteExhausted model overrideLimit now =>
    rw [step] at hs
    split at hs
    · rename_i hnow
      obtain rfl := Option.some.inj hs
      exact ⟨hnow, rfl⟩
    · cases hs

theorem get_noteExhausted {now : Nat} (hs : step s (.noteExhausted model none now) = some s') :
    s'.governor.get model = (s.governor.get model).noteExhausted none now := by
  rw [get_step hs]
  exact if_pos rfl

theorem step_halved (h : (s.governor.get model).Halved) (hfree : op.model = model → op.overrideLimit = none)
    (hs : step s op = some s') : (s'.governor.get model).Halved := by
  rw [get_step hs]
  split
  · rename_i hmodel
    have hnone := hfree hmodel
    cases op with
    | admitAt model' overrideLimit now =>
      obtain rfl : overrideLimit = none := hnone
      exact h.admitAt now
    | drop model' => exact h.release
    | noteExhausted model' overrideLimit now =>
      obtain rfl : overrideLimit = none := hnone
      exact .noteExhausted _ now
  · exact h

theorem step_grown (h : (s.governor.get model).Grown t engaged s.now)
    (hop : (op.model = model → op.overrideLimit = none) ∧ ¬ op.Exhausts model) (hs : step s op = some s') :
    (s'.governor.get model).Grown t engaged s'.now := by
  obtain ⟨hnow, htime⟩ := step_now hs
  rw [get_step hs]
  split
  · rename_i hmodel
    have hnone := hop.1 hmodel
    cases op with
    | admitAt model' overrideLimit now =>
      obtain rfl : overrideLimit = none := hnone
      rw [htime] at hnow ⊢
      exact h.admitAt hnow
    | drop model' => exact h.mono hnow
    | noteExhausted model' overrideLimit now => exact absurd hmodel hop.2
  · exact h.mono hnow

/-- In every run without an override: an exhaustion that finds a cap does not leave a higher one, and up to the next
one the cap is above the engaged one by at most the minutes since. -/
theorem limit_eases (hs : exec step {} ops = some s) (hfree : Adaptive model ops) :
    (∀ now s', step s (.noteExhausted model none now) = some s' → 0 < (s.governor.get model).limit →
      (s'.governor.get model).limit ≤ (s.governor.get model).limit) ∧
    ∀ t before after engaged, ops = before ++ .noteExhausted model none t :: after →
      exec step {} (before ++ [.noteExhausted model none t]) = some engaged → (∀ op ∈ after, ¬ op.Exhausts model) →
        (s.governor.get model).limit ≤ (engaged.governor.get model).limit + (s.now - t) / growInterval := by
  constructor
  · intro now s' hstep hpos
    have hstart : (({} : Governor).get model).Halved := by
      rw [get_empty]
      exact fun hpos => absurd hpos (Nat.lt_irrefl 0)
    have hhalved : (s.governor.get model).Halved :=
      exec_invariant_of_forall (I := fun s => (s.governor.get model).Halved) (fun _ _ _ h hop hs => step_halved h hop hs)
        hstart hfree hs
    rw [get_noteExhausted hstep]
    exact hhalved.limit_noteExhausted hpos now
  · rintro t before after engaged rfl hengaged hquiet
    rw [List.append_cons, exec_append_eq_some] at hs
    obtain ⟨engaged', hengaged', hafter⟩ := hs
    obtain rfl : engaged = engaged' := Option.some.inj (hengaged.symm.trans hengaged')
    obtain ⟨s₀, -, hstep⟩ := exec_snoc_eq_some.1 hengaged
    have hgrown : (engaged.governor.get model).Grown t (engaged.governor.get model).limit engaged.now := by
      rw [(step_now hstep).2, get_noteExhausted hstep]
      exact .noteExhausted _ t
    have hrun : (s.governor.get model).Grown t (engaged.governor.get model).limit s.now := by
      refine exec_invariant_of_forall
        (I := fun s => (s.governor.get model).Grown t (engaged.governor.get model).limit s.now)
        (P := fun op => (op.model = model → op.overrideLimit = none) ∧ ¬ op.Exhausts model)
        (fun _ _ _ h hop hs => step_grown h hop hs) hgrown (fun op hop => ⟨hfree op ?_, hquiet op hop⟩) hafter
      exact List.mem_append_right _ (List.mem_cons_of_mem _ hop)
    exact hrun.limit_le

/-- Six requests in flight when the workers run out, then four are done, and one is taken on a minute later. -/
def engagement : List Op := List.replicate 6 (.admitAt "m" none 0) ++ [.noteExhausted "m" none 0]

def recovery : List Op := List.replicate 4 (.drop "m") ++ [.admitAt "m" none (60 * second)]

/-- The cap of three has grown to four, and the next exhaustion does not raise it. -/
theorem limit_eases_recovery : ∃ engaged s, exec step {} engagement = some engaged ∧
    exec step {} (engagement ++ recovery) = some s ∧ (engaged.governor.get "m").limit = 3 ∧
      (s.governor.get "m").limit = 4 ∧ 4 ≤ 3 + (s.now - 0) / growInterval ∧
        ∀ now s', step s (.noteExhausted "m" none now) = some s' → (s'.governor.get "m").limit ≤ 4 := by
  have hengaged : (exec step {} engagement).any (fun s => decide ((s.governor.get "m").limit = 3)) = true := by
    decide +kernel
  have hgrown : (exec step {} (engagement ++ recovery)).any (fun s => decide ((s.governor.get "m").limit = 4)) =
      true := by decide +kernel
  obtain ⟨engaged, hengage, hthree⟩ := (Option.any_eq_true ..).1 hengaged
  obtain ⟨s, hs, hfour⟩ := (Option.any_eq_true ..).1 hgrown
  have hthree := of_decide_eq_true hthree
  have hfour := of_decide_eq_true hfour
  have hfree : Adaptive "m" (engagement ++ recovery) := by
    intro op hop _
    simp only [engagement, recovery, List.mem_append, List.mem_replicate, List.mem_singleton] at hop
    rcases hop with (⟨-, rfl⟩ | rfl) | ⟨-, rfl⟩ | rfl <;> rfl
  have hquiet : ∀ op ∈ recovery, ¬ op.Exhausts "m" := by
    intro op hop
    simp only [recovery, List.mem_append, List.mem_replicate, List.mem_singleton] at hop
    rcases hop with ⟨-, rfl⟩ | rfl <;> exact id
  obtain ⟨heases, hpaced⟩ := limit_eases hs hfree
  have hle := hpaced 0 (List.replicate 6 (.admitAt "m" none 0)) recovery engaged
    (by rw [engagement, ← List.append_cons]) hengage hquiet
  rw [hfour, hthree] at hle
  refine ⟨engaged, s, hengage, hs, hthree, hfour, hle, fun now s' hstep => ?_⟩
  have := heases now s' hstep (by rw [hfour]; decide)
  rwa [hfour] at this

end Permits

end OpenProxy
