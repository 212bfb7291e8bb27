import OpenProxy.Exchange
import OpenProxy.Waiting

/-!
# Overflow of instants (`wait_deadline`, `acquire_model_permit` of `proxy.rs`, `penalize` of `pool.rs`)

Instants are bounded and their additions panic. The configured wait and heartbeat and the upstream's `Retry-After` are
added as they come; everything else that is added is at most a window.
-/

namespace OpenProxy.Exchange

open Transition

/-! ### What a step may add -/

/-- The answer puts the lane in cooldown. -/
def Cools (r : Request) (a : Answer) (now : Nat) : Prop :=
  Handle.retryable a.status = true ∧ now < r.deadline ∧ isWorkerExhausted a.detail = false

/-- What the configuration and the upstream ask to be added fits. -/
def AmountsFit (last : Nat) (s : State) : Op → Prop
  | .arrive _ now => now + ofSecs s.cfg.maxWait ≤ last
  | .heartbeat n now => ∀ r, s.requests[n]? = some r → now + ofSecs r.cfg.heartbeat ≤ last
  | .answered n a now later => ∀ r, s.requests[n]? = some r → Cools r a now → later + backoffFor a.retryAfter ≤ last
  | .fetchFailed _ a now => Handle.retryable a.status = true → now + backoffFor a.retryAfter ≤ last
  | _ => True

/-- The clock leaves room for a window. -/
def Op.Clocked (last : Nat) (op : Op) : Prop := ∀ t ∈ op.times, t + window ≤ last

instance (r : Request) (a : Answer) (now : Nat) : Decidable (Cools r a now) := inferInstanceAs (Decidable (_ ∧ _ ∧ _))

instance (last : Nat) (s : State) : DecidablePred (AmountsFit last s)
  | .arrive _ now => inferInstanceAs (Decidable (now + ofSecs s.cfg.maxWait ≤ last))
  | .heartbeat n now => inferInstanceAs (Decidable (∀ r ∈ s.requests[n]?, now + ofSecs r.cfg.heartbeat ≤ last))
  | .answered n a now later =>
    inferInstanceAs (Decidable (∀ r ∈ s.requests[n]?, Cools r a now → later + backoffFor a.retryAfter ≤ last))
  | .fetchFailed _ a now =>
    inferInstanceAs (Decidable (Handle.retryable a.status = true → now + backoffFor a.retryAfter ≤ last))
  | .save .. | .admitAt .. | .reserve .. | .connectFailed .. | .leave _ | .fetch .. | .release _ => isTrue trivial

instance (last : Nat) (op : Op) : Decidable (op.Clocked last) := inferInstanceAs (Decidable (∀ t ∈ op.times, _))

section
variable {last t d now later n : Nat} {s s' : State} {op : Op} {p p' : Pool}

theorem bounded_eq (h : t + d ≤ last) : bounded last t d = unbounded t d := if_pos h

theorem le_of_bounded {r : Nat} (h : bounded last t d = some r) : t + d ≤ last := by
  unfold bounded at h
  split at h
  · assumption
  · cases h

theorem Good.fits (h : Good s) (hnow : s.clock ≤ now) (hlast : now + window ≤ last) :
    Fits (bounded last) now s.pools.pool := by
  refine ⟨if_pos hlast, fun {i l} hl t ht => if_pos ?_⟩
  have hle := (h.pools.window hl).le_clock t ht
  have hclock := h.clock
  omega

theorem wait_le_window {prefer : Option Nat} {allowed : Option (List Nat)}
    (h : p.reserveFiltered prefer allowed now = (.wait d, p')) : d ≤ window := by
  rcases Pool.reserveFiltered_cases h with ⟨i, -, -, -, htake⟩ | ⟨q, hq, htake | ⟨-, hd⟩⟩
  · obtain ⟨_, _, hr, -⟩ := Pool.tryTake_some htake
    cases hr
  · obtain ⟨_, -, _, -, htake⟩ := Pool.takeFirst_some htake
    obtain ⟨_, _, hr, -⟩ := Pool.tryTake_some htake
    cases hr
  · have hd := Reservation.wait.inj hd
    split at hd
    · exact hd ▸ (Pool.scanned q allowed now).wait_le
    · exact hd.le

/-! ### The step under a bound -/

theorem admit_bounded {r : Request} (hlater : later + window ≤ last) :
    acquireModelPermit (bounded last) s n r now later = acquireModelPermit unbounded s n r now later := by
  have hpoll : poll ≤ window := by decide
  unfold acquireModelPermit
  rw [bounded_eq (by omega : later + poll ≤ last)]

/-- Both reserves are the pool's own. -/
theorem taken_bounded (h : Good s) (hnow : s.clock ≤ now) (hlast : now + window ≤ last) (prefer : Option Nat)
    (allowed : Option (List Nat)) :
    reserveFiltered (bounded last) s.pools.pool prefer allowed now =
        some (s.pools.pool.reserveFiltered prefer allowed now) ∧
      reserveFiltered unbounded s.pools.pool prefer allowed now =
        some (s.pools.pool.reserveFiltered prefer allowed now) :=
  ⟨reserveFiltered_eq (h.fits hnow hlast) prefer, reserveFiltered_eq (.unbounded now _) prefer⟩

theorem reserve_bounded {r : Request} {admitted : Nat} (h : Good s) (hnow : s.clock ≤ now)
    (hlast : now + window ≤ last) (hlater : later + window ≤ last) :
    reserve (bounded last) s n r admitted now later = reserve unbounded s n r admitted now later := by
  unfold reserve
  obtain ⟨hbounded, hunbounded⟩ := taken_bounded h hnow hlast r.prefer (some r.allowed)
  rw [hbounded, hunbounded]
  dsimp only [Option.bind_eq_bind, Option.bind_some]
  cases htaken : s.pools.pool.reserveFiltered r.prefer (some r.allowed) now with
  | mk res p =>
    cases res with
    | ready => rfl
    | wait d =>
      have hd := wait_le_window htaken
      dsimp only
      rw [bounded_eq (by omega : later + d ≤ last)]

theorem fetch_bounded {group : Nat} (h : Good s) (hnow : s.clock ≤ now)
    (hlast : now + window ≤ last) (hlater : later + window ≤ last) :
    fetch (bounded last) s group now later = fetch unbounded s group now later := by
  have hthirty : ofSecs 30 ≤ window := by decide
  unfold fetch
  obtain ⟨hbounded, hunbounded⟩ := taken_bounded h hnow hlast none (some [group])
  rw [bounded_eq (by omega : now + ofSecs 30 ≤ last), hbounded, hunbounded]
  dsimp only [Option.bind_eq_bind, Option.bind_some]
  cases htaken : s.pools.pool.reserveFiltered none (some [group]) now with
  | mk res p =>
    cases res with
    | ready => rfl
    | wait d =>
      have hd := wait_le_window htaken
      dsimp only
      rw [bounded_eq (by omega : later + d ≤ last)]

theorem penalize_bounded {pools : PoolWindow.State} {gen lane backoff : Nat} (h : now + backoff ≤ last) :
    penalize (bounded last) pools gen lane backoff now = penalize unbounded pools gen lane backoff now := by
  unfold penalize
  rw [bounded_eq h]

theorem answered_bounded {r : Request} {slot : Slot} {a : Answer} (hlater : later + window ≤ last)
    (hcools : Cools r a now → later + backoffFor a.retryAfter ≤ last) :
    answered (bounded last) s n r slot a now later = answered unbounded s n r slot a now later := by
  have hgap : Governor.exhaustBackoff ≤ window := by decide
  unfold answered
  split
  · rfl
  · split
    · rename_i hretry
      split
      · rw [bounded_eq (by omega : later + Governor.exhaustBackoff ≤ last)]
      · rename_i hexhausted
        rw [penalize_bounded (hcools ⟨hretry.1, hretry.2, by simpa using hexhausted⟩)]
    · rfl

/-- A step whose additions fit does not panic. -/
theorem step_bounded (h : Good s) (hclock : op.Clocked last) (hfit : AmountsFit last s op) :
    step (bounded last) s op = step unbounded s op := by
  unfold step
  split
  · rename_i htimes
    refine congrArg _ ?_
    obtain ⟨hle, -⟩ := List.pairwise_cons.1 htimes
    cases op with
    | save sc now => rfl
    | leave n => rfl
    | release g => rfl
    | arrive a now =>
      simp only [act]
      rw [bounded_eq hfit]
    | heartbeat n now =>
      simp only [act]
      refine Option.bind_congr fun r hr => ?_
      rw [bounded_eq (hfit r hr)]
    | admitAt n now later =>
      simp only [act, admit_bounded (hclock later (by simp [Op.times]))]
    | reserve n now later =>
      simp only [act, reserve_bounded h (hle now (by simp [Op.times])) (hclock now (by simp [Op.times]))
        (hclock later (by simp [Op.times]))]
    | connectFailed n now =>
      have hfive : ofSecs 5 ≤ window := by decide
      have hnow := hclock now (by simp [Op.times])
      simp only [act, connectFailed, penalize_bounded (by omega : now + ofSecs 5 ≤ last)]
    | answered n a now later =>
      simp only [act]
      refine Option.bind_congr fun r hr => ?_
      simp only [answered_bounded (hclock later (by simp [Op.times])) (hfit r hr)]
    | fetch group now later =>
      simp only [act]
      exact fetch_bounded h (hle now (by simp [Op.times])) (hclock now (by simp [Op.times]))
        (hclock later (by simp [Op.times]))
    | fetchFailed g a now =>
      simp only [act]
      refine Option.bind_congr fun grant _ => ?_
      split
      · rename_i hretry
        rw [penalize_bounded (hfit hretry)]
      · rfl
  · rfl

/-- What a step added did fit. -/
theorem amounts_of_step (h : step (bounded last) s op = some s') : AmountsFit last s op := by
  obtain ⟨-, s₁, hact, -⟩ := step_eq_some h
  cases op with
  | arrive a now =>
    obtain ⟨deadline, hdeadline, -⟩ := Option.bind_eq_some_iff.1 hact
    exact le_of_bounded hdeadline
  | heartbeat n now =>
    intro r hr
    obtain ⟨r', hr', h⟩ := Option.bind_eq_some_iff.1 hact
    obtain rfl := Option.some.inj (hr.symm.trans hr')
    split at h
    · obtain ⟨next, hnext, -⟩ := Option.bind_eq_some_iff.1 h
      exact le_of_bounded hnext
    · cases h
  | answered n a now later =>
    rintro r hr ⟨hretry, hlate, hdetail⟩
    obtain ⟨r', hr', h⟩ := Option.bind_eq_some_iff.1 hact
    obtain rfl := Option.some.inj (hr.symm.trans hr')
    split at h
    · have hrejected : ¬ (r.streaming = true ∧ a.status = 400 ∧ r.fallback = true) := by
        rintro ⟨-, hstatus, -⟩
        rw [hstatus] at hretry
        revert hretry
        decide
      unfold answered at h
      rw [if_neg hrejected, if_pos ⟨hretry, hlate⟩, hdetail] at h
      obtain ⟨⟨pools, till⟩, hpenalty, -⟩ := Option.bind_eq_some_iff.1 h
      obtain ⟨sum, hsum, -⟩ := Option.bind_eq_some_iff.1 hpenalty
      exact le_of_bounded hsum
    · cases h
  | fetchFailed g a now =>
    intro hretry
    obtain ⟨grant, -, h⟩ := Option.bind_eq_some_iff.1 hact
    rw [if_pos hretry] at h
    obtain ⟨⟨pools, till⟩, hpenalty, -⟩ := Option.bind_eq_some_iff.1 h
    obtain ⟨sum, hsum, -⟩ := Option.bind_eq_some_iff.1 hpenalty
    exact le_of_bounded hsum
  | save | admitAt | reserve | connectFailed | leave | fetch | release => trivial

end

/-! ### Runs -/

section
variable {last : Nat} {s s' : State} {ops : List Op}

/-- A run that did not panic added what fits. -/
theorem meets_of_exec (h : exec (step (bounded last)) s ops = some s') :
    Meets (step (bounded last)) (AmountsFit last) s ops := by
  induction ops generalizing s with
  | nil => trivial
  | cons op ops ih =>
    obtain ⟨s₁, hs₁, h⟩ := exec_cons_eq_some.1 h
    refine ⟨amounts_of_step hs₁, fun s₂ hs₂ => ?_⟩
    obtain rfl := Option.some.inj (hs₁.symm.trans hs₂)
    exact ih h

/-- A run that adds only what fits is the run of unbounded instants. -/
theorem exec_of_meets (hgood : Good s) (hclock : ∀ op ∈ ops, op.Clocked last)
    (hfit : Meets (step (bounded last)) (AmountsFit last) s ops) (h : exec (step unbounded) s ops = some s') :
    exec (step (bounded last)) s ops = some s' := by
  induction ops generalizing s with
  | nil => rwa [exec_nil] at h ⊢
  | cons op ops ih =>
    obtain ⟨hop, hrest⟩ := hfit
    obtain ⟨s₁, hs₁, h⟩ := exec_cons_eq_some.1 h
    have hbounded := (step_bounded hgood (hclock op List.mem_cons_self) hop).trans hs₁
    refine exec_cons_eq_some.2 ⟨s₁, hbounded, ?_⟩
    exact ih (hgood.step hs₁) (fun o ho => hclock o (List.mem_cons_of_mem _ ho)) (hrest s₁ hbounded) h

end

/-- A run does not panic if the configured waits and the upstream's backoffs fit and the clock leaves room for a window;
the waits and the backoffs of a run that does not panic do fit. -/
theorem instants_fit {last : Nat} {sc : StoredConfig} {now₀ : Nat} {ops : List Op} {s : State}
    (hvalid : sc.validate = .ok ()) (hs : exec (step unbounded) (start sc now₀) ops = some s) :
    ((∀ op ∈ ops, op.Clocked last) ∧ Meets (step (bounded last)) (AmountsFit last) (start sc now₀) ops →
        exec (step (bounded last)) (start sc now₀) ops = some s) ∧
      (exec (step (bounded last)) (start sc now₀) ops = some s →
        Meets (step (bounded last)) (AmountsFit last) (start sc now₀) ops) :=
  ⟨fun ⟨hclock, hfit⟩ => exec_of_meets (.start hvalid now₀) hclock hfit hs, meets_of_exec⟩

/-- The last instant of a clock that counts seconds with 64 bits. -/
def lastInstant : Nat := 2 ^ 63 * 1000000000 - 1

/-- A request that is told to come back after some seconds. -/
def retryAfterRun (retryAfter : String) : List Op :=
  [.arrive ⟨"m", "/v1/chat/completions", false, none, [0], false⟩ 0, .admitAt 0 0 0, .reserve 0 0 0,
    .answered 0 ⟨429, some retryAfter, ""⟩ 0 0]

theorem instants_fit_oneKey : ∃ s, exec (step unbounded) (start oneKey 0) (retryAfterRun "7") = some s ∧
    exec (step (bounded lastInstant)) (start oneKey 0) (retryAfterRun "7") = some s := by
  have hs : (exec (step unbounded) (start oneKey 0) (retryAfterRun "7")).isSome = true := by decide +kernel
  have hclock : ∀ op ∈ retryAfterRun "7", op.Clocked lastInstant := by decide +kernel
  have hfit : Meets (step (bounded lastInstant)) (AmountsFit lastInstant) (start oneKey 0) (retryAfterRun "7") := by
    decide +kernel
  obtain ⟨s, hs⟩ := Option.isSome_iff_exists.1 hs
  exact ⟨s, hs, (instants_fit validate_oneKey hs).1 ⟨hclock, hfit⟩⟩

/-- The largest number of seconds. -/
theorem not_instants_fit_retryAfter : ¬ ∀ (sc : StoredConfig) (now₀ : Nat) (ops : List Op) (s : State),
    sc.validate = .ok () → exec (step unbounded) (start sc now₀) ops = some s →
      exec (step (bounded lastInstant)) (start sc now₀) ops = some s := by
  intro h
  have hs : (exec (step unbounded) (start oneKey 0) (retryAfterRun "18446744073709551615")).isSome = true := by
    decide +kernel
  have hpanic : (exec (step (bounded lastInstant)) (start oneKey 0) (retryAfterRun "18446744073709551615")).isSome =
      false := by
    decide +kernel
  obtain ⟨s, hs⟩ := Option.isSome_iff_exists.1 hs
  rw [h oneKey 0 _ s validate_oneKey hs] at hpanic
  cases hpanic

end OpenProxy.Exchange
