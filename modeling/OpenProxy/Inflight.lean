import OpenProxy.Lib.Transition

/-!
# Requests in flight (`handle` of `proxy.rs`)

Each request counts itself in with one atomic addition and compares what it gets with the limit of its own snapshot of
the configuration. A guard counts it out again, whatever becomes of it; a request that is shed holds its guard as well,
until its response is made. Limits may change from one snapshot to the next.
-/

namespace OpenProxy.Inflight

open Transition

inductive Status where
  | counted
  | running
  /-- Answered `overloaded`. -/
  | shed
  deriving DecidableEq

/-- The guard of a request that is counted in. -/
structure Guard where
  /-- `max_inflight` of the request's snapshot. -/
  maxInflight : Nat
  /-- What the addition gave. -/
  inflight : UInt64
  /-- How many other guards there were. -/
  others : Nat
  status : Status

structure State where
  inflight : UInt64
  maxInflight : Nat
  /-- The snapshots of the requests that are not counted in yet. -/
  arrived : List Nat
  /-- The guards in the order of their additions. -/
  guards : List Guard

inductive Op where
  | configure (maxInflight : Nat)
  | arrive
  | count (n : Nat)
  | check (n : Nat)
  /-- A guard is dropped. -/
  | leave (n : Nat)

def start (maxInflight : Nat) : State := ⟨0, maxInflight, [], []⟩

/-- The test of a request that is counted in. -/
def Guard.check (g : Guard) : Guard :=
  { g with status := if g.maxInflight < g.inflight.toNat then .shed else .running }

def step (s : State) : Op → Option State
  | .configure maxInflight => some { s with maxInflight := maxInflight }
  | .arrive => some { s with arrived := s.arrived ++ [s.maxInflight] }
  | .count n =>
    (s.arrived[n]?).map fun maxInflight =>
      { s with
        inflight := s.inflight + 1
        arrived := s.arrived.eraseIdx n
        guards := s.guards ++ [⟨maxInflight, s.inflight + 1, s.guards.length, .counted⟩] }
  | .check n =>
    match s.guards[n]? with
    | some g => if g.status = .counted then some { s with guards := s.guards.set n g.check } else none
    | none => none
  | .leave n =>
    match s.guards[n]? with
    | some g =>
      -- nothing is awaited between the addition and the test
      if g.status = .counted then none
      else some { s with inflight := s.inflight - 1, guards := s.guards.eraseIdx n }
    | none => none

def State.running (s : State) : Nat := s.guards.countP (·.status = .running)

/-- No request runs beyond the limits of those that run, and none is shed that had room when it was counted. -/
structure Bounded (s : State) : Prop where
  counter : s.inflight = UInt64.ofNat s.guards.length
  running : ∀ limit, (∀ g ∈ s.guards, g.status = .running → g.maxInflight ≤ limit) → s.running ≤ limit
  admitted : ∀ g ∈ s.guards, g.status = .running → g.others < g.maxInflight
  shed : ∀ g ∈ s.guards, g.status = .shed → g.maxInflight ≤ g.others

/-! ### Guards in order -/

/-- A guard was counted after those before it, and its addition has counted them. -/
structure Inv (s : State) : Prop where
  counter : s.inflight = UInt64.ofNat s.guards.length
  before : ∀ (n : Nat) (g : Guard), s.guards[n]? = some g → n ≤ g.others
  counted : ∀ g ∈ s.guards, g.inflight.toNat = g.others + 1
  admitted : ∀ g ∈ s.guards, g.status = .running → g.inflight.toNat ≤ g.maxInflight
  shed : ∀ g ∈ s.guards, g.status = .shed → g.maxInflight < g.inflight.toNat

/-- Of guards that each have at least those before it among its others, the last one that meets a test has all that
do. -/
theorem exists_last {P : Guard → Bool} {guards : List Guard}
    (h : ∀ (n : Nat) (g : Guard), guards[n]? = some g → n ≤ g.others) :
    guards.countP P = 0 ∨ ∃ g ∈ guards, P g = true ∧ guards.countP P ≤ g.others + 1 := by
  induction guards using List.reverseRecOn with
  | nil => exact .inl rfl
  | append_singleton guards g ih =>
    rw [List.countP_append, List.countP_singleton]
    by_cases hg : P g = true
    · right
      refine ⟨g, by simp, hg, ?_⟩
      have hlast := h guards.length g List.getElem?_concat_length
      have hle : guards.countP P ≤ guards.length := List.countP_le_length
      rw [if_pos hg]
      omega
    · rw [if_neg hg, Nat.add_zero]
      have hbefore : ∀ (n : Nat) (g' : Guard), guards[n]? = some g' → n ≤ g'.others := fun n g' hn =>
        h n g' (by rwa [List.getElem?_append_left (List.getElem?_eq_some_iff.1 hn).1])
      rcases ih hbefore with hnone | ⟨g', hmem, hg', hle⟩
      · exact .inl hnone
      · exact .inr ⟨g', List.mem_append_left _ hmem, hg', hle⟩

theorem Inv.bounded {s : State} (h : Inv s) : Bounded s where
  counter := h.counter
  running limit hlimit := by
    rcases exists_last (P := fun g => g.status = .running) h.before with hnone | ⟨g, hmem, hg, hle⟩
    · rw [State.running, hnone]
      exact Nat.zero_le _
    · have hg : g.status = .running := of_decide_eq_true hg
      calc s.running ≤ g.others + 1 := hle
        _ = g.inflight.toNat := (h.counted g hmem).symm
        _ ≤ g.maxInflight := h.admitted g hmem hg
        _ ≤ limit := hlimit g hmem hg
  admitted g hmem hg := by
    have := h.admitted g hmem hg
    rw [h.counted g hmem] at this
    exact this
  shed g hmem hg := by
    have := h.shed g hmem hg
    rw [h.counted g hmem] at this
    exact Nat.le_of_lt_succ this

theorem start_inv (maxInflight : Nat) : Inv (start maxInflight) := ⟨rfl, nofun, nofun, nofun, nofun⟩

theorem step_inv {s s' : State} {op : Op} (h : Inv s) (hsize : s.guards.length + 1 < 2 ^ 64)
    (hs : step s op = some s') : Inv s' := by
  cases op with
  | configure maxInflight =>
    obtain rfl := Option.some.inj hs
    exact ⟨h.counter, h.before, h.counted, h.admitted, h.shed⟩
  | arrive =>
    obtain rfl := Option.some.inj hs
    exact ⟨h.counter, h.before, h.counted, h.admitted, h.shed⟩
  | count n =>
    obtain ⟨maxInflight, -, rfl⟩ := Option.map_eq_some_iff.1 hs
    have hcounter : s.inflight + 1 = UInt64.ofNat (s.guards.length + 1) := by
      rw [h.counter, UInt64.ofNat_add]
      rfl
    refine ⟨?_, fun n g hn => ?_, ?_, ?_, ?_⟩
    · rw [hcounter, List.length_append, List.length_singleton]
    · rcases Nat.lt_or_ge n s.guards.length with hlt | hge
      · rw [List.getElem?_append_left hlt] at hn
        exact h.before n g hn
      · rw [List.getElem?_append_right hge, List.getElem?_singleton] at hn
        split at hn <;> cases hn
        show n ≤ s.guards.length
        omega
    all_goals
      simp only [List.mem_append, List.mem_singleton]
      rintro g (hg | rfl)
    · exact h.counted g hg
    · show (s.inflight + 1).toNat = s.guards.length + 1
      rw [hcounter, UInt64.toNat_ofNat', Nat.mod_eq_of_lt hsize]
    · exact h.admitted g hg
    · exact nofun
    · exact h.shed g hg
    · exact nofun
  | check n =>
    simp only [step] at hs
    split at hs
    · rename_i g hn
      split at hs
      · obtain rfl := Option.some.inj hs
        have hg := List.mem_of_getElem? hn
        refine ⟨by rw [List.length_set]; exact h.counter, fun m g' hm => ?_, ?_, ?_, ?_⟩
        · rw [List.getElem?_set] at hm
          split at hm
          · rename_i heq
            subst heq
            split at hm <;> cases hm
            exact h.before n g hn
          · exact h.before m g' hm
        all_goals
          intro g' hmem
          rcases List.mem_or_eq_of_mem_set hmem with hmem | rfl
        · exact h.counted g' hmem
        · exact h.counted g hg
        · exact h.admitted g' hmem
        · intro hrunning
          rw [Guard.check] at hrunning ⊢
          by_contra hlate
          rw [if_pos (Nat.lt_of_not_le hlate)] at hrunning
          cases hrunning
        · exact h.shed g' hmem
        · intro hshed
          rw [Guard.check] at hshed ⊢
          by_contra hroom
          rw [if_neg hroom] at hshed
          cases hshed
      · cases hs
    · cases hs
  | leave n =>
    simp only [step] at hs
    split at hs
    · rename_i g hn
      split at hs
      · cases hs
      · obtain rfl := Option.some.inj hs
        have hlt := (List.getElem?_eq_some_iff.1 hn).1
        have hsub : ∀ g ∈ s.guards.eraseIdx n, g ∈ s.guards := fun g hg => (List.eraseIdx_sublist _ _).subset hg
        refine ⟨?_, fun m g' hm => ?_, fun g hg => h.counted g (hsub g hg), fun g hg => h.admitted g (hsub g hg),
          fun g hg => h.shed g (hsub g hg)⟩
        · show s.inflight - 1 = _
          obtain ⟨k, hk⟩ : ∃ k, s.guards.length = k + 1 := Nat.exists_eq_succ_of_ne_zero (Nat.ne_zero_of_lt hlt)
          rw [h.counter, List.length_eraseIdx_of_lt hlt, hk, UInt64.ofNat_add, Nat.add_sub_cancel]
          exact UInt64.add_sub_cancel _ _
        · rw [List.getElem?_eraseIdx] at hm
          split at hm
          · exact h.before m g' hm
          · exact (Nat.le_succ m).trans (h.before (m + 1) g' hm)
    · cases hs

/-! ### Whole runs -/

theorem length_step {s s' : State} {op : Op} (hs : step s op = some s') : s'.guards.length ≤ s.guards.length + 1 := by
  cases op with
  | configure maxInflight =>
    obtain rfl := Option.some.inj hs
    exact Nat.le_succ _
  | arrive =>
    obtain rfl := Option.some.inj hs
    exact Nat.le_succ _
  | count n =>
    obtain ⟨maxInflight, -, rfl⟩ := Option.map_eq_some_iff.1 hs
    simp
  | check n =>
    simp only [step] at hs
    split at hs
    · split at hs <;> cases hs
      simp
    · cases hs
  | leave n =>
    simp only [step] at hs
    split at hs
    · split at hs <;> cases hs
      exact (List.eraseIdx_sublist _ _).length_le.trans (Nat.le_succ _)
    · cases hs

theorem exec_inv {s s' : State} {ops : List Op} (h : Inv s) (hlength : s.guards.length + ops.length < 2 ^ 64)
    (hs : exec step s ops = some s') : Inv s' := by
  induction ops generalizing s with
  | nil =>
    obtain rfl := Option.some.inj hs
    exact h
  | cons op ops ih =>
    obtain ⟨t, hstep, hrest⟩ := exec_cons_eq_some.1 hs
    have hgrown := length_step hstep
    rw [List.length_cons] at hlength
    exact ih (step_inv h (by omega) hstep) (by omega) hrest

/-- In runs of fewer than 2^64 steps the counter counts the guards, and the limits hold for the requests that run. -/
theorem inflight_bounded {maxInflight : Nat} {ops : List Op} {s : State} (hlength : ops.length < 2 ^ 64)
    (hrun : exec step (start maxInflight) ops = some s) : Bounded s :=
  (exec_inv (start_inv maxInflight) (by simpa [start] using hlength) hrun).bounded

/-- A limit of one: the second request is shed, the third is let in when both have left. -/
def oneAtATime : List Op :=
  [.arrive, .arrive, .count 0, .count 0, .check 1, .check 0, .leave 0, .leave 0, .arrive, .count 0, .check 0]

theorem inflight_bounded_oneAtATime :
    ∃ s, exec step (start 1) oneAtATime = some s ∧ Bounded s ∧ s.running = 1 ∧ s.inflight = 1 := by
  have hrun : (exec step (start 1) oneAtATime).any (fun s => s.running == 1 && s.inflight == 1) = true := by
    decide +kernel
  obtain ⟨s, hs, hrun⟩ := (Option.any_eq_true ..).1 hrun
  rw [Bool.and_eq_true, beq_iff_eq, beq_iff_eq] at hrun
  exact ⟨s, hs, inflight_bounded (by decide) hs, hrun⟩

end OpenProxy.Inflight
