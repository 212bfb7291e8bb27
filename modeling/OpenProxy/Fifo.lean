import OpenProxy.Deadline

/-!
# The order of service (`acquire_filtered`, `run` of `dispatch.rs`)

All requests wait in one queue. Waiters leave it, use different groups and deadlines, keys are penalized and pools are
swapped; still the answers go out in the order in which the waiters joined, and with them the slots.
-/

namespace OpenProxy

/-! ### The stamps of the grants -/

namespace PoolWindow

/-- Grants are stamped as time goes on. -/
structure Stamped (s : State) : Prop where
  sorted : (s.grants.map (·.stamp)).Pairwise (· ≤ ·)
  le_clock : ∀ t ∈ s.grants.map (·.stamp), t ≤ s.clock

/-- No step changes a stamp, and only a reserve makes one. -/
theorem step_stamps {s s' : State} {op : Op} (h : step s op = some s') :
    (s'.clock = s.clock ∧ s'.grants.map (·.stamp) = s.grants.map (·.stamp)) ∨
    (s.clock ≤ s'.clock ∧ (s'.grants.map (·.stamp) = s.grants.map (·.stamp) ∨
      s'.grants.map (·.stamp) = s.grants.map (·.stamp) ++ [s'.clock])) := by
  cases op with
  | reserve prefer allowed now =>
    simp only [step] at h
    split at h
    · rename_i hclock
      right
      split at h
      · rename_i he
        obtain ⟨rfl, -⟩ := Pool.reserveFiltered_ready he
        obtain rfl := Option.some.inj h
        exact ⟨hclock, .inr List.map_append⟩
      · obtain rfl := Option.some.inj h
        exact ⟨hclock, .inl rfl⟩
    · cases h
  | release n =>
    obtain ⟨g, hn, -, -, hgrants, -⟩ := step_release h
    have hclock : s'.clock = s.clock := by
      simp only [step, State.onGen, hn] at h
      split at h
      · cases h
      · rw [← Option.some.inj h]
        dsimp only
        split <;> rfl
    obtain ⟨hlt, rfl⟩ := List.getElem?_eq_some_iff.1 hn
    have hkept := @List.set_getElem_self _ (s.grants.map (·.stamp)) n (by rwa [List.length_map])
    rw [List.getElem_map] at hkept
    refine .inl ⟨hclock, ?_⟩
    rw [hgrants, List.map_set]
    exact hkept
  | penalize gen lane backoff now =>
    left
    rw [← Option.some.inj h]
    unfold State.onGen
    split <;> exact ⟨rfl, rfl⟩
  | rebuild specs now =>
    left
    simp only [step] at h
    split at h
    · rw [← Option.some.inj h]
      exact ⟨rfl, rfl⟩
    · cases h

theorem Stamped.step {s s' : State} {op : Op} (h : Stamped s) (hs : PoolWindow.step s op = some s') : Stamped s' := by
  rcases step_stamps hs with ⟨hclock, hstamps⟩ | ⟨hclock, hstamps | hstamps⟩
  · exact ⟨hstamps ▸ h.sorted, hstamps ▸ hclock ▸ h.le_clock⟩
  · exact ⟨hstamps ▸ h.sorted, fun t ht => (h.le_clock t (hstamps ▸ ht)).trans hclock⟩
  · have hle : ∀ t ∈ s.grants.map (·.stamp), t ≤ s'.clock := fun t ht => (h.le_clock t ht).trans hclock
    constructor
    · rw [hstamps, List.pairwise_append]
      refine ⟨h.sorted, List.pairwise_singleton .., fun t ht u hu => ?_⟩
      rw [List.mem_singleton.1 hu]
      exact hle t ht
    · intro t ht
      rw [hstamps, List.mem_append, List.mem_singleton] at ht
      rcases ht with ht | rfl
      · exact hle t ht
      · exact le_rfl

end PoolWindow

namespace Fifo

open Transition Dispatch

/-! ### Answers -/

/-- What the dispatcher has answered: a refusal, or the grant of a slot. A receiver that is gone shows no answer. -/
def answer? : Call → Option (Option Nat)
  | .waiting | .dropped => none
  | .refused => some none
  | .delivered n _ | .sent n _ => some (some n)

def answerAt (calls : List Call) (c : Nat) : Option (Option Nat) := (calls[c]?).bind answer?

/-- What holds whenever the queue is served from its head. -/
structure InOrder (s : Dispatch.State) : Prop where
  /-- Who is still waiting came after everyone who has an answer. -/
  waiting : ∀ c a, answerAt s.calls c = some a → ∀ w ∈ s.waiters, c < w.reply
  queued : (s.waiters.map (·.reply)).Pairwise (· < ·)
  /-- Who came earlier has the earlier grant, stamped no later. -/
  granted : ∀ c c' n n', c < c' → answerAt s.calls c = some (some n) → answerAt s.calls c' = some (some n') → n < n'
  stamped : (s.pools.grants.map (·.stamp)).Pairwise (· ≤ ·)

theorem answerAt_set_self {calls : List Call} {c : Nat} {old : Call} (h : calls[c]? = some old) (call : Call) :
    answerAt (calls.set c call) c = answer? call := by
  rw [answerAt, List.getElem?_set_self (List.getElem?_eq_some_iff.1 h).1, Option.bind_some]

theorem answerAt_set_ne {calls : List Call} {c c' : Nat} (h : c ≠ c') (call : Call) :
    answerAt (calls.set c call) c' = answerAt calls c' := by
  rw [answerAt, List.getElem?_set_ne h, answerAt]

theorem answerAt_of_getElem? {calls : List Call} {c : Nat} {call : Call} (h : calls[c]? = some call) :
    answerAt calls c = answer? call := by
  rw [answerAt, h, Option.bind_some]

/-- A new answer is for the waiter that is served, and the grant in it is the one that the dispatcher holds. -/
def Answers (s s' : Dispatch.State) : Prop :=
  ∀ c a, answerAt s'.calls c = some a → answerAt s.calls c = some a ∨
    ∃ w, s.waiters = w :: s'.waiters ∧ w.reply = c ∧ s'.pc.slot? = none ∧ ∀ n, a = some n → s.pc.slot? = some n

theorem answers_of_eq {s s' : Dispatch.State} (h : s'.calls = s.calls) : Answers s s' := by
  intro c a ha
  rw [h] at ha
  exact .inl ha

theorem answers_set {s s' : Dispatch.State} {c : Nat} {old call : Call} (hc : s.calls[c]? = some old)
    (hcalls : s'.calls = s.calls.set c call) (h : ∀ a, answer? call = some a → answer? old = some a) : Answers s s' := by
  intro c' a ha
  left
  rw [hcalls] at ha
  by_cases hne : c = c'
  · subst hne
    rw [answerAt_set_self hc] at ha
    rw [answerAt_of_getElem? hc]
    exact h a ha
  · rwa [answerAt_set_ne hne] at ha

theorem answers_step {s s' : Dispatch.State} {op : Dispatch.Op} (h : Dispatch.step s op = some s') : Answers s s' := by
  obtain ⟨pools, queue, pc, calls⟩ := s
  cases op with
  | acquire deadline prefer allowed =>
    obtain rfl := Option.some.inj h
    intro c a ha
    left
    simp only [acquireFiltered, answerAt] at ha ⊢
    rcases Nat.lt_or_ge c calls.length with hlt | hge
    · rwa [List.getElem?_append_left hlt] at ha
    · rw [List.getElem?_append_right hge, List.getElem?_singleton] at ha
      split at ha <;> cases ha
  | recv =>
    simp only [Dispatch.step] at h
    split at h
    · obtain rfl := Option.some.inj h
      exact answers_of_eq rfl
    · cases h
  | check =>
    simp only [Dispatch.step] at h
    split at h
    · obtain rfl := Option.some.inj h
      exact answers_of_eq rfl
    · cases h
  | reserve now later =>
    simp only [Dispatch.step] at h
    split at h
    · rename_i w
      obtain ⟨pools', -, h⟩ := Option.bind_eq_some_iff.1 h
      split at h
      · obtain ⟨slot, -, h⟩ := Option.bind_eq_some_iff.1 h
        obtain rfl := Option.some.inj h
        exact answers_of_eq rfl
      · split at h <;> obtain rfl := Option.some.inj h
        · -- the waiter is refused
          unfold closeReply
          split
          · rename_i hw
            intro c a ha
            by_cases hne : w.reply = c
            · subst hne
              rw [answerAt_set_self hw] at ha
              obtain rfl := Option.some.inj ha
              exact .inr ⟨w, rfl, rfl, rfl, by simp⟩
            · rw [answerAt_set_ne hne] at ha
              exact .inl ha
          · exact answers_of_eq rfl
        · exact answers_of_eq rfl
    · cases h
  | handOff =>
    simp only [Dispatch.step] at h
    split at h
    · rename_i w n slot
      split at h
      · rename_i calls' hsend
        obtain rfl := Option.some.inj h
        unfold send at hsend
        split at hsend
        · rename_i hw
          obtain rfl := Option.some.inj hsend
          intro c a ha
          by_cases hne : w.reply = c
          · subst hne
            rw [answerAt_set_self hw] at ha
            obtain rfl := Option.some.inj ha
            exact .inr ⟨w, rfl, rfl, rfl, fun m hm => congrArg some (Option.some.inj hm)⟩
          · rw [answerAt_set_ne hne] at ha
            exact .inl ha
        · cases hsend
      · obtain ⟨pools', -, h⟩ := Option.bind_eq_some_iff.1 h
        obtain rfl := Option.some.inj h
        exact answers_of_eq rfl
    · cases h
  | wake =>
    simp only [Dispatch.step] at h
    split at h <;> cases h <;> exact answers_of_eq rfl
  | poll c =>
    simp only [Dispatch.step] at h
    split at h
    · rename_i n slot hc
      obtain rfl := Option.some.inj h
      exact answers_set hc rfl fun a ha => ha
    · rename_i hc
      obtain rfl := Option.some.inj h
      exact answers_set hc rfl (by simp [answer?])
    · cases h
  | cancel c =>
    simp only [Dispatch.step] at h
    split at h
    all_goals first | (rename_i hc; obtain rfl := Option.some.inj h; exact answers_set hc rfl (by simp [answer?])) | cases h

/-- A grant in the dispatcher's hand is the newest. -/
def Holds (s s' : Dispatch.State) : Prop :=
  ∀ n, s'.pc.slot? = some n → (s.pc.slot? = some n ∧ s'.pools.grants.length = s.pools.grants.length) ∨
    (n = s.pools.grants.length ∧ s'.pools.grants.length = n + 1 ∧ s'.calls = s.calls)

theorem holds_step {s s' : Dispatch.State} {op : Dispatch.Op} (h : Dispatch.step s op = some s') : Holds s s' := by
  obtain ⟨pools, queue, pc, calls⟩ := s
  intro n hn
  cases op with
  | acquire deadline prefer allowed =>
    obtain rfl := Option.some.inj h
    exact .inl ⟨hn, rfl⟩
  | recv =>
    simp only [Dispatch.step] at h
    split at h <;> cases h
    cases hn
  | check =>
    simp only [Dispatch.step] at h
    split at h
    · obtain rfl := Option.some.inj h
      dsimp only at hn
      split at hn <;> cases hn
    · cases h
  | reserve now later =>
    simp only [Dispatch.step] at h
    split at h
    · rename_i w
      obtain ⟨pools', hpools, h⟩ := Option.bind_eq_some_iff.1 h
      obtain ⟨-, -, hcase⟩ := PoolWindow.step_reserve hpools
      split at h
      · rename_i he
        obtain ⟨slot, -, h⟩ := Option.bind_eq_some_iff.1 h
        obtain rfl := Option.some.inj h
        obtain rfl := Option.some.inj hn
        rcases hcase with ⟨_, _, _, _, -, hg⟩ | ⟨⟨_, hd⟩, -⟩
        · exact .inr ⟨rfl, by rw [hg, List.length_append]; rfl, rfl⟩
        · rw [he] at hd
          cases hd
      · split at h <;> obtain rfl := Option.some.inj h <;> cases hn
    · cases h
  | handOff =>
    simp only [Dispatch.step] at h
    split at h
    · split at h
      · obtain rfl := Option.some.inj h
        cases hn
      · obtain ⟨pools', -, h⟩ := Option.bind_eq_some_iff.1 h
        obtain rfl := Option.some.inj h
        cases hn
    · cases h
  | wake =>
    simp only [Dispatch.step] at h
    split at h <;> cases h <;> cases hn
  | poll c =>
    simp only [Dispatch.step] at h
    split at h <;> cases h <;> exact .inl ⟨hn, rfl⟩
  | cancel c =>
    simp only [Dispatch.step] at h
    split at h <;> cases h <;> exact .inl ⟨hn, rfl⟩

/-! ### Preservation -/

theorem waiters_effect {s s' : Dispatch.State} (h : Deadline.Effect s s') :
    (s'.waiters.Sublist s.waiters ∧ s'.calls.length = s.calls.length) ∨
    ∃ w, w.reply = s.calls.length ∧ s'.waiters = s.waiters ++ [w] ∧ s'.calls.length = s.calls.length + 1 := by
  cases h with
  | joins waiters calls => exact .inr ⟨_, rfl, waiters, by rw [calls, List.length_append]; rfl⟩
  | keeps waiters calls => exact .inl ⟨waiters, by rw [calls]⟩
  | serves waiters waiting calls =>
    exact .inl ⟨waiters ▸ List.sublist_cons_self _ _, by rw [calls, List.length_set]⟩
  | moves waiters call calls moved => exact .inl ⟨waiters ▸ .refl _, by rw [calls, List.length_set]⟩

theorem pools_step {s s' : Dispatch.State} {op : Dispatch.Op} (h : Dispatch.step s op = some s') :
    s'.pools = s.pools ∨ ∃ pop, PoolWindow.step s.pools pop = some s'.pools := by
  cases Dispatch.step_effect h with
  | keeps hp _ => exact .inl hp
  | waits hp _ _ => exact .inr ⟨_, hp⟩
  | reserves hp _ _ _ => exact .inr ⟨_, hp⟩
  | returns hp _ => exact .inr ⟨_, hp⟩
  | drops hp _ _ => exact .inl hp

/-- What the order rests on: numbers of calls and grants are handed out upwards, and the dispatcher holds no grant
older than one that is out. -/
structure Inv (s : Dispatch.State) : Prop where
  order : InOrder s
  lt_calls : ∀ w ∈ s.waiters, w.reply < s.calls.length
  lt_grants : ∀ c n, answerAt s.calls c = some (some n) → n < s.pools.grants.length
  holding : ∀ n, s.pc.slot? = some n → n < s.pools.grants.length ∧
    ∀ c m, answerAt s.calls c = some (some m) → m < n
  le_clock : ∀ t ∈ s.pools.grants.map (·.stamp), t ≤ s.pools.clock

theorem start_inv (specs : List LaneSpec) (now : Nat) : Inv (Dispatch.start specs now) where
  order := ⟨nofun, .nil, nofun, .nil⟩
  lt_calls := nofun
  lt_grants := nofun
  holding := nofun
  le_clock := nofun

theorem lt_length_of_answerAt {calls : List Call} {c : Nat} {a : Option Nat} (h : answerAt calls c = some a) :
    c < calls.length := by
  obtain ⟨call, hcall, -⟩ := Option.bind_eq_some_iff.1 h
  exact (List.getElem?_eq_some_iff.1 hcall).1

namespace Inv
variable {s : Dispatch.State} (h : Inv s)
include h

/-- Penalties and swaps move no waiter and no grant. -/
theorem withPools {pools : PoolWindow.State} (hstamps : pools.grants.map (·.stamp) = s.pools.grants.map (·.stamp))
    (hclock : s.pools.clock ≤ pools.clock) : Inv { s with pools := pools } where
  order := ⟨h.order.waiting, h.order.queued, h.order.granted, hstamps ▸ h.order.stamped⟩
  lt_calls := h.lt_calls
  lt_grants c n hn := by
    have hlength := congrArg List.length hstamps
    rw [List.length_map, List.length_map] at hlength
    exact hlength ▸ h.lt_grants c n hn
  holding n hn := by
    have hlength := congrArg List.length hstamps
    rw [List.length_map, List.length_map] at hlength
    exact hlength ▸ h.holding n hn
  le_clock t ht := (h.le_clock t (hstamps ▸ ht)).trans hclock

theorem dispatcher {s' : Dispatch.State} {op : Dispatch.Op} (hs : Dispatch.step s op = some s') : Inv s' := by
  have hanswers := answers_step hs
  have hholds := holds_step hs
  have hwaiters := waiters_effect (Deadline.step_effect hs)
  have hstamped : PoolWindow.Stamped s'.pools := by
    have hstamped : PoolWindow.Stamped s.pools := ⟨h.order.stamped, h.le_clock⟩
    rcases pools_step hs with hpools | ⟨pop, hpools⟩
    · exact hpools ▸ hstamped
    · exact hstamped.step hpools
  have hlength : s.pools.grants.length ≤ s'.pools.grants.length := by
    rcases pools_step hs with hpools | ⟨pop, hpools⟩
    · rw [hpools]
    · rcases PoolWindow.step_stamps hpools with ⟨-, hstamps⟩ | ⟨-, hstamps | hstamps⟩
      all_goals
        have := congrArg List.length hstamps
        simp only [List.length_append, List.length_map] at this
        omega
  -- an old answer is a grant that is older than the one in hand
  have hgrant : ∀ c n, answerAt s'.calls c = some (some n) →
      answerAt s.calls c = some (some n) ∨
        ∃ w, s.waiters = w :: s'.waiters ∧ w.reply = c ∧ s'.pc.slot? = none ∧ s.pc.slot? = some n := by
    intro c n hc
    refine (hanswers c _ hc).imp_right ?_
    rintro ⟨w, hw, hreply, hpc, hn⟩
    exact ⟨w, hw, hreply, hpc, hn n rfl⟩
  refine ⟨⟨?_, ?_, ?_, hstamped.sorted⟩, ?_, ?_, ?_, hstamped.le_clock⟩
  · intro c a hc w hw
    rcases hanswers c a hc with hc | ⟨w₀, hwaiters₀, rfl, -⟩
    · rcases hwaiters with ⟨hsub, -⟩ | ⟨w₁, hreply, hw₁, -⟩
      · exact h.order.waiting c a hc w (hsub.subset hw)
      · rw [hw₁, List.mem_append, List.mem_singleton] at hw
        rcases hw with hw | rfl
        · exact h.order.waiting c a hc w hw
        · exact hreply ▸ lt_length_of_answerAt hc
    · have hqueued := h.order.queued
      rw [hwaiters₀, List.map_cons, List.pairwise_cons] at hqueued
      exact hqueued.1 _ (List.mem_map_of_mem hw)
  · rcases hwaiters with ⟨hsub, -⟩ | ⟨w, hreply, hw, -⟩
    · exact h.order.queued.sublist (hsub.map _)
    · rw [hw, List.map_append, List.pairwise_append]
      refine ⟨h.order.queued, List.pairwise_singleton .., fun c hc c' hc' => ?_⟩
      obtain ⟨w', hw', rfl⟩ := List.mem_map.1 hc
      obtain rfl := List.mem_singleton.1 hc'
      show w'.reply < w.reply
      rw [hreply]
      exact h.lt_calls w' hw'
  · intro c c' n n' hlt hc hc'
    rcases hgrant c n hc with hc | ⟨w, hw, rfl, -, hn⟩
    · rcases hgrant c' n' hc' with hc' | ⟨-, -, -, -, hn'⟩
      · exact h.order.granted c c' n n' hlt hc hc'
      · exact (h.holding n' hn').2 c n hc
    · -- the one served now came after everyone with an answer
      exfalso
      have hmem : w ∈ s.waiters := hw ▸ List.mem_cons_self
      rcases hgrant c' n' hc' with hc' | ⟨w', hw', rfl, -⟩
      · exact (h.order.waiting c' _ hc' w hmem).not_gt hlt
      · rw [hw] at hw'
        exact hlt.ne (congrArg (·.reply) (List.cons.inj hw').1)
  · intro w hw
    rcases hwaiters with ⟨hsub, hcalls⟩ | ⟨w', hreply, hw', hcalls⟩
    · exact hcalls ▸ h.lt_calls w (hsub.subset hw)
    · rw [hcalls]
      rw [hw', List.mem_append, List.mem_singleton] at hw
      rcases hw with hw | rfl
      · exact (h.lt_calls w hw).trans (Nat.lt_succ_self _)
      · exact hreply ▸ Nat.lt_succ_self _
  · intro c n hc
    refine Nat.lt_of_lt_of_le ?_ hlength
    rcases hgrant c n hc with hc | ⟨-, -, -, -, hn⟩
    · exact h.lt_grants c n hc
    · exact (h.holding n hn).1
  · intro n hn
    have hold : ∀ c m, answerAt s'.calls c = some (some m) → answerAt s.calls c = some (some m) := by
      intro c m hc
      rcases hgrant c m hc with hc | ⟨-, -, -, hpc, -⟩
      · exact hc
      · rw [hn] at hpc
        cases hpc
    rcases hholds n hn with ⟨hpc, hgrants⟩ | ⟨rfl, hgrants, -⟩
    · exact ⟨hgrants ▸ (h.holding n hpc).1, fun c m hc => (h.holding n hpc).2 c m (hold c m hc)⟩
    · exact ⟨hgrants ▸ Nat.lt_succ_self _, fun c m hc => h.lt_grants c m (hold c m hc)⟩

end Inv

theorem step_inv {s s' : Deadline.State} {op : Deadline.Op} (h : Inv s.dispatch)
    (hs : Deadline.step s op = some s') : Inv s'.dispatch := by
  cases op with
  | dispatcher op => exact h.dispatcher (Deadline.step_dispatcher hs).2.1
  | penalize gen lane backoff now =>
    rw [Deadline.step] at hs
    obtain ⟨pools, hpools, rfl⟩ := Option.map_eq_some_iff.1 hs
    obtain rfl := Option.some.inj hpools
    unfold PoolWindow.State.onGen
    split <;> exact h.withPools rfl le_rfl
  | swap specs now =>
    rw [Deadline.step] at hs
    obtain ⟨pools, hpools, rfl⟩ := Option.map_eq_some_iff.1 hs
    simp only [PoolWindow.step] at hpools
    split at hpools
    · obtain rfl := Option.some.inj hpools
      exact h.withPools rfl le_rfl
    · cases hpools

/-- The dispatcher answers in the order of arrival. -/
theorem served_in_order {specs : List LaneSpec} {now₀ : Nat} {ops : List Deadline.Op} {s : Deadline.State}
    (hrun : exec Deadline.step (Deadline.start specs now₀) ops = some s) : InOrder s.dispatch := by
  have hinv : Inv s.dispatch := exec_invariant (I := fun s => Inv s.dispatch) (fun _ _ _ h hs => step_inv h hs)
    (start_inv specs now₀) hrun
  exact hinv.order

/-- The first waiter may use the cooled key only; the second could go ahead at once. -/
def behindCooled : List Deadline.Op :=
  [.penalize 0 0 (ofSecs 1) 0, .dispatcher (.acquire (ofSecs 9) none (some [0])),
    .dispatcher (.acquire (ofSecs 9) none (some [1])), .dispatcher .recv, .dispatcher .check,
    .dispatcher (.reserve 1 1), .dispatcher .wake, .dispatcher .check, .dispatcher (.reserve (ofSecs 1) (ofSecs 1)),
    .dispatcher .handOff, .dispatcher .wake, .dispatcher .recv, .dispatcher .check,
    .dispatcher (.reserve (ofSecs 1 + 5) (ofSecs 1 + 5)), .dispatcher .handOff]

theorem served_in_order_behindCooled :
    ∃ s, exec Deadline.step (Deadline.start Deadline.twoGroups 0) behindCooled = some s ∧ InOrder s.dispatch ∧
      s.dispatch.calls.map answer? = [some (some 0), some (some 1)] := by
  have hrun : (exec Deadline.step (Deadline.start Deadline.twoGroups 0) behindCooled).any (fun s =>
      decide (s.dispatch.calls.map answer? = [some (some 0), some (some 1)])) = true := by decide +kernel
  obtain ⟨s, hs, hcalls⟩ := (Option.any_eq_true ..).1 hrun
  exact ⟨s, hs, served_in_order hs, of_decide_eq_true hcalls⟩

end Fifo

end OpenProxy
