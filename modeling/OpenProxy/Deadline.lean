import OpenProxy.Dispatch

/-!
# Deadlines of waiters (`run` of `dispatch.rs`)

The dispatcher compares a waiter's deadline with the clock only when it has to wait for a slot. A reserve that
finds a lane with room is granted at whatever time the waiter comes to the head of the queue.
-/

namespace OpenProxy

/-! ### When a reserve is granted -/

/-- The lane can take a request at `now`. -/
def Lane.HasRoom (allowed : Option (List Nat)) (now : Nat) (l : Lane) : Prop :=
  allows allowed l.endpoint = true ∧ l.cooldownUntil ≤ now ∧ (evict now l.sent).length < l.rpm

instance (allowed : Option (List Nat)) (now : Nat) (l : Lane) : Decidable (Lane.HasRoom allowed now l) :=
  inferInstanceAs (Decidable (_ ∧ _ ∧ _))

def Reservation.isReady : Reservation → Bool
  | .ready _ _ _ _ => true
  | .wait _ => false

namespace Pool

/-- An active lane can. -/
def HasRoom (p : Pool) (allowed : Option (List Nat)) (now : Nat) : Prop :=
  ∃ l ∈ p.lanes.take p.active, Lane.HasRoom allowed now l

instance (p : Pool) (allowed : Option (List Nat)) (now : Nat) : Decidable (p.HasRoom allowed now) :=
  inferInstanceAs (Decidable (∃ l ∈ p.lanes.take p.active, Lane.HasRoom allowed now l))

theorem hasRoom_iff {p : Pool} {allowed : Option (List Nat)} {now : Nat} : p.HasRoom allowed now ↔
    ∃ i l, i < p.active ∧ p.lanes[i]? = some l ∧ Lane.HasRoom allowed now l := by
  constructor
  · rintro ⟨l, hl, hroom⟩
    obtain ⟨i, hi⟩ := List.mem_iff_getElem?.1 hl
    rw [List.getElem?_take] at hi
    split at hi
    · rename_i hlt
      exact ⟨i, l, hlt, hi, hroom⟩
    · cases hi
  · rintro ⟨i, l, hlt, hi, hroom⟩
    refine ⟨l, List.mem_iff_getElem?.2 ⟨i, ?_⟩, hroom⟩
    rw [List.getElem?_take, if_pos hlt]
    exact hi

theorem hasRoom_ages {allowed : Option (List Nat)} {now : Nat} {l l' : Lane} (h : Lane.HasRoom allowed now l)
    (ha : LaneAges now l l') : Lane.HasRoom allowed now l' := by
  rcases ha with rfl | rfl
  · exact h
  · refine ⟨h.1, h.2.1, ?_⟩
    rw [evict_evict]
    exact h.2.2

/-- The scan finds every lane that can. -/
theorem mem_ready_scan {p : Pool} {allowed : Option (List Nat)} {now i : Nat} {l : Lane} (hi : i < p.active)
    (hl : p.lanes[i]? = some l) (hroom : Lane.HasRoom allowed now l) :
    ∃ load, (load, i) ∈ (p.scan allowed now).ready := by
  have hscan : ∀ n, i < n → ∃ load,
      (load, i) ∈ ((List.range n).foldl (Scan.visit allowed now) ⟨p, [], window, false⟩).ready := by
    intro n
    induction n with
    | zero => exact fun h => absurd h (Nat.not_lt_zero _)
    | succ n ih =>
      intro hlt
      have hages := (scanRange_inv p allowed now n).ages
      rw [List.range_succ, List.foldl_append, List.foldl_cons, List.foldl_nil]
      generalize (List.range n).foldl (Scan.visit allowed now) ⟨p, [], window, false⟩ = sc at ih hages
      obtain ⟨l', hl', ha⟩ := hages.lane hl
      obtain ⟨hallow, hcooldown, hload⟩ := hasRoom_ages hroom ha
      unfold Scan.visit
      by_cases hn : i = n
      · subst hn
        have hready : max (windowReady now l'.rpm (evict now l'.sent)) l'.cooldownUntil ≤ now := by
          rw [windowReady, if_pos hload]
          exact max_le le_rfl hcooldown
        rw [hl']
        dsimp only
        rw [if_pos hallow, if_pos hready]
        exact ⟨_, List.mem_append_right _ (List.mem_singleton.2 rfl)⟩
      · obtain ⟨load, hmem⟩ := ih (by omega)
        refine ⟨load, ?_⟩
        split
        · exact hmem
        · split
          · dsimp only
            split
            · exact List.mem_append_left _ hmem
            · exact hmem
          · exact hmem
  exact hscan p.active hi

theorem tryTake_isSome {p : Pool} {allowed : Option (List Nat)} {i now : Nat} {l : Lane} (hl : p.lanes[i]? = some l)
    (hroom : Lane.HasRoom allowed now l) (sticky : Bool) : (p.tryTake i now sticky).1.isSome := by
  rw [tryTake, hl]
  dsimp only
  rw [if_neg (Nat.not_lt.2 hroom.2.1), if_pos hroom.2.2]
  rfl

theorem takeFirst_isSome {now : Nat} {allowed : Option (List Nat)} {ready : List (Nat × Nat)} {p : Pool} {i load : Nat}
    {l : Lane} (hmem : (load, i) ∈ ready) (hl : p.lanes[i]? = some l) (hroom : Lane.HasRoom allowed now l) :
    (takeFirst now ready p).1.isSome := by
  induction ready generalizing p l with
  | nil => cases hmem
  | cons a rest ih =>
    obtain ⟨load', j⟩ := a
    unfold takeFirst
    cases ht : p.tryTake j now false with
    | mk r q =>
      cases r with
      | some r => rfl
      | none =>
        dsimp only
        rcases List.mem_cons.1 hmem with heq | hmem
        · obtain ⟨-, rfl⟩ := Prod.mk.inj heq
          have := tryTake_isSome hl hroom false
          rw [ht] at this
          cases this
        · obtain ⟨l', hl', ha⟩ := (tryTake_none ht).lane hl
          exact ih hmem hl' (hasRoom_ages hroom ha)

/-- A reserve is granted exactly when a lane has room. -/
theorem isReady_reserveFiltered (p : Pool) (prefer : Option Nat) (allowed : Option (List Nat)) (now : Nat) :
    Reservation.isReady (p.reserveFiltered prefer allowed now).1 = true ↔ p.HasRoom allowed now := by
  constructor
  · intro h
    rcases reserveFiltered_spec p prefer allowed now with ⟨i, key, sticky, p', he, ht⟩ | ⟨d, p', he, -⟩
    · obtain ⟨l, hl, -, hallow, hcooldown, hload, -⟩ := ht.lane
      exact hasRoom_iff.2 ⟨i, l, ht.active, hl, hallow, hcooldown, hload⟩
    · rw [he] at h
      cases h
  · intro h
    obtain ⟨i, l, hi, hl, hroom⟩ := hasRoom_iff.1 h
    cases he : p.reserveFiltered prefer allowed now with
    | mk r p' =>
      rcases reserveFiltered_cases he with ⟨_, -, -, -, htake⟩ | ⟨q, hq, htake | ⟨htake, -⟩⟩
      · obtain ⟨_, -, rfl, -⟩ := tryTake_some htake
        rfl
      · obtain ⟨a, -, q', -, htake⟩ := takeFirst_some htake
        obtain ⟨_, -, rfl, -⟩ := tryTake_some htake
        rfl
      · -- the lane is in the scan, and grants
        obtain ⟨l₁, hl₁, ha₁⟩ := hq.lane hl
        obtain ⟨load, hmem⟩ := mem_ready_scan (hq.active_eq ▸ hi) hl₁ (hasRoom_ages hroom ha₁)
        obtain ⟨l₂, hl₂, ha₂⟩ := (scan_inv q allowed now).ages.lane hl₁
        have hsome := takeFirst_isSome ((List.perm_insertionSort LoadLe _).mem_iff.2 hmem) hl₂
          (hasRoom_ages (hasRoom_ages hroom ha₁) ha₂)
        rw [htake] at hsome
        cases hsome

end Pool

namespace Deadline

open Transition Dispatch

/-! ### The dispatcher among penalties and pool swaps -/

/-- A reserve made for a waiter at `now`, and the number of the grant if it got one. -/
structure Attempt where
  waiter : Waiter
  now : Nat
  grant : Option Nat
  deriving DecidableEq, Repr

structure State where
  dispatch : Dispatch.State
  /-- The reserves so far. -/
  attempts : List Attempt

inductive Op where
  | dispatcher (op : Dispatch.Op)
  | penalize (gen lane backoff now : Nat)
  | swap (specs : List LaneSpec) (now : Nat)

/-- The reserve that a step of the dispatcher makes. -/
def attempt (s : Dispatch.State) (op : Dispatch.Op) (s' : Dispatch.State) : List Attempt :=
  match op, s.pc with
  | .reserve now _, .reserving w => [⟨w, now, s'.pc.slot?⟩]
  | _, _ => []

/-- The clock does not go back between a reserve and the deadline test. -/
def forward : Dispatch.Op → Bool
  | .reserve now later => now ≤ later
  | _ => true

def start (specs : List LaneSpec) (now : Nat) : State := ⟨Dispatch.start specs now, []⟩

def step (s : State) : Op → Option State
  | .dispatcher op =>
    if forward op then (Dispatch.step s.dispatch op).map fun d => ⟨d, s.attempts ++ attempt s.dispatch op d⟩ else none
  | .penalize gen lane backoff now =>
    (PoolWindow.step s.dispatch.pools (.penalize gen lane backoff now)).map fun pools =>
      { s with dispatch.pools := pools }
  | .swap specs now =>
    (PoolWindow.step s.dispatch.pools (.rebuild specs now)).map fun pools => { s with dispatch.pools := pools }

/-- The outcome of a waiter that gets no slot. -/
def Refused (calls : List Call) (c : Nat) : Prop := calls[c]? = some .refused ∨ calls[c]? = some .dropped

/-- No slot is reserved after the deadline of the waiter it is for, and a waiter that is found past its deadline is
refused. -/
structure InTime (s : State) : Prop where
  granted : ∀ a ∈ s.attempts, ∀ n, a.grant = some n → a.now ≤ a.waiter.deadline
  refused : ∀ a ∈ s.attempts, a.waiter.deadline < a.now → Refused s.dispatch.calls a.waiter.reply

/-- No lane has room for a waiter that comes to its reserve past its deadline. -/
def Timely (s : State) : Op → Prop
  | .dispatcher (.reserve now _) =>
    match s.dispatch.pc with
    | .reserving w => w.deadline < now → ¬ s.dispatch.pools.pool.HasRoom w.allowed now
    | _ => True
  | _ => True

instance (s : State) : DecidablePred (Timely s) := fun op => by
  unfold Timely
  split
  · split <;> infer_instance
  · infer_instance

/-! ### Channels -/

/-- What a step of the dispatcher does to the waiters and to their channels. -/
inductive Effect (s s' : Dispatch.State) : Prop where
  | joins {deadline : Nat} {prefer : Option Nat} {allowed : Option (List Nat)}
      (waiters : s'.waiters = s.waiters ++ [⟨s.calls.length, deadline, prefer, allowed⟩])
      (calls : s'.calls = s.calls ++ [.waiting])
  | keeps (waiters : s'.waiters.Sublist s.waiters) (calls : s'.calls = s.calls)
  | serves {w : Waiter} {call : Call} (waiters : s.waiters = w :: s'.waiters)
      (waiting : s.calls[w.reply]? = some .waiting) (calls : s'.calls = s.calls.set w.reply call)
  | moves {c : Nat} {old new : Call} (waiters : s'.waiters = s.waiters) (call : s.calls[c]? = some old)
      (calls : s'.calls = s.calls.set c new) (moved : new = .dropped ∨ ∃ n slot, old = .delivered n slot)

theorem step_effect {s s' : Dispatch.State} {op : Dispatch.Op} (h : Dispatch.step s op = some s') : Effect s s' := by
  obtain ⟨pools, queue, pc, calls⟩ := s
  cases op with
  | acquire deadline prefer allowed =>
    cases h
    exact .joins (List.append_assoc _ _ _).symm rfl
  | recv =>
    simp only [Dispatch.step] at h
    split at h
    · cases h
      exact .keeps (.refl _) rfl
    · cases h
  | check =>
    simp only [Dispatch.step] at h
    split at h
    · cases h
      refine .keeps ?_ rfl
      simp only [State.waiters]
      split
      · exact List.sublist_append_right _ _
      · exact .refl _
    · cases h
  | reserve now later =>
    simp only [Dispatch.step] at h
    split at h
    · rename_i w
      obtain ⟨pools', -, h⟩ := Option.bind_eq_some_iff.1 h
      split at h
      · obtain ⟨slot, -, h⟩ := Option.bind_eq_some_iff.1 h
        cases h
        exact .keeps (.refl _) rfl
      · split at h <;> cases h
        · by_cases hw : calls[w.reply]? = some .waiting
          · exact @Effect.serves _ _ w .refused rfl hw (by simp [closeReply, hw])
          · refine .keeps (List.sublist_cons_self _ _) ?_
            unfold closeReply
            split
            · rename_i hw'
              exact absurd hw' hw
            · rfl
        · exact .keeps (.refl _) rfl
    · cases h
  | handOff =>
    simp only [Dispatch.step] at h
    split at h
    · rename_i w n slot
      split at h
      · rename_i calls' hsend
        cases h
        unfold send at hsend
        split at hsend
        · rename_i hw
          cases hsend
          exact .serves rfl hw rfl
        · cases hsend
      · obtain ⟨pools', -, h⟩ := Option.bind_eq_some_iff.1 h
        cases h
        exact .keeps (List.sublist_cons_self _ _) rfl
    · cases h
  | wake =>
    simp only [Dispatch.step] at h
    split at h <;> cases h <;> exact .keeps (.refl _) rfl
  | poll c =>
    simp only [Dispatch.step] at h
    split at h
    · rename_i n slot hc
      cases h
      exact .moves rfl hc rfl (.inr ⟨n, slot, rfl⟩)
    · rename_i hc
      cases h
      exact .moves rfl hc rfl (.inl rfl)
    · cases h
  | cancel c =>
    simp only [Dispatch.step] at h
    split at h
    · rename_i hc
      cases h
      exact .moves rfl hc rfl (.inl rfl)
    · rename_i hc
      cases h
      exact .moves rfl hc rfl (.inl rfl)
    · rename_i hc
      cases h
      exact .moves rfl hc rfl (.inl rfl)
    · cases h

/-- Each waiter has a channel of its own, which holds nothing yet. -/
structure Inv (s : Dispatch.State) : Prop where
  replies : (s.waiters.map (·.reply)).Nodup
  empty : ∀ w ∈ s.waiters, s.calls[w.reply]? = some .waiting ∨ s.calls[w.reply]? = some .dropped

theorem Inv.effect {s s' : Dispatch.State} (h : Inv s) (he : Effect s s') : Inv s' := by
  cases he with
  | joins waiters calls =>
    have hlt : ∀ w ∈ s.waiters, w.reply < s.calls.length := by
      intro w hw
      rcases h.empty w hw with hc | hc <;> exact (List.getElem?_eq_some_iff.1 hc).1
    constructor
    · rw [waiters, List.map_append, List.nodup_append]
      refine ⟨h.replies, List.nodup_singleton _, fun c hc c' hc' => ?_⟩
      obtain ⟨w, hw, rfl⟩ := List.mem_map.1 hc
      obtain rfl := List.mem_singleton.1 hc'
      exact (hlt w hw).ne
    · intro w hw
      rw [calls]
      rw [waiters] at hw
      rcases List.mem_append.1 hw with hw | hw
      · rw [List.getElem?_append_left (hlt w hw)]
        exact h.empty w hw
      · rw [List.mem_singleton.1 hw]
        exact .inl List.getElem?_concat_length
  | keeps waiters calls =>
    refine ⟨h.replies.sublist (waiters.map _), fun w hw => ?_⟩
    rw [calls]
    exact h.empty w (waiters.subset hw)
  | @serves w call waiters waiting calls =>
    have hreplies := h.replies
    rw [waiters, List.map_cons, List.nodup_cons] at hreplies
    refine ⟨hreplies.2, fun w' hw' => ?_⟩
    have hne : w.reply ≠ w'.reply := fun heq => hreplies.1 (heq ▸ List.mem_map_of_mem hw')
    rw [calls, List.getElem?_set_ne hne]
    exact h.empty w' (waiters ▸ List.mem_cons_of_mem _ hw')
  | @moves c old new waiters call calls moved =>
    refine ⟨by rw [waiters]; exact h.replies, fun w hw => ?_⟩
    rw [waiters] at hw
    rw [calls]
    by_cases hc : c = w.reply
    · subst hc
      rw [List.getElem?_set_self (List.getElem?_eq_some_iff.1 call).1]
      rcases moved with rfl | ⟨n, slot, rfl⟩
      · exact .inr rfl
      · rcases h.empty w hw with hc | hc <;> rw [call] at hc <;> cases hc
    · rw [List.getElem?_set_ne hc]
      exact h.empty w hw

/-- A waiter that got no slot gets none later. -/
theorem Refused.effect {s s' : Dispatch.State} {c : Nat} (h : Refused s.calls c) (he : Effect s s') :
    Refused s'.calls c := by
  have hlt : c < s.calls.length := by rcases h with hc | hc <;> exact (List.getElem?_eq_some_iff.1 hc).1
  cases he with
  | joins waiters calls =>
    rw [calls, Refused, List.getElem?_append_left hlt]
    exact h
  | keeps waiters calls =>
    rw [calls]
    exact h
  | @serves w call waiters waiting calls =>
    have hne : w.reply ≠ c := by
      rintro rfl
      rcases h with hc | hc <;> rw [waiting] at hc <;> cases hc
    rw [calls, Refused, List.getElem?_set_ne hne]
    exact h
  | @moves c' old new waiters call calls moved =>
    rw [calls, Refused]
    by_cases hc : c' = c
    · subst hc
      rw [List.getElem?_set_self hlt]
      rcases moved with rfl | ⟨n, slot, rfl⟩
      · exact .inr rfl
      · rcases h with hc | hc <;> rw [call] at hc <;> cases hc
    · rw [List.getElem?_set_ne hc]
      exact h

/-! ### Reserves -/

theorem attempt_eq_nil {s s' : Dispatch.State} {op : Dispatch.Op}
    (h : ∀ now later w, op = .reserve now later → s.pc ≠ .reserving w) : attempt s op s' = [] := by
  unfold attempt
  split
  · rename_i now later w hpc
    exact absurd hpc (h now later w rfl)
  · rfl

/-- What a reserve does. -/
theorem reserve_cases {s s' : Dispatch.State} {now later : Nat} {w : Waiter} (hpc : s.pc = .reserving w)
    (h : Dispatch.step s (.reserve now later) = some s') :
    (s.pools.pool.HasRoom w.allowed now ∧ attempt s (.reserve now later) s' = [⟨w, now, some s.pools.grants.length⟩]) ∨
    (¬ s.pools.pool.HasRoom w.allowed now ∧ attempt s (.reserve now later) s' = [⟨w, now, none⟩] ∧
      (later ≤ w.deadline ∨ s'.calls = closeReply s.calls w.reply)) := by
  have hroom := Pool.isReady_reserveFiltered s.pools.pool w.prefer w.allowed now
  simp only [Dispatch.step, hpc] at h
  obtain ⟨pools', -, h⟩ := Option.bind_eq_some_iff.1 h
  split at h
  · rename_i he
    obtain ⟨slot, -, h⟩ := Option.bind_eq_some_iff.1 h
    cases h
    rw [he] at hroom
    exact .inl ⟨hroom.1 rfl, by simp [attempt, hpc, Pc.slot?]⟩
  · rename_i d he
    rw [he] at hroom
    refine .inr ⟨fun hr => (by cases hroom.2 hr), ?_⟩
    split at h <;> cases h
    · exact ⟨by simp [attempt, hpc, Pc.slot?], .inr rfl⟩
    · rename_i hlate
      exact ⟨by simp [attempt, hpc, Pc.slot?], .inl (by omega)⟩

theorem Refused.closeReply {calls : List Call} {c : Nat} (h : calls[c]? = some .waiting ∨ calls[c]? = some .dropped) :
    Refused (closeReply calls c) c := by
  unfold Dispatch.closeReply
  rcases h with h | h
  · rw [h]
    exact .inl (List.getElem?_set_self (List.getElem?_eq_some_iff.1 h).1)
  · rw [h]
    exact .inr h

/-- The step of the dispatcher that a step is. -/
theorem step_dispatcher {s s' : State} {op : Dispatch.Op} (h : step s (.dispatcher op) = some s') :
    forward op = true ∧ Dispatch.step s.dispatch op = some s'.dispatch ∧
      s'.attempts = s.attempts ++ attempt s.dispatch op s'.dispatch := by
  simp only [step] at h
  split at h
  · rename_i hfor
    obtain ⟨d, hd, rfl⟩ := Option.map_eq_some_iff.1 h
    exact ⟨hfor, hd, rfl⟩
  · cases h

/-- Penalties and swaps leave waiters, channels and reserves alone. -/
theorem step_frame {s s' : State} {op : Op} (h : step s op = some s') : (∃ d, op = .dispatcher d) ∨
    (s'.dispatch.waiters = s.dispatch.waiters ∧ s'.dispatch.calls = s.dispatch.calls ∧ s'.attempts = s.attempts) := by
  cases op with
  | dispatcher op => exact .inl ⟨op, rfl⟩
  | penalize gen lane backoff now =>
    rw [step] at h
    obtain ⟨pools, -, rfl⟩ := Option.map_eq_some_iff.1 h
    exact .inr ⟨rfl, rfl, rfl⟩
  | swap specs now =>
    rw [step] at h
    obtain ⟨pools, -, rfl⟩ := Option.map_eq_some_iff.1 h
    exact .inr ⟨rfl, rfl, rfl⟩

theorem step_inv {s s' : State} {op : Op} (h : Inv s.dispatch) (hs : step s op = some s') : Inv s'.dispatch := by
  rcases step_frame hs with ⟨d, rfl⟩ | ⟨hwaiters, hcalls, -⟩
  · exact h.effect (step_effect (step_dispatcher hs).2.1)
  · exact ⟨by rw [hwaiters]; exact h.replies, by rw [hwaiters, hcalls]; exact h.empty⟩

/-- A reserve in time, or of a lane without room, keeps the property. -/
theorem step_inTime {s s' : State} {op : Op} (hI : Inv s.dispatch) (h : InTime s) (hC : Timely s op)
    (hs : step s op = some s') : InTime s' := by
  rcases step_frame hs with ⟨op, rfl⟩ | ⟨-, hcalls, hattempts⟩
  swap
  · exact ⟨by rw [hattempts]; exact h.granted, by rw [hattempts, hcalls]; exact h.refused⟩
  obtain ⟨hforward, hd, hattempts⟩ := step_dispatcher hs
  have hold : ∀ a ∈ s.attempts, a.waiter.deadline < a.now → Refused s'.dispatch.calls a.waiter.reply :=
    fun a ha hlate => (h.refused a ha hlate).effect (step_effect hd)
  by_cases hreserve : ∃ now later w, op = .reserve now later ∧ s.dispatch.pc = .reserving w
  · obtain ⟨now, later, w, rfl, hpc⟩ := hreserve
    have hle : now ≤ later := of_decide_eq_true hforward
    simp only [Timely, hpc] at hC
    rcases reserve_cases hpc hd with ⟨hroom, ha⟩ | ⟨-, ha, hrefused⟩
    · have hdeadline : now ≤ w.deadline := by
        by_contra hlate
        exact hC (by omega) hroom
      rw [ha] at hattempts
      constructor
      · intro a ha n hn
        rw [hattempts] at ha
        rcases List.mem_append.1 ha with ha | ha
        · exact h.granted a ha n hn
        · rw [List.mem_singleton.1 ha]
          exact hdeadline
      · intro a ha hlate
        rw [hattempts] at ha
        rcases List.mem_append.1 ha with ha | ha
        · exact hold a ha hlate
        · rw [List.mem_singleton.1 ha] at hlate
          exact absurd hlate (Nat.not_lt.2 hdeadline)
    · rw [ha] at hattempts
      constructor
      · intro a ha n hn
        rw [hattempts] at ha
        rcases List.mem_append.1 ha with ha | ha
        · exact h.granted a ha n hn
        · rw [List.mem_singleton.1 ha] at hn
          cases hn
      · intro a ha hlate
        rw [hattempts] at ha
        rcases List.mem_append.1 ha with ha | ha
        · exact hold a ha hlate
        · rw [List.mem_singleton.1 ha] at hlate ⊢
          have hlate : w.deadline < now := hlate
          rcases hrefused with hlater | hcalls
          · omega
          · rw [hcalls]
            exact .closeReply (hI.empty w (by simp [State.waiters, hpc, Pc.waiter?]))
  · have hnil : attempt s.dispatch op s'.dispatch = [] :=
      attempt_eq_nil fun now later w hop hpc => hreserve ⟨now, later, w, hop, hpc⟩
    rw [hnil, List.append_nil] at hattempts
    exact ⟨by rw [hattempts]; exact h.granted, by rw [hattempts]; exact hold⟩

/-- A reserve past the deadline on a lane with room is a grant. -/
theorem not_inTime_of_late {s s' : State} {op : Op} (hC : ¬ Timely s op) (hs : step s op = some s') : ¬ InTime s' := by
  unfold Timely at hC
  split at hC
  · rename_i now later
    split at hC
    · rename_i w hpc
      push Not at hC
      obtain ⟨hlate, hroom⟩ := hC
      obtain ⟨-, hd, hattempts⟩ := step_dispatcher hs
      intro h
      rcases reserve_cases hpc hd with ⟨-, ha⟩ | ⟨hnot, -⟩
      · have := h.granted ⟨w, now, some s.dispatch.pools.grants.length⟩ (by rw [hattempts, ha]; simp) _ rfl
        exact absurd hlate (Nat.not_lt.2 this)
      · exact hnot hroom
    · exact absurd trivial hC
  · exact absurd trivial hC

theorem start_inv (specs : List LaneSpec) (now : Nat) : Inv (start specs now).dispatch :=
  ⟨.nil, fun _ hw => absurd hw List.not_mem_nil⟩

/-- Slots are reserved in time, and waiters past their deadline refused, exactly in the runs in which no waiter comes to
its reserve past its deadline while a lane has room for it. -/
theorem inTime_iff_timely {specs : List LaneSpec} {now₀ : Nat} {ops : List Op} {s : State}
    (hrun : exec step (start specs now₀) ops = some s) :
    Always step InTime (start specs now₀) ops ↔ Meets step Timely (start specs now₀) ops :=
  always_iff_meets (I := fun s => Inv s.dispatch) (fun _ _ _ hI hs => step_inv hI hs)
    (fun _ _ _ hI hP hC hs => step_inTime hI hP hC hs) (fun _ _ _ _ hC hs => not_inTime_of_late hC hs)
    (start_inv specs now₀) ⟨fun _ ha => absurd ha List.not_mem_nil, fun _ ha => absurd ha List.not_mem_nil⟩ hrun

/-- Two groups with a key of one request a minute each. -/
def twoGroups : List LaneSpec :=
  [⟨"a", 1, true, 0, "https://a", "nvidia", true⟩, ⟨"b", 1, true, 1, "https://b", "b", true⟩]

def serve (now : Nat) : List Op :=
  [.dispatcher .recv, .dispatcher .check, .dispatcher (.reserve now now)]

/-- The first group is spent. A patient request for it waits at the head of the queue, a catalog fetch of the second
group with 30 s behind it. -/
def behindPatient : List Op :=
  [.dispatcher (.acquire (ofSecs 300) none (some [0]))] ++ serve 0 ++ [.dispatcher .handOff, .dispatcher .wake,
    .dispatcher (.acquire (ofSecs 300) none (some [0])), .dispatcher (.acquire (ofSecs 30) none (some [1]))] ++
  serve (ofSecs 1) ++ [.dispatcher .wake, .dispatcher .check, .dispatcher (.reserve (ofSecs 61) (ofSecs 61)),
    .dispatcher .handOff, .dispatcher .wake] ++ serve (ofSecs 62) ++ [.dispatcher .handOff]

/-- The same with a penalty on the second group's lane: the fetch is refused. -/
def behindPatientPenalized : List Op :=
  [.dispatcher (.acquire (ofSecs 300) none (some [0]))] ++ serve 0 ++ [.dispatcher .handOff, .dispatcher .wake,
    .dispatcher (.acquire (ofSecs 300) none (some [0])), .dispatcher (.acquire (ofSecs 30) none (some [1])),
    .penalize 0 1 (ofSecs 90) (ofSecs 1)] ++
  serve (ofSecs 1) ++ [.dispatcher .wake, .dispatcher .check, .dispatcher (.reserve (ofSecs 61) (ofSecs 61)),
    .dispatcher .handOff, .dispatcher .wake] ++ serve (ofSecs 62)

theorem inTime_behindPatientPenalized :
    Always step InTime (start twoGroups 0) behindPatientPenalized ∧
      (exec step (start twoGroups 0) behindPatientPenalized).map (·.dispatch.calls[2]?) = some (some .refused) := by
  have hrun : (exec step (start twoGroups 0) behindPatientPenalized).map (·.dispatch.calls[2]?) =
      some (some .refused) := by decide +kernel
  refine ⟨?_, hrun⟩
  obtain ⟨s, hs, -⟩ := Option.map_eq_some_iff.1 hrun
  exact (inTime_iff_timely hs).2 (by decide +kernel)

/-- The fetch gets its slot 32 s after its deadline. -/
theorem not_inTime_behindPatient : ∃ s, exec step (start twoGroups 0) behindPatient = some s ∧
    s.attempts.getLast? = some ⟨⟨2, ofSecs 30, none, some [1]⟩, ofSecs 62, some 2⟩ ∧
    ((s.dispatch.calls[2]?).bind Call.slot?) = some 2 ∧ ¬ InTime s := by
  have hrun : (exec step (start twoGroups 0) behindPatient).map (fun s =>
      (s.attempts.getLast?, (s.dispatch.calls[2]?).bind Call.slot?)) =
      some (some ⟨⟨2, ofSecs 30, none, some [1]⟩, ofSecs 62, some 2⟩, some 2) := by decide +kernel
  obtain ⟨s, hs, hrun⟩ := Option.map_eq_some_iff.1 hrun
  obtain ⟨hlast, hcall⟩ := Prod.mk.inj hrun
  refine ⟨s, hs, hlast, hcall, fun h => ?_⟩
  have := h.granted _ (List.mem_of_getLast? hlast) 2 rfl
  exact absurd this (by decide)

end Deadline

end OpenProxy
