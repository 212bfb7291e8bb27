import OpenProxy.PoolWindow

/-!
# The slot dispatcher (`dispatch.rs`, `reserve_slot` of `proxy.rs`)

One FIFO queue of waiters in front of the pool. The dispatcher serves the head of the queue: it looks
whether the waiter is still there, reserves, and hands the slot over a oneshot channel. Each of these is a
step of its own, since the waiter's future can be dropped between any two of them (client disconnect,
request deadline, a heartbeat that finds the client gone), and with it the receiving end.

A call is one `reserve_slot`: one waiter and its receiver. A retry is another call.
-/

namespace OpenProxy

/-- `(base_url, upstream, endpoint, supports_stream_options)` of a lane of the granting generation. -/
def Pool.laneEndpoint (p : Pool) (lane : Nat) : Option (String × String × Nat × Bool) :=
  (p.lanes[lane]?).map fun l => (l.baseUrl, l.upstream, l.endpoint, l.supportsStreamOptions)

/-- A granted reservation. `gen` is the generation that granted it. -/
structure Slot where
  gen : Nat
  lane : Nat
  key : String
  baseUrl : String
  upstream : String
  endpoint : Nat
  supportsStreamOptions : Bool
  deriving DecidableEq, Repr

namespace Dispatch

open Transition

structure Waiter where
  /-- The call whose receiver is the other end of `reply`. -/
  reply : Nat
  deadline : Nat
  prefer : Option Nat
  allowed : Option (List Nat)
  deriving DecidableEq, Repr

/-- The receiving end of a waiter's channel. `n` numbers the grant a slot came from. -/
inductive Call where
  | waiting
  | delivered (n : Nat) (slot : Slot)
  /-- The sender was dropped without a slot. -/
  | refused
  /-- The receiver was dropped. -/
  | dropped
  /-- The slot was received; the request contacts the upstream with it. -/
  | sent (n : Nat) (slot : Slot)
  deriving DecidableEq, Repr

/-- Where the dispatcher task stands. -/
inductive Pc where
  | idle
  | checking (w : Waiter)
  | reserving (w : Waiter)
  | holding (w : Waiter) (n : Nat) (slot : Slot)
  | sleeping (w : Waiter)
  /-- `GRANT_GAP` after a hand-off. -/
  | pausing
  deriving DecidableEq, Repr

structure State where
  pools : PoolWindow.State
  queue : List Waiter
  pc : Pc
  calls : List Call

inductive Op where
  | acquire (deadline : Nat) (prefer : Option Nat) (allowed : Option (List Nat))
  | recv
  | check
  /-- The reserve reads the clock at `now`, the deadline test after it at `later`. -/
  | reserve (now later : Nat)
  | handOff
  | wake
  | poll (c : Nat)
  /-- The future that waits in call `c` is dropped. -/
  | cancel (c : Nat)

def start (specs : List LaneSpec) (now : Nat) : State :=
  ⟨PoolWindow.start specs now, [], .idle, []⟩

/-- `Dispatcher::acquire_filtered`: join the queue with a fresh channel. -/
def acquireFiltered (s : State) (deadline : Nat) (prefer : Option Nat) (allowed : Option (List Nat)) :
    State :=
  { s with queue := s.queue ++ [⟨s.calls.length, deadline, prefer, allowed⟩], calls := s.calls ++ [.waiting] }

/-- `oneshot::Sender::send`: the slot reaches the receiver unless the receiver is gone. -/
def send (calls : List Call) (reply n : Nat) (slot : Slot) : Option (List Call) :=
  match calls[reply]? with
  | some .waiting => some (calls.set reply (.delivered n slot))
  | _ => none

/-- Dropping the sender without sending. -/
def closeReply (calls : List Call) (reply : Nat) : List Call :=
  match calls[reply]? with
  | some .waiting => calls.set reply .refused
  | _ => calls

/-- `waiter.reply.is_closed()`. -/
def isClosed (calls : List Call) (reply : Nat) : Bool :=
  calls[reply]? == some .dropped

/-- The slot for a reservation on `lane` of the newest generation. -/
def slotOf (pools : PoolWindow.State) (lane : Nat) (key : String) : Option Slot :=
  (pools.pool.laneEndpoint lane).map fun (baseUrl, upstream, endpoint, supportsStreamOptions) =>
    ⟨pools.newest, lane, key, baseUrl, upstream, endpoint, supportsStreamOptions⟩

def step (s : State) : Op → Option State
  | .acquire deadline prefer allowed => some (acquireFiltered s deadline prefer allowed)
  | .recv =>
    match s.pc, s.queue with
    | .idle, w :: queue => some { s with pc := .checking w, queue := queue }
    | _, _ => none
  | .check =>
    match s.pc with
    | .checking w => some { s with pc := if isClosed s.calls w.reply then .idle else .reserving w }
    | _ => none
  | .reserve now later =>
    match s.pc with
    | .reserving w => do
      let pools ← PoolWindow.step s.pools (.reserve w.prefer w.allowed now)
      match (s.pools.pool.reserveFiltered w.prefer w.allowed now).1 with
      | .ready lane key _ _ => do
        let slot ← slotOf s.pools lane key
        return { s with pools := pools, pc := .holding w s.pools.grants.length slot }
      | .wait d =>
        -- fail fast: the reply is dropped and the caller sees an error
        if w.deadline < later + d then
          return { s with pools := pools, pc := .idle, calls := closeReply s.calls w.reply }
        else return { s with pools := pools, pc := .sleeping w }
    | _ => none
  | .handOff =>
    match s.pc with
    | .holding w n slot =>
      match send s.calls w.reply n slot with
      | some calls => some { s with pc := .pausing, calls := calls }
      | none => do
        let pools ← PoolWindow.step s.pools (.release n)
        return { s with pools := pools, pc := .idle }
    | _ => none
  | .wake =>
    match s.pc with
    | .sleeping w => some { s with pc := .checking w }
    | .pausing => some { s with pc := .idle }
    | _ => none
  | .poll c =>
    match s.calls[c]? with
    | some (.delivered n slot) => some { s with calls := s.calls.set c (.sent n slot) }
    | some .refused => some { s with calls := s.calls.set c .dropped }
    | _ => none
  | .cancel c =>
    match s.calls[c]? with
    | some .waiting | some .refused | some (.delivered _ _) => some { s with calls := s.calls.set c .dropped }
    | _ => none

/-! ### Which grants are accounted for -/

/-- The grant the dispatcher holds between reserve and hand-off. -/
def Pc.slot? : Pc → Option Nat
  | .holding _ n _ => some n
  | _ => none

/-- The grant a call holds, in its channel or in use. -/
def Call.slot? : Call → Option Nat
  | .delivered n _ => some n
  | .sent n _ => some n
  | _ => none

/-- The waiter the dispatcher serves. -/
def Pc.waiter? : Pc → Option Waiter
  | .checking w | .reserving w | .holding w _ _ | .sleeping w => some w
  | .idle | .pausing => none

/-- The waiters not served yet. -/
def State.waiters (s : State) : List Waiter := s.pc.waiter?.toList ++ s.queue

/-- The grants on their way to a request or used by one. -/
def State.owned (s : State) : List Nat :=
  s.pc.slot?.toList ++ s.calls.filterMap Call.slot?

/-- Every slot reserved is on its way to a request, used by one or back in the pool, and the windows of
the keys hold the stamps of the first two kinds only. -/
structure NoLeak (s : State) : Prop where
  settled : ∀ {n : Nat} {g : PoolWindow.Grant}, s.pools.grants[n]? = some g → n ∈ s.owned ∨ g.released = true
  window : ∀ {i : Nat} {l : Lane} {t : Nat}, s.pools.pool.lanes[i]? = some l →
    Pool.inWindow s.pools.clock t = true →
    l.sent.count t = s.pools.grants.zipIdx.countP fun (g, n) =>
      s.owned.contains n && g.key == l.key && g.stamp == t

/-- The grant in a channel that was not read yet. -/
def Call.undelivered? : Call → Option Nat
  | .delivered n _ => some n
  | _ => none

/-- A future is dropped only while its channel holds no slot. -/
def EmptyHanded (s : State) : Op → Prop
  | .cancel c => (s.calls[c]?).bind Call.undelivered? = none
  | _ => True

instance (s : State) : DecidablePred (EmptyHanded s) := fun op => by
  cases op <;> unfold EmptyHanded <;> infer_instance

/-! ### The invariant -/

/-- Each grant has at most one owner, and an owned grant was not returned. -/
structure Inv (s : State) : Prop where
  pools : PoolWindow.Inv s.pools
  sole : PoolWindow.Sole s.pools
  nodup : s.owned.Nodup
  owned : ∀ n ∈ s.owned, ∃ g, s.pools.grants[n]? = some g ∧ g.released = false

/-- Replacing one element moves at most that element's image. -/
theorem perm_filterMap_set {α β : Type} (f : α → Option β) {l : List α} {i : Nat} {y : α}
    (h : l[i]? = some y) (x : α) :
    ((f y).toList ++ (l.set i x).filterMap f).Perm ((f x).toList ++ l.filterMap f) := by
  induction l generalizing i with
  | nil => cases h
  | cons a l ih =>
    have hcons : ∀ (a : α) (l : List α), (a :: l).filterMap f = (f a).toList ++ l.filterMap f := by
      intro a l
      rw [List.filterMap_cons]
      cases f a <;> rfl
    cases i with
    | zero =>
      obtain rfl : a = y := Option.some.inj h
      rw [List.set_cons_zero, hcons, hcons, ← List.append_assoc, ← List.append_assoc]
      exact List.perm_append_comm.append_right _
    | succ i =>
      rw [List.set_cons_succ, hcons, hcons]
      have := ih (by simpa using h)
      calc ((f y).toList ++ ((f a).toList ++ (l.set i x).filterMap f)).Perm
            ((f a).toList ++ ((f y).toList ++ (l.set i x).filterMap f)) := by
              rw [← List.append_assoc, ← List.append_assoc]
              exact List.perm_append_comm.append_right _
        _ |>.Perm ((f a).toList ++ ((f x).toList ++ l.filterMap f)) := this.append_left _
        _ |>.Perm ((f x).toList ++ ((f a).toList ++ l.filterMap f)) := by
              rw [← List.append_assoc, ← List.append_assoc]
              exact List.perm_append_comm.append_right _

/-- What a step can do to the pool and to the owners of the grants. -/
inductive Effect (s : State) (op : Op) (s' : State) : Prop where
  | keeps (hp : s'.pools = s.pools) (ho : s'.owned.Perm s.owned)
  | waits {prefer : Option Nat} {allowed : Option (List Nat)} {now : Nat}
      (hp : PoolWindow.step s.pools (.reserve prefer allowed now) = some s'.pools)
      (hg : s'.pools.grants = s.pools.grants) (ho : s'.owned.Perm s.owned)
  | reserves {prefer : Option Nat} {allowed : Option (List Nat)} {now : Nat} {g : PoolWindow.Grant}
      (hp : PoolWindow.step s.pools (.reserve prefer allowed now) = some s'.pools)
      (hg : s'.pools.grants = s.pools.grants ++ [g]) (hr : g.released = false)
      (ho : s'.owned.Perm (s.pools.grants.length :: s.owned))
  | returns {n : Nat} (hp : PoolWindow.step s.pools (.release n) = some s'.pools)
      (ho : s.owned.Perm (n :: s'.owned))
  | drops {n : Nat} (hp : s'.pools = s.pools) (ho : s.owned.Perm (n :: s'.owned)) (hop : ¬ EmptyHanded s op)

theorem perm_owned_set {calls : List Call} {c : Nat} {y : Call} (h : calls[c]? = some y) (x : Call)
    (hs : x.slot? = y.slot?) (pc : Pc) :
    (pc.slot?.toList ++ (calls.set c x).filterMap Call.slot?).Perm
      (pc.slot?.toList ++ calls.filterMap Call.slot?) := by
  have := perm_filterMap_set Call.slot? h x
  rw [hs] at this
  exact ((List.perm_append_left_iff _).1 this).append_left _

theorem perm_owned_closeReply (calls : List Call) (reply : Nat) :
    ((closeReply calls reply).filterMap Call.slot?).Perm (calls.filterMap Call.slot?) := by
  unfold closeReply
  split
  · rename_i h
    exact perm_owned_set h .refused rfl .idle
  · exact .refl _

theorem cancel_delivered {s s' : State} {c n : Nat} {slot : Slot}
    (hc : s.calls[c]? = some (.delivered n slot)) (h : step s (.cancel c) = some s') :
    s'.pools = s.pools ∧ s.owned.Perm (n :: s'.owned) := by
  simp only [step, hc] at h
  cases h
  have := perm_filterMap_set Call.slot? hc .dropped
  exact ⟨rfl, (this.symm.append_left _).trans List.perm_middle⟩

theorem step_effect {s s' : State} {op : Op} (h : step s op = some s') : Effect s op s' := by
  obtain ⟨pools, queue, pc, calls⟩ := s
  cases op with
  | acquire deadline prefer allowed =>
    cases h
    refine .keeps rfl ?_
    simp only [State.owned, acquireFiltered, List.filterMap_append]
    exact .of_eq (by simp [Call.slot?])
  | recv =>
    simp only [step] at h
    split at h
    · cases h; exact .keeps rfl (.refl _)
    · cases h
  | check =>
    simp only [step] at h
    split at h
    · cases h
      refine .keeps rfl ?_
      simp only [State.owned]
      split <;> exact .refl _
    · cases h
  | reserve now later =>
    simp only [step] at h
    split at h
    · rename_i w
      obtain ⟨pools', hpools, h⟩ := Option.bind_eq_some_iff.1 h
      obtain ⟨-, -, hcase⟩ := PoolWindow.step_reserve hpools
      split at h
      · rename_i he
        obtain ⟨slot, -, h⟩ := Option.bind_eq_some_iff.1 h
        cases h
        rcases hcase with ⟨_, _, _, _, -, hg⟩ | ⟨⟨_, hd⟩, -⟩
        · exact .reserves hpools hg rfl (.refl _)
        · rw [he] at hd; cases hd
      · rename_i he
        rcases hcase with ⟨_, _, _, _, hr, -⟩ | ⟨-, hg⟩
        · rw [he] at hr; cases hr
        · split at h
          · cases h; exact .waits hpools hg (perm_owned_closeReply calls w.reply)
          · cases h; exact .waits hpools hg (.refl _)
    · cases h
  | handOff =>
    simp only [step] at h
    split at h
    · rename_i w n slot
      split at h
      · rename_i calls' hsend
        cases h
        unfold send at hsend
        split at hsend
        · rename_i hw
          cases hsend
          exact .keeps rfl (perm_filterMap_set Call.slot? hw (.delivered n slot))
        · cases hsend
      · obtain ⟨pools', hpools, h⟩ := Option.bind_eq_some_iff.1 h
        cases h
        exact .returns hpools (.refl _)
    · cases h
  | wake =>
    simp only [step] at h
    split at h
    · cases h; exact .keeps rfl (.refl _)
    · cases h; exact .keeps rfl (.refl _)
    · cases h
  | poll c =>
    simp only [step] at h
    split at h
    · rename_i n slot hc
      cases h
      exact .keeps rfl (perm_owned_set hc (.sent n slot) rfl pc)
    · rename_i hc
      cases h
      exact .keeps rfl (perm_owned_set hc .dropped rfl pc)
    · cases h
  | cancel c =>
    by_cases hc : ∃ n slot, calls[c]? = some (.delivered n slot)
    · obtain ⟨n, slot, hc⟩ := hc
      obtain ⟨hp, ho⟩ := cancel_delivered hc h
      exact .drops hp ho (by simp [EmptyHanded, hc, Call.undelivered?])
    · simp only [step] at h
      split at h
      · rename_i hw
        cases h
        exact .keeps rfl (perm_owned_set hw .dropped rfl pc)
      · rename_i hw
        cases h
        exact .keeps rfl (perm_owned_set hw .dropped rfl pc)
      · rename_i n slot hw
        exact absurd ⟨n, slot, hw⟩ hc
      · cases h

theorem step_sameLanes {s s' : State} {op : Op} (h : step s op = some s') :
    Pool.SameLanes s.pools.pool s'.pools.pool := by
  cases step_effect h with
  | keeps hp _ => rw [hp]; exact .refl _
  | waits hp _ _ => exact PoolWindow.reserve_sameLanes hp
  | reserves hp _ _ _ => exact PoolWindow.reserve_sameLanes hp
  | returns hp _ => exact PoolWindow.release_sameLanes hp
  | drops hp _ _ => rw [hp]; exact .refl _

theorem length_closeReply (calls : List Call) (reply : Nat) :
    (closeReply calls reply).length = calls.length := by
  unfold closeReply
  split <;> simp only [List.length_set]

/-- No step but joining the queue brings a waiter or opens a call. -/
theorem step_waiters {s s' : State} {op : Op} (hop : ∀ d p a, op ≠ .acquire d p a)
    (h : step s op = some s') :
    s'.calls.length = s.calls.length ∧ ∀ w ∈ s'.waiters, w ∈ s.waiters := by
  obtain ⟨pools, queue, pc, calls⟩ := s
  cases op with
  | acquire d p a => exact absurd rfl (hop d p a)
  | recv =>
    simp only [step] at h
    split at h
    · cases h; exact ⟨rfl, fun w hw => hw⟩
    · cases h
  | check =>
    simp only [step] at h
    split at h
    · cases h
      refine ⟨rfl, fun w hw => ?_⟩
      simp only [State.waiters] at hw ⊢
      split at hw
      · exact List.mem_append_right _ hw
      · exact hw
    · cases h
  | reserve now later =>
    simp only [step] at h
    split at h
    · rename_i w
      obtain ⟨pools', -, h⟩ := Option.bind_eq_some_iff.1 h
      split at h
      · obtain ⟨slot, -, h⟩ := Option.bind_eq_some_iff.1 h
        cases h; exact ⟨rfl, fun w hw => hw⟩
      · split at h <;> cases h
        · exact ⟨length_closeReply .., fun w hw => List.mem_append_right _ hw⟩
        · exact ⟨rfl, fun w hw => hw⟩
    · cases h
  | handOff =>
    simp only [step] at h
    split at h
    · split at h
      · rename_i hsend
        cases h
        refine ⟨?_, fun w hw => List.mem_append_right _ hw⟩
        unfold send at hsend
        split at hsend
        · cases hsend; exact List.length_set
        · cases hsend
      · obtain ⟨pools', -, h⟩ := Option.bind_eq_some_iff.1 h
        cases h
        exact ⟨rfl, fun w hw => List.mem_append_right _ hw⟩
    · cases h
  | wake =>
    simp only [step] at h
    split at h <;> cases h <;> exact ⟨rfl, fun w hw => hw⟩
  | poll c =>
    simp only [step] at h
    split at h <;> cases h <;> exact ⟨List.length_set, fun w hw => hw⟩
  | cancel c =>
    simp only [step] at h
    split at h <;> cases h <;> exact ⟨List.length_set, fun w hw => hw⟩

/-- A reserve that leaves a slot in the dispatcher's hand took it from an active, visible lane for a
waiter it was serving. -/
theorem reserve_holding {s s' : State} {now later n : Nat} {w : Waiter} {slot : Slot}
    (h : step s (.reserve now later) = some s') (hpc : s'.pc = .holding w n slot) :
    w ∈ s.waiters ∧ ∃ i l, i < s.pools.pool.active ∧ s.pools.pool.lanes[i]? = some l ∧
      allows w.allowed l.endpoint = true ∧ slot.upstream = l.upstream ∧ slot.endpoint = l.endpoint := by
  simp only [step] at h
  split at h
  · rename_i w' hw'
    obtain ⟨pools', -, h⟩ := Option.bind_eq_some_iff.1 h
    split at h
    · rename_i i key _ _ hr
      obtain ⟨slot', hslot, h⟩ := Option.bind_eq_some_iff.1 h
      cases h
      cases hpc
      obtain ⟨-, ht⟩ := Pool.reserveFiltered_ready (Prod.ext hr rfl)
      obtain ⟨l, hl, -, hallow, -⟩ := ht.lane
      refine ⟨by simp [State.waiters, hw', Pc.waiter?], i, l, ht.active, hl, hallow, ?_⟩
      simp only [slotOf, Pool.laneEndpoint, hl, Option.map_some, Option.some.injEq] at hslot
      rw [← hslot]
      exact ⟨rfl, rfl⟩
    · split at h <;> cases h <;> cases hpc
  · cases h

/-! ### Preservation -/

theorem start_inv {specs : List LaneSpec} (hd : PoolWindow.keysDistinct specs) (now : Nat) :
    Inv (start specs now) :=
  ⟨.start hd now, ⟨rfl, fun g hg => by cases hg⟩, .nil, fun n hn => by cases hn⟩

theorem step_inv {s s' : State} {op : Op} (h : Inv s) (hs : step s op = some s') : Inv s' := by
  cases step_effect hs with
  | keeps hp ho =>
    refine ⟨hp ▸ h.pools, hp ▸ h.sole, ho.nodup_iff.2 h.nodup, fun n hn => ?_⟩
    rw [hp]
    exact h.owned n (ho.mem_iff.1 hn)
  | waits hp hg ho =>
    refine ⟨PoolWindow.step_inv h.pools hp, h.sole.reserve hp, ho.nodup_iff.2 h.nodup, fun n hn => ?_⟩
    rw [hg]
    exact h.owned n (ho.mem_iff.1 hn)
  | reserves hp hg hr ho =>
    have hlt : ∀ n ∈ s.owned, n < s.pools.grants.length := fun n hn => by
      obtain ⟨g, hg, -⟩ := h.owned n hn
      exact (List.getElem?_eq_some_iff.1 hg).1
    refine ⟨PoolWindow.step_inv h.pools hp, h.sole.reserve hp, ho.nodup_iff.2 ?_, fun n hn => ?_⟩
    · exact List.nodup_cons.2 ⟨fun hmem => Nat.lt_irrefl _ (hlt _ hmem), h.nodup⟩
    · rw [hg]
      rcases List.mem_cons.1 (ho.mem_iff.1 hn) with rfl | hn
      · exact ⟨_, List.getElem?_concat_length, hr⟩
      · rw [List.getElem?_append_left (hlt n hn)]
        exact h.owned n hn
  | returns hp ho =>
    rename_i n
    obtain ⟨g, hn, -, -, hg, -⟩ := PoolWindow.step_release hp
    obtain ⟨hnot, hnodup⟩ := List.nodup_cons.1 (ho.nodup_iff.1 h.nodup)
    refine ⟨PoolWindow.step_inv h.pools hp, h.sole.release h.pools hp, hnodup, fun m hm => ?_⟩
    have hne : n ≠ m := fun he => hnot (he ▸ hm)
    rw [hg, List.getElem?_set_ne hne]
    exact h.owned m (ho.mem_iff.2 (List.mem_cons_of_mem _ hm))
  | drops hp ho =>
    refine ⟨hp ▸ h.pools, hp ▸ h.sole, (List.nodup_cons.1 (ho.nodup_iff.1 h.nodup)).2, fun m hm => ?_⟩
    rw [hp]
    exact h.owned m (ho.mem_iff.2 (List.mem_cons_of_mem _ hm))

/-- Every reserved slot has an owner or is back in the pool. -/
def Settled (s : State) : Prop :=
  ∀ {n : Nat} {g : PoolWindow.Grant}, s.pools.grants[n]? = some g → n ∈ s.owned ∨ g.released = true

theorem step_settled {s s' : State} {op : Op} (h : Settled s) (hop : EmptyHanded s op)
    (hs : step s op = some s') : Settled s' := by
  intro n g hg
  cases step_effect hs with
  | keeps hp ho =>
    rw [hp] at hg
    exact (h hg).imp_left ho.mem_iff.2
  | waits hp hgs ho =>
    rw [hgs] at hg
    exact (h hg).imp_left ho.mem_iff.2
  | reserves hp hgs hr ho =>
    rw [hgs] at hg
    rcases Nat.lt_or_ge n s.pools.grants.length with hlt | hge
    · rw [List.getElem?_append_left hlt] at hg
      exact (h hg).imp_left fun hm => ho.mem_iff.2 (List.mem_cons_of_mem _ hm)
    · have hn : n = s.pools.grants.length := by
        have := (List.getElem?_eq_some_iff.1 hg).1
        simp only [List.length_append, List.length_singleton] at this
        omega
      exact .inl (ho.mem_iff.2 (hn ▸ List.mem_cons_self))
  | returns hp ho =>
    rename_i m
    obtain ⟨g', hm, -, -, hgs, -⟩ := PoolWindow.step_release hp
    rw [hgs] at hg
    by_cases hne : m = n
    · subst hne
      rw [List.getElem?_set_self (List.getElem?_eq_some_iff.1 hm).1] at hg
      cases hg
      exact .inr rfl
    · rw [List.getElem?_set_ne hne] at hg
      refine (h hg).imp_left fun hmem => ?_
      exact (List.mem_cons.1 (ho.mem_iff.1 hmem)).resolve_left (Ne.symm hne)
  | drops _ _ hdrop => exact absurd hop hdrop

/-- A slot dropped in its channel is neither owned nor returned. -/
theorem not_settled_of_drop {s s' : State} {op : Op} (h : Inv s) (hop : ¬ EmptyHanded s op)
    (hs : step s op = some s') : ¬ Settled s' := by
  intro hset
  cases op with
  | cancel c =>
    obtain ⟨n, hn⟩ := Option.ne_none_iff_exists'.1 hop
    obtain ⟨call, hc, hcall⟩ := Option.bind_eq_some_iff.1 hn
    obtain ⟨slot, rfl⟩ : ∃ slot, call = .delivered n slot := by
      cases call <;> simp only [Call.undelivered?, Option.some.injEq, reduceCtorEq] at hcall
      exact ⟨_, by rw [hcall]⟩
    obtain ⟨hp, ho⟩ := cancel_delivered hc hs
    obtain ⟨g, hn, hg⟩ := h.owned n (ho.mem_iff.2 List.mem_cons_self)
    rcases hset (hp ▸ hn) with hmem | hr
    · exact (List.nodup_cons.1 (ho.nodup_iff.1 h.nodup)).1 hmem
    · rw [hg] at hr; cases hr
  | _ => exact hop trivial

/-- With every slot accounted for, the windows hold what the owners of slots spent. -/
theorem Inv.noLeak {s : State} (h : Inv s) (hset : Settled s) : NoLeak s := by
  refine ⟨hset, fun {i l t} hl ht => ?_⟩
  rw [(h.pools.window hl).count t ht, PoolWindow.State.count_stamps, ← List.zipIdx_map_fst 0 s.pools.grants,
    List.countP_map, List.zipIdx_map_fst]
  refine List.countP_congr fun ⟨g, n⟩ hmem => ?_
  have hn : s.pools.grants[n]? = some g := List.mk_mem_zipIdx_iff_getElem?.1 hmem
  have hg := List.mem_of_getElem? hn
  have hgen : g.gen = s.pools.newest := by
    have := h.pools.gen_le g hg
    have : s.pools.newest = 0 := by rw [PoolWindow.State.newest, h.sole.past]; rfl
    omega
  have hspends : s.pools.spends l.key g = (s.owned.contains n && g.key == l.key) := by
    by_cases hown : n ∈ s.owned
    · obtain ⟨g', hn', hr⟩ := h.owned n hown
      obtain rfl : g = g' := Option.some.inj (hn.symm.trans hn')
      rw [h.pools.spends_newest hgen (by rw [h.sole.refunded g hg, hr]) hl]
      simp [hown, beq_eq_decide]
    · have hr := (hset hn).resolve_left hown
      simp [PoolWindow.State.spends, h.sole.refunded g hg, hr, hown]
  simp only [Function.comp, hspends]

/-- Slots leak exactly in the runs that drop a future while its channel holds a slot not yet received. -/
theorem noLeak_iff_emptyHanded {specs : List LaneSpec} {now₀ : Nat} {ops : List Op} {s : State}
    (hd : PoolWindow.keysDistinct specs) (hrun : exec step (start specs now₀) ops = some s) :
    Always step NoLeak (start specs now₀) ops ↔ Meets step EmptyHanded (start specs now₀) ops := by
  have hset₀ : Settled (start specs now₀) := fun hg => by cases hg
  refine always_iff_meets (I := Inv) (fun _ _ _ hI hs => step_inv hI hs) ?_ ?_ (start_inv hd now₀)
    ((start_inv hd now₀).noLeak hset₀) hrun
  · intro s op s' hI hP hop hs
    exact (step_inv hI hs).noLeak (step_settled hP.settled hop hs)
  · intro s op s' hI hop hs hP
    exact not_settled_of_drop hI hop hs hP.settled

/-- One key with a budget of one request. -/
def oneKey : List LaneSpec := [⟨"a", 1, true, 0, "https://a", "nvidia", true⟩]

/-- A waiter that leaves between reserve and hand-off gives its slot back. -/
def leaveInTime : List Op := [.acquire 100 none none, .recv, .check, .reserve 5 5, .cancel 0, .handOff]

theorem noLeak_leaveInTime : Always step NoLeak (start oneKey 0) leaveInTime := by
  obtain ⟨s, hs⟩ := Option.isSome_iff_exists.1
    (show (exec step (start oneKey 0) leaveInTime).isSome = true by decide +kernel)
  exact (noLeak_iff_emptyHanded (by decide +kernel) hs).2 (by decide +kernel)

/-- A waiter that leaves after the hand-off and before it reads its channel takes the slot with it: the
grant has no owner, was not returned, and its stamp stays in the window. -/
def leaveTooLate : List Op := [.acquire 100 none none, .recv, .check, .reserve 5 5, .handOff, .cancel 0]

theorem not_noLeak_leaveTooLate : ¬ ∀ (specs : List LaneSpec) (now₀ : Nat) (ops : List Op) (s : State),
    PoolWindow.keysDistinct specs → exec step (start specs now₀) ops = some s → NoLeak s := by
  intro h
  have hrun : (exec step (start oneKey 0) leaveTooLate).map (fun s =>
      ((s.pools.grants.map (·.released)), s.owned, s.pools.pool.lanes.map (·.sent))) =
      some ([false], [], [[5]]) := by
    decide +kernel
  obtain ⟨s, hs, hs'⟩ := Option.map_eq_some_iff.1 hrun
  simp only [Prod.mk.injEq] at hs'
  obtain ⟨hrel, howned, -⟩ := hs'
  obtain ⟨g, hg⟩ : ∃ g, s.pools.grants[0]? = some g := by
    cases hgs : s.pools.grants with
    | nil => rw [hgs] at hrel; cases hrel
    | cons g gs => exact ⟨g, rfl⟩
  have hg' := congrArg (·[0]?) hrel
  simp only [List.getElem?_map, hg, Option.map_some] at hg'
  rcases (h oneKey 0 leaveTooLate s (by decide +kernel) hs).settled hg with hmem | hr
  · rw [howned] at hmem; cases hmem
  · rw [hr] at hg'; cases hg'

end Dispatch

end OpenProxy
