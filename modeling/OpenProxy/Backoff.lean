import OpenProxy.Exchange

/-!
# Backed-off retries (`enter_cooldown` of `proxy.rs`, `note_exhausted` of `governor.rs`)

A failed request is held back by the cooldown of the lane it used, or by the drain gap of its model. The cooldown is
that of the generation that granted the slot: later ones have it only if they were made from it. The drain gap holds
back requests that the governor gates.
-/

namespace OpenProxy.Exchange

open Transition

/-- The failure before it no longer holds back what was sent: it went to another key, the cooldown was over, or the
request was admitted after the drain gap. -/
def Sent.BackedOff (e : Sent) : Prop :=
  match e.failure with
  | none => True
  | some (.cooled key till) => e.key = key → till ≤ e.time
  | some (.exhausted key time) => e.key = key → time + Governor.exhaustBackoff ≤ e.admitted

/-! ### Cooldowns -/

/-- The pool has lanes for the key, all of them in cooldown. -/
structure Cooled (p : Pool) (key : String) (till : Nat) : Prop where
  lane : ∃ l ∈ p.lanes, l.key = key
  till_le : ∀ l ∈ p.lanes, l.key = key → till ≤ l.cooldownUntil

/-- The lanes keep their keys, and no cooldown gets shorter. -/
structure Keeps (p p' : Pool) : Prop where
  forth : ∀ l ∈ p.lanes, ∃ l' ∈ p'.lanes, l'.key = l.key
  back : ∀ l' ∈ p'.lanes, ∃ l ∈ p.lanes, l.key = l'.key ∧ l.cooldownUntil ≤ l'.cooldownUntil

section
variable {p q p' : Pool} {key : String} {till now i : Nat}

theorem Cooled.keeps (h : Cooled p key till) (hk : Keeps p p') : Cooled p' key till := by
  constructor
  · obtain ⟨l, hl, hkey⟩ := h.lane
    obtain ⟨l', hl', hkey'⟩ := hk.forth l hl
    exact ⟨l', hl', hkey'.trans hkey⟩
  · intro l' hl' hkey
    obtain ⟨l, hl, hkey', hle⟩ := hk.back l' hl'
    exact (h.till_le l hl (hkey'.trans hkey)).trans hle

namespace Keeps

theorem refl (p : Pool) : Keeps p p :=
  ⟨fun l hl => ⟨l, hl, rfl⟩, fun l hl => ⟨l, hl, rfl, le_rfl⟩⟩

theorem trans (h : Keeps p q) (h' : Keeps q p') : Keeps p p' := by
  constructor
  · intro l hl
    obtain ⟨m, hm, hkey⟩ := h.forth l hl
    obtain ⟨l', hl', hkey'⟩ := h'.forth m hm
    exact ⟨l', hl', hkey'.trans hkey⟩
  · intro l' hl'
    obtain ⟨m, hm, hkey', hle'⟩ := h'.back l' hl'
    obtain ⟨l, hl, hkey, hle⟩ := h.back m hm
    exact ⟨l, hl, hkey.trans hkey', hle.trans hle'⟩

/-- One lane changes. -/
theorem modify {f : Lane → Lane} (hp : p'.lanes = p.lanes.modify i f) (hkey : ∀ l, (f l).key = l.key)
    (hcooldown : ∀ l, l.cooldownUntil ≤ (f l).cooldownUntil) : Keeps p p' := by
  constructor
  · intro l hl
    obtain ⟨j, hj⟩ := List.mem_iff_getElem?.1 hl
    have hget : p'.lanes[j]? = some (if i = j then f l else l) := by
      rw [hp, List.getElem?_modify, hj]
      split <;> rfl
    refine ⟨_, List.mem_of_getElem? hget, ?_⟩
    split
    · exact hkey l
    · rfl
  · intro l' hl'
    obtain ⟨j, hj⟩ := List.mem_iff_getElem?.1 hl'
    rw [hp, List.getElem?_modify] at hj
    obtain ⟨l, hl, rfl⟩ := Option.map_eq_some_iff.1 hj
    refine ⟨l, List.mem_of_getElem? hl, ?_⟩
    split
    · exact ⟨(hkey l).symm, hcooldown l⟩
    · exact ⟨rfl, le_rfl⟩

theorem setSent (p : Pool) (i : Nat) (sent : List Nat) : Keeps p (p.setSent i sent) :=
  modify rfl (fun _ => rfl) fun _ => le_rfl

theorem penalize (p : Pool) (i backoff now : Nat) : Keeps p (p.penalize i backoff now) :=
  modify rfl (fun _ => rfl) fun _ => le_max_left _ _

theorem release (p : Pool) (i stamp : Nat) : Keeps p (p.release i stamp) := by
  unfold Pool.release
  split
  · exact refl p
  · exact setSent ..

theorem ages (h : Pool.Ages now p p') : Keeps p p' := by
  constructor
  · intro l hl
    obtain ⟨j, hj⟩ := List.mem_iff_getElem?.1 hl
    obtain ⟨l', hl', ha⟩ := h.lane hj
    exact ⟨l', List.mem_of_getElem? hl', ha.key_eq⟩
  · intro l' hl'
    obtain ⟨j, hj⟩ := List.mem_iff_getElem?.1 hl'
    obtain ⟨l, hl, ha⟩ := h.lane_of hj
    refine ⟨l, List.mem_of_getElem? hl, ha.key_eq.symm, ?_⟩
    rcases ha with rfl | rfl <;> exact le_rfl

theorem reserveFiltered (p : Pool) (prefer : Option Nat) (allowed : Option (List Nat)) (now : Nat) :
    Keeps p (p.reserveFiltered prefer allowed now).2 := by
  rcases Pool.reserveFiltered_spec p prefer allowed now with ⟨i, key, sticky, p', he, ht⟩ | ⟨d, p', he, ha⟩ <;> rw [he]
  · obtain ⟨l, -, -, -, -, -, q, hq, rfl⟩ := ht.lane
    exact (ages hq).trans (setSent ..)
  · exact ages ha

end Keeps

/-- A rebuild carries the cooldown of a key that it keeps. -/
theorem Cooled.rebuild (h : Cooled p key till) {specs : List LaneSpec} (hkey : key ∈ specs.map (·.key)) (now : Nat) :
    Cooled (p.rebuild specs now) key till := by
  have hmem (spec : LaneSpec) : spec ∈ Pool.enabledFirst specs ↔ spec ∈ specs := (Pool.perm_enabledFirst specs).mem_iff
  have hlanes : (p.rebuild specs now).lanes = (Pool.enabledFirst specs).map (Pool.laneOf (some p) now) := rfl
  have hlaneKey (spec : LaneSpec) : (Pool.laneOf (some p) now spec).key = spec.key := by
    unfold Pool.laneOf
    split <;> rfl
  constructor
  · obtain ⟨spec, hspec, hkey⟩ := List.mem_map.1 hkey
    exact ⟨_, hlanes ▸ List.mem_map_of_mem ((hmem spec).2 hspec), (hlaneKey spec).trans hkey⟩
  · intro l hl hl'
    obtain ⟨spec, -, rfl⟩ := List.mem_map.1 (hlanes ▸ hl)
    rw [hlaneKey] at hl'
    obtain ⟨m, hm, hmkey⟩ := h.lane
    cases hfind : p.lanes.find? fun l => l.key == spec.key with
    | none => exact absurd (hmkey.trans hl'.symm) (by simpa using List.find?_eq_none.1 hfind m hm)
    | some prev =>
      have hprev := List.find?_some hfind
      have hcooldown : (Pool.laneOf (some p) now spec).cooldownUntil = prev.cooldownUntil := by
        unfold Pool.laneOf
        rw [Option.bind_some, hfind]
      rw [hcooldown]
      exact h.till_le prev (List.mem_of_find?_eq_some hfind) ((beq_iff_eq.1 hprev).trans hl')

/-- A granted key is not in cooldown. -/
theorem Cooled.le_of_ready (h : Cooled p key till) {prefer : Option Nat} {allowed : Option (List Nat)} {stamp : Nat}
    {sticky : Bool} (hready : p.reserveFiltered prefer allowed now = (.ready i key stamp sticky, p')) : till ≤ now := by
  obtain ⟨-, htakes⟩ := Pool.reserveFiltered_ready hready
  obtain ⟨l, hl, hkey, -, hcooldown, -⟩ := htakes.lane
  exact (h.till_le l (List.mem_of_getElem? hl) hkey).trans hcooldown

end

/-- The slot was granted. -/
def Granted (pools : PoolWindow.State) (slot : Slot) : Prop :=
  ∃ g ∈ pools.grants, g.gen = slot.gen ∧ g.lane = slot.lane ∧ g.key = slot.key

section
variable {pools pools' : PoolWindow.State} {pop : PoolWindow.Op} {slot : Slot}

/-- A cooldown on the newest generation holds back the key of the slot. -/
theorem Cooled.cooled (h : PoolWindow.Inv pools) (hslot : Granted pools slot) (hgen : slot.gen = pools.newest)
    (backoff now : Nat) : Cooled (cooled pools slot backoff now).pool slot.key (now + backoff) := by
  obtain ⟨g, hg, hggen, hlane, hkey⟩ := hslot
  have hlaneKey := h.lane_key g hg (hggen.trans hgen)
  rw [hlane, hkey] at hlaneKey
  obtain ⟨l, hl, hlkey⟩ := Option.map_eq_some_iff.1 hlaneKey
  have hpool : (Exchange.cooled pools slot backoff now).pool = pools.pool.penalize slot.lane backoff now := by
    rw [Exchange.cooled, PoolWindow.State.onGen, if_pos hgen]
  have hlanes (j : Nat) : (pools.pool.penalize slot.lane backoff now).lanes[j]? =
      (pools.pool.lanes[j]?).map fun l =>
        if slot.lane = j then { l with cooldownUntil := max l.cooldownUntil (now + backoff) } else l := by
    rw [Pool.penalize, List.getElem?_modify]
    cases pools.pool.lanes[j]? <;> [rfl; (split <;> rfl)]
  rw [hpool]
  constructor
  · refine ⟨_, List.mem_of_getElem? ((hlanes slot.lane).trans (congrArg _ hl)), ?_⟩
    simpa using hlkey
  · intro l' hl' hkey'
    obtain ⟨j, hj⟩ := List.mem_iff_getElem?.1 hl'
    rw [hlanes] at hj
    obtain ⟨m, hm, rfl⟩ := Option.map_eq_some_iff.1 hj
    have hsame : slot.lane = j := by
      refine h.lane_inj hl hm ?_
      rw [hlkey, ← hkey']
      split <;> rfl
    rw [if_pos hsame]
    exact le_max_right _ _

theorem keeps_onGen (pools : PoolWindow.State) (gen : Nat) {f : Pool → Pool} (hf : ∀ p, Keeps p (f p)) :
    Keeps pools.pool (pools.onGen gen f).pool := by
  unfold PoolWindow.State.onGen
  split
  · exact hf _
  · exact .refl _

/-- Only a rebuild loses keys or cooldowns. -/
theorem keeps_of_step (h : PoolWindow.step pools pop = some pools') (hpop : ∀ specs now, pop ≠ .rebuild specs now) :
    Keeps pools.pool pools'.pool := by
  cases pop with
  | reserve prefer allowed now =>
    have hkeeps := Keeps.reserveFiltered pools.pool prefer allowed now
    simp only [PoolWindow.step] at h
    split at h
    · split at h <;> rename_i hreserve <;> rw [hreserve] at hkeeps <;> exact Option.some.inj h ▸ hkeeps
    · cases h
  | release n =>
    simp only [PoolWindow.step] at h
    split at h
    · cases h
    · rename_i g _
      split at h
      · cases h
      · exact Option.some.inj h ▸ keeps_onGen pools g.gen fun p => .release p g.lane g.stamp
  | penalize gen lane backoff now =>
    exact Option.some.inj h ▸ keeps_onGen pools gen fun p => .penalize p lane backoff now
  | rebuild specs now => exact absurd rfl (hpop specs now)

theorem grants_onGen (pools : PoolWindow.State) (gen : Nat) (f : Pool → Pool) :
    (pools.onGen gen f).grants = pools.grants := by
  unfold PoolWindow.State.onGen
  split <;> rfl

/-- A grant stays, though it may be released. -/
theorem Granted.step (hslot : Granted pools slot) (h : PoolWindow.step pools pop = some pools') : Granted pools' slot := by
  obtain ⟨g, hg, hfields⟩ := hslot
  cases pop with
  | reserve prefer allowed now =>
    simp only [PoolWindow.step] at h
    split at h
    · split at h
      · exact Option.some.inj h ▸ ⟨g, List.mem_append_left _ hg, hfields⟩
      · exact Option.some.inj h ▸ ⟨g, hg, hfields⟩
    · cases h
  | release n =>
    simp only [PoolWindow.step] at h
    split at h
    · cases h
    · rename_i g' hg'
      split at h
      · cases h
      · obtain rfl := Option.some.inj h
        obtain ⟨j, hj⟩ := List.mem_iff_getElem?.1 hg
        by_cases hn : n = j
        · subst hn
          obtain rfl := Option.some.inj (hg'.symm.trans hj)
          have hlt := (List.getElem?_eq_some_iff.1 hj).1
          exact ⟨_, List.mem_of_getElem? (List.getElem?_set_self hlt), hfields⟩
        · exact ⟨g, List.mem_of_getElem? ((List.getElem?_set_ne hn).trans hj), hfields⟩
  | penalize gen lane backoff now =>
    obtain rfl := Option.some.inj h
    exact ⟨g, (grants_onGen pools gen _).symm ▸ hg, hfields⟩
  | rebuild specs now =>
    simp only [PoolWindow.step] at h
    split at h
    · exact Option.some.inj h ▸ ⟨g, hg, hfields⟩
    · cases h

end

/-! ### Drain gaps -/

/-- The drain gap of an exhaustion at `time` is not over sooner. -/
def Blocked (g : Governor) (model : String) (time : Nat) : Prop :=
  ∃ b, (g.get model).blockedUntil = some b ∧ time + Governor.exhaustBackoff ≤ b

section
variable {g : Governor} {model model' : String} {time now : Nat} {overrideLimit : Option Nat}

theorem Blocked.apply (h : Blocked g model time) (event : Governor.Event)
    (hevent : ∀ overrideLimit now, event = .exhausted overrideLimit now → time ≤ now) :
    Blocked (g.apply model' event) model time := by
  obtain ⟨b, hb, hle⟩ := h
  unfold Blocked
  rw [Governor.get_apply]
  split
  · rename_i heq
    subst heq
    cases event with
    | admitAt overrideLimit now => exact ⟨b, ((Governor.ModelState.admitAt_frame _ _ _).2).trans hb, hle⟩
    | release => exact ⟨b, hb, hle⟩
    | exhausted overrideLimit now =>
      exact ⟨_, (Governor.ModelState.noteExhausted_frame _ _ _).2, Nat.add_le_add_right (hevent _ _ rfl) _⟩
  · exact ⟨b, hb, hle⟩

theorem Blocked.noteExhausted (g : Governor) (model : String) (overrideLimit : Option Nat) (now : Nat) :
    Blocked (g.noteExhaustedAt model overrideLimit now) model now := by
  unfold Blocked
  have hget := g.get_apply model (.exhausted overrideLimit now) model
  rw [if_pos rfl] at hget
  rw [show (g.noteExhaustedAt model overrideLimit now).get model = _ from hget]
  exact ⟨_, (Governor.ModelState.noteExhausted_frame _ _ _).2, le_rfl⟩

/-- An admission waits out the drain gap. -/
theorem Blocked.le_of_admitted (h : Blocked g model time) {g' : Governor}
    (hadmission : g.admitAt model overrideLimit now = (g', true)) : time + Governor.exhaustBackoff ≤ now := by
  obtain ⟨b, hb, hle⟩ := h
  have hok : ((g.get model).admitAt overrideLimit now).2 = true := by
    rw [← Governor.admitAt_snd, hadmission]
  exact hle.trans ((Governor.ModelState.admitAt_iff _ _ _).1 hok |>.1 b hb)

end

/-! ### Waiting requests -/

namespace Request

/-- The request waits for a permit or for a slot. -/
def waiting (r : Request) : Bool :=
  match r.phase with
  | .permit | .slot _ => true
  | .upstream _ | .relay | .done => false

/-- What the failure of a waiting request leaves behind: a cooldown of the newest pool, or a drain gap until the request
is admitted. -/
def HeldBack (s : State) (r : Request) : Prop :=
  match r.failure with
  | none => True
  | some (.cooled key till) => r.waiting = true → till ≤ s.clock ∨ Cooled s.pools.pool key till
  | some (.exhausted _ time) =>
    match r.phase with
    | .permit => r.gated = true ∧ time ≤ s.clock ∧ Blocked s.governor r.model time
    | .slot admitted => time + Governor.exhaustBackoff ≤ admitted
    | .upstream _ | .relay | .done => True

end Request

/-- The slot of the request comes from the newest pool. -/
def Request.onNewest (pools : PoolWindow.State) (r : Request) : Bool :=
  match r.phase with
  | .upstream slot => slot.gen = pools.newest
  | _ => true

/-- The save keeps the key whose cooldown the request waits out. -/
def Request.kept (sc : StoredConfig) (now : Nat) (r : Request) : Bool :=
  match r.failure with
  | some (.cooled key till) => !r.waiting || decide (till ≤ now) || decide (key ∈ sc.poolSpecs.map (·.key))
  | _ => true

/-- The step leaves retries backed off: a failure comes while the pool that granted the slot is the newest, exhaustion
to a gated request, and a save keeps the keys whose cooldowns requests wait out. -/
def Backs (s : State) : Op → Prop
  | .save sc now => ∀ r ∈ s.requests, r.kept sc now = true
  | .connectFailed n _ => ∀ r ∈ s.requests[n]?, r.onNewest s.pools = true
  | .answered n a now _ => ∀ r ∈ s.requests[n]?, Handle.retryable a.status = true → now < r.deadline →
    (if isWorkerExhausted a.detail then r.gated else r.onNewest s.pools) = true
  | _ => True

instance (s : State) : (op : Op) → Decidable (Backs s op)
  | .save sc now => inferInstanceAs (Decidable (∀ r ∈ s.requests, r.kept sc now = true))
  | .connectFailed n _ => inferInstanceAs (Decidable (∀ r ∈ s.requests[n]?, r.onNewest s.pools = true))
  | .answered n a now _ => inferInstanceAs (Decidable (∀ r ∈ s.requests[n]?, Handle.retryable a.status = true →
      now < r.deadline → (if isWorkerExhausted a.detail then r.gated else r.onNewest s.pools) = true))
  | .arrive _ _ | .heartbeat _ _ | .admitAt _ _ _ | .reserve _ _ _ | .leave _ | .fetch _ _ _ | .fetchFailed _ _ _ |
    .release _ => .isTrue trivial

structure Held (s : State) : Prop where
  good : Good s
  granted : ∀ r ∈ s.requests, ∀ slot, r.phase = .upstream slot → Granted s.pools slot
  waits : ∀ r ∈ s.requests, r.HeldBack s
  sent : ∀ e ∈ s.sent, e.BackedOff

/-- What a step leaves to the requests it is not about. -/
structure Around (s s' : State) : Prop where
  good : Good s'
  granted : ∀ slot, Granted s.pools slot → Granted s'.pools slot
  waits : ∀ r ∈ s.requests, r.HeldBack s → r.HeldBack s'

/-- The request is as the step left it. -/
structure Fresh (s : State) (r : Request) : Prop where
  granted : ∀ slot, r.phase = .upstream slot → Granted s.pools slot
  waits : r.HeldBack s

section
variable {s s' : State} {op : Op} {n now later : Nat} {r : Request}

theorem Held.start {sc : StoredConfig} (hvalid : sc.validate = .ok ()) (now : Nat) : Held (start sc now) where
  good := .start hvalid now
  granted := fun _ hr => absurd hr List.not_mem_nil
  waits := fun _ hr => absurd hr List.not_mem_nil
  sent := fun _ he => absurd he List.not_mem_nil

theorem Held.around (h : Held s) (ha : Around s s') (hrequests : ∀ r ∈ s'.requests, r ∈ s.requests ∨ Fresh s' r)
    (hsent : ∀ e ∈ s'.sent, e ∈ s.sent ∨ e.BackedOff) : Held s' where
  good := ha.good
  granted r hr slot hslot := by
    rcases hrequests r hr with hr | hr
    · exact ha.granted slot (h.granted r hr slot hslot)
    · exact hr.granted slot hslot
  waits r hr := by
    rcases hrequests r hr with hr | hr
    · exact ha.waits r hr (h.waits r hr)
    · exact hr.waits
  sent e he := by
    rcases hsent e he with he | he
    · exact h.sent e he
    · exact he

/-- All requests but one are as they were. -/
theorem Held.around_one {new : Request} (h : Held s) (ha : Around s s')
    (hrequests : ∀ r ∈ s'.requests, r ∈ s.requests ∨ r = new) (hnew : Fresh s' new)
    (hsent : ∀ e ∈ s'.sent, e ∈ s.sent ∨ e.BackedOff) : Held s' := by
  refine h.around ha (fun r hr => ?_) hsent
  rcases hrequests r hr with hr | rfl
  · exact .inl hr
  · exact .inr hnew

/-! ### The rest of the requests -/

theorem blocked_dropPermit {model : String} {time : Nat} (h : Blocked s.governor model time) (r : Request) :
    Blocked (s.dropPermit r).governor model time := by
  unfold State.dropPermit
  split
  · exact h.apply .release (fun _ _ h => by cases h)
  · exact h

/-- No step ends a drain gap. -/
theorem Acts.blocked (htimes : ∀ t ∈ op.times, s.clock ≤ t) (h : Acts s op s')
    {model : String} {time : Nat} (htime : time ≤ s.clock) (hb : Blocked s.governor model time) :
    Blocked s'.governor model time := by
  have hasked (r : Request) (now : Nat) : Blocked (s.governor.admitAt r.model r.pinned now).1 model time :=
    hb.apply (.admitAt r.pinned now) (fun _ _ h => by cases h)
  cases h with
  | pools | arrive | passed | sent | relayed => exact hb
  | @admitted n now later r governor hop hr hphase hadmission =>
    have hgovernor := hasked r now
    rwa [hadmission] at hgovernor
  | refused r now => exact hasked r now
  | @expired n r now =>
    refine blocked_dropPermit ?_ r
    exact hasked r now
  | finished r =>
    refine blocked_dropPermit ?_ r
    exact hb
  | resent r =>
    refine blocked_dropPermit ?_ _
    exact hb
  | cooled =>
    refine blocked_dropPermit ?_ _
    exact hb
  | @exhausted n now later a r slot hop =>
    refine blocked_dropPermit ?_ r
    refine hb.apply (.exhausted r.pinned later) fun _ _ h => ?_
    cases h
    exact htime.trans (htimes later (by simp [hop, Op.times]))

theorem Request.HeldBack.around (hclock : s.clock ≤ s'.clock)
    (hcooled : ∀ key till, r.waiting = true → r.failure = some (.cooled key till) → Cooled s.pools.pool key till →
      till ≤ s'.clock ∨ Cooled s'.pools.pool key till)
    (hblocked : ∀ model time, time ≤ s.clock → Blocked s.governor model time → Blocked s'.governor model time)
    (h : r.HeldBack s) : r.HeldBack s' := by
  unfold Request.HeldBack at h ⊢
  split
  · trivial
  · rename_i key till hfailure
    rw [hfailure] at h
    intro hwaiting
    rcases h hwaiting with hle | hcool
    · exact .inl (hle.trans hclock)
    · exact hcooled key till hwaiting hfailure hcool
  · rename_i key time hfailure
    rw [hfailure] at h
    dsimp only at h ⊢
    split
    · rename_i hphase
      rw [hphase] at h
      exact ⟨h.1, h.2.1.trans hclock, hblocked _ _ h.2.1 h.2.2⟩
    · rename_i hphase
      rwa [hphase] at h
    all_goals trivial

theorem around_step (h : Held s) (hb : Backs s op) (hs : step unbounded s op = some s') : Around s s' := by
  have hle := step_clock hs
  have hgood := h.good.step hs
  obtain ⟨htimes, s₁, hact, rfl⟩ := step_eq_some hs
  obtain ⟨hlate, -⟩ := List.pairwise_cons.1 htimes
  have hacts := act_cases h.good.clock hlate hact
  have hpools := hacts.poolsStep h.good.clock hlate
  refine ⟨hgood, fun slot hslot => ?_, fun r hr => ?_⟩
  · cases hpools with
    | same heq => exact heq ▸ hslot
    | save hop hvalid hstep => exact hslot.step hstep
    | pool pop hop htaken hstep => exact hslot.step hstep
  · refine Request.HeldBack.around (hle _ List.mem_cons_self) (fun key till hwaiting hfailure hcool => ?_)
      fun model time htime => hacts.blocked hlate htime
    cases hpools with
    | same heq => exact .inr (heq ▸ hcool)
    | @save sc now hop hvalid hstep =>
      subst hop
      rcases Nat.lt_or_ge now till with hlt | hge
      · refine .inr ?_
        have hkey := hb r hr
        rw [Request.kept, hfailure, hwaiting] at hkey
        have hkey : key ∈ sc.poolSpecs.map (·.key) := by simpa [Nat.not_le.2 hlt] using hkey
        simp only [PoolWindow.step] at hstep
        split at hstep
        · rw [← Option.some.inj hstep]
          exact hcool.rebuild hkey now
        · cases hstep
      · exact .inl (hge.trans (hle now (by simp [Op.times])))
    | pool pop hop htaken hstep => exact .inr (hcool.keeps (keeps_of_step hstep hop))

/-! ### The request of a step -/

@[simp] theorem dropPermit_requests (s : State) (r : Request) : (s.dropPermit r).requests = s.requests := by
  unfold State.dropPermit
  split <;> rfl

@[simp] theorem finish_sent (s : State) (n : Nat) (r : Request) : (s.finish n r).sent = s.sent := by
  unfold State.finish State.dropPermit
  split <;> rfl

@[simp] theorem retry_sent (s : State) (n : Nat) (r : Request) (failure : Option Failure) :
    (s.retry n r failure).sent = s.sent :=
  finish_sent s n r

theorem mem_finish {r' : Request} (h : r' ∈ (s.finish n r).requests) :
    r' ∈ s.requests ∨ r' = { r with phase := .done } := by
  have h : r' ∈ (s.dropPermit r).requests.set n { r with phase := .done } := h
  rw [dropPermit_requests] at h
  exact List.mem_or_eq_of_mem_set h

theorem mem_retry {failure : Option Failure} {r' : Request} (h : r' ∈ (s.retry n r failure).requests) :
    r' ∈ s.requests ∨ r' = { r with phase := .permit, failure := failure } := by
  have h : r' ∈ (s.dropPermit r).requests.set n { r with phase := .permit, failure := failure } := h
  rw [dropPermit_requests] at h
  exact List.mem_or_eq_of_mem_set h

/-- A request that no longer waits is not held back. -/
theorem Fresh.of_not_waiting (hwaiting : r.waiting = false) (hslot : ∀ slot, r.phase = .upstream slot → Granted s.pools slot) :
    Fresh s r := by
  refine ⟨hslot, ?_⟩
  unfold Request.HeldBack
  unfold Request.waiting at hwaiting
  split
  · trivial
  · intro hw
    rw [Request.waiting, hwaiting] at hw
    cases hw
  · split
    · rename_i hphase
      rw [hphase] at hwaiting
      cases hwaiting
    · rename_i hphase
      rw [hphase] at hwaiting
      cases hwaiting
    all_goals trivial

/-- A request that is admitted, no sooner than the drain gap lets it. -/
theorem Fresh.of_admitted (h : r.HeldBack s) (hphase : r.phase = .permit)
    (hgap : ∀ key time, r.failure = some (.exhausted key time) → time + Governor.exhaustBackoff ≤ now) :
    Fresh s { r with phase := .slot now } := by
  refine ⟨fun slot hslot => (by cases hslot), ?_⟩
  unfold Request.HeldBack at h ⊢
  split
  · trivial
  · rename_i key till hfailure
    rw [show r.failure = some (.cooled key till) from hfailure] at h
    exact fun _ => h (by rw [Request.waiting, hphase])
  · rename_i key time hfailure
    exact hgap key time hfailure

/-- A request that gets a slot is no longer held back. -/
theorem Request.HeldBack.backedOff {admitted lane stamp : Nat} {key : String} {sticky : Bool} {p : Pool}
    (h : r.HeldBack s) (hphase : r.phase = .slot admitted) (hnow : s.clock ≤ now)
    (hready : s.pools.pool.reserveFiltered r.prefer (some r.allowed) now = (.ready lane key stamp sticky, p)) :
    Sent.BackedOff ⟨key, now, admitted, r.failure⟩ := by
  unfold Request.HeldBack at h
  unfold Sent.BackedOff
  dsimp only
  split
  · trivial
  · rename_i key' till hfailure
    rw [hfailure] at h
    rintro rfl
    rcases h (by rw [Request.waiting, hphase]) with hle | hcool
    · exact hle.trans hnow
    · exact hcool.le_of_ready hready
  · rename_i key' time hfailure
    rw [hfailure, hphase] at h
    exact fun _ => h

theorem held_step (h : Held s) (hb : Backs s op) (hs : step unbounded s op = some s') : Held s' := by
  have ha := around_step h hb hs
  have hle := step_clock hs
  obtain ⟨htimes, s₁, hact, rfl⟩ := step_eq_some hs
  obtain ⟨hlate, -⟩ := List.pairwise_cons.1 htimes
  cases act_cases h.good.clock hlate hact with
  | pools | refused => exact h.around ha (fun _ hr => .inl hr) fun _ he => .inl he
  | arrive hphase hfailure =>
    refine h.around_one ha (fun _ hr' => (List.mem_append.1 hr').imp_right List.mem_singleton.1) ?_ fun _ he => .inl he
    refine ⟨fun slot hslot => ?_, ?_⟩
    · rw [hphase] at hslot
      cases hslot
    · unfold Request.HeldBack
      rw [hfailure]
      trivial
  | @passed n now later r hop hr hphase hgated =>
    have hheld := h.waits r (List.mem_of_getElem? hr)
    have hpassed := ha.waits r (List.mem_of_getElem? hr) hheld
    refine h.around_one ha (fun _ => List.mem_or_eq_of_mem_set) ?_ fun _ he => .inl he
    refine .of_admitted hpassed hphase fun key time hfailure => ?_
    unfold Request.HeldBack at hheld
    rw [hfailure, hphase] at hheld
    rw [hgated] at hheld
    cases hheld.1
  | @admitted n now later r governor hop hr hphase hadmission =>
    have hheld := h.waits r (List.mem_of_getElem? hr)
    have hadmitted := ha.waits r (List.mem_of_getElem? hr) hheld
    refine h.around_one ha (fun _ => List.mem_or_eq_of_mem_set) ?_ fun _ he => .inl he
    refine .of_admitted hadmitted hphase fun key time hfailure => ?_
    unfold Request.HeldBack at hheld
    rw [hfailure, hphase] at hheld
    exact hheld.2.2.le_of_admitted hadmission
  | expired r | finished r =>
    refine h.around_one ha (fun _ => mem_finish) ?_ fun _ he => .inl (by simpa using he)
    exact .of_not_waiting rfl fun slot hslot => by cases hslot
  | @sent n now later admitted lane stamp r key sticky p slot hop hr hphase hready hslot =>
    obtain ⟨fields, -, rfl⟩ := Option.map_eq_some_iff.1 hslot
    have hnow : s.clock ≤ now := hlate now (by simp [hop, Op.times])
    have htaken : (taken s.pools r.prefer r.allowed now).grants =
        s.pools.grants ++ [⟨s.pools.newest, lane, key, stamp, false, false⟩] := by
      rw [taken, hready, reserved]
    refine h.around_one ha (fun _ => List.mem_or_eq_of_mem_set) ?_ fun e he => ?_
    · refine .of_not_waiting rfl fun slot' hslot' => ?_
      obtain rfl := Phase.upstream.inj hslot'
      refine ⟨⟨s.pools.newest, lane, key, stamp, false, false⟩, ?_, rfl, rfl, rfl⟩
      show _ ∈ (taken s.pools r.prefer r.allowed now).grants
      rw [htaken]
      exact List.mem_append_right _ List.mem_cons_self
    · rcases List.mem_append.1 he with he | he
      · exact .inl he
      · obtain rfl := List.mem_singleton.1 he
        exact .inr ((h.waits r (List.mem_of_getElem? hr)).backedOff hphase hnow hready)
  | resent r =>
    refine h.around_one ha (fun _ => mem_retry) ?_ fun _ he => .inl (by simpa using he)
    exact ⟨fun slot hslot => (by cases hslot), trivial⟩
  | @exhausted n now later a r slot hop hr hphase hretry htime hdetail =>
    subst hop
    have hgated := hb r hr hretry htime
    rw [if_pos hdetail] at hgated
    refine h.around_one ha (fun _ => mem_retry) ?_ fun _ he => .inl (by simpa using he)
    refine ⟨fun slot hslot => (by cases hslot), hgated, ?_, ?_⟩
    · exact hle later (by simp [Op.times])
    · refine blocked_dropPermit ?_ r
      exact .noteExhausted s.governor r.model r.pinned later
  | @cooled n now backoff r slot hr hphase hcooling =>
    have hnewest : r.onNewest s.pools = true := by
      cases hcooling with
      | connect => exact hb r hr
      | answer hretry htime hdetail =>
        have hslot := hb r hr hretry htime
        rwa [hdetail] at hslot
    have hgen : slot.gen = s.pools.newest := by simpa [Request.onNewest, hphase] using hnewest
    have hcooled := Cooled.cooled h.good.pools (h.granted r (List.mem_of_getElem? hr) slot hphase) hgen backoff now
    refine h.around_one ha (fun _ => mem_retry) ?_ fun _ he => .inl (by simpa using he)
    refine ⟨fun slot hslot => (by cases hslot), fun _ => .inr ?_⟩
    dsimp only
    rwa [retry_pools]
  | relayed r =>
    refine h.around_one ha (fun _ => List.mem_or_eq_of_mem_set) ?_ fun e he => .inl he
    exact .of_not_waiting rfl fun slot hslot => by cases hslot

end

/-- In a run whose failures come on the newest pool, and where exhausted requests are gated and keys are kept, every
retry is backed off. -/
theorem retries_backedOff {sc : StoredConfig} {now₀ : Nat} {ops : List Op} {s : State} (hvalid : sc.validate = .ok ())
    (hb : Meets (step unbounded) Backs (start sc now₀) ops) (hs : exec (step unbounded) (start sc now₀) ops = some s) :
    ∀ e ∈ s.sent, e.BackedOff :=
  (exec_invariant_of_meets (fun _ _ _ => held_step) (Held.start hvalid now₀) hb hs).sent

/-- A request that fails, and is sent again at `again`. -/
def failingRun (failure : Op) (again : Nat) : List Op :=
  [.arrive ⟨"m", "/v1/chat/completions", false, none, [0], false⟩ 0, .admitAt 0 0 0, .reserve 0 0 0, failure,
    .admitAt 0 again again, .reserve 0 again again]

/-- Without `Retry-After` the key rests for ten seconds. -/
theorem retries_backedOff_tenSeconds : ∃ s, exec (step unbounded) (start oneKey 0)
      (failingRun (.answered 0 ⟨429, none, ""⟩ 0 0) (ofSecs 10)) = some s ∧
    s.sent = [⟨"k0", 0, 0, none⟩, ⟨"k0", ofSecs 10, ofSecs 10, some (.cooled "k0" (ofSecs 10))⟩] ∧
    ∀ e ∈ s.sent, e.BackedOff := by
  have hrun : ((exec (step unbounded) (start oneKey 0) (failingRun (.answered 0 ⟨429, none, ""⟩ 0 0) (ofSecs 10))).any
      fun s => s.sent == [⟨"k0", 0, 0, none⟩, ⟨"k0", ofSecs 10, ofSecs 10, some (.cooled "k0" (ofSecs 10))⟩]) = true := by
    decide +kernel
  obtain ⟨s, hs, hsent⟩ := (Option.any_eq_true ..).1 hrun
  have hb : Meets (step unbounded) Backs (start oneKey 0) (failingRun (.answered 0 ⟨429, none, ""⟩ 0 0) (ofSecs 10)) := by
    decide +kernel
  exact ⟨s, hs, beq_iff_eq.1 hsent, retries_backedOff validate_oneKey hb hs⟩

/-- Exhausted workers hold back nobody where the governor is off. -/
example : (exec (step unbounded) (start { oneKey with governor := { enabled := false } } 0)
      (failingRun (.answered 0 ⟨503, none, "Worker local total request limit"⟩ 0 0) 0)).any
    (fun s => s.sent == [⟨"k0", 0, 0, none⟩, ⟨"k0", 0, 0, some (.exhausted "k0" 0)⟩]) = true := by
  decide +kernel

/-- The connection fails after a save: the cooldown is on the pool before it. -/
def savedRun : List Op :=
  [.arrive ⟨"m", "/v1/chat/completions", false, none, [0], false⟩ 0, .admitAt 0 0 0, .reserve 0 0 0, .save oneKey 0,
    .connectFailed 0 0, .admitAt 0 0 0, .reserve 0 0 0]

theorem not_retries_backedOff_saved : ¬ ∀ (sc : StoredConfig) (now₀ : Nat) (ops : List Op) (s : State),
    sc.validate = .ok () → exec (step unbounded) (start sc now₀) ops = some s → ∀ e ∈ s.sent, e.BackedOff := by
  intro h
  have hrun : ((exec (step unbounded) (start oneKey 0) savedRun).any fun s =>
      s.sent == [⟨"k0", 0, 0, none⟩, ⟨"k0", 0, 0, some (.cooled "k0" (ofSecs 5))⟩]) = true := by
    decide +kernel
  obtain ⟨s, hs, hsent⟩ := (Option.any_eq_true ..).1 hrun
  have hbacked := h oneKey 0 savedRun s validate_oneKey hs ⟨"k0", 0, 0, some (.cooled "k0" (ofSecs 5))⟩
    (by rw [beq_iff_eq.1 hsent]; exact List.mem_cons_of_mem _ List.mem_cons_self)
  exact absurd (hbacked rfl) (by decide)

end OpenProxy.Exchange
