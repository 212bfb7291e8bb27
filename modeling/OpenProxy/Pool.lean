import Mathlib

/-!
# The key pool (`pool.rs`)

One lane per API key, each with an exact sliding-window limiter. A pool is immutable once built: a
settings change assembles a replacement that carries the stamps and the cooldown of every kept key.
Enabled lanes come first (`0 ≤ i < active`, the only ones ever granted); disabled keys follow as state
carriers.

A pool operation of the source mutates lanes behind their mutexes; here it returns the pool it leaves
behind. `Ages now p p'` says what every operation at `now` may do to the lanes it does not grant:
evict stamps that left the window, nothing else.
-/

namespace OpenProxy

/-- A duration in nanoseconds. Instants are nanoseconds on the monotonic clock. -/
def ofSecs (s : Nat) : Nat := s * 1000000000

/-- The rolling window: 60 s and one second of delivery-jitter margin. -/
def window : Nat := ofSecs 61

/-- A lane blueprint. `endpoint` is the position of the key's group, `upstream` the group's name. -/
structure LaneSpec where
  key : String
  rpm : Nat
  enabled : Bool
  endpoint : Nat
  baseUrl : String
  upstream : String
  supportsStreamOptions : Bool
  deriving DecidableEq, Repr

structure Lane where
  key : String
  rpm : Nat
  endpoint : Nat
  baseUrl : String
  upstream : String
  supportsStreamOptions : Bool
  /-- Stamps of the requests sent within the window, oldest first. -/
  sent : List Nat
  cooldownUntil : Nat
  deriving DecidableEq, Repr

structure Pool where
  lanes : List Lane
  active : Nat
  active_le : active ≤ lanes.length

inductive Reservation where
  | ready (lane : Nat) (key : String) (stamp : Nat) (sticky : Bool)
  | wait (d : Nat)
  deriving DecidableEq, Repr

/-- `while sent.front().is_some_and(|t| now - *t >= WINDOW) { pop_front }`. -/
def evict (now : Nat) (sent : List Nat) : List Nat :=
  sent.dropWhile fun t => decide (window ≤ now - t)

/-- Whether a lane on `endpoint` is visible through the filter (`none` = every group). -/
def allows (allowed : Option (List Nat)) (endpoint : Nat) : Bool :=
  match allowed with
  | none => true
  | some set => set.contains endpoint

namespace Pool

/-! ### Building a pool -/

/-- The lane for `s`, with the window and cooldown of the old pool's lane for the same key. -/
def laneOf (old : Option Pool) (now : Nat) (s : LaneSpec) : Lane :=
  match old.bind fun o => o.lanes.find? fun l => l.key == s.key with
  | some prev => ⟨s.key, s.rpm, s.endpoint, s.baseUrl, s.upstream, s.supportsStreamOptions,
      prev.sent, prev.cooldownUntil⟩
  | none => ⟨s.key, s.rpm, s.endpoint, s.baseUrl, s.upstream, s.supportsStreamOptions, [], now⟩

/-- `specs.sort_by_key(|s| !s.enabled)`: a stable sort, enabled specs first. -/
def enabledFirst (specs : List LaneSpec) : List LaneSpec :=
  specs.insertionSort fun a b => (!a.enabled) ≤ (!b.enabled)

def assemble (specs : List LaneSpec) (old : Option Pool) (now : Nat) : Pool where
  lanes := (enabledFirst specs).map (laneOf old now)
  active := (enabledFirst specs).countP (·.enabled)
  active_le := by rw [List.length_map]; exact List.countP_le_length

def new (specs : List LaneSpec) (now : Nat) : Pool := assemble specs none now

def rebuild (p : Pool) (specs : List LaneSpec) (now : Nat) : Pool := assemble specs (some p) now

/-! ### Operations -/

def setSent (p : Pool) (i : Nat) (sent : List Nat) : Pool where
  lanes := p.lanes.modify i fun l => { l with sent := sent }
  active := p.active
  active_le := by rw [List.length_modify]; exact p.active_le

/-- Enabled lanes only: carriers are invisible. -/
def len (p : Pool) : Nat := p.active

def capacityRpm (p : Pool) : Nat := ((p.lanes.take p.active).map (·.rpm)).sum

def rpms (p : Pool) : List Nat := (p.lanes.take p.active).map (·.rpm)

/-- Take a slot on lane `i` if it has capacity right now. -/
def tryTake (p : Pool) (i : Nat) (now : Nat) (sticky : Bool) : Option Reservation × Pool :=
  match p.lanes[i]? with
  | none => (none, p)
  | some lane =>
    if now < lane.cooldownUntil then (none, p)
    else
      let sent := evict now lane.sent
      if sent.length < lane.rpm then
        (some (.ready i lane.key now sticky), p.setSent i (sent ++ [now]))
      else (none, p.setSent i sent)

/-- The accumulators of the scan over the active lanes. -/
structure Scan where
  pool : Pool
  /-- (in-window load, lane) -/
  ready : List (Nat × Nat)
  bestWait : Nat
  any : Bool

/-- When the lane's window opens, given its evicted stamps. -/
def windowReady (now : Nat) (rpm : Nat) (sent : List Nat) : Nat :=
  if sent.length < rpm then now
  else if rpm = 0 then now + window
  else sent.getD (sent.length - rpm) 0 + window

/-- One turn of the scan loop. -/
def Scan.visit (allowed : Option (List Nat)) (now : Nat) (sc : Scan) (i : Nat) : Scan :=
  match sc.pool.lanes[i]? with
  | none => sc
  | some lane =>
    if allows allowed lane.endpoint then
      let sent := evict now lane.sent
      let readyAt := max (windowReady now lane.rpm sent) lane.cooldownUntil
      if readyAt ≤ now then
        ⟨sc.pool.setSent i sent, sc.ready ++ [(sent.length, i)], sc.bestWait, true⟩
      else ⟨sc.pool.setSent i sent, sc.ready, min sc.bestWait (readyAt - now), true⟩
    else sc

def scan (p : Pool) (allowed : Option (List Nat)) (now : Nat) : Scan :=
  (List.range p.active).foldl (Scan.visit allowed now) ⟨p, [], window, false⟩

/-- The order of `ready.sort_unstable()` on (load, lane) pairs. -/
def LoadLe (a b : Nat × Nat) : Prop := a.1 < b.1 ∨ a.1 = b.1 ∧ a.2 ≤ b.2

instance : DecidableRel LoadLe := fun a b => inferInstanceAs (Decidable (a.1 < b.1 ∨ a.1 = b.1 ∧ a.2 ≤ b.2))

/-- The first lane of the list that grants. -/
def takeFirst (now : Nat) : List (Nat × Nat) → Pool → Option Reservation × Pool
  | [], p => (none, p)
  | (_, i) :: rest, p =>
    match p.tryTake i now false with
    | (some r, p') => (some r, p')
    | (none, p') => takeFirst now rest p'

/-- Reserve a slot: the preferred lane while it has capacity, else the least-loaded ready lane whose
endpoint is allowed, else the soonest wake-up. -/
def reserveFiltered (p : Pool) (prefer : Option Nat) (allowed : Option (List Nat)) (now : Nat) :
    Reservation × Pool :=
  let usable := prefer.filter fun i =>
    decide (i < p.active) && (p.lanes[i]?.any fun l => allows allowed l.endpoint)
  match usable.elim (none, p) (p.tryTake · now true) with
  | (some r, p') => (r, p')
  | (none, p') =>
    let sc := p'.scan allowed now
    match takeFirst now (sc.ready.insertionSort LoadLe) sc.pool with
    | (some r, p'') => (r, p'')
    | (none, p'') => (.wait (if sc.any then sc.bestWait else window), p'')

/-- Return a reserved slot that was never spent: drop the last stamp equal to `stamp`. -/
def release (p : Pool) (i : Nat) (stamp : Nat) : Pool :=
  match p.lanes[i]? with
  | none => p
  | some lane => p.setSent i (lane.sent.reverse.erase stamp).reverse

/-- Put a lane in cooldown; an earlier, longer cooldown stays. -/
def penalize (p : Pool) (i : Nat) (backoff : Nat) (now : Nat) : Pool where
  lanes := p.lanes.modify i fun l => { l with cooldownUntil := max l.cooldownUntil (now + backoff) }
  active := p.active
  active_le := by rw [List.length_modify]; exact p.active_le

/-! ### Stamps and eviction -/

/-- A stamp still inside the window at `now`. -/
def inWindow (now t : Nat) : Bool := decide (now < t + window)

theorem inWindow_of_le {now now' t : Nat} (h : now ≤ now') (ht : inWindow now' t) : inWindow now t := by
  simp only [inWindow, decide_eq_true_eq] at ht ⊢
  omega

theorem evict_evict (now : Nat) (sent : List Nat) : evict now (evict now sent) = evict now sent := by
  induction sent with
  | nil => rfl
  | cons t sent ih => by_cases h : window ≤ now - t <;> simp_all [evict]

theorem inWindow_eq (now t : Nat) : inWindow now t = !decide (window ≤ now - t) := by
  have : 0 < window := by decide
  rw [inWindow, ← decide_not, decide_eq_decide]
  omega

/-- Eviction drops no stamp that is still inside the window. -/
theorem filter_evict (now : Nat) (sent : List Nat) :
    (evict now sent).filter (inWindow now) = sent.filter (inWindow now) := by
  induction sent with
  | nil => rfl
  | cons t sent ih =>
    by_cases h : window ≤ now - t
    · have hw : inWindow now t = false := by simp [inWindow_eq, h]
      simpa [evict, h, hw] using ih
    · simp [evict, h]

theorem mem_of_mem_evict {now t : Nat} {sent : List Nat} (h : t ∈ evict now sent) : t ∈ sent :=
  (List.dropWhile_sublist _).subset h

/-- On sorted stamps eviction keeps exactly those inside the window. -/
theorem evict_eq_filter {now : Nat} {sent : List Nat} (h : sent.Pairwise (· ≤ ·)) :
    evict now sent = sent.filter (inWindow now) := by
  induction sent with
  | nil => rfl
  | cons t sent ih =>
    obtain ⟨ht, hs⟩ := List.pairwise_cons.1 h
    by_cases hw : window ≤ now - t
    · have hf : inWindow now t = false := by simp [inWindow_eq, hw]
      simpa [evict, hw, hf] using ih hs
    · have hall : ∀ u ∈ t :: sent, inWindow now u = true := by
        intro u hu
        have htu : t ≤ u := by
          rcases List.mem_cons.1 hu with rfl | hu
          · exact Nat.le_refl _
          · exact ht u hu
        rw [inWindow_eq]
        simp only [Bool.not_eq_true', decide_eq_false_iff_not]
        omega
      rw [List.filter_eq_self.2 hall]
      simp [evict, hw]

/-! ### What an operation may do to the other lanes -/

/-- `l'` is `l`, possibly with the stamps that left the window at `now` evicted. -/
def LaneAges (now : Nat) (l l' : Lane) : Prop :=
  l' = l ∨ l' = { l with sent := evict now l.sent }

theorem LaneAges.refl {now : Nat} (l : Lane) : LaneAges now l l := .inl rfl

theorem LaneAges.trans {now : Nat} {l₁ l₂ l₃ : Lane} (h₁ : LaneAges now l₁ l₂)
    (h₂ : LaneAges now l₂ l₃) : LaneAges now l₁ l₃ := by
  rcases h₁ with rfl | rfl <;> rcases h₂ with rfl | rfl
  · exact .inl rfl
  · exact .inr rfl
  · exact .inr rfl
  · exact .inr (by simp only [evict_evict])

theorem LaneAges.key_eq {now : Nat} {l l' : Lane} (h : LaneAges now l l') : l'.key = l.key := by
  rcases h with rfl | rfl <;> rfl

theorem LaneAges.endpoint_eq {now : Nat} {l l' : Lane} (h : LaneAges now l l') : l'.endpoint = l.endpoint := by
  rcases h with rfl | rfl <;> rfl

/-- Every lane of `p'` is the lane of `p` at its place, aged at `now`. -/
structure Ages (now : Nat) (p p' : Pool) : Prop where
  active_eq : p'.active = p.active
  length_eq : p'.lanes.length = p.lanes.length
  lane : ∀ {i : Nat} {l : Lane}, p.lanes[i]? = some l → ∃ l', p'.lanes[i]? = some l' ∧ LaneAges now l l'

namespace Ages
variable {now : Nat} {p p₁ p₂ : Pool}

theorem refl (p : Pool) : Ages now p p := ⟨rfl, rfl, fun h => ⟨_, h, .refl _⟩⟩

theorem trans (h₁ : Ages now p p₁) (h₂ : Ages now p₁ p₂) : Ages now p p₂ := by
  refine ⟨h₂.active_eq.trans h₁.active_eq, h₂.length_eq.trans h₁.length_eq, fun hl => ?_⟩
  obtain ⟨l₁, hl₁, ha₁⟩ := h₁.lane hl
  obtain ⟨l₂, hl₂, ha₂⟩ := h₂.lane hl₁
  exact ⟨l₂, hl₂, ha₁.trans ha₂⟩

theorem lane_of (h : Ages now p p₁) {i : Nat} {l' : Lane} (hl' : p₁.lanes[i]? = some l') :
    ∃ l, p.lanes[i]? = some l ∧ LaneAges now l l' := by
  have hi : i < p.lanes.length := by
    rw [← h.length_eq]; exact (List.getElem?_eq_some_iff.1 hl').1
  obtain ⟨l'', hl'', ha⟩ := h.lane (List.getElem?_eq_getElem hi)
  obtain rfl : l' = l'' := Option.some.inj (hl'.symm.trans hl'')
  exact ⟨_, List.getElem?_eq_getElem hi, ha⟩

end Ages

theorem getElem?_setSent (p : Pool) (i j : Nat) (sent : List Nat) :
    (p.setSent i sent).lanes[j]? =
      (p.lanes[j]?).map fun l => if i = j then { l with sent := sent } else l := by
  simp only [setSent, List.getElem?_modify]
  split <;> simp

theorem getElem?_release (p : Pool) (i j stamp : Nat) :
    (p.release i stamp).lanes[j]? =
      (p.lanes[j]?).map fun l =>
        if i = j then { l with sent := (l.sent.reverse.erase stamp).reverse } else l := by
  unfold release
  cases hi : p.lanes[i]? with
  | none =>
    by_cases hij : i = j
    · subst hij; simp [hi]
    · simp [hij]
  | some lane =>
    dsimp only
    rw [getElem?_setSent]
    by_cases hij : i = j
    · subst hij; simp [hi]
    · simp [hij]

theorem Ages.setSent_evict {now : Nat} {p : Pool} {i : Nat} {l : Lane} (h : p.lanes[i]? = some l) :
    Ages now p (p.setSent i (evict now l.sent)) := by
  refine ⟨rfl, List.length_modify .., fun {j l'} hl' => ?_⟩
  by_cases hij : i = j
  · subst hij
    obtain rfl : l = l' := by rw [h] at hl'; exact Option.some.inj hl'
    exact ⟨_, by rw [getElem?_setSent, h]; simp, .inr rfl⟩
  · exact ⟨l', by rw [getElem?_setSent, hl']; simp [hij], .refl _⟩

/-! ### Spec lemmas -/

/-- What a grant on lane `i` at `now` says: the lane is active, visible, out of cooldown and below its
budget; its stamps are aged and `now` is appended, every other lane is aged. -/
structure Takes (allowed : Option (List Nat)) (now : Nat) (p : Pool) (i : Nat) (key : String)
    (p' : Pool) : Prop where
  active : i < p.active
  lane : ∃ l, p.lanes[i]? = some l ∧ l.key = key ∧ allows allowed l.endpoint = true ∧
    l.cooldownUntil ≤ now ∧ (evict now l.sent).length < l.rpm ∧
    ∃ q, Ages now p q ∧ p' = q.setSent i (evict now l.sent ++ [now])

theorem tryTake_none {p p' : Pool} {i now : Nat} {sticky : Bool}
    (h : p.tryTake i now sticky = (none, p')) : Ages now p p' := by
  unfold tryTake at h
  split at h
  · cases h; exact .refl p
  · rename_i l hl
    dsimp only at h
    split at h
    · cases h; exact .refl p
    · split at h
      · cases h
      · cases h; exact .setSent_evict hl

theorem tryTake_some {p p' : Pool} {i now : Nat} {sticky : Bool} {r : Reservation}
    (h : p.tryTake i now sticky = (some r, p')) :
    ∃ l, p.lanes[i]? = some l ∧ r = .ready i l.key now sticky ∧ l.cooldownUntil ≤ now ∧
      (evict now l.sent).length < l.rpm ∧ p' = p.setSent i (evict now l.sent ++ [now]) := by
  unfold tryTake at h
  split at h
  · cases h
  · rename_i l hl
    dsimp only at h
    split at h
    · cases h
    · rename_i hcd
      split at h
      · rename_i hload
        cases h
        exact ⟨l, hl, rfl, Nat.le_of_not_lt hcd, hload, rfl⟩
      · cases h

/-- A lane that grants after `p` aged into `q` grants from `p`. -/
theorem Takes.of_tryTake {allowed : Option (List Nat)} {p q p' : Pool} {i now : Nat} {sticky : Bool}
    {r : Reservation} (hq : Ages now p q) (hi : i < p.active)
    (hok : ∀ l, q.lanes[i]? = some l → allows allowed l.endpoint = true)
    (h : q.tryTake i now sticky = (some r, p')) :
    ∃ key, r = .ready i key now sticky ∧ Takes allowed now p i key p' := by
  obtain ⟨l', hl', rfl, hcd, hload, rfl⟩ := tryTake_some h
  obtain ⟨l, hl⟩ : ∃ l, p.lanes[i]? = some l :=
    ⟨_, List.getElem?_eq_getElem (Nat.lt_of_lt_of_le hi p.active_le)⟩
  obtain ⟨l'', hl'', ha⟩ := hq.lane hl
  obtain rfl : l' = l'' := Option.some.inj (hl'.symm.trans hl'')
  have hallow := hok l' hl'
  refine ⟨l'.key, rfl, hi, l, hl, ?_⟩
  rcases ha with rfl | rfl
  · exact ⟨rfl, hallow, hcd, hload, q, hq, rfl⟩
  · simp only [evict_evict] at hload ⊢
    exact ⟨trivial, hallow, hcd, hload, q, hq, rfl⟩

theorem takeFirst_none {now : Nat} {ready : List (Nat × Nat)} {p p' : Pool}
    (h : takeFirst now ready p = (none, p')) : Ages now p p' := by
  induction ready generalizing p with
  | nil => cases h; exact .refl _
  | cons a rest ih =>
    obtain ⟨load, i⟩ := a
    unfold takeFirst at h
    split at h
    · cases h
    · rename_i q hq
      exact (tryTake_none hq).trans (ih h)

theorem takeFirst_some {now : Nat} {ready : List (Nat × Nat)} {p p' : Pool} {r : Reservation}
    (h : takeFirst now ready p = (some r, p')) :
    ∃ a ∈ ready, ∃ q, Ages now p q ∧ q.tryTake a.2 now false = (some r, p') := by
  induction ready generalizing p with
  | nil => cases h
  | cons a rest ih =>
    obtain ⟨load, i⟩ := a
    unfold takeFirst at h
    split at h
    · rename_i r' q hq
      cases h
      exact ⟨_, List.mem_cons_self, p, .refl p, hq⟩
    · rename_i q hq
      obtain ⟨b, hb, q', hq', ht⟩ := ih h
      exact ⟨b, List.mem_cons_of_mem _ hb, q', (tryTake_none hq).trans hq', ht⟩

/-- The scan ages the pool, and queues as ready only visible lanes below the scanned bound. -/
structure ScanInv (allowed : Option (List Nat)) (now : Nat) (p : Pool) (n : Nat) (sc : Scan) : Prop where
  ages : Ages now p sc.pool
  ready : ∀ a ∈ sc.ready, a.2 < n ∧ ∃ l, p.lanes[a.2]? = some l ∧ allows allowed l.endpoint = true

theorem ScanInv.visit {allowed : Option (List Nat)} {now : Nat} {p : Pool} {n : Nat} {sc : Scan}
    (h : ScanInv allowed now p n sc) : ScanInv allowed now p (n + 1) (sc.visit allowed now n) := by
  have hmono : ∀ a ∈ sc.ready,
      a.2 < n + 1 ∧ ∃ l, p.lanes[a.2]? = some l ∧ allows allowed l.endpoint = true :=
    fun a ha => ⟨Nat.lt_succ_of_lt (h.ready a ha).1, (h.ready a ha).2⟩
  unfold Scan.visit
  split
  · exact ⟨h.ages, hmono⟩
  · rename_i l hl
    split
    · rename_i hok
      have hages : Ages now p (sc.pool.setSent n (evict now l.sent)) := h.ages.trans (.setSent_evict hl)
      dsimp only
      split
      · refine ⟨hages, fun a ha => ?_⟩
        rcases List.mem_append.1 ha with ha | ha
        · exact hmono a ha
        · obtain rfl := List.mem_singleton.1 ha
          obtain ⟨l', hl', ha'⟩ := h.ages.lane_of hl
          exact ⟨Nat.lt_succ_self n, l', hl', ha'.endpoint_eq ▸ hok⟩
      · exact ⟨hages, hmono⟩
    · exact ⟨h.ages, hmono⟩

theorem scanRange_inv (p : Pool) (allowed : Option (List Nat)) (now n : Nat) :
    ScanInv allowed now p n ((List.range n).foldl (Scan.visit allowed now) ⟨p, [], window, false⟩) := by
  induction n with
  | zero => exact ⟨.refl p, fun a ha => by simp at ha⟩
  | succ n ih =>
    rw [List.range_succ, List.foldl_append]
    exact ih.visit

theorem scan_inv (p : Pool) (allowed : Option (List Nat)) (now : Nat) :
    ScanInv allowed now p p.active (p.scan allowed now) := scanRange_inv p allowed now p.active

/-- The ways a reserve ends: the preferred lane grants, or the first lane of a scan that can, or none. -/
theorem reserveFiltered_cases {p p' : Pool} {prefer : Option Nat} {allowed : Option (List Nat)} {now : Nat}
    {r : Reservation} (h : p.reserveFiltered prefer allowed now = (r, p')) :
    (∃ i, prefer = some i ∧ i < p.active ∧ (∀ l, p.lanes[i]? = some l → allows allowed l.endpoint = true) ∧
      p.tryTake i now true = (some r, p')) ∨
    ∃ q, Ages now p q ∧
      (takeFirst now ((q.scan allowed now).ready.insertionSort LoadLe) (q.scan allowed now).pool = (some r, p') ∨
        takeFirst now ((q.scan allowed now).ready.insertionSort LoadLe) (q.scan allowed now).pool = (none, p') ∧
          r = .wait (if (q.scan allowed now).any then (q.scan allowed now).bestWait else window)) := by
  unfold reserveFiltered at h
  dsimp only at h
  split at h
  · rename_i r' p₁ hpref
    cases h
    cases hp : prefer.filter fun i =>
        decide (i < p.active) && (p.lanes[i]?.any fun l => allows allowed l.endpoint) with
    | none => rw [hp] at hpref; cases hpref
    | some i =>
      rw [hp] at hpref
      obtain ⟨hprefer, hi⟩ := Option.filter_eq_some_iff.1 hp
      simp only [Bool.and_eq_true, decide_eq_true_eq] at hi
      exact .inl ⟨i, hprefer, hi.1, fun l hl => by simpa [hl] using hi.2, hpref⟩
  · rename_i q hpref
    have hq : Ages now p q := by
      cases hp : prefer.filter fun i =>
          decide (i < p.active) && (p.lanes[i]?.any fun l => allows allowed l.endpoint) with
      | none => rw [hp] at hpref; cases hpref; exact .refl p
      | some i => rw [hp] at hpref; exact tryTake_none hpref
    refine .inr ⟨q, hq, ?_⟩
    split at h
    · rename_i htake
      cases h
      exact .inl htake
    · rename_i htake
      cases h
      exact .inr ⟨htake, rfl⟩

/-- The spec of `reserveFiltered`: a grant `Takes` its lane, a wait only ages the pool. -/
theorem reserveFiltered_spec (p : Pool) (prefer : Option Nat) (allowed : Option (List Nat)) (now : Nat) :
    (∃ i key sticky p', p.reserveFiltered prefer allowed now = (.ready i key now sticky, p') ∧
      Takes allowed now p i key p') ∨
    (∃ d p', p.reserveFiltered prefer allowed now = (.wait d, p') ∧ Ages now p p') := by
  cases h : p.reserveFiltered prefer allowed now with
  | mk r p' =>
    rcases reserveFiltered_cases h with ⟨i, -, hi, hok, htake⟩ | ⟨q, hq, htake | ⟨htake, rfl⟩⟩
    · -- the preferred lane grants
      obtain ⟨key, rfl, ht⟩ := Takes.of_tryTake (.refl p) hi hok htake
      exact .inl ⟨i, key, true, p', rfl, ht⟩
    · -- a scanned lane grants
      have hsc := scan_inv q allowed now
      obtain ⟨a, ha, q', hq', ht⟩ := takeFirst_some htake
      obtain ⟨hlt, l, hl, hok⟩ := hsc.ready a ((List.perm_insertionSort LoadLe _).mem_iff.1 ha)
      have hages := hsc.ages.trans hq'
      obtain ⟨key, rfl, ht'⟩ := Takes.of_tryTake (hq.trans hages) (hq.active_eq ▸ hlt) (fun l' hl' => by
        obtain ⟨l'', hl'', hla⟩ := hages.lane hl
        obtain rfl : l' = l'' := Option.some.inj (hl'.symm.trans hl'')
        exact hla.endpoint_eq ▸ hok) ht
      exact .inl ⟨a.2, key, false, p', rfl, ht'⟩
    · exact .inr ⟨_, p', rfl, hq.trans ((scan_inv q allowed now).ages.trans (takeFirst_none htake))⟩

theorem reserveFiltered_ready {p p' : Pool} {prefer : Option Nat} {allowed : Option (List Nat)}
    {now i stamp : Nat} {key : String} {sticky : Bool}
    (h : p.reserveFiltered prefer allowed now = (.ready i key stamp sticky, p')) :
    stamp = now ∧ Takes allowed now p i key p' := by
  rcases reserveFiltered_spec p prefer allowed now with ⟨_, _, _, _, he, ht⟩ | ⟨_, _, he, -⟩ <;>
    rw [h] at he <;> cases he
  exact ⟨rfl, ht⟩

theorem reserveFiltered_wait {p p' : Pool} {prefer : Option Nat} {allowed : Option (List Nat)}
    {now d : Nat} (h : p.reserveFiltered prefer allowed now = (.wait d, p')) : Ages now p p' := by
  rcases reserveFiltered_spec p prefer allowed now with ⟨_, _, _, _, he, -⟩ | ⟨_, _, he, ha⟩ <;>
    rw [h] at he <;> cases he
  exact ha

/-! ### The lanes of an assembled pool -/

theorem enabledFirst_eq (specs : List LaneSpec) :
    enabledFirst specs = specs.filter (·.enabled) ++ specs.filter (!·.enabled) := by
  induction specs with
  | nil => rfl
  | cons s specs ih =>
    have key : enabledFirst (s :: specs) =
        List.orderedInsert (fun a b => (!a.enabled) ≤ (!b.enabled)) s (enabledFirst specs) := rfl
    rw [key, ih]
    cases hs : s.enabled with
    | true =>
      simp only [List.filter_cons, hs, ↓reduceIte, Bool.not_true, Bool.false_eq_true, List.cons_append]
      cases hl : specs.filter (·.enabled) ++ specs.filter (!·.enabled) with
      | nil => rfl
      | cons a l => simp [List.orderedInsert, hs]
    | false =>
      simp only [List.filter_cons, hs, Bool.false_eq_true, ↓reduceIte, Bool.not_false]
      generalize hE : specs.filter (·.enabled) = E
      have hE' : ∀ e ∈ E, e.enabled = true := by
        intro e he; rw [← hE] at he; exact (List.mem_filter.1 he).2
      clear hE
      induction E with
      | nil =>
        cases hD : specs.filter (!·.enabled) with
        | nil => rfl
        | cons d D =>
          have : d ∈ specs.filter (!·.enabled) := by rw [hD]; exact List.mem_cons_self
          have hd := (List.mem_filter.1 this).2
          simp only [Bool.not_eq_true'] at hd
          simp [hs, hd]
      | cons e E ihE =>
        have he := hE' e List.mem_cons_self
        simp only [List.cons_append, List.orderedInsert, hs, he]
        rw [ihE fun e' he' => hE' e' (List.mem_cons_of_mem _ he')]
        simp

/-! ### The configured part of a lane -/

end Pool

/-- The lane without its live state: what the spec it was built from decides. -/
def Lane.bare (l : Lane) : Lane := { l with sent := [], cooldownUntil := 0 }

def LaneSpec.bare (s : LaneSpec) : Lane :=
  ⟨s.key, s.rpm, s.endpoint, s.baseUrl, s.upstream, s.supportsStreamOptions, [], 0⟩

namespace Pool

/-- `p'` has the configured lanes of `p`: what every operation but a rebuild leaves alone. -/
structure SameLanes (p p' : Pool) : Prop where
  active_eq : p'.active = p.active
  bare_eq : p'.lanes.map Lane.bare = p.lanes.map Lane.bare

theorem SameLanes.refl (p : Pool) : SameLanes p p := ⟨rfl, rfl⟩

theorem SameLanes.trans {p₁ p₂ p₃ : Pool} (h₁ : SameLanes p₁ p₂) (h₂ : SameLanes p₂ p₃) :
    SameLanes p₁ p₃ :=
  ⟨h₂.active_eq.trans h₁.active_eq, h₂.bare_eq.trans h₁.bare_eq⟩

theorem SameLanes.bare_getElem? {p p' : Pool} (h : SameLanes p p') (i : Nat) :
    (p'.lanes[i]?).map Lane.bare = (p.lanes[i]?).map Lane.bare := by
  simpa only [List.getElem?_map] using congrArg (·[i]?) h.bare_eq

theorem SameLanes.key_eq {p p' : Pool} (h : SameLanes p p') (i : Nat) :
    (p'.lanes[i]?).map (·.key) = (p.lanes[i]?).map (·.key) := by
  have := congrArg (Option.map (·.key)) (h.bare_getElem? i)
  rwa [Option.map_map, Option.map_map] at this

theorem map_bare_modify (lanes : List Lane) (i : Nat) {f : Lane → Lane}
    (hf : ∀ l, (f l).bare = l.bare) : (lanes.modify i f).map Lane.bare = lanes.map Lane.bare := by
  apply List.ext_getElem?
  intro j
  simp only [List.getElem?_map, List.getElem?_modify]
  cases lanes[j]? with
  | none => rfl
  | some l => by_cases hij : i = j <;> simp [hij, hf]

theorem SameLanes.setSent (p : Pool) (i : Nat) (sent : List Nat) : SameLanes p (p.setSent i sent) :=
  ⟨rfl, map_bare_modify _ _ fun _ => rfl⟩

theorem SameLanes.penalize (p : Pool) (i backoff now : Nat) : SameLanes p (p.penalize i backoff now) :=
  ⟨rfl, map_bare_modify _ _ fun _ => rfl⟩

theorem SameLanes.release (p : Pool) (i stamp : Nat) : SameLanes p (p.release i stamp) := by
  unfold Pool.release
  split
  · exact .refl p
  · exact .setSent ..

theorem Ages.sameLanes {now : Nat} {p p' : Pool} (h : Ages now p p') : SameLanes p p' := by
  refine ⟨h.active_eq, List.ext_getElem? fun i => ?_⟩
  simp only [List.getElem?_map]
  cases hl : p.lanes[i]? with
  | none =>
    rw [List.getElem?_eq_none_iff, ← h.length_eq, ← List.getElem?_eq_none_iff] at hl
    rw [hl]
  | some l =>
    obtain ⟨l', hl', ha⟩ := h.lane hl
    rw [hl']
    rcases ha with rfl | rfl <;> rfl

theorem SameLanes.reserveFiltered (p : Pool) (prefer : Option Nat) (allowed : Option (List Nat))
    (now : Nat) : SameLanes p (p.reserveFiltered prefer allowed now).2 := by
  rcases reserveFiltered_spec p prefer allowed now with ⟨i, _, _, _, he, ht⟩ | ⟨_, _, he, ha⟩ <;> rw [he]
  · obtain ⟨l, -, -, -, -, -, q, hq, rfl⟩ := ht.lane
    exact hq.sameLanes.trans (.setSent ..)
  · exact ha.sameLanes

/-- The lanes of the pool are those configured by `specs`. -/
structure Fits (specs : List LaneSpec) (p : Pool) : Prop where
  active_eq : p.active = (enabledFirst specs).countP (·.enabled)
  bare_eq : p.lanes.map Lane.bare = (enabledFirst specs).map LaneSpec.bare

theorem Fits.assemble (specs : List LaneSpec) (old : Option Pool) (now : Nat) :
    Fits specs (Pool.assemble specs old now) := by
  refine ⟨rfl, ?_⟩
  simp only [Pool.assemble, List.map_map]
  congr 1
  funext s
  simp only [Function.comp, laneOf]
  split <;> rfl

theorem perm_enabledFirst (specs : List LaneSpec) : (enabledFirst specs).Perm specs :=
  List.perm_insertionSort _ specs

/-- A rebuilt lane carries over the window of the old lane for its key, and starts empty without one. -/
theorem rebuild_lane {p : Pool} {specs : List LaneSpec} {now i : Nat} {l : Lane}
    (h : (p.rebuild specs now).lanes[i]? = some l) :
    ∃ s ∈ specs, l.key = s.key ∧
      ((∃ (j : Nat) (l' : Lane), p.lanes[j]? = some l' ∧ l'.key = l.key ∧ l.sent = l'.sent) ∨
        (l.key ∉ p.lanes.map (·.key) ∧ l.sent = [])) := by
  obtain ⟨s, hs, rfl⟩ := List.mem_map.1 (List.mem_of_getElem? h)
  refine ⟨s, (perm_enabledFirst specs).mem_iff.1 hs, ?_⟩
  simp only [laneOf, Option.bind_some]
  split
  · rename_i prev hprev
    refine ⟨rfl, .inl ?_⟩
    obtain ⟨j, hj⟩ := List.mem_iff_getElem?.1 (List.mem_of_find?_eq_some hprev)
    exact ⟨j, prev, hj, by simpa using List.find?_some hprev, rfl⟩
  · rename_i hnone
    refine ⟨rfl, .inr ⟨fun hk => ?_, rfl⟩⟩
    obtain ⟨l', hl', hk⟩ := List.mem_map.1 hk
    exact List.find?_eq_none.1 hnone l' hl' (by simpa using hk)

theorem Fits.sameLanes {specs : List LaneSpec} {p p' : Pool} (h : Fits specs p) (hp : SameLanes p p') :
    Fits specs p' :=
  ⟨hp.active_eq.trans h.active_eq, hp.bare_eq.trans h.bare_eq⟩

theorem Fits.perm_keys {specs : List LaneSpec} {p : Pool} (h : Fits specs p) :
    (p.lanes.map (·.key)).Perm (specs.map (·.key)) := by
  have hk : p.lanes.map (·.key) = (enabledFirst specs).map (·.key) := by
    have := congrArg (List.map (·.key)) h.bare_eq
    rwa [List.map_map, List.map_map] at this
  rw [hk]
  exact (perm_enabledFirst specs).map _

/-- An active lane was configured by an enabled spec. -/
theorem Fits.exists_spec {specs : List LaneSpec} {p : Pool} (h : Fits specs p) {i : Nat} {l : Lane}
    (hi : i < p.active) (hl : p.lanes[i]? = some l) :
    ∃ s ∈ specs, s.enabled = true ∧ s.bare = l.bare := by
  have hE : p.active = (specs.filter (·.enabled)).length := by
    rw [h.active_eq, enabledFirst_eq, List.countP_append, ← List.countP_eq_length_filter,
      List.countP_filter, List.countP_filter]
    simp
  have hb := congrArg (·[i]?) h.bare_eq
  simp only [List.getElem?_map, hl, Option.map_some, enabledFirst_eq] at hb
  rw [List.getElem?_append_left (hE ▸ hi)] at hb
  obtain ⟨s, hs, hsb⟩ := Option.map_eq_some_iff.1 hb.symm
  obtain ⟨hmem, hen⟩ := List.mem_filter.1 (List.mem_of_getElem? hs)
  exact ⟨s, hmem, hen, hsb⟩

end Pool

end OpenProxy
