import OpenProxy.Deadline

/-!
# How long a reserve waits (`reserve_filtered` of `pool.rs`)

A lane out of room becomes ready when the stamp that is `rpm` places from the back of its window expires, or when its
cooldown does, whichever is later (`Lane.readyAt`). The wait of a reserve is the time to the first of these among the
lanes its filter lets through.
-/

namespace OpenProxy

open Pool

/-- The stamps of the lane in `(now - 61 s, now]`. -/
def Lane.load (l : Lane) (now : Nat) : Nat := l.sent.countP fun t => decide (t ≤ now) && inWindow now t

/-- The lane is let through, out of cooldown and below its budget. -/
def Lane.Ready (allowed : Option (List Nat)) (now : Nat) (l : Lane) : Prop :=
  allows allowed l.endpoint = true ∧ l.cooldownUntil ≤ now ∧ l.load now < l.rpm

/-- What the scan computes for a lane. -/
def Lane.readyAt (now : Nat) (l : Lane) : Nat := max (windowReady now l.rpm (evict now l.sent)) l.cooldownUntil

/-- Stamps stand in order, none ahead of the clock. -/
structure Lane.Timed (clock : Nat) (l : Lane) : Prop where
  sorted : l.sent.Pairwise (· ≤ ·)
  le_clock : ∀ t ∈ l.sent, t ≤ clock

/-- In a sorted list fewer than `length - k` elements meet an upward closed test exactly when the one at `k` does not. -/
theorem countP_lt_iff {s : List Nat} {P : Nat → Bool} (hs : s.Pairwise (· ≤ ·))
    (hP : ∀ a b, a ≤ b → P a = true → P b = true) {k : Nat} (hk : k < s.length) :
    s.countP P < s.length - k ↔ P s[k] = false := by
  constructor
  · intro hlt
    by_contra hpos
    have hall : ∀ a ∈ s.drop k, P a = true := by
      intro a ha
      obtain ⟨j, hj, rfl⟩ := List.mem_iff_getElem.1 ha
      rw [List.getElem_drop]
      have hj : k + j < s.length := by
        rw [List.length_drop] at hj
        omega
      refine hP _ _ ?_ (by simpa using hpos)
      rcases Nat.eq_zero_or_pos j with rfl | hpos
      · exact Nat.le_refl _
      · exact List.pairwise_iff_getElem.1 hs k (k + j) hk hj (by omega)
    have hdrop : (s.drop k).countP P = s.length - k := by
      rw [List.countP_eq_length.2 hall, List.length_drop]
    have hle : (s.drop k).countP P ≤ s.countP P := (List.drop_sublist k s).countP_le
    omega
  · intro hneg
    have hnone : ∀ a ∈ s.take (k + 1), ¬ P a = true := by
      intro a ha hpos
      obtain ⟨j, hj, rfl⟩ := List.mem_iff_getElem.1 ha
      rw [List.length_take] at hj
      rw [List.getElem_take] at hpos
      have hle : s[j] ≤ s[k] := by
        rcases Nat.lt_or_ge j k with hlt | hge
        · exact List.pairwise_iff_getElem.1 hs j k (by omega) hk hlt
        · obtain rfl : j = k := by omega
          exact Nat.le_refl _
      rw [hP _ _ hle hpos] at hneg
      cases hneg
    have hsplit : s.countP P = (s.take (k + 1)).countP P + (s.drop (k + 1)).countP P := by
      rw [← List.countP_append, List.take_append_drop]
    have hle : (s.drop (k + 1)).countP P ≤ (s.drop (k + 1)).length := List.countP_le_length
    rw [List.countP_eq_zero.2 hnone] at hsplit
    rw [List.length_drop] at hle
    omega

/-! ### One lane -/

namespace Lane
variable {allowed : Option (List Nat)} {now t : Nat} {l l' : Lane}

/-- Eviction leaves later loads as they are. -/
theorem countP_evict (hnow : now ≤ t) (sent : List Nat) :
    (evict now sent).countP (fun u => decide (u ≤ t) && inWindow t u) =
      sent.countP fun u => decide (u ≤ t) && inWindow t u := by
  have hkeep : ∀ us : List Nat, us.countP (fun u => decide (u ≤ t) && inWindow t u) =
      (us.filter (inWindow now)).countP fun u => decide (u ≤ t) && inWindow t u := by
    intro us
    rw [List.countP_filter]
    refine List.countP_congr fun u _ => ?_
    simp only [Bool.and_eq_true, decide_eq_true_eq]
    constructor
    · intro h
      exact ⟨h, inWindow_of_le hnow h.2⟩
    · intro h
      exact h.1
  rw [hkeep, filter_evict, ← hkeep]

theorem load_ages (ha : LaneAges now l l') (hnow : now ≤ t) : l'.load t = l.load t := by
  rcases ha with rfl | rfl
  · rfl
  · exact countP_evict hnow l.sent

theorem ready_ages (ha : LaneAges now l l') (hnow : now ≤ t) : l'.Ready allowed t ↔ l.Ready allowed t := by
  unfold Lane.Ready
  rw [load_ages ha hnow]
  rcases ha with rfl | rfl <;> exact Iff.rfl

theorem evict_ages (ha : LaneAges now l l') : evict now l'.sent = evict now l.sent := by
  rcases ha with rfl | rfl
  · rfl
  · exact evict_evict now l.sent

theorem readyAt_ages (ha : LaneAges now l l') : l'.readyAt now = l.readyAt now := by
  unfold readyAt
  rw [evict_ages ha]
  rcases ha with rfl | rfl <;> rfl

namespace Timed

theorem later (h : l.Timed now) (ht : now ≤ t) : l.Timed t :=
  ⟨h.sorted, fun u hu => (h.le_clock u hu).trans ht⟩

theorem length_evict (h : l.Timed now) : (evict now l.sent).length = l.load now := by
  rw [evict_eq_filter h.sorted, load, List.countP_eq_length_filter]
  congr 1
  refine List.filter_congr fun u hu => ?_
  rw [decide_eq_true (h.le_clock u hu), Bool.true_and]

theorem hasRoom_iff (h : l.Timed now) : Lane.HasRoom allowed now l ↔ l.Ready allowed now := by
  unfold Lane.HasRoom Lane.Ready
  rw [h.length_evict]

/-- The window is below the budget from `windowReady` on. -/
theorem windowReady_le_iff (h : l.Timed now) (hrpm : 1 ≤ l.rpm) (ht : now ≤ t) :
    windowReady now l.rpm (evict now l.sent) ≤ t ↔ l.load t < l.rpm := by
  have hload : l.load t = (evict now l.sent).countP fun u => decide (u ≤ t) && inWindow t u :=
    (countP_evict ht l.sent).symm
  have hsub : (evict now l.sent).Sublist l.sent := List.dropWhile_sublist _
  have hsorted : (evict now l.sent).Pairwise (· ≤ ·) := h.sorted.sublist hsub
  rw [hload]
  generalize hs : evict now l.sent = s at hsub hsorted
  unfold windowReady
  split
  · rename_i hlt
    have hle : s.countP (fun u => decide (u ≤ t) && inWindow t u) ≤ s.length := List.countP_le_length
    omega
  · rename_i hge
    have hk : s.length - l.rpm < s.length := by omega
    have hle : ∀ u ∈ s, u ≤ t := fun u hu => (h.le_clock u (hsub.subset hu)).trans ht
    have hcount : s.countP (fun u => decide (u ≤ t) && inWindow t u) = s.countP (inWindow t) := by
      refine List.countP_congr fun u hu => ?_
      rw [decide_eq_true (hle u hu), Bool.true_and]
    have hup : ∀ a b, a ≤ b → inWindow t a = true → inWindow t b = true := by
      intro a b hab ha
      simp only [inWindow, decide_eq_true_eq] at ha ⊢
      omega
    have hiff := countP_lt_iff hsorted hup hk
    rw [show s.length - (s.length - l.rpm) = l.rpm by omega] at hiff
    rw [if_neg (by omega), List.getD_eq_getElem _ _ hk, hcount, hiff]
    simp [inWindow]

/-- From `now` on, the lane is ready exactly from `readyAt`. -/
theorem ready_iff (h : l.Timed now) (hrpm : 1 ≤ l.rpm) (ht : now ≤ t) :
    l.Ready allowed t ↔ allows allowed l.endpoint = true ∧ l.readyAt now ≤ t := by
  unfold Lane.Ready readyAt
  rw [← h.windowReady_le_iff hrpm ht, max_le_iff, and_comm (a := l.cooldownUntil ≤ t)]

end Timed

end Lane

namespace Pool
variable {allowed : Option (List Nat)} {now t : Nat} {p p' : Pool}

/-- Lane `i` can be granted and is ready. -/
def ReadyLane (p : Pool) (allowed : Option (List Nat)) (now i : Nat) (l : Lane) : Prop :=
  i < p.active ∧ p.lanes[i]? = some l ∧ l.Ready allowed now

/-- Some lane is. -/
def Ready (p : Pool) (allowed : Option (List Nat)) (now : Nat) : Prop := ∃ i l, p.ReadyLane allowed now i l

def Timed (clock : Nat) (p : Pool) : Prop := ∀ {i : Nat} {l : Lane}, p.lanes[i]? = some l → l.Timed clock

theorem hasRoom_iff_ready (h : p.Timed now) : p.HasRoom allowed now ↔ p.Ready allowed now := by
  rw [hasRoom_iff]
  constructor
  · rintro ⟨i, l, hi, hl, hroom⟩
    exact ⟨i, l, hi, hl, (h hl).hasRoom_iff.1 hroom⟩
  · rintro ⟨i, l, hi, hl, hready⟩
    exact ⟨i, l, hi, hl, (h hl).hasRoom_iff.2 hready⟩

theorem isReady_iff_ready (h : p.Timed now) (prefer : Option Nat) (allowed : Option (List Nat)) :
    Reservation.isReady (p.reserveFiltered prefer allowed now).1 = true ↔ p.Ready allowed now :=
  (isReady_reserveFiltered p prefer allowed now).trans (hasRoom_iff_ready h)

theorem ready_ages (ha : Ages now p p') (hnow : now ≤ t) : p'.Ready allowed t ↔ p.Ready allowed t := by
  constructor
  · rintro ⟨i, l', hi, hl', hready⟩
    obtain ⟨l, hl, hla⟩ := ha.lane_of hl'
    exact ⟨i, l, ha.active_eq ▸ hi, hl, (Lane.ready_ages hla hnow).1 hready⟩
  · rintro ⟨i, l, hi, hl, hready⟩
    obtain ⟨l', hl', hla⟩ := ha.lane hl
    exact ⟨i, l', ha.active_eq.symm ▸ hi, hl', (Lane.ready_ages hla hnow).2 hready⟩

theorem Timed.ages (h : p.Timed now) (ha : Ages now p p') : p'.Timed now := by
  intro i l' hl'
  obtain ⟨l, hl, hla⟩ := ha.lane_of hl'
  rcases hla with rfl | rfl
  · exact h hl
  · have hsub : (evict now l.sent).Sublist l.sent := List.dropWhile_sublist _
    exact ⟨(h hl).sorted.sublist hsub, fun u hu => (h hl).le_clock u (hsub.subset hu)⟩

/-! ### The scan -/

/-- What the scan knows after the first `n` lanes. -/
structure Scanned (allowed : Option (List Nat)) (now : Nat) (p : Pool) (n : Nat) (sc : Scan) : Prop where
  ages : Ages now p sc.pool
  wait_pos : 0 < sc.bestWait
  wait_le : sc.bestWait ≤ window
  le_readyAt : ∀ i l, i < n → p.lanes[i]? = some l → allows allowed l.endpoint = true → now < l.readyAt now →
    now + sc.bestWait ≤ l.readyAt now
  attained : sc.bestWait < window → ∃ i l, i < n ∧ p.lanes[i]? = some l ∧ allows allowed l.endpoint = true ∧
    l.readyAt now = now + sc.bestWait
  any : sc.any = false → sc.bestWait = window
  ready : ∀ load i, (load, i) ∈ sc.ready ↔ i < n ∧ ∃ l, p.lanes[i]? = some l ∧ allows allowed l.endpoint = true ∧
    l.readyAt now ≤ now ∧ load = (evict now l.sent).length

theorem Scanned.start : Scanned allowed now p 0 ⟨p, [], window, false⟩ where
  ages := .refl p
  wait_pos := by
    show 0 < window
    decide
  wait_le := Nat.le_refl _
  le_readyAt := fun _ _ hi => absurd hi (Nat.not_lt_zero _)
  attained := fun h => absurd h (Nat.lt_irrefl _)
  any := fun _ => rfl
  ready := by simp

/-- Nothing new is known from a lane that the filter hides. -/
theorem Scanned.skip {n : Nat} {sc : Scan} (h : Scanned allowed now p n sc)
    (hskip : ∀ l, p.lanes[n]? = some l → ¬ allows allowed l.endpoint = true) :
    Scanned allowed now p (n + 1) sc := by
  refine { h with le_readyAt := fun i l hi hl hallow hlate => ?_, attained := fun hlt => ?_, ready := fun load i => ?_ }
  · rcases Nat.lt_succ_iff_lt_or_eq.1 hi with hi | rfl
    · exact h.le_readyAt i l hi hl hallow hlate
    · exact absurd hallow (hskip l hl)
  · obtain ⟨i, l, hi, hrest⟩ := h.attained hlt
    exact ⟨i, l, by omega, hrest⟩
  · rw [h.ready]
    constructor
    · rintro ⟨hi, hrest⟩
      exact ⟨by omega, hrest⟩
    · rintro ⟨hi, l, hl, hallow, hrest⟩
      rcases Nat.lt_succ_iff_lt_or_eq.1 hi with hi | rfl
      · exact ⟨hi, l, hl, hallow, hrest⟩
      · exact absurd hallow (hskip l hl)

theorem Scanned.visit {n : Nat} {sc : Scan} (h : Scanned allowed now p n sc) :
    Scanned allowed now p (n + 1) (sc.visit allowed now n) := by
  unfold Scan.visit
  split
  · -- no lane at `n`
    rename_i hnone
    refine h.skip fun l hl => ?_
    obtain ⟨l', hl', -⟩ := h.ages.lane hl
    rw [hnone] at hl'
    cases hl'
  · rename_i l' hl'
    obtain ⟨l, hl, ha⟩ := h.ages.lane_of hl'
    have hendpoint := ha.endpoint_eq
    have hat : max (windowReady now l'.rpm (evict now l'.sent)) l'.cooldownUntil = l.readyAt now :=
      Lane.readyAt_ages ha
    have heq : ∀ l₁, p.lanes[n]? = some l₁ → l₁ = l := fun l₁ h₁ => Option.some.inj (h₁.symm.trans hl)
    split
    · rename_i hallow
      rw [hendpoint] at hallow
      have hages : Ages now p (sc.pool.setSent n (evict now l'.sent)) := h.ages.trans (.setSent_evict hl')
      dsimp only
      rw [hat, Lane.evict_ages ha] at *
      split
      · -- ready
        rename_i hready
        refine ⟨hages, h.wait_pos, h.wait_le, fun i l₁ hi h₁ hallow₁ hlate => ?_, fun hlt => ?_, by simp, fun load i => ?_⟩
        · rcases Nat.lt_succ_iff_lt_or_eq.1 hi with hi | rfl
          · exact h.le_readyAt i l₁ hi h₁ hallow₁ hlate
          · rw [heq l₁ h₁] at hlate
            omega
        · obtain ⟨i, l₁, hi, hrest⟩ := h.attained hlt
          exact ⟨i, l₁, by omega, hrest⟩
        · rw [List.mem_append, h.ready, List.mem_singleton, Prod.mk.injEq]
          constructor
          · rintro (⟨hi, hrest⟩ | ⟨rfl, rfl⟩)
            · exact ⟨by omega, hrest⟩
            · exact ⟨by omega, l, hl, hallow, hready, rfl⟩
          · rintro ⟨hi, l₁, h₁, hallow₁, hready₁, hload⟩
            rcases Nat.lt_succ_iff_lt_or_eq.1 hi with hi | rfl
            · exact .inl ⟨hi, l₁, h₁, hallow₁, hready₁, hload⟩
            · rw [heq l₁ h₁] at hload
              exact .inr ⟨hload, rfl⟩
      · -- not yet
        rename_i hlate
        have hpos := h.wait_pos
        have hle := h.wait_le
        refine ⟨hages, by show 0 < min _ _; omega, by show min _ _ ≤ _; omega, fun i l₁ hi h₁ hallow₁ hlate₁ => ?_,
          fun hlt => ?_, by simp, fun load i => ?_⟩
        · show now + min _ _ ≤ _
          rcases Nat.lt_succ_iff_lt_or_eq.1 hi with hi | rfl
          · have := h.le_readyAt i l₁ hi h₁ hallow₁ hlate₁
            omega
          · rw [heq l₁ h₁]
            omega
        · replace hlt : min sc.bestWait (l.readyAt now - now) < window := hlt
          show ∃ i l₁, _ ∧ _ ∧ _ ∧ _ = now + min _ _
          by_cases hbest : sc.bestWait ≤ l.readyAt now - now
          · obtain ⟨i, l₁, hi, h₁, hallow₁, heq₁⟩ := h.attained (by omega)
            exact ⟨i, l₁, by omega, h₁, hallow₁, by omega⟩
          · exact ⟨n, l, by omega, hl, hallow, by omega⟩
        · rw [h.ready]
          constructor
          · rintro ⟨hi, hrest⟩
            exact ⟨by omega, hrest⟩
          · rintro ⟨hi, l₁, h₁, hallow₁, hready₁, hload⟩
            rcases Nat.lt_succ_iff_lt_or_eq.1 hi with hi | rfl
            · exact ⟨hi, l₁, h₁, hallow₁, hready₁, hload⟩
            · rw [heq l₁ h₁] at hready₁
              exact absurd hready₁ hlate
    · rename_i hdeny
      refine h.skip fun l₁ h₁ hallow₁ => hdeny ?_
      rw [hendpoint, ← heq l₁ h₁]
      exact hallow₁

theorem scanned (p : Pool) (allowed : Option (List Nat)) (now : Nat) :
    Scanned allowed now p p.active (p.scan allowed now) := by
  have hrange : ∀ n, Scanned allowed now p n ((List.range n).foldl (Scan.visit allowed now) ⟨p, [], window, false⟩) := by
    intro n
    induction n with
    | zero => exact .start
    | succ n ih =>
      rw [List.range_succ, List.foldl_append]
      exact ih.visit
  exact hrange p.active

/-! ### The reserve -/

/-- A lane of `q` is the lane of `p` at its place, with the load and the time of `p`'s. -/
theorem Scanned.mem_ready (hT : p.Timed now) (hrpm : ∀ i l, i < p.active → p.lanes[i]? = some l → 1 ≤ l.rpm) {q : Pool}
    (hq : Ages now p q) (load i : Nat) : (load, i) ∈ (q.scan allowed now).ready ↔
      ∃ l, p.ReadyLane allowed now i l ∧ load = l.load now := by
  rw [(scanned q allowed now).ready, hq.active_eq]
  constructor
  · rintro ⟨hi, l', hl', hallow, hready, rfl⟩
    obtain ⟨l, hl, ha⟩ := hq.lane_of hl'
    rw [Lane.readyAt_ages ha] at hready
    rw [ha.endpoint_eq] at hallow
    refine ⟨l, ⟨hi, hl, ((hT hl).ready_iff (hrpm i l hi hl) (Nat.le_refl _)).2 ⟨hallow, hready⟩⟩, ?_⟩
    rw [Lane.evict_ages ha, (hT hl).length_evict]
  · rintro ⟨l, ⟨hi, hl, hready⟩, rfl⟩
    obtain ⟨l', hl', ha⟩ := hq.lane hl
    obtain ⟨hallow, hat⟩ := ((hT hl).ready_iff (hrpm i l hi hl) (Nat.le_refl _)).1 hready
    refine ⟨hi, l', hl', by rw [ha.endpoint_eq]; exact hallow, by rw [Lane.readyAt_ages ha]; exact hat, ?_⟩
    rw [Lane.evict_ages ha, (hT hl).length_evict]

instance : Std.Total LoadLe where
  total a b := by
    unfold LoadLe
    omega

instance : IsTrans (Nat × Nat) LoadLe where
  trans a b c := by
    unfold LoadLe
    omega

/-- The first of the sorted lanes is ready, so it is the one that grants. -/
theorem takeFirst_least (hT : p.Timed now) (hrpm : ∀ i l, i < p.active → p.lanes[i]? = some l → 1 ≤ l.rpm) {q : Pool}
    (hq : Ages now p q) {r : Reservation}
    (h : takeFirst now ((q.scan allowed now).ready.insertionSort LoadLe) (q.scan allowed now).pool = (some r, p')) :
    ∃ i l, r = .ready i l.key now false ∧ p.ReadyLane allowed now i l ∧
      ∀ j m, p.ReadyLane allowed now j m → LoadLe (l.load now, i) (m.load now, j) := by
  have hsorted := List.pairwise_insertionSort LoadLe (q.scan allowed now).ready
  have hmem : ∀ a, a ∈ (q.scan allowed now).ready.insertionSort LoadLe ↔ a ∈ (q.scan allowed now).ready :=
    fun a => (List.perm_insertionSort LoadLe _).mem_iff
  cases hs : (q.scan allowed now).ready.insertionSort LoadLe with
  | nil =>
    rw [hs] at h
    cases h
  | cons a rest =>
    obtain ⟨load, i⟩ := a
    rw [hs] at h hsorted hmem
    obtain ⟨l, hready, rfl⟩ := (Scanned.mem_ready hT hrpm hq load i).1 ((hmem _).1 List.mem_cons_self)
    obtain ⟨l', hl', ha⟩ := (hq.trans (scanned q allowed now).ages).lane hready.2.1
    have hroom : Lane.HasRoom allowed now l' := hasRoom_ages ((hT hready.2.1).hasRoom_iff.2 hready.2.2) ha
    unfold takeFirst at h
    split at h
    · rename_i r' p₁ htake
      cases h
      obtain ⟨l₁, hl₁, rfl, -⟩ := tryTake_some htake
      rw [Option.some.inj (hl₁.symm.trans hl'), ha.key_eq]
      refine ⟨i, l, rfl, hready, fun j m hm => ?_⟩
      have hin := (hmem _).2 ((Scanned.mem_ready hT hrpm hq _ j).2 ⟨m, hm, rfl⟩)
      rcases List.mem_cons.1 hin with heq | hin
      · rw [heq]
        exact .inr ⟨rfl, Nat.le_refl _⟩
      · exact (List.pairwise_cons.1 hsorted).1 _ hin
    · rename_i p₁ htake
      have hsome := tryTake_isSome hl' hroom false
      rw [htake] at hsome
      cases hsome

/-- A wait lasts until the first lane is ready, or for the whole window. -/
theorem wait_spec (hT : p.Timed now) (hrpm : ∀ i l, i < p.active → p.lanes[i]? = some l → 1 ≤ l.rpm)
    {prefer : Option Nat} {d : Nat} (h : p.reserveFiltered prefer allowed now = (.wait d, p')) :
    0 < d ∧ d ≤ window ∧ (∀ t, now ≤ t → t < now + d → ¬ p.Ready allowed t) ∧
      (d < window → p.Ready allowed (now + d)) := by
  have hnot : ¬ p.Ready allowed now := by
    intro hready
    have := (isReady_iff_ready hT prefer allowed).2 hready
    rw [h] at this
    cases this
  rcases reserveFiltered_cases h with ⟨i, -, -, -, htake⟩ | ⟨q, hq, htake | ⟨-, hd⟩⟩
  · obtain ⟨_, _, hr, -⟩ := tryTake_some htake
    cases hr
  · obtain ⟨_, _, hr, -⟩ := takeFirst_least hT hrpm hq htake
    cases hr
  · have hsc := scanned q allowed now
    have hdeq : d = (q.scan allowed now).bestWait := by
      have hd := Reservation.wait.inj hd
      split at hd
      · exact hd
      · rename_i hany
        rw [hd, hsc.any (by simpa using hany)]
    subst hdeq
    refine ⟨hsc.wait_pos, hsc.wait_le, ?_, fun hlt => ?_⟩
    · rintro t hle hlt ⟨i, l, hi, hl, hready⟩
      obtain ⟨hallow, hat⟩ := ((hT hl).ready_iff (hrpm i l hi hl) hle).1 hready
      have hlate : now < l.readyAt now := by
        by_contra hat
        exact hnot ⟨i, l, hi, hl, ((hT hl).ready_iff (hrpm i l hi hl) (Nat.le_refl _)).2 ⟨hallow, by omega⟩⟩
      obtain ⟨l', hl', ha⟩ := hq.lane hl
      have := hsc.le_readyAt i l' (hq.active_eq ▸ hi) hl' (by rw [ha.endpoint_eq]; exact hallow)
        (by rw [Lane.readyAt_ages ha]; exact hlate)
      rw [Lane.readyAt_ages ha] at this
      omega
    · obtain ⟨i, l', hi, hl', hallow, hat⟩ := hsc.attained hlt
      obtain ⟨l, hl, ha⟩ := hq.lane_of hl'
      rw [Lane.readyAt_ages ha] at hat
      rw [ha.endpoint_eq] at hallow
      rw [hq.active_eq] at hi
      exact ⟨i, l, hi, hl, ((hT hl).ready_iff (hrpm i l hi hl) (by omega)).2 ⟨hallow, by omega⟩⟩

end Pool

namespace Waiting

open Transition PoolWindow

/-! ### Runs that only fill lanes -/

/-- Neither a slot comes back nor is the pool rebuilt. -/
def Fills : Op → Prop
  | .reserve _ _ _ => True
  | .penalize _ _ _ _ => True
  | .release _ => False
  | .rebuild _ _ => False

/-- A lane that is ready in `p'` from `now` on was ready in `p`. -/
structure Fuller (now : Nat) (p p' : Pool) : Prop where
  active_eq : p'.active = p.active
  lane : ∀ {i : Nat} {l' : Lane}, p'.lanes[i]? = some l' → ∃ l, p.lanes[i]? = some l ∧ l'.endpoint = l.endpoint ∧
    l'.rpm = l.rpm ∧ l.cooldownUntil ≤ l'.cooldownUntil ∧ ∀ t, now ≤ t → l.load t ≤ l'.load t

namespace Fuller
variable {now t : Nat} {p p' : Pool}

theorem ready (h : Fuller now p p') {allowed : Option (List Nat)} (ht : now ≤ t) (hready : p'.Ready allowed t) :
    p.Ready allowed t := by
  obtain ⟨i, l', hi, hl', hallow, hcooldown, hload⟩ := hready
  obtain ⟨l, hl, hendpoint, hrpm, hcd, hle⟩ := h.lane hl'
  have := hle t ht
  exact ⟨i, l, h.active_eq ▸ hi, hl, hendpoint ▸ hallow, hcd.trans hcooldown, by omega⟩

theorem refl (p : Pool) : Fuller now p p :=
  ⟨rfl, fun hl => ⟨_, hl, rfl, rfl, Nat.le_refl _, fun _ _ => Nat.le_refl _⟩⟩

theorem ages (ha : Ages now p p') : Fuller now p p' := by
  refine ⟨ha.active_eq, fun {i l'} hl' => ?_⟩
  obtain ⟨l, hl, hla⟩ := ha.lane_of hl'
  refine ⟨l, hl, hla.endpoint_eq, ?_, ?_, fun t ht => (Lane.load_ages hla ht).ge⟩
  · rcases hla with rfl | rfl <;> rfl
  · rcases hla with rfl | rfl <;> exact Nat.le_refl _

/-- A grant adds a stamp to its lane. -/
theorem takes {allowed : Option (List Nat)} {i : Nat} {key : String} (ht : Takes allowed now p i key p') :
    Fuller now p p' := by
  obtain ⟨l, hl, -, -, -, -, q, hq, rfl⟩ := ht.lane
  refine ⟨hq.active_eq, fun {j m} hm => ?_⟩
  rw [getElem?_setSent] at hm
  obtain ⟨m', hm', rfl⟩ := Option.map_eq_some_iff.1 hm
  obtain ⟨l₁, hl₁, hendpoint, hrpm, hcd, hle⟩ := (ages hq).lane hm'
  split
  · rename_i hij
    subst hij
    obtain rfl : l = l₁ := Option.some.inj (hl.symm.trans hl₁)
    refine ⟨l, hl₁, hendpoint, hrpm, hcd, fun t ht => ?_⟩
    show l.load t ≤ (evict now l.sent ++ [now]).countP _
    rw [List.countP_append, Lane.countP_evict ht]
    exact Nat.le_add_right _ _
  · exact ⟨l₁, hl₁, hendpoint, hrpm, hcd, hle⟩

theorem penalize (p : Pool) (i backoff since : Nat) : Fuller now p (p.penalize i backoff since) := by
  refine ⟨rfl, fun {j l'} hl' => ?_⟩
  simp only [Pool.penalize, List.getElem?_modify] at hl'
  obtain ⟨l, hl, rfl⟩ := Option.map_eq_some_iff.1 hl'
  refine ⟨l, hl, ?_⟩
  split
  · exact ⟨rfl, rfl, le_max_left _ _, fun t _ => Nat.le_refl _⟩
  · exact ⟨rfl, rfl, Nat.le_refl _, fun t _ => Nat.le_refl _⟩

end Fuller

theorem step_fuller {s s' : State} {op : Op} (hop : Fills op) (h : step s op = some s') :
    s.clock ≤ s'.clock ∧ Fuller s'.clock s.pool s'.pool := by
  cases op with
  | reserve prefer allowed now =>
    simp only [step] at h
    split at h
    · rename_i hc
      split at h
      · rename_i he
        obtain ⟨rfl, ht⟩ := reserveFiltered_ready he
        cases h
        exact ⟨hc, .takes ht⟩
      · rename_i he
        cases h
        exact ⟨hc, .ages (reserveFiltered_wait he)⟩
    · cases h
  | penalize gen lane backoff now =>
    cases h
    unfold State.onGen
    split
    · exact ⟨Nat.le_refl _, .penalize ..⟩
    · exact ⟨Nat.le_refl _, .refl _⟩
  | release n => exact absurd hop id
  | rebuild specs now => exact absurd hop id

/-- No lane is ready before `till`. -/
def Busy (allowed : Option (List Nat)) (till : Nat) (s : State) : Prop :=
  ∀ t, s.clock ≤ t → t < till → ¬ s.pool.Ready allowed t

theorem step_busy {allowed : Option (List Nat)} {till : Nat} {s s' : State} {op : Op} (h : Busy allowed till s)
    (hop : Fills op) (hs : step s op = some s') : Busy allowed till s' := by
  obtain ⟨hc, hfull⟩ := step_fuller hop hs
  intro t ht hlt hready
  exact h t (hc.trans ht) hlt (hfull.ready ht hready)

theorem timed_of_inv {s : State} (h : Inv s) {now : Nat} (hnow : s.clock ≤ now) : s.pool.Timed now := by
  intro i l hl
  have hw := h.window hl
  exact ⟨hw.sorted, fun t ht => (hw.le_clock t ht).trans hnow⟩

/-- A reserve at `now` is answered as soon as it can be, and not earlier. -/
structure Exact (s : State) (prefer : Option Nat) (allowed : Option (List Nat)) (now : Nat) : Prop where
  ready_iff : Reservation.isReady (s.pool.reserveFiltered prefer allowed now).1 = true ↔ s.pool.Ready allowed now
  /-- The wait is positive and at most the window, and adds no stamp. -/
  wait : ∀ d p, s.pool.reserveFiltered prefer allowed now = (.wait d, p) → 0 < d ∧ d ≤ window ∧ Ages now s.pool p
  /-- Until it is over, a reserve through the filter waits, whatever reserves and penalties came between. -/
  waits : ∀ d p, s.pool.reserveFiltered prefer allowed now = (.wait d, p) → ∀ ops s',
    (∀ op ∈ ops, Fills op) → exec step s (.reserve prefer allowed now :: ops) = some s' →
    ∀ prefer' now', s'.clock ≤ now' → now' < now + d →
      Reservation.isReady (s'.pool.reserveFiltered prefer' allowed now').1 = false
  /-- When it is over and shorter than the window, the next reserve is granted. -/
  wakes : ∀ d p, s.pool.reserveFiltered prefer allowed now = (.wait d, p) → d < window →
    ∀ prefer', Reservation.isReady (p.reserveFiltered prefer' allowed (now + d)).1 = true
  sticky : ∀ i key stamp p, s.pool.reserveFiltered prefer allowed now = (.ready i key stamp true, p) → prefer = some i
  /-- The least loaded of the ready lanes, the first among equals. -/
  least : ∀ i key stamp p, s.pool.reserveFiltered prefer allowed now = (.ready i key stamp false, p) →
    ∃ l, s.pool.ReadyLane allowed now i l ∧ ∀ j m, s.pool.ReadyLane allowed now j m →
      l.load now < m.load now ∨ l.load now = m.load now ∧ i ≤ j

theorem reserve_exact {specs : List LaneSpec} {now₀ : Nat} {ops : List Op} {s : State} (hd : keysDistinct specs)
    (hrun : exec step (start specs now₀) ops = some s)
    (hrpm : ∀ l ∈ s.pool.lanes.take s.pool.active, 1 ≤ l.rpm) (prefer : Option Nat) (allowed : Option (List Nat))
    {now : Nat} (hnow : s.clock ≤ now) : Exact s prefer allowed now := by
  have hI := exec_inv hd hrun
  have hT : s.pool.Timed now := fun hl => timed_of_inv hI hnow hl
  replace hrpm : ∀ i l, i < s.pool.active → s.pool.lanes[i]? = some l → 1 ≤ l.rpm := by
    intro i l hi hl
    refine hrpm l (List.mem_iff_getElem?.2 ⟨i, ?_⟩)
    rw [List.getElem?_take, if_pos hi, hl]
  refine ⟨isReady_iff_ready hT prefer allowed, fun d p h => ?_, fun d p h ops s' hops hexec prefer' now' hc hlt => ?_,
    fun d p h hlt prefer' => ?_, fun i key stamp p h => ?_, fun i key stamp p h => ?_⟩
  · obtain ⟨hpos, hle, -⟩ := wait_spec hT hrpm h
    exact ⟨hpos, hle, reserveFiltered_wait h⟩
  · obtain ⟨-, -, hbusy, -⟩ := wait_spec hT hrpm h
    obtain ⟨s₁, h₁, h₂⟩ := exec_cons_eq_some.1 hexec
    have hI' := exec_invariant (fun _ _ _ hI hs => step_inv hI hs) (step_inv hI h₁) h₂
    have hstart : Busy allowed (now + d) s₁ := by
      have hs₁ : s₁ = { s with pool := p, clock := now } := by
        simp only [step, if_pos hnow, h] at h₁
        exact (Option.some.inj h₁).symm
      subst hs₁
      intro t ht hlt hready
      exact hbusy t ht hlt ((ready_ages (reserveFiltered_wait h) ht).1 hready)
    have hend := exec_invariant_of_forall (fun _ _ _ hb hop hs => step_busy hb hop hs) hstart hops h₂
    have hT' : s'.pool.Timed now' := fun hl => timed_of_inv hI' hc hl
    rw [← Bool.not_eq_true, isReady_iff_ready hT']
    exact hend now' hc hlt
  · obtain ⟨-, -, -, hwake⟩ := wait_spec hT hrpm h
    have ha := reserveFiltered_wait h
    have hT' : p.Timed (now + d) := fun hl => (hT.ages ha hl).later (Nat.le_add_right _ _)
    rw [isReady_iff_ready hT', ready_ages ha (Nat.le_add_right _ _)]
    exact hwake hlt
  · rcases reserveFiltered_cases h with ⟨j, rfl, -, -, htake⟩ | ⟨q, hq, htake | ⟨-, hr⟩⟩
    · obtain ⟨_, _, hr, -⟩ := tryTake_some htake
      cases hr
      rfl
    · obtain ⟨_, _, hr, -⟩ := takeFirst_least hT hrpm hq htake
      cases hr
    · cases hr
  · rcases reserveFiltered_cases h with ⟨j, -, -, -, htake⟩ | ⟨q, hq, htake | ⟨-, hr⟩⟩
    · obtain ⟨_, _, hr, -⟩ := tryTake_some htake
      cases hr
    · obtain ⟨i', l, hr, hready, hleast⟩ := takeFirst_least hT hrpm hq htake
      cases hr
      exact ⟨l, hready, hleast⟩
    · cases hr

/-- A lane of one request a minute, spent at 0: at 1 s its group waits for 60 s. -/
theorem reserve_exact_spent : ∃ s, exec step (start Deadline.twoGroups 0) [.reserve none (some [0]) 0] = some s ∧
    (s.pool.reserveFiltered none (some [0]) (ofSecs 1)).1 = .wait (ofSecs 60) ∧ Exact s none (some [0]) (ofSecs 1) := by
  have hrun : (exec step (start Deadline.twoGroups 0) [.reserve none (some [0]) 0]).any (fun s =>
      decide ((s.pool.reserveFiltered none (some [0]) (ofSecs 1)).1 = .wait (ofSecs 60) ∧
        (∀ l ∈ s.pool.lanes.take s.pool.active, 1 ≤ l.rpm) ∧ s.clock ≤ ofSecs 1)) = true := by decide +kernel
  obtain ⟨s, hs, h⟩ := (Option.any_eq_true ..).1 hrun
  obtain ⟨hwait, hrpm, hclock⟩ := of_decide_eq_true h
  exact ⟨s, hs, hwait, reserve_exact (by decide) hs hrpm none (some [0]) hclock⟩

end Waiting

end OpenProxy
