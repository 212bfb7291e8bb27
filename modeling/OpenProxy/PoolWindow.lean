import OpenProxy.Lib.Transition
import OpenProxy.Pool

/-!
# Pool generations and the per-key window

A run starts with `Pool::new` and goes through any reserves (newest generation, nondecreasing times),
releases (any generation), penalties and rebuilds. `State.spent` counts what the provider's window can
still hold against a key: grants since the key last entered the pool, except those refunded while the
generation that granted them was the newest.

A refund on a retired generation is lost on the newest one: its window was copied at the swap. So the
invariant (`Inv.window`) counts it as spent: inside the window, a lane of the newest pool holds each
stamp exactly as often as it was spent. Outside the window the two may differ, and do: `release` picks
its stamp by value among those a lazy eviction has left.
-/

namespace OpenProxy.PoolWindow

open Pool Transition

/-- A slot handed out, and what became of it. -/
structure Grant where
  gen : Nat
  lane : Nat
  key : String
  stamp : Nat
  released : Bool
  /-- Released while the generation that granted it was still the newest. -/
  refunded : Bool
  deriving DecidableEq, Repr

structure State where
  /-- Retired generations, oldest first. -/
  past : List Pool
  pool : Pool
  /-- The spec list of every generation, the newest last. -/
  history : List (List LaneSpec)
  grants : List Grant
  clock : Nat

inductive Op where
  | reserve (prefer : Option Nat) (allowed : Option (List Nat)) (now : Nat)
  /-- Return the slot of the `n`-th grant. -/
  | release (n : Nat)
  | penalize (gen lane backoff now : Nat)
  | rebuild (specs : List LaneSpec) (now : Nat)

def keysDistinct (specs : List LaneSpec) : Prop := (specs.map (·.key)).Nodup

instance (specs : List LaneSpec) : Decidable (keysDistinct specs) :=
  inferInstanceAs (Decidable (specs.map (·.key)).Nodup)

/-- The newest generation's number. -/
def State.newest (s : State) : Nat := s.past.length

/-- Run a pool operation on generation `g`. -/
def State.onGen (s : State) (g : Nat) (f : Pool → Pool) : State :=
  if g = s.newest then { s with pool := f s.pool } else { s with past := s.past.modify g f }

def start (specs : List LaneSpec) (now : Nat) : State :=
  ⟨[], Pool.new specs now, [specs], [], 0⟩

def step (s : State) : Op → Option State
  | .reserve prefer allowed now =>
    if s.clock ≤ now then
      match s.pool.reserveFiltered prefer allowed now with
      | (.ready lane key stamp _, p) =>
        some { s with
          pool := p
          grants := s.grants ++ [⟨s.newest, lane, key, stamp, false, false⟩]
          clock := now }
      | (.wait _, p) => some { s with pool := p, clock := now }
    else none
  | .release n =>
    match s.grants[n]? with
    | none => none
    | some g =>
      if g.released then none
      else
        let s' := s.onGen g.gen (·.release g.lane g.stamp)
        some { s' with
          grants := s.grants.set n { g with released := true, refunded := decide (g.gen = s.newest) } }
  | .penalize gen lane backoff now => some (s.onGen gen (·.penalize lane backoff now))
  | .rebuild specs now =>
    if keysDistinct specs then
      some { s with
        past := s.past ++ [s.pool]
        pool := s.pool.rebuild specs now
        history := s.history ++ [specs] }
    else none

/-- `key` is in the spec list of every generation from `gen` on. -/
def State.keptSince (s : State) (gen : Nat) (key : String) : Bool :=
  (s.history.drop gen).all fun specs => (specs.map (·.key)).contains key

/-- The grant still counts against `key`. -/
def State.spends (s : State) (key : String) (g : Grant) : Bool :=
  g.key == key && !g.refunded && s.keptSince g.gen key

/-- The times of the grants that count against `key`. -/
def State.stamps (s : State) (key : String) : List Nat :=
  (s.grants.filter (s.spends key)).map (·.stamp)

/-- How many of them are in the window that ends at `now`, `(now - 61 s, now]`. -/
def State.spent (s : State) (key : String) (now : Nat) : Nat :=
  (s.stamps key).countP fun t => decide (t ≤ now) && inWindow now t

/-! ### One lane's window -/

/-- A window agrees with `stamps`, the times its key was spent, as far as `clock` can see. -/
structure WindowInv (clock : Nat) (stamps sent : List Nat) : Prop where
  sorted : sent.Pairwise (· ≤ ·)
  le_clock : ∀ t ∈ sent, t ≤ clock
  count : ∀ t, inWindow clock t = true → sent.count t = stamps.count t

namespace WindowInv
variable {clock now : Nat} {stamps stamps' sent : List Nat}

theorem congr (h : WindowInv clock stamps sent) (hs : ∀ t, stamps.count t = stamps'.count t) :
    WindowInv clock stamps' sent :=
  ⟨h.sorted, h.le_clock, fun t ht => (h.count t ht).trans (hs t)⟩

theorem later (h : WindowInv clock stamps sent) (hc : clock ≤ now) : WindowInv now stamps sent :=
  ⟨h.sorted, fun t ht => (h.le_clock t ht).trans hc, fun t ht => h.count t (inWindow_of_le hc ht)⟩

theorem evict (h : WindowInv clock stamps sent) (hc : clock ≤ now) :
    WindowInv now stamps (evict now sent) := by
  have h := h.later hc
  refine ⟨h.sorted.sublist (List.dropWhile_sublist _), fun t ht => h.le_clock t (mem_of_mem_evict ht),
    fun t ht => ?_⟩
  rw [← List.count_filter ht, filter_evict, List.count_filter ht, h.count t ht]

theorem ages {l l' : Lane} (h : WindowInv clock stamps l.sent) (hc : clock ≤ now)
    (ha : LaneAges now l l') : WindowInv now stamps l'.sent := by
  rcases ha with rfl | rfl
  · exact h.later hc
  · exact h.evict hc

theorem push (h : WindowInv now stamps sent) : WindowInv now (stamps ++ [now]) (sent ++ [now]) := by
  refine ⟨?_, fun t ht => ?_, fun t ht => ?_⟩
  · refine List.pairwise_append.2 ⟨h.sorted, List.pairwise_singleton .., fun a ha b hb => ?_⟩
    rw [List.mem_singleton.1 hb]
    exact h.le_clock a ha
  · rcases List.mem_append.1 ht with ht | ht
    · exact h.le_clock t ht
    · exact (List.mem_singleton.1 ht).le
  · simp only [List.count_append, h.count t ht]

/-- The last stamp equal to `stamp` is as good as any: only how often a stamp occurs matters. -/
theorem release {stamp : Nat} (h : WindowInv clock stamps sent)
    (hs : ∀ t, stamps.count t = stamps'.count t + if stamp = t then 1 else 0) :
    WindowInv clock stamps' (sent.reverse.erase stamp).reverse := by
  have hsub : (sent.reverse.erase stamp).reverse.Sublist sent := by
    have : (sent.reverse.erase stamp).reverse.Sublist sent.reverse.reverse := List.erase_sublist.reverse
    rwa [List.reverse_reverse] at this
  refine ⟨h.sorted.sublist hsub, fun t ht => h.le_clock t (hsub.subset ht), fun t ht => ?_⟩
  have hc := h.count t ht
  have hs := hs t
  rw [List.count_reverse, List.count_erase, List.count_reverse]
  split at hs
  · rename_i he
    subst he
    simp only [beq_self_eq_true, ↓reduceIte]
    omega
  · rename_i he
    have hne : (stamp == t) = false := by simpa using he
    simp only [hne, Bool.false_eq_true, ↓reduceIte]
    omega

/-- The load the limiter compares with the budget is the number of spent stamps in the window. -/
theorem length_evict (h : WindowInv now stamps sent) :
    (stamps.filter (inWindow now)).length = (OpenProxy.evict now sent).length := by
  rw [evict_eq_filter h.sorted]
  apply List.Perm.length_eq
  rw [List.perm_iff_count]
  intro t
  cases ht : inWindow now t with
  | true => rw [List.count_filter ht, List.count_filter ht, h.count t ht]
  | false =>
    rw [List.count_eq_zero_of_not_mem fun hm => by simpa [ht] using (List.mem_filter.1 hm).2,
      List.count_eq_zero_of_not_mem fun hm => by simpa [ht] using (List.mem_filter.1 hm).2]

end WindowInv

theorem State.count_stamps (s : State) (key : String) (t : Nat) :
    (s.stamps key).count t = s.grants.countP fun g => s.spends key g && g.stamp == t := by
  rw [State.stamps, List.count, List.countP_map, List.countP_filter]
  exact List.countP_congr fun g _ => by simp [and_comm]

/-! ### The invariant of a run -/

structure Inv (s : State) : Prop where
  fits : ∃ specs, s.history[s.newest]? = some specs ∧ keysDistinct specs ∧ Fits specs s.pool
  history_length : s.history.length = s.newest + 1
  gen_le : ∀ g ∈ s.grants, g.gen ≤ s.newest
  stamp_le : ∀ g ∈ s.grants, g.stamp ≤ s.clock
  refunded : ∀ g ∈ s.grants, g.refunded = true → g.released = true
  lane_key : ∀ g ∈ s.grants, g.gen = s.newest → (s.pool.lanes[g.lane]?).map (·.key) = some g.key
  window : ∀ {i : Nat} {l : Lane}, s.pool.lanes[i]? = some l → WindowInv s.clock (s.stamps l.key) l.sent

namespace Inv
variable {s : State}

theorem nodup_keys (h : Inv s) : (s.pool.lanes.map (·.key)).Nodup := by
  obtain ⟨specs, -, hd, hf⟩ := h.fits
  exact hf.perm_keys.nodup_iff.2 hd

theorem lane_inj (h : Inv s) {i j : Nat} {l l' : Lane} (hi : s.pool.lanes[i]? = some l)
    (hj : s.pool.lanes[j]? = some l') (hk : l.key = l'.key) : i = j := by
  refine (List.getElem?_inj ?_ h.nodup_keys).1 ?_
  · rw [List.length_map]; exact (List.getElem?_eq_some_iff.1 hi).1
  · simp only [List.getElem?_map, hi, hj, Option.map_some, hk]

/-- A key was kept up to now only if the newest pool has a lane for it. -/
theorem mem_keys_of_keptSince (h : Inv s) {gen : Nat} {key : String} (hg : gen ≤ s.newest)
    (hk : s.keptSince gen key = true) : key ∈ s.pool.lanes.map (·.key) := by
  obtain ⟨specs, hs, -, hf⟩ := h.fits
  have hmem : specs ∈ s.history.drop gen := by
    refine List.mem_iff_getElem?.2 ⟨s.newest - gen, ?_⟩
    rw [List.getElem?_drop, Nat.add_sub_cancel' hg, hs]
  have := List.all_eq_true.1 hk specs hmem
  exact hf.perm_keys.mem_iff.2 (by simpa using this)

/-- A key with a lane in the newest pool is kept since the newest generation. -/
theorem keptSince_newest (h : Inv s) {key : String} (hk : key ∈ s.pool.lanes.map (·.key)) :
    s.keptSince s.newest key = true := by
  obtain ⟨specs, hs, -, hf⟩ := h.fits
  have hlt := (List.getElem?_eq_some_iff.1 hs).1
  have hdrop : s.history.drop s.newest = [specs] := by
    rw [List.drop_eq_getElem_cons hlt, (List.getElem?_eq_some_iff.1 hs).2,
      List.drop_eq_nil_of_le (by rw [h.history_length])]
  simpa [State.keptSince, hdrop] using hf.perm_keys.mem_iff.1 hk

theorem not_refunded (h : Inv s) {g : Grant} (hg : g ∈ s.grants) (hr : g.released = false) :
    g.refunded = false := by
  cases hf : g.refunded with
  | false => rfl
  | true => rw [h.refunded g hg hf] at hr; cases hr

theorem spends_newest (h : Inv s) {g : Grant} (hgen : g.gen = s.newest) (hr : g.refunded = false)
    {i : Nat} {l : Lane} (hl : s.pool.lanes[i]? = some l) :
    s.spends l.key g = decide (g.key = l.key) := by
  have hk := h.keptSince_newest (List.mem_map.2 ⟨l, List.mem_of_getElem? hl, rfl⟩)
  rw [State.spends, hgen, hk, hr]
  simp [beq_eq_decide]

/-! ### Preservation, one operation at a time -/

theorem start {specs : List LaneSpec} (hd : keysDistinct specs) (now : Nat) :
    Inv (PoolWindow.start specs now) := by
  have hf : Fits specs (Pool.new specs now) := .assemble specs none now
  refine ⟨⟨specs, rfl, hd, hf⟩, rfl, by simp [PoolWindow.start], by simp [PoolWindow.start],
    by simp [PoolWindow.start], by simp [PoolWindow.start], fun {i l} hl => ?_⟩
  obtain ⟨spec, -, rfl⟩ := List.mem_map.1 (List.mem_of_getElem? hl)
  exact ⟨.nil, fun t ht => (by cases ht), fun t _ => rfl⟩

/-- The pool changes, no grant does: the lanes keep their configured part and their agreement with the
spent stamps. -/
theorem setPool (h : Inv s) {p : Pool} {now : Nat} (hc : s.clock ≤ now) (hp : SameLanes s.pool p)
    (hw : ∀ {i : Nat} {l : Lane}, p.lanes[i]? = some l → WindowInv now (s.stamps l.key) l.sent) :
    Inv { s with pool := p, clock := now } := by
  obtain ⟨specs, hs, hd, hf⟩ := h.fits
  refine ⟨⟨specs, hs, hd, hf.sameLanes hp⟩, h.history_length, h.gen_le,
    fun g hg => (h.stamp_le g hg).trans hc, h.refunded, fun g hg hgen => ?_, hw⟩
  rw [← h.lane_key g hg hgen]
  exact hp.key_eq g.lane

theorem ages (h : Inv s) {p : Pool} {now : Nat} (hc : s.clock ≤ now) (hp : Ages now s.pool p) :
    Inv { s with pool := p, clock := now } := by
  refine h.setPool hc hp.sameLanes fun {i l'} hl' => ?_
  obtain ⟨l, hl, ha⟩ := hp.lane_of hl'
  rw [ha.key_eq]
  exact (h.window hl).ages hc ha

theorem grant (h : Inv s) {p : Pool} {allowed : Option (List Nat)} {now i : Nat} {key : String}
    (hc : s.clock ≤ now) (ht : Takes allowed now s.pool i key p) :
    Inv { s with pool := p, grants := s.grants ++ [⟨s.newest, i, key, now, false, false⟩], clock := now } := by
  obtain ⟨l, hl, rfl, -, -, -, q, hq, rfl⟩ := ht.lane
  have hage := h.ages hc hq
  obtain ⟨l', hl', ha⟩ := hq.lane hl
  have hkept := h.keptSince_newest (List.mem_map.2 ⟨l, List.mem_of_getElem? hl, rfl⟩)
  obtain ⟨specs, hs, hd, hf⟩ := hage.fits
  refine ⟨⟨specs, hs, hd, hf.sameLanes (.setSent ..)⟩, h.history_length, fun g hg => ?_, fun g hg => ?_,
    fun g hg => ?_, fun g hg hgen => ?_, fun {j m} hm => ?_⟩
  · rcases List.mem_append.1 hg with hg | hg
    · exact h.gen_le g hg
    · rw [List.mem_singleton.1 hg]; exact Nat.le_refl _
  · rcases List.mem_append.1 hg with hg | hg
    · exact hage.stamp_le g hg
    · rw [List.mem_singleton.1 hg]
  · rcases List.mem_append.1 hg with hg | hg
    · exact h.refunded g hg
    · rw [List.mem_singleton.1 hg]; simp
  · rcases List.mem_append.1 hg with hg | hg
    · rw [← hage.lane_key g hg hgen]
      exact (SameLanes.setSent ..).key_eq g.lane
    · rw [List.mem_singleton.1 hg, (SameLanes.setSent q i _).key_eq, hl']
      simp only [Option.map_some, ha.key_eq]
  · have hst : ∀ k, State.stamps { s with
          pool := q.setSent i (evict now l.sent ++ [now])
          grants := s.grants ++ [⟨s.newest, i, l.key, now, false, false⟩]
          clock := now } k = if k = l.key then s.stamps k ++ [now] else s.stamps k := by
      intro k
      have hg : s.spends k ⟨s.newest, i, l.key, now, false, false⟩ = decide (k = l.key) := by
        by_cases hk : k = l.key
        · subst hk; simp [State.spends, hkept]
        · simp [State.spends, hk, Ne.symm hk]
      show ((s.grants ++ [_]).filter (s.spends k)).map Grant.stamp = _
      rw [List.filter_append, List.filter_singleton, hg]
      split <;> simp_all [State.stamps]
    rw [hst]
    rw [getElem?_setSent] at hm
    obtain ⟨m', hm', rfl⟩ := Option.map_eq_some_iff.1 hm
    by_cases hij : i = j
    · subst hij
      obtain rfl : m' = l' := Option.some.inj (hm'.symm.trans hl')
      simp only [↓reduceIte, ha.key_eq]
      exact ((h.window hl).evict hc).push
    · have hne : m'.key ≠ l.key := fun hk => hij (hage.lane_inj hl' hm' (by rw [ha.key_eq, hk]))
      simp only [hij, ↓reduceIte, hne]
      exact hage.window hm'

/-- What happens to a retired generation does not reach the newest one. -/
theorem modifyPast (h : Inv s) (g : Nat) (f : Pool → Pool) :
    Inv { s with past := s.past.modify g f } := by
  have hn : State.newest { s with past := s.past.modify g f } = s.newest := List.length_modify ..
  refine ⟨?_, ?_, ?_, h.stamp_le, h.refunded, ?_, h.window⟩
  · rw [hn]; exact h.fits
  · rw [hn]; exact h.history_length
  · rw [hn]; exact h.gen_le
  · rw [hn]; exact h.lane_key

theorem penalize (h : Inv s) (gen lane backoff now : Nat) :
    Inv (s.onGen gen (·.penalize lane backoff now)) := by
  unfold State.onGen
  split
  · refine h.setPool (Nat.le_refl s.clock) (.penalize ..) fun {i l'} hl' => ?_
    simp only [Pool.penalize, List.getElem?_modify] at hl'
    obtain ⟨l, hl, rfl⟩ := Option.map_eq_some_iff.1 hl'
    have := h.window hl
    split <;> exact this
  · exact h.modifyPast gen _

/-- Marking a grant released takes its stamp out of what its key spent when the mark is a refund. -/
theorem count_stamps_set (h : Inv s) {n : Nat} {g : Grant} (hn : s.grants[n]? = some g)
    (hg : g.released = false) (refund : Bool) (key : String) (t : Nat) :
    (s.stamps key).count t =
      (State.stamps { s with grants := s.grants.set n { g with released := true, refunded := refund } }
        key).count t + if s.spends key g = true ∧ refund = true ∧ g.stamp = t then 1 else 0 := by
  obtain ⟨hlt, hget⟩ := List.getElem?_eq_some_iff.1 hn
  have hnot := h.not_refunded (List.mem_of_getElem? hn) hg
  have hpos : (s.spends key g && g.stamp == t) = true →
      0 < s.grants.countP fun g => s.spends key g && g.stamp == t :=
    fun hp => List.countP_pos_iff.2 ⟨g, List.mem_of_getElem? hn, hp⟩
  rw [State.count_stamps, State.count_stamps]
  show s.grants.countP (fun g => s.spends key g && g.stamp == t) =
    (s.grants.set n _).countP (fun g => s.spends key g && g.stamp == t) + _
  rw [List.countP_set hlt, hget]
  have hspends : s.spends key { g with released := true, refunded := refund } =
      (s.spends key g && !refund) := by
    simp only [State.spends, hnot]
    cases g.key == key <;> cases refund <;> simp
  rw [hspends]
  cases hs : s.spends key g <;> cases refund <;> by_cases ht : g.stamp = t <;>
    simp_all

theorem release (h : Inv s) {n : Nat} {g : Grant} (hn : s.grants[n]? = some g) (hg : g.released = false) :
    Inv { s.onGen g.gen (·.release g.lane g.stamp) with
      grants := s.grants.set n { g with released := true, refunded := decide (g.gen = s.newest) } } := by
  have hmem := List.mem_of_getElem? hn
  have hset : ∀ {P : Grant → Prop} {refund : Bool}, (∀ g' ∈ s.grants, P g') →
      (P g → P { g with released := true, refunded := refund }) →
      ∀ g' ∈ s.grants.set n { g with released := true, refunded := refund }, P g' := by
    intro P refund hP hmark g' hg'
    rcases List.mem_or_eq_of_mem_set hg' with hg' | rfl
    · exact hP g' hg'
    · exact hmark (hP g hmem)
  unfold State.onGen
  by_cases hgen : g.gen = s.newest
  · -- the newest generation: stamp and grant go together
    rw [if_pos hgen, decide_eq_true hgen]
    have hcount := h.count_stamps_set hn hg true
    have hsame : SameLanes s.pool (s.pool.release g.lane g.stamp) := .release ..
    obtain ⟨specs, hs, hd, hf⟩ := h.fits
    refine ⟨⟨specs, hs, hd, hf.sameLanes hsame⟩, h.history_length, hset h.gen_le id, hset h.stamp_le id,
      hset h.refunded fun _ _ => rfl, ?_, fun {j l} hl => ?_⟩
    · refine hset (fun g' hg' hgen' => ?_) id
      rw [hsame.key_eq]
      exact h.lane_key g' hg' hgen'
    · obtain ⟨l₀, hl₀, hk₀⟩ := Option.map_eq_some_iff.1 (h.lane_key g hmem hgen)
      rw [getElem?_release] at hl
      obtain ⟨l', hl', rfl⟩ := Option.map_eq_some_iff.1 hl
      have hsp := h.spends_newest hgen (h.not_refunded hmem hg) hl'
      by_cases hj : g.lane = j
      · obtain rfl : l' = l₀ := by rw [hj, hl'] at hl₀; exact Option.some.inj hl₀
        simp only [hj, ↓reduceIte]
        refine (h.window hl').release fun t => ?_
        rw [hk₀, decide_eq_true rfl] at hsp
        have := hcount g.key t
        simp only [hsp, true_and, hj] at this
        rw [hk₀]
        exact this
      · have hne : g.key ≠ l'.key := fun hk => hj (h.lane_inj hl₀ hl' (hk₀.trans hk))
        simp only [hj, ↓reduceIte]
        refine (h.window hl').congr fun t => ?_
        have := hcount l'.key t
        simp only [hsp, hne, decide_false, Bool.false_eq_true, false_and, ↓reduceIte, Nat.add_zero] at this
        exact this
  · -- a retired one: the stamp stays on the newest generation, and so does the grant
    rw [if_neg hgen, decide_eq_false hgen]
    have hcount := h.count_stamps_set hn hg false
    have h := h.modifyPast g.gen (·.release g.lane g.stamp)
    refine ⟨h.fits, h.history_length, hset h.gen_le id, hset h.stamp_le id,
      hset h.refunded fun _ _ => rfl, hset h.lane_key id, fun {j l} hl => ?_⟩
    refine (h.window hl).congr fun t => ?_
    have := hcount l.key t
    simp only [Bool.false_eq_true, false_and, and_false, ↓reduceIte, Nat.add_zero] at this
    exact this

theorem rebuild (h : Inv s) {specs : List LaneSpec} (hd : keysDistinct specs) (now : Nat) :
    Inv { s with
      past := s.past ++ [s.pool], pool := s.pool.rebuild specs now, history := s.history ++ [specs] } := by
  have hnew : State.newest { s with
      past := s.past ++ [s.pool], pool := s.pool.rebuild specs now, history := s.history ++ [specs] } =
      s.newest + 1 := by simp [State.newest]
  refine ⟨⟨specs, ?_, hd, .assemble specs (some s.pool) now⟩, ?_, fun g hg => ?_, h.stamp_le, h.refunded,
    fun g hg hgen => ?_, fun {i l} hl => ?_⟩
  · rw [hnew, ← h.history_length, List.getElem?_concat_length]
  · rw [hnew, List.length_append, h.history_length, List.length_singleton]
  · rw [hnew]; exact Nat.le_succ_of_le (h.gen_le g hg)
  · have := h.gen_le g hg
    omega
  · obtain ⟨spec, hspec, hkey, hsent⟩ := rebuild_lane hl
    have hkept : ∀ g ∈ s.grants, State.spends { s with
        past := s.past ++ [s.pool], pool := s.pool.rebuild specs now, history := s.history ++ [specs] }
        l.key g = s.spends l.key g := by
      intro g hg
      have hle : g.gen ≤ s.history.length := by have := h.gen_le g hg; have := h.history_length; omega
      have hin : (specs.map (·.key)).contains l.key = true := by
        rw [hkey, List.contains_iff_mem]; exact List.mem_map_of_mem hspec
      simp only [State.spends, State.keptSince, List.drop_append_of_le_length hle, List.all_append,
        List.all_cons, List.all_nil, hin, Bool.and_true]
    have hstamps : State.stamps { s with
        past := s.past ++ [s.pool], pool := s.pool.rebuild specs now, history := s.history ++ [specs] }
        l.key = s.stamps l.key := congrArg (List.map Grant.stamp) (List.filter_congr hkept)
    rw [hstamps]
    rcases hsent with ⟨j, l', hl', hk', hsent⟩ | ⟨hno, hsent⟩
    · rw [hsent, ← hk']
      exact h.window hl'
    · -- a key without a lane in the old pool: nothing granted before counts
      have hnone : s.stamps l.key = [] := by
        rw [State.stamps, List.map_eq_nil_iff, List.filter_eq_nil_iff]
        intro g hg hsp
        simp only [State.spends, Bool.and_eq_true] at hsp
        exact hno (h.mem_keys_of_keptSince (h.gen_le g hg) hsp.2)
      rw [hsent, hnone]
      exact ⟨.nil, fun t ht => (by cases ht), fun t _ => rfl⟩

end Inv

theorem step_inv {s s' : State} {op : Op} (h : Inv s) (hs : step s op = some s') : Inv s' := by
  cases op with
  | reserve prefer allowed now =>
    simp only [step] at hs
    split at hs
    · rename_i hc
      split at hs
      · rename_i he
        obtain ⟨rfl, ht⟩ := reserveFiltered_ready he
        cases hs
        exact h.grant hc ht
      · rename_i he
        cases hs
        exact h.ages hc (reserveFiltered_wait he)
    · cases hs
  | release n =>
    simp only [step] at hs
    split at hs
    · cases hs
    · rename_i g hn
      split at hs
      · cases hs
      · rename_i hg
        cases hs
        exact h.release hn (by simpa using hg)
  | penalize gen lane backoff now =>
    cases hs
    exact h.penalize gen lane backoff now
  | rebuild specs now =>
    simp only [step] at hs
    split at hs
    · rename_i hd
      cases hs
      exact h.rebuild hd now
    · cases hs

theorem exec_inv {specs : List LaneSpec} {now₀ : Nat} {ops : List Op} {s : State}
    (hd : keysDistinct specs) (h : exec step (start specs now₀) ops = some s) : Inv s :=
  exec_invariant (fun _ _ _ hI hs => step_inv hI hs) (.start hd now₀) h

/-! ### Spec lemmas of the step -/

theorem step_reserve {s s' : State} {prefer : Option Nat} {allowed : Option (List Nat)} {now : Nat}
    (h : step s (.reserve prefer allowed now) = some s') :
    s'.past = s.past ∧ s'.history = s.history ∧
    ((∃ lane key stamp sticky,
        (s.pool.reserveFiltered prefer allowed now).1 = .ready lane key stamp sticky ∧
        s'.grants = s.grants ++ [⟨s.newest, lane, key, stamp, false, false⟩]) ∨
      ((∃ d, (s.pool.reserveFiltered prefer allowed now).1 = .wait d) ∧ s'.grants = s.grants)) := by
  simp only [step] at h
  split at h
  · split at h
    · rename_i he
      cases h
      exact ⟨rfl, rfl, .inl ⟨_, _, _, _, by rw [he], rfl⟩⟩
    · rename_i he
      cases h
      exact ⟨rfl, rfl, .inr ⟨⟨_, by rw [he]⟩, rfl⟩⟩
  · cases h

theorem step_release {s s' : State} {n : Nat} (h : step s (.release n) = some s') :
    ∃ g, s.grants[n]? = some g ∧ g.released = false ∧ s'.history = s.history ∧
      s'.grants = s.grants.set n { g with released := true, refunded := decide (g.gen = s.newest) } ∧
      (g.gen = s.newest → s'.past = s.past) := by
  simp only [step] at h
  split at h
  · cases h
  · rename_i g hn
    split at h
    · cases h
    · rename_i hg
      cases h
      refine ⟨g, hn, by simpa using hg, ?_, rfl, fun hgen => ?_⟩
      · unfold State.onGen; split <;> rfl
      · unfold State.onGen; rw [if_pos hgen]

theorem reserve_sameLanes {s s' : State} {prefer : Option Nat} {allowed : Option (List Nat)} {now : Nat}
    (h : step s (.reserve prefer allowed now) = some s') : SameLanes s.pool s'.pool := by
  have hp := SameLanes.reserveFiltered s.pool prefer allowed now
  simp only [step] at h
  split at h
  · split at h <;> (rename_i he; rw [he] at hp; cases h; exact hp)
  · cases h

theorem release_sameLanes {s s' : State} {n : Nat} (h : step s (.release n) = some s') :
    SameLanes s.pool s'.pool := by
  simp only [step] at h
  split at h
  · cases h
  · split at h
    · cases h
    · cases h
      unfold State.onGen
      split
      · exact .release ..
      · exact .refl _

/-- No rebuild so far: every return is a refund. -/
structure Sole (s : State) : Prop where
  past : s.past = []
  refunded : ∀ g ∈ s.grants, g.refunded = g.released

theorem Sole.reserve {s s' : State} {prefer : Option Nat} {allowed : Option (List Nat)} {now : Nat}
    (h : Sole s) (hs : step s (.reserve prefer allowed now) = some s') : Sole s' := by
  obtain ⟨hp, -, ⟨_, _, _, _, -, hg⟩ | ⟨-, hg⟩⟩ := step_reserve hs
  · refine ⟨hp.trans h.past, fun g hmem => ?_⟩
    rw [hg] at hmem
    rcases List.mem_append.1 hmem with hmem | hmem
    · exact h.refunded g hmem
    · rw [List.mem_singleton.1 hmem]
  · exact ⟨hp.trans h.past, by rw [hg]; exact h.refunded⟩

theorem Sole.release {s s' : State} {n : Nat} (h : Sole s) (hI : Inv s)
    (hs : step s (.release n) = some s') : Sole s' := by
  obtain ⟨g, hn, -, -, hg, hp⟩ := step_release hs
  have hgen : g.gen = s.newest := by
    have := hI.gen_le g (List.mem_of_getElem? hn)
    have : s.newest = 0 := by rw [State.newest, h.past]; rfl
    omega
  refine ⟨(hp hgen).trans h.past, fun g' hmem => ?_⟩
  rw [hg] at hmem
  rcases List.mem_or_eq_of_mem_set hmem with hmem | rfl
  · exact h.refunded g' hmem
  · simp [hgen]

/-- Whenever a reserve of a run grants `key` on a lane, the lane is configured by an enabled spec of the
newest list, is visible through the filter and out of cooldown, and the grants of `key` in the window
that count against it, this one included, are within the lane's budget. -/
theorem reserve_within_rpm {specs₀ : List LaneSpec} {now₀ : Nat} {ops : List Op} {s s' : State}
    {prefer : Option Nat} {allowed : Option (List Nat)} {now lane stamp : Nat} {key : String}
    {sticky : Bool} {p : Pool} (hd : keysDistinct specs₀)
    (hrun : exec step (start specs₀ now₀) ops = some s)
    (hs : step s (.reserve prefer allowed now) = some s')
    (hr : s.pool.reserveFiltered prefer allowed now = (.ready lane key stamp sticky, p)) :
    s'.grants = s.grants ++ [⟨s.newest, lane, key, now, false, false⟩] ∧
    ∃ specs spec l, s.history.getLast? = some specs ∧ spec ∈ specs ∧ spec.enabled = true ∧
      spec.bare = l.bare ∧ s.pool.lanes[lane]? = some l ∧ l.key = key ∧
      allows allowed l.endpoint = true ∧ l.cooldownUntil ≤ now ∧ s'.spent key now ≤ l.rpm := by
  have hI := exec_inv hd hrun
  obtain ⟨rfl, ht⟩ := reserveFiltered_ready hr
  obtain ⟨l, hl, rfl, hallow, hcd, hload, -⟩ := ht.lane
  obtain ⟨specs, hspecs, -, hf⟩ := hI.fits
  obtain ⟨spec, hspec, hen, hbare⟩ := hf.exists_spec ht.active hl
  have hlast : s.history.getLast? = some specs := by
    rw [List.getLast?_eq_getElem?, hI.history_length, Nat.add_sub_cancel, hspecs]
  simp only [step] at hs
  split at hs
  · rename_i hc
    rw [hr] at hs
    cases hs
    refine ⟨rfl, specs, spec, l, hlast, hspec, hen, hbare, hl, rfl, hallow, hcd, ?_⟩
    have hkept := hI.keptSince_newest (List.mem_map.2 ⟨l, List.mem_of_getElem? hl, rfl⟩)
    have hle : ∀ t ∈ s.stamps l.key, t ≤ stamp := by
      intro t ht
      obtain ⟨g, hg, rfl⟩ := List.mem_map.1 ht
      exact (hI.stamp_le g (List.mem_of_mem_filter hg)).trans hc
    have hbefore : s.spent l.key stamp = (evict stamp l.sent).length := by
      rw [← ((hI.window hl).later hc).length_evict, State.spent, List.countP_eq_length_filter]
      exact congrArg List.length (List.filter_congr fun t ht => by simp [hle t ht])
    have hafter : State.spent { s with
        pool := p, grants := s.grants ++ [⟨s.newest, lane, l.key, stamp, false, false⟩], clock := stamp }
        l.key stamp = s.spent l.key stamp + 1 := by
      have hw : inWindow stamp stamp = true := by rw [inWindow_eq]; simp [window, ofSecs]
      show List.countP _ (((s.grants ++ [_]).filter (s.spends l.key)).map Grant.stamp) = _
      rw [List.filter_append, List.map_append, List.countP_append]
      congr 1
      simp [State.spends, hkept, hw]
    rw [hafter, hbefore]
    exact hload
  · cases hs

/-- Two keys, one lane each. -/
def twoKeys : List LaneSpec :=
  [⟨"a", 2, true, 0, "https://a", "nim", true⟩, ⟨"b", 2, true, 1, "https://b", "x", true⟩]

/-- Grants on both sides of a rebuild that reorders the keys, raises a budget and disables a key, with a
refund and a penalty before it. -/
def rotation : List Op :=
  [.reserve none (some [0]) 10, .reserve none none 20, .reserve none (some [0]) 30, .release 0,
    .penalize 0 1 5 30,
    .rebuild [⟨"b", 2, false, 1, "https://b", "x", true⟩, ⟨"a", 3, true, 0, "https://a", "nim", true⟩] 35]

theorem reserve_within_rpm_rotation :
    ∃ s s' l, exec step (start twoKeys 0) rotation = some s ∧
      step s (.reserve none (some [0]) 40) = some s' ∧ s.pool.lanes[0]? = some l ∧
      l.rpm = 3 ∧ s'.spent "a" 40 ≤ l.rpm := by
  have hrun : (exec step (start twoKeys 0) rotation).map (fun s =>
      ((s.pool.reserveFiltered none (some [0]) 40).1, (step s (.reserve none (some [0]) 40)).isSome,
        (s.pool.lanes[0]?).map (·.rpm))) = some (.ready 0 "a" 40 false, true, some 3) := by
    decide +kernel
  obtain ⟨s, hs, h⟩ := Option.map_eq_some_iff.1 hrun
  simp only [Prod.mk.injEq] at h
  obtain ⟨hr, hstep, hrpm⟩ := h
  obtain ⟨s', hs'⟩ := Option.isSome_iff_exists.1 hstep
  obtain ⟨-, specs, spec, l, -, -, -, -, hl, -, -, -, hle⟩ :=
    reserve_within_rpm (by decide +kernel) hs hs' (Prod.ext hr rfl)
  rw [hl] at hrpm
  exact ⟨s, s', l, hs, hs', hl, Option.some.inj hrpm, hle⟩

end OpenProxy.PoolWindow
