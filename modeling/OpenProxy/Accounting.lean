import OpenProxy.Refusal

/-!
# What the scanner accounts for (`start_boot`, `ingest_record`, `invalidate` of `history/store.rs`)

Every line that is not blank is committed, stands in the candidate epoch, or is counted as excluded, and at
most the last recovery gap is open. `record_cases` and `decided` say once what a line can do to the scanner;
a line that is no record does what a record does that the scanner does not take.
-/

namespace OpenProxy

open Lines

/-! ### Recovery gaps -/

def RecoveryGap.isOpen (gap : RecoveryGap) : Prop := gap.«to» = maxU64

instance : DecidablePred RecoveryGap.isOpen := fun gap => inferInstanceAs (Decidable (gap.«to» = maxU64))

/-- No gap but the last is open. -/
def OnlyLastOpen (gaps : List RecoveryGap) : Prop := ∀ gap ∈ gaps.dropLast, ¬ gap.isOpen

/-- A gap contains the interval. -/
def Covers (gaps : List RecoveryGap) («from» «to» : Nat) : Prop :=
  ∃ gap ∈ gaps, gap.from ≤ «from» ∧ «to» ≤ gap.«to»

/-- The open gap starts early enough. -/
def Pending (gaps : List RecoveryGap) («from» : Nat) : Prop := ∃ gap ∈ gaps, gap.isOpen ∧ gap.from ≤ «from»

/-- What lies before the next boot record `boot` is covered up to it. -/
def Settled (gaps : List RecoveryGap) («from» : Nat) : Option Nat → Prop
  | some t => Covers gaps «from» t
  | none => Pending gaps «from»

theorem OnlyLastOpen.filter_le {gaps : List RecoveryGap} (h : OnlyLastOpen gaps) :
    (gaps.filter fun gap => decide gap.isOpen).length ≤ 1 := by
  rcases List.eq_nil_or_concat gaps with rfl | ⟨init, gap, rfl⟩
  · simp
  · rw [List.concat_eq_append] at h ⊢
    rw [OnlyLastOpen, List.dropLast_concat] at h
    have hinit : init.filter (fun gap => decide gap.isOpen) = [] := by
      refine List.filter_eq_nil_iff.2 fun gap hgap => ?_
      simpa using h gap hgap
    rw [List.filter_append, hinit, List.nil_append]
    exact List.length_filter_le _ _

theorem OnlyLastOpen.exists_concat {gaps : List RecoveryGap} (h : OnlyLastOpen gaps)
    (hopen : ∃ gap ∈ gaps, gap.isOpen) : ∃ init gap, gaps = init ++ [gap] ∧ gap.isOpen := by
  obtain ⟨gap, hgap, hopen⟩ := hopen
  rcases List.eq_nil_or_concat gaps with rfl | ⟨init, last, rfl⟩
  · cases hgap
  · rw [List.concat_eq_append] at hgap h ⊢
    rw [OnlyLastOpen, List.dropLast_concat] at h
    rcases List.mem_append.1 hgap with hgap | hgap
    · exact absurd hopen (h gap hgap)
    · rw [List.mem_singleton.1 hgap] at hopen
      exact ⟨init, last, rfl, hopen⟩

section
variable {V : Type} {replay : Replay V} {f t : Nat}

/-- What `open_gap` does to the list. -/
theorem gaps_openGap (replay : Replay V) (t : Nat) :
    ((∀ gap ∈ replay.gaps.getLast?, ¬ gap.isOpen) ∧ (replay.openGap t).gaps = replay.gaps ++ [⟨t, maxU64⟩]) ∨
      ∃ init gap, replay.gaps = init ++ [gap] ∧ gap.isOpen ∧
        (replay.openGap t).gaps = init ++ [{ gap with «from» := min gap.from t }] := by
  rcases List.eq_nil_or_concat replay.gaps with hnil | ⟨init, gap, hgaps⟩
  · left
    simp [Replay.openGap, hnil]
  · rw [List.concat_eq_append] at hgaps
    by_cases hgap : gap.«to» = maxU64
    · exact .inr ⟨init, gap, hgaps, hgap, by simp [Replay.openGap, hgaps, hgap]⟩
    · left
      simp [Replay.openGap, RecoveryGap.isOpen, hgaps, hgap]

/-- What `close_open_gap` does to it. -/
theorem gaps_closeOpenGap (h : OnlyLastOpen replay.gaps) (t : Nat) :
    (∃ init gap, replay.gaps = init ++ [gap] ∧ gap.isOpen ∧
      (replay.closeOpenGap t).gaps = init ++ [{ gap with «to» := t }]) ∨
    (∀ gap ∈ replay.gaps, ¬ gap.isOpen) ∧ (replay.closeOpenGap t).gaps = replay.gaps := by
  have hclosed : ∀ gaps : List RecoveryGap, (∀ gap ∈ gaps, ¬ gap.isOpen) → Replay.closeFirst t gaps = gaps := by
    intro gaps hgaps
    induction gaps with
    | nil => rfl
    | cons gap gaps ih =>
      have hgap : ¬ gap.«to» = maxU64 := hgaps gap List.mem_cons_self
      rw [Replay.closeFirst, if_neg hgap, ih fun g hg => hgaps g (List.mem_cons_of_mem _ hg)]
  rcases List.eq_nil_or_concat replay.gaps with hnil | ⟨init, gap, hgaps⟩
  · right
    simp [Replay.closeOpenGap, hnil, Replay.closeFirst]
  · rw [List.concat_eq_append] at hgaps
    rw [OnlyLastOpen, hgaps, List.dropLast_concat] at h
    by_cases hgap : gap.«to» = maxU64
    · exact .inl ⟨init, gap, hgaps, hgap, by simp [Replay.closeOpenGap, hgaps, Replay.closeFirst, hgap]⟩
    · have hall : ∀ g ∈ replay.gaps, ¬ g.isOpen := by
        intro g hg
        rw [hgaps] at hg
        rcases List.mem_append.1 hg with hg | hg
        · exact h g hg
        · rw [List.mem_singleton.1 hg]
          exact hgap
      refine .inr ⟨hall, ?_⟩
      rw [Replay.closeOpenGap, hclosed _ fun g hg => hall g (List.mem_reverse.1 hg), List.reverse_reverse]

theorem OnlyLastOpen.openGap (h : OnlyLastOpen replay.gaps) (t : Nat) : OnlyLastOpen (replay.openGap t).gaps := by
  rcases gaps_openGap replay t with ⟨hlast, hg⟩ | ⟨init, gap, hgaps, -, hg⟩
  · rw [OnlyLastOpen, hg, List.dropLast_concat]
    intro gap hgap
    rcases List.eq_nil_or_concat replay.gaps with hnil | ⟨init, last, hgaps⟩
    · rw [hnil] at hgap
      cases hgap
    · rw [List.concat_eq_append] at hgaps
      rw [OnlyLastOpen, hgaps, List.dropLast_concat] at h
      rw [hgaps] at hgap hlast
      rcases List.mem_append.1 hgap with hgap | hgap
      · exact h gap hgap
      · exact hlast gap (by simp [List.mem_singleton.1 hgap])
  · rw [OnlyLastOpen, hgaps, List.dropLast_concat] at h
    rw [OnlyLastOpen, hg, List.dropLast_concat]
    exact h

theorem OnlyLastOpen.closeOpenGap (h : OnlyLastOpen replay.gaps) (t : Nat) :
    OnlyLastOpen (replay.closeOpenGap t).gaps := by
  rcases gaps_closeOpenGap h t with ⟨init, gap, hgaps, -, hg⟩ | ⟨-, hg⟩
  · rw [OnlyLastOpen, hgaps, List.dropLast_concat] at h
    rw [OnlyLastOpen, hg, List.dropLast_concat]
    exact h
  · rw [hg]
    exact h

theorem Covers.openGap (h : Covers replay.gaps f t) (t' : Nat) : Covers (replay.openGap t').gaps f t := by
  obtain ⟨gap, hgap, hf, ht⟩ := h
  rcases gaps_openGap replay t' with ⟨-, hg⟩ | ⟨init, last, hgaps, -, hg⟩
  · rw [hg]
    exact ⟨gap, List.mem_append_left _ hgap, hf, ht⟩
  · rw [hgaps] at hgap
    rw [hg]
    rcases List.mem_append.1 hgap with hgap | hgap
    · exact ⟨gap, List.mem_append_left _ hgap, hf, ht⟩
    · obtain rfl := List.mem_singleton.1 hgap
      exact ⟨_, List.mem_append_right _ List.mem_cons_self, (min_le_left _ _).trans hf, ht⟩

theorem Covers.closeOpenGap (hlast : OnlyLastOpen replay.gaps) (h : Covers replay.gaps f t) {t' : Nat} (ht' : t ≤ t') :
    Covers (replay.closeOpenGap t').gaps f t := by
  obtain ⟨gap, hgap, hf, ht⟩ := h
  rcases gaps_closeOpenGap hlast t' with ⟨init, last, hgaps, -, hg⟩ | ⟨-, hg⟩
  · rw [hgaps] at hgap
    rw [hg]
    rcases List.mem_append.1 hgap with hgap | hgap
    · exact ⟨gap, List.mem_append_left _ hgap, hf, ht⟩
    · obtain rfl := List.mem_singleton.1 hgap
      exact ⟨_, List.mem_append_right _ List.mem_cons_self, hf, ht'⟩
  · rw [hg]
    exact ⟨gap, hgap, hf, ht⟩

theorem Pending.openGap (h : Pending replay.gaps f) (t : Nat) : Pending (replay.openGap t).gaps f := by
  obtain ⟨gap, hgap, hopen, hf⟩ := h
  rcases gaps_openGap replay t with ⟨-, hg⟩ | ⟨init, last, hgaps, -, hg⟩
  · rw [hg]
    exact ⟨gap, List.mem_append_left _ hgap, hopen, hf⟩
  · rw [hgaps] at hgap
    rw [hg]
    rcases List.mem_append.1 hgap with hgap | hgap
    · exact ⟨gap, List.mem_append_left _ hgap, hopen, hf⟩
    · obtain rfl := List.mem_singleton.1 hgap
      exact ⟨_, List.mem_append_right _ List.mem_cons_self, hopen, (min_le_left _ _).trans hf⟩

theorem pending_openGap (replay : Replay V) {t : Nat} (h : t ≤ f) : Pending (replay.openGap t).gaps f := by
  rcases gaps_openGap replay t with ⟨-, hg⟩ | ⟨init, last, -, hopen, hg⟩
  · rw [hg]
    exact ⟨_, List.mem_append_right _ List.mem_cons_self, rfl, h⟩
  · rw [hg]
    exact ⟨_, List.mem_append_right _ List.mem_cons_self, hopen, (min_le_right _ _).trans h⟩

/-- The next accepted boot record ends what is pending. -/
theorem Pending.closeOpenGap (hlast : OnlyLastOpen replay.gaps) (h : Pending replay.gaps f) (t : Nat) :
    Covers (replay.closeOpenGap t).gaps f t := by
  obtain ⟨gap, hgap, hopen, hf⟩ := h
  rcases gaps_closeOpenGap hlast t with ⟨init, last, hgaps, -, hg⟩ | ⟨hclosed, -⟩
  · rw [OnlyLastOpen, hgaps, List.dropLast_concat] at hlast
    rw [hgaps] at hgap
    rw [hg]
    rcases List.mem_append.1 hgap with hgap | hgap
    · exact absurd hopen (hlast gap hgap)
    · obtain rfl := List.mem_singleton.1 hgap
      exact ⟨_, List.mem_append_right _ List.mem_cons_self, hf, le_rfl⟩
  · exact absurd hopen (hclosed gap hgap)

end

/-! ### What a line does -/

section
variable {V : Type}

theorem excludeEpoch_eq (replay : Replay V) (epoch : Epoch V) (damaging : Bool) :
    replay.excludeEpoch epoch damaging = { replay with
      excludedEpochs := replay.excludedEpochs + 1
      excludedRecords := replay.excludedRecords + epoch.records.length + damaging.toNat
      gaps := (replay.openGap epoch.from).gaps } := by
  unfold Replay.excludeEpoch Replay.openGap
  dsimp only
  split
  · split <;> rfl
  · rfl

theorem excludeRecord_eq (replay : Replay V) (t : Nat) :
    replay.excludeRecord.openGap t = { replay with
      excludedRecords := replay.excludedRecords + 1
      gaps := (replay.openGap t).gaps } := by
  unfold Replay.excludeRecord Replay.openGap
  dsimp only
  split
  · split <;> rfl
  · rfl

namespace Scanner

/-- The candidate epoch. -/
def candidate (s : Scanner V) : Option (Epoch V) :=
  match s.state with
  | .awaitSample epoch | .usable epoch => some epoch
  | .awaitBoot | .invalidEpoch => none

def candidateRecords (s : Scanner V) : List (Record V) := s.candidate.elim [] Epoch.records

/-- The record goes on the candidate epoch, which a sample has to open. -/
def Continues (s : Scanner V) (r : Record V) : Prop :=
  ∃ epoch, s.candidate = some epoch ∧ epoch.bootId = r.bootId ∧ (s.state = .awaitSample epoch → r.isSample = true)

/-- The scanner takes the record. -/
def Takes (s : Scanner V) (r : Record V) : Prop :=
  s.replay.orderingBound.getD 0 ≤ r.timestamp ∧ (r.isBoot = true ∨ s.Continues r)

/-- The scanner with the bound of a timestamp. -/
def advance (s : Scanner V) (t : Nat) : Scanner V := { s with replay := s.replay.advanceOrderingBound t }

theorem advance_of_le {s : Scanner V} {t bound : Nat} (hb : s.replay.orderingBound = some bound) (h : t ≤ bound) :
    s.advance t = s := by
  obtain ⟨state, replay, index, saw⟩ := s
  simp only [advance, Replay.advanceOrderingBound] at hb ⊢
  rw [hb, Option.getD_some, max_eq_left h, ← hb]

theorem damaged_some (s : Scanner V) (t : Nat) : s.damaged (some t) = (s.advance t).invalidate t := rfl

theorem ingestRecord_cases (s : Scanner V) {r : Record V} (hr : r.isBoot = false) :
    (¬ s.Continues r ∧ s.ingestRecord r = s.invalidate r.timestamp) ∨
    (s.Continues r ∧ ∃ epoch, s.candidate = some epoch ∧
      s.ingestRecord r = { s with state := .usable (epoch.push r) }) := by
  unfold Continues candidate ingestRecord
  cases hs : s.state with
  | awaitBoot | invalidEpoch => simp
  | usable epoch =>
    dsimp only
    by_cases hid : epoch.bootId = r.bootId
    · exact .inr ⟨⟨epoch, rfl, hid, fun h => by cases h⟩, epoch, rfl, if_pos hid⟩
    · refine .inl ⟨?_, if_neg hid⟩
      rintro ⟨_, he, hid', -⟩
      exact hid (Option.some.inj he ▸ hid')
  | awaitSample epoch =>
    cases r with
    | boot boot => cases hr
    | checkpoint r =>
      refine .inl ⟨?_, rfl⟩
      rintro ⟨_, he, -, hsample⟩
      cases hsample (congrArg _ (Option.some.inj he))
    | sample r =>
      dsimp only
      by_cases hid : epoch.bootId = (Record.sample r).bootId
      · exact .inr ⟨⟨epoch, rfl, hid, fun _ => rfl⟩, epoch, rfl, if_pos hid⟩
      · refine .inl ⟨?_, if_neg hid⟩
        rintro ⟨_, he, hid', -⟩
        exact hid (Option.some.inj he ▸ hid')

theorem record_cases (s : Scanner V) (r : Record V) :
    (¬ s.Takes r ∧ s.record r = s.damaged (some r.timestamp)) ∨
    (∃ boot, r = .boot boot ∧ s.replay.orderingBound.getD 0 ≤ boot.timestamp ∧
      s.record r = (s.advance boot.timestamp).startBoot boot) ∨
    (r.isBoot = false ∧ s.replay.orderingBound.getD 0 ≤ r.timestamp ∧ s.Continues r ∧
      ∃ epoch, s.candidate = some epoch ∧
        s.record r = { s.advance r.timestamp with state := .usable (epoch.push r) }) := by
  by_cases hle : s.replay.orderingBound.getD 0 ≤ r.timestamp
  · have hobs : r.isBoot = false → s.record r = (s.advance r.timestamp).ingestRecord r := by
      intro hr
      rw [Scanner.record, not_any_lt.2 hle, if_neg Bool.false_ne_true]
      cases r with
      | boot boot => cases hr
      | sample r | checkpoint r => rfl
    cases hr : r.isBoot with
    | true =>
      cases r with
      | boot boot =>
        refine .inr (.inl ⟨boot, rfl, hle, ?_⟩)
        rw [Scanner.record, not_any_lt.2 hle, if_neg Bool.false_ne_true]
        rfl
      | sample r | checkpoint r => cases hr
    | false =>
      rw [hobs hr]
      rcases ingestRecord_cases (s.advance r.timestamp) hr with ⟨hnot, hs⟩ | ⟨hcont, epoch, hc, hs⟩
      · refine .inl ⟨?_, hs⟩
        rintro ⟨-, h | h⟩
        · rw [h] at hr
          cases hr
        · exact hnot h
      · exact .inr (.inr ⟨rfl, hle, hcont, epoch, hc, hs⟩)
  · refine .inl ⟨fun h => hle h.1, ?_⟩
    rw [Scanner.record, eq_true_of_ne_false (mt not_any_lt.1 hle), if_pos rfl, damaged_some]
    cases hb : s.replay.orderingBound with
    | none => simp [hb] at hle
    | some bound =>
      rw [hb, Option.getD_some] at hle
      rw [advance_of_le hb (by omega)]

theorem invalidate_cases (s : Scanner V) (t : Nat) :
    (∃ epoch, s.candidate = some epoch ∧
      s.invalidate t = { s with state := .invalidEpoch, replay := s.replay.excludeEpoch epoch true }) ∨
    (s.candidate = none ∧
      s.invalidate t = { s with state := .invalidEpoch, replay := s.replay.excludeRecord.openGap t }) := by
  rw [candidate, invalidate]
  cases s.state with
  | awaitSample epoch | usable epoch => exact .inl ⟨epoch, rfl, rfl⟩
  | awaitBoot | invalidEpoch => exact .inr ⟨rfl, rfl⟩

/-- The candidate epoch decided: what `start_boot` and the end of the file make of it. -/
def decided (s : Scanner V) : Replay V :=
  match s.state with
  | .awaitSample epoch => s.replay.excludeEpoch epoch false
  | .usable epoch => s.replay.commitEpoch epoch
  | .awaitBoot | .invalidEpoch => s.replay

theorem startBoot_eq (s : Scanner V) (boot : BootRecord) : s.startBoot boot = { s with
    state := .awaitSample ⟨boot.bootId, boot.timestamp, [.boot boot]⟩
    replay := s.decided.closeOpenGap boot.timestamp } := rfl

theorem finish_eq_ok {s : Scanner V} {replay : Replay V} :
    s.finish = .ok replay ↔ s.sawNonblank = true ∧ s.decided = replay := by
  rw [finish, decided]
  cases s.state <;> cases s.sawNonblank <;> simp

theorem orderingBound_decided (s : Scanner V) : s.decided.orderingBound = s.replay.orderingBound := by
  unfold decided
  split
  · rw [excludeEpoch_eq]
  · rfl
  · rfl
  · rfl

theorem onlyLastOpen_decided {s : Scanner V} (h : OnlyLastOpen s.replay.gaps) : OnlyLastOpen s.decided.gaps := by
  unfold decided
  split
  · rw [excludeEpoch_eq]
    exact h.openGap _
  · exact h
  · exact h
  · exact h

/-! ### Every line is accounted for -/

/-- What stands in the candidate epoch is an epoch as far as it goes. -/
def IsEpoch : ScannerState V → Prop
  | .awaitSample epoch => ∃ boot : BootRecord, epoch = ⟨boot.bootId, boot.timestamp, [.boot boot]⟩
  | .usable epoch => ∃ e : CommittedEpoch V, epoch = ⟨e.boot.bootId, e.boot.timestamp, e.records⟩
  | .awaitBoot | .invalidEpoch => True

/-- After `n` lines that are not blank. -/
structure Accounts (s : Scanner V) (n : Nat) : Prop where
  epochs : ∃ es : List (CommittedEpoch V), s.replay.records = es.flatMap CommittedEpoch.records
  candidate : IsEpoch s.state
  inOrder : InOrder (s.replay.records ++ s.candidateRecords)
  bound : ∀ r ∈ s.replay.records ++ s.candidateRecords, r.timestamp ≤ s.replay.orderingBound.getD 0
  count : s.replay.records.length + s.candidateRecords.length + s.replay.excludedRecords = n
  gaps : OnlyLastOpen s.replay.gaps

theorem le_orderingBound_advance (replay : Replay V) (t : Nat) :
    replay.orderingBound.getD 0 ≤ (replay.advanceOrderingBound t).orderingBound.getD 0 :=
  le_max_left _ _

theorem isEpoch_push {epoch : Epoch V} {r : Record V} {s : Scanner V} (h : IsEpoch s.state)
    (hc : s.candidate = some epoch) (hr : r.isBoot = false) (hid : epoch.bootId = r.bootId)
    (hsample : s.state = .awaitSample epoch → r.isSample = true) : IsEpoch (.usable (epoch.push r)) := by
  obtain ⟨o, ho, hostate⟩ : ∃ o : Observation V, o.record r.bootId = r ∧ (r.isSample = true → o.state.isSome) := by
    cases r with
    | boot boot => cases hr
    | sample r => exact ⟨⟨r.timestamp, r.capacity, some r.state⟩, rfl, fun _ => rfl⟩
    | checkpoint r => exact ⟨⟨r.timestamp, r.capacity, none⟩, rfl, fun h => by cases h⟩
  rw [Scanner.candidate] at hc
  cases hs : s.state with
  | awaitBoot | invalidEpoch =>
    rw [hs] at hc
    cases hc
  | awaitSample e =>
    rw [hs] at h hc
    obtain rfl := Option.some.inj hc
    obtain ⟨boot, rfl⟩ := h
    refine ⟨⟨boot, [o], o, [], rfl, hostate (hsample hs)⟩, ?_⟩
    rw [Epoch.push, CommittedEpoch.records, List.map_singleton, show boot.bootId = r.bootId from hid, ho]
    rfl
  | usable e =>
    rw [hs] at h hc
    obtain rfl := Option.some.inj hc
    obtain ⟨⟨boot, os, first, rest, hos, hfirst⟩, rfl⟩ := h
    refine ⟨⟨boot, os ++ [o], first, rest ++ [o], by rw [hos, List.cons_append], hfirst⟩, ?_⟩
    rw [Epoch.push, CommittedEpoch.records, CommittedEpoch.records, List.map_append, List.map_singleton,
      show boot.bootId = r.bootId from hid, ho]
    rfl

namespace Accounts
variable {s : Scanner V} {n : Nat}

/-- The timestamps committed so far are below the bound, so a longer bound is one too. -/
theorem advance (h : s.Accounts n) (t : Nat) : (s.advance t).Accounts n :=
  ⟨h.epochs, h.candidate, h.inOrder, fun r hr => (h.bound r hr).trans (le_orderingBound_advance _ t), h.count, h.gaps⟩

theorem left (h : s.Accounts n) : InOrder s.replay.records ∧
    ∀ r ∈ s.replay.records, r.timestamp ≤ s.replay.orderingBound.getD 0 := by
  refine ⟨?_, fun r hr => h.bound r (List.mem_append_left _ hr)⟩
  have := h.inOrder
  rw [InOrder, List.map_append, List.pairwise_append] at this
  exact this.1

theorem invalidate (h : s.Accounts n) (t : Nat) : (s.invalidate t).Accounts (n + 1) := by
  obtain ⟨hord, hbound⟩ := h.left
  have hcount := h.count
  rw [candidateRecords] at hcount
  rcases invalidate_cases s t with ⟨epoch, hc, hs⟩ | ⟨hc, hs⟩
  · rw [hs, excludeEpoch_eq]
    refine ⟨h.epochs, trivial, ?_, ?_, ?_, h.gaps.openGap _⟩
    · simpa [candidateRecords, Scanner.candidate] using hord
    · simpa [candidateRecords, Scanner.candidate] using hbound
    · rw [hc, Option.elim_some] at hcount
      show s.replay.records.length + 0 + (s.replay.excludedRecords + epoch.records.length + 1) = n + 1
      omega
  · rw [hs, excludeRecord_eq]
    refine ⟨h.epochs, trivial, ?_, ?_, ?_, h.gaps.openGap _⟩
    · simpa [candidateRecords, Scanner.candidate] using hord
    · simpa [candidateRecords, Scanner.candidate] using hbound
    · rw [hc, Option.elim_none, List.length_nil] at hcount
      show s.replay.records.length + 0 + (s.replay.excludedRecords + 1) = n + 1
      omega

theorem damaged (h : s.Accounts n) (t : Option Nat) : (s.damaged t).Accounts (n + 1) := by
  cases t with
  | none => exact h.invalidate _
  | some t => exact (h.advance t).invalidate t

theorem inOrder_concat {records : List (Record V)} {r : Record V} (h : InOrder records)
    (hr : ∀ r' ∈ records, r'.timestamp ≤ r.timestamp) : InOrder (records ++ [r]) := by
  rw [InOrder, List.map_append, List.pairwise_append]
  refine ⟨h, List.pairwise_singleton _ _, fun t ht t' ht' => ?_⟩
  obtain ⟨r', hr', rfl⟩ := List.mem_map.1 ht
  rw [List.map_singleton, List.mem_singleton] at ht'
  exact ht' ▸ hr r' hr'

/-- What is accounted for once the candidate epoch is decided. -/
theorem decided (h : s.Accounts n) :
    (∃ es : List (CommittedEpoch V), s.decided.records = es.flatMap CommittedEpoch.records) ∧
      InOrder s.decided.records ∧ (∀ r ∈ s.decided.records, r.timestamp ≤ s.replay.orderingBound.getD 0) ∧
      s.decided.records.length + s.decided.excludedRecords = n := by
  obtain ⟨es, hes⟩ := h.epochs
  obtain ⟨hleft, hleft'⟩ := h.left
  have hord := h.inOrder
  have hall := h.bound
  have hcount := h.count
  have hstate := h.candidate
  rw [Scanner.decided]
  simp only [candidateRecords, Scanner.candidate] at hord hall hcount
  cases hs : s.state with
  | awaitSample epoch =>
    rw [hs, Option.elim_some] at hcount
    dsimp only
    rw [excludeEpoch_eq]
    refine ⟨⟨es, hes⟩, hleft, hleft', ?_⟩
    show s.replay.records.length + (s.replay.excludedRecords + epoch.records.length + 0) = n
    omega
  | usable epoch =>
    rw [hs, Option.elim_some] at hcount hord hall
    rw [hs] at hstate
    obtain ⟨e, rfl⟩ := hstate
    refine ⟨⟨es ++ [e], ?_⟩, hord, hall, ?_⟩
    · rw [List.flatMap_append, List.flatMap_singleton, ← hes]
      rfl
    · show (s.replay.records ++ e.records).length + s.replay.excludedRecords = n
      rw [List.length_append]
      exact hcount
  | awaitBoot | invalidEpoch =>
    rw [hs, Option.elim_none] at hcount
    exact ⟨⟨es, hes⟩, hleft, hleft', hcount⟩

theorem startBoot (h : s.Accounts n) {boot : BootRecord} (hle : s.replay.orderingBound.getD 0 ≤ boot.timestamp) :
    ((s.advance boot.timestamp).startBoot boot).Accounts (n + 1) := by
  obtain ⟨hes, hord, hall, hcount⟩ := (h.advance boot.timestamp).decided
  have hbound : (s.advance boot.timestamp).replay.orderingBound = some boot.timestamp := orderingBound_advance hle
  rw [hbound, Option.getD_some] at hall
  rw [startBoot_eq]
  refine ⟨hes, ⟨boot, rfl⟩, inOrder_concat hord hall, ?_, ?_,
    (onlyLastOpen_decided (h.advance boot.timestamp).gaps).closeOpenGap _⟩
  · intro r hr
    show r.timestamp ≤ (s.advance boot.timestamp).decided.orderingBound.getD 0
    rw [orderingBound_decided, hbound, Option.getD_some]
    rcases List.mem_append.1 hr with hr | hr
    · exact hall r hr
    · rw [List.mem_singleton.1 hr]
      exact le_rfl
  · show (s.advance boot.timestamp).decided.records.length + 1 +
      (s.advance boot.timestamp).decided.excludedRecords = n + 1
    omega

theorem push (h : s.Accounts n) {r : Record V} {epoch : Epoch V} (hle : s.replay.orderingBound.getD 0 ≤ r.timestamp)
    (hr : r.isBoot = false) (hcont : s.Continues r) (hc : s.candidate = some epoch) :
    Accounts { s.advance r.timestamp with state := .usable (epoch.push r) } (n + 1) := by
  obtain ⟨epoch', hc', hid, hsample⟩ := hcont
  obtain rfl : epoch' = epoch := Option.some.inj (hc'.symm.trans hc)
  have hord := h.inOrder
  have hall := h.bound
  have hcount := h.count
  rw [candidateRecords, hc, Option.elim_some] at hord hall hcount
  have hbound : (s.replay.advanceOrderingBound r.timestamp).orderingBound = some r.timestamp :=
    orderingBound_advance hle
  refine ⟨h.epochs, isEpoch_push h.candidate hc hr hid hsample, ?_, ?_, ?_, h.gaps⟩
  · show InOrder (s.replay.records ++ (epoch'.records ++ [r]))
    rw [← List.append_assoc]
    exact inOrder_concat hord fun r' hr' => (hall r' hr').trans hle
  · intro r' hr'
    show r'.timestamp ≤ (s.replay.advanceOrderingBound r.timestamp).orderingBound.getD 0
    rw [hbound, Option.getD_some]
    have hmem : r' ∈ (s.replay.records ++ epoch'.records) ++ [r] := by
      rw [List.append_assoc]
      exact hr'
    rcases List.mem_append.1 hmem with hmem | hmem
    · exact (hall r' hmem).trans hle
    · rw [List.mem_singleton.1 hmem]
  · show s.replay.records.length + (epoch'.records ++ [r]).length + s.replay.excludedRecords = n + 1
    rw [List.length_append, List.length_singleton]
    omega

theorem record (h : s.Accounts n) (r : Record V) : (s.record r).Accounts (n + 1) := by
  rcases record_cases s r with ⟨-, hs⟩ | ⟨boot, -, hle, hs⟩ | ⟨hr, hle, hcont, epoch, hc, hs⟩
  · rw [hs]
    exact h.damaged _
  · rw [hs]
    exact h.startBoot hle
  · rw [hs]
    exact h.push hle hr hcont hc

/-- Counters of lines are of no account. -/
theorem congr (h : s.Accounts n) (index : Nat) (saw : Bool) :
    Accounts { s with index := index, sawNonblank := saw } n :=
  ⟨h.epochs, h.candidate, h.inOrder, h.bound, h.count, h.gaps⟩

variable [F64 V] {json : SerdeJson V}

theorem line (h : s.Accounts n) {s' : Scanner V} {line : List UInt8} (hs : s.line json line = .ok s') :
    s'.Accounts (n + (!isBlank line).toNat) := by
  rcases line_cases json s line with ⟨hb, hl⟩ | ⟨-, -, e, hl⟩ | ⟨hb, -, hl⟩
  · rw [hs] at hl
    rw [hb, Except.ok.inj hl]
    exact h.congr _ _
  · rw [hs] at hl
    cases hl
  · rw [hs] at hl
    rw [hb, Except.ok.inj hl]
    cases decodeRecord json line with
    | ok r => exact (h.congr _ _).record r
    | error e => exact (h.congr _ _).damaged _

theorem scanLines (h : s.Accounts n) {s' : Scanner V} {lines : List (List UInt8)}
    (hs : scanLines json s lines = .ok s') : s'.Accounts (n + (lines.filter (!isBlank ·)).length) := by
  induction lines generalizing s n with
  | nil =>
    obtain rfl := Except.ok.inj hs
    exact h
  | cons line lines ih =>
    obtain ⟨s₁, hline, hlines⟩ := scanLines_cons_eq_ok.1 hs
    have hs' := ih (h.line hline) hlines
    rw [List.filter_cons]
    cases hb : isBlank line with
    | true => simpa [hb] using hs'
    | false =>
      rw [hb, Nat.add_assoc, Nat.add_comm (Bool.toNat _)] at hs'
      exact hs'

theorem rest (h : s.Accounts n) {s' : Scanner V} {rest : List UInt8} (hs : s.rest json rest = .ok s') :
    s'.Accounts (n + (!rest.isEmpty).toNat) := by
  rcases rest_cases json s rest with ⟨rfl, hr⟩ | ⟨-, -, e, hr⟩ | ⟨hne, -, hr⟩
  · rw [hs] at hr
    rw [Except.ok.inj hr]
    exact h
  · rw [hs] at hr
    cases hr
  · rw [hs] at hr
    have hempty : rest.isEmpty = false := by simpa using hne
    rw [hempty, Except.ok.inj hr]
    have hframe : Accounts { s with
        index := s.index + 1, sawNonblank := s.sawNonblank || !isBlank rest,
        replay.needsSeparator := !isBlank rest } n :=
      ⟨h.epochs, h.candidate, h.inOrder, h.bound, h.count, h.gaps⟩
    exact hframe.damaged _

end Accounts

theorem accounts_start : Accounts ({} : Scanner V) 0 :=
  ⟨⟨[], rfl⟩, trivial, List.Pairwise.nil, fun _ h => absurd h List.not_mem_nil, rfl,
    fun _ h => absurd h List.not_mem_nil⟩

end Scanner
end

end OpenProxy
