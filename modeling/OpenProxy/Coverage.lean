import OpenProxy.Accounting

/-!
# The gaps of a recovered file (`exclude_epoch`, `close_open_gap` of `history/store.rs`, `rollup` of `history.rs`)

An epoch that the scanner excludes is pending until the next boot record is accepted, which may be the one
that opens the file; from then on a recovery gap covers it, and no rollup over a part of it is complete.
-/

namespace OpenProxy

open Lines

/-! ### Where the lost epochs lie -/

section
variable {V : Type}

namespace Scanner

/-- The start of the candidate epoch, if the replay has one more excluded epoch. -/
def lostCandidate (s : Scanner V) (replay : Replay V) : List Nat :=
  if s.replay.excludedEpochs < replay.excludedEpochs then s.candidate.toList.map (·.from) else []

theorem lostCandidate_of_eq {s : Scanner V} {replay : Replay V}
    (h : replay.excludedEpochs = s.replay.excludedEpochs) : s.lostCandidate replay = [] :=
  if_neg (by omega)

theorem lostCandidate_of_succ {s : Scanner V} {replay : Replay V} {epoch : Epoch V}
    (hc : s.candidate = some epoch) (h : replay.excludedEpochs = s.replay.excludedEpochs + 1) :
    s.lostCandidate replay = [epoch.from] := by
  rw [lostCandidate, if_pos (by omega), hc]
  rfl

/-- What a step to `replay` does to the gaps; `boot` is the boot record it accepts. -/
structure Holds (s : Scanner V) (replay : Replay V) (boot : Option Nat) : Prop where
  count : s.replay.excludedEpochs + (s.lostCandidate replay).length = replay.excludedEpochs
  bound : s.replay.orderingBound.getD 0 ≤ replay.orderingBound.getD 0
  accepted : ∀ t ∈ boot, t ≤ replay.orderingBound.getD 0
  covers : ∀ f t, t ≤ s.replay.orderingBound.getD 0 → Covers s.replay.gaps f t → Covers replay.gaps f t
  lost : ∀ f, Pending s.replay.gaps f ∨ f ∈ s.lostCandidate replay → Settled replay.gaps f boot

variable {s : Scanner V} {replay : Replay V} {f t : Nat}

/-- A step that opens a gap for the candidate epoch, and excludes it. -/
theorem holds_lost {epoch : Epoch V} (hc : s.candidate = some epoch)
    (hbound : replay.orderingBound = s.replay.orderingBound)
    (hgaps : replay.gaps = (s.replay.openGap epoch.from).gaps)
    (hcount : replay.excludedEpochs = s.replay.excludedEpochs + 1) : s.Holds replay none := by
  have hlost := lostCandidate_of_succ hc hcount
  refine ⟨by rw [hlost, hcount]; rfl, hbound ▸ le_rfl, fun _ h => (by cases h), ?_, ?_⟩
  · intro f t _ h
    rw [hgaps]
    exact h.openGap _
  · intro f h
    rw [hlost, List.mem_singleton] at h
    rw [Settled, hgaps]
    rcases h with h | rfl
    · exact h.openGap _
    · exact pending_openGap _ le_rfl

/-- A step that excludes no epoch and leaves the gaps as they are, but for an open one. -/
theorem holds_kept (hbound : s.replay.orderingBound.getD 0 ≤ replay.orderingBound.getD 0)
    (hgaps : replay.gaps = s.replay.gaps ∨ ∃ t, replay.gaps = (s.replay.openGap t).gaps)
    (hcount : replay.excludedEpochs = s.replay.excludedEpochs) : s.Holds replay none := by
  have hlost := lostCandidate_of_eq hcount
  refine ⟨by rw [hlost, hcount]; rfl, hbound, fun _ h => (by cases h), ?_, ?_⟩
  · intro f t _ h
    rcases hgaps with hg | ⟨t', hg⟩
    · rw [hg]
      exact h
    · rw [hg]
      exact h.openGap _
  · intro f h
    rw [hlost] at h
    have h := h.resolve_right List.not_mem_nil
    rcases hgaps with hg | ⟨t', hg⟩
    · rw [Settled, hg]
      exact h
    · rw [Settled, hg]
      exact h.openGap _

/-- Before a longer bound the same epochs are lost. -/
theorem Holds.of_advance {boot : Option Nat} (h : (s.advance t).Holds replay boot) : s.Holds replay boot :=
  ⟨h.count, (le_orderingBound_advance _ _).trans h.bound, h.accepted,
    fun f t' ht => h.covers f t' (ht.trans (le_orderingBound_advance _ _)), h.lost⟩

/-- A boot record ends the gap. -/
theorem Holds.closeOpenGap (h : s.Holds replay none) (hlast : OnlyLastOpen replay.gaps) {t : Nat}
    (ht : replay.orderingBound.getD 0 ≤ t) :
    s.Holds { replay.closeOpenGap t with orderingBound := some t } (some t) := by
  refine ⟨h.count, h.bound.trans ht, fun t' h' => (Option.mem_some_iff.1 h').ge, ?_, ?_⟩
  · intro f t' ht' h'
    exact (h.covers f t' ht' h').closeOpenGap hlast ((ht'.trans h.bound).trans ht)
  · intro f h'
    have hpending : Pending replay.gaps f := h.lost f h'
    exact hpending.closeOpenGap hlast t

theorem holds_invalidate (s : Scanner V) (t : Nat) : s.Holds (s.invalidate t).replay none := by
  have hbound := orderingBound_invalidate s t
  rcases invalidate_cases s t with ⟨epoch, hc, hs⟩ | ⟨hc, hs⟩
  · refine holds_lost hc hbound ?_ ?_ <;> rw [hs, excludeEpoch_eq]
  · refine holds_kept (by rw [hbound]) (.inr ⟨t, ?_⟩) ?_ <;> rw [hs, excludeRecord_eq]

theorem holds_damaged (s : Scanner V) (t : Option Nat) : s.Holds (s.damaged t).replay none := by
  cases t with
  | none => exact holds_invalidate s _
  | some t => exact (holds_invalidate (s.advance t) t).of_advance

theorem holds_decided (s : Scanner V) : s.Holds s.decided none := by
  cases hs : s.state with
  | awaitSample epoch =>
    have hc : s.candidate = some epoch := by rw [candidate, hs]
    refine holds_lost hc (orderingBound_decided s) ?_ ?_ <;> rw [decided, hs] <;> dsimp only <;> rw [excludeEpoch_eq]
  | usable epoch | awaitBoot | invalidEpoch =>
    refine holds_kept (by rw [orderingBound_decided]) (.inl ?_) ?_ <;> rw [decided, hs] <;> rfl

theorem holds_startBoot (hlast : OnlyLastOpen s.replay.gaps) {boot : BootRecord}
    (hle : s.replay.orderingBound.getD 0 ≤ boot.timestamp) :
    s.Holds ((s.advance boot.timestamp).startBoot boot).replay (some boot.timestamp) := by
  have hbound : (s.advance boot.timestamp).decided.orderingBound = some boot.timestamp :=
    (orderingBound_decided _).trans (orderingBound_advance hle)
  have hclose := (holds_decided (s.advance boot.timestamp)).closeOpenGap (onlyLastOpen_decided hlast)
    (by rw [hbound, Option.getD_some])
  rw [startBoot_eq]
  have heq : { (s.advance boot.timestamp).decided.closeOpenGap boot.timestamp with
      orderingBound := some boot.timestamp } = (s.advance boot.timestamp).decided.closeOpenGap boot.timestamp := by
    rw [← hbound]
    rfl
  rw [heq] at hclose
  exact hclose.of_advance

/-- The record is a boot record, and in time. -/
def acceptsRecord (s : Scanner V) : Record V → Option BootRecord
  | .boot boot => if s.replay.orderingBound.any (boot.timestamp < ·) then none else some boot
  | _ => none

theorem acceptsRecord_of_not_takes {r : Record V} (h : ¬ s.Takes r) : s.acceptsRecord r = none := by
  cases r with
  | sample r | checkpoint r => rfl
  | boot boot =>
    refine if_pos ?_
    by_contra hle
    exact h ⟨not_any_lt.1 (eq_false_of_ne_true hle), .inl rfl⟩

theorem holds_record (hlast : OnlyLastOpen s.replay.gaps) (r : Record V) :
    s.Holds (s.record r).replay ((s.acceptsRecord r).map (·.timestamp)) := by
  rcases record_cases s r with ⟨hnot, hs⟩ | ⟨boot, rfl, hle, hs⟩ | ⟨hr, hle, -, epoch, -, hs⟩
  · rw [hs, acceptsRecord_of_not_takes hnot]
    exact holds_damaged _ _
  · rw [hs, acceptsRecord, not_any_lt.2 hle, if_neg Bool.false_ne_true]
    exact holds_startBoot hlast hle
  · rw [hs]
    cases r with
    | boot boot => cases hr
    | sample r | checkpoint r => exact holds_kept (le_orderingBound_advance _ _) (.inl rfl) rfl

theorem Holds.congr {boot : Option Nat} {index : Nat} {saw : Bool}
    (h : Holds { s with index := index, sawNonblank := saw } replay boot) : s.Holds replay boot :=
  ⟨h.count, h.bound, h.accepted, h.covers, h.lost⟩

variable [F64 V] {json : SerdeJson V}

/-- The boot record a line is accepted as. -/
def accepts (json : SerdeJson V) (s : Scanner V) (line : List UInt8) : Option BootRecord :=
  if isBlank line then none
  else
    match decodeRecord json line with
    | .ok r => s.acceptsRecord r
    | .error _ => none

/-- The timestamps of the boot records that are accepted. -/
def acceptedBoots (json : SerdeJson V) (s : Scanner V) : List (List UInt8) → List Nat
  | [] => []
  | line :: lines =>
    match s.line json line with
    | .ok s' => ((s.accepts json line).map (·.timestamp)).toList ++ acceptedBoots json s' lines
    | .error _ => []

/-- The timestamp of the next boot record that is accepted. -/
def nextBoot (json : SerdeJson V) (s : Scanner V) (lines : List (List UInt8)) : Option Nat :=
  (acceptedBoots json s lines).head?

theorem nextBoot_cons {s' : Scanner V} {line : List UInt8} (h : s.line json line = .ok s')
    (lines : List (List UInt8)) : s.nextBoot json (line :: lines) =
      ((s.accepts json line).map (·.timestamp)).or (s'.nextBoot json lines) := by
  rw [nextBoot, acceptedBoots, h]
  cases s.accepts json line <;> rfl

theorem holds_line (hlast : OnlyLastOpen s.replay.gaps) {s' : Scanner V} {line : List UInt8}
    (h : s.line json line = .ok s') : s.Holds s'.replay ((s.accepts json line).map (·.timestamp)) := by
  rcases line_cases json s line with ⟨hb, hl⟩ | ⟨-, -, e, hl⟩ | ⟨hb, -, hl⟩
  · rw [h] at hl
    obtain rfl := Except.ok.inj hl
    rw [accepts, if_pos hb]
    exact holds_kept le_rfl (.inl rfl) rfl
  · rw [h] at hl
    cases hl
  · rw [h] at hl
    obtain rfl := Except.ok.inj hl
    rw [accepts, hb, if_neg Bool.false_ne_true]
    cases decodeRecord json line with
    | error e => exact (holds_damaged _ _).congr
    | ok r =>
      have hrecord := holds_record (s := { s with index := s.index + 1, sawNonblank := true }) hlast r
      exact hrecord.congr

theorem holds_rest {s' : Scanner V} {rest : List UInt8} (h : s.rest json rest = .ok s') :
    s.Holds s'.replay none := by
  rcases rest_cases json s rest with ⟨rfl, hr⟩ | ⟨-, -, e, hr⟩ | ⟨-, -, hr⟩
  · rw [h] at hr
    obtain rfl := Except.ok.inj hr
    exact holds_kept le_rfl (.inl rfl) rfl
  · rw [h] at hr
    cases hr
  · rw [h] at hr
    obtain rfl := Except.ok.inj hr
    have := holds_damaged { s with
      index := s.index + 1, sawNonblank := s.sawNonblank || !isBlank rest,
      replay.needsSeparator := !isBlank rest } (json.timestamp rest)
    exact ⟨this.count, this.bound, this.accepted, this.covers, this.lost⟩

end Scanner

variable [F64 V] {json : SerdeJson V}

/-- The epochs lost at the lines: where each starts, and the next accepted boot record. -/
def lostIn (json : SerdeJson V) (fresh : Nat) (s : Scanner V) : List (List UInt8) → List (Nat × Nat)
  | [] => []
  | line :: lines =>
    match s.line json line with
    | .ok s' =>
      (s.lostCandidate s'.replay).map (·, (s.nextBoot json (line :: lines)).getD fresh) ++ lostIn json fresh s' lines
    | .error _ => []

/-- The epochs a scan of the file excludes; `fresh` is the timestamp of the boot record that opens it. -/
def excludedSpans (json : SerdeJson V) (bytes : List UInt8) (fresh : Nat) : List (Nat × Nat) :=
  match scanLines json {} (splitLines 10 bytes).1 with
  | .error _ => []
  | .ok s =>
    match s.rest json (splitLines 10 bytes).2 with
    | .error _ => []
    | .ok s' =>
      lostIn json fresh {} (splitLines 10 bytes).1 ++ (s.lostCandidate s'.replay ++ s'.lostCandidate s'.decided).map (·, fresh)

/-- What is pending at a line is covered up to the next boot record; what is covered stays so. -/
theorem holds_scanLines {s s' : Scanner V} {n : Nat} {lines : List (List UInt8)} (hacc : s.Accounts n)
    (h : scanLines json s lines = .ok s') :
    s.replay.orderingBound.getD 0 ≤ s'.replay.orderingBound.getD 0 ∧
    (∀ f t, t ≤ s.replay.orderingBound.getD 0 → Covers s.replay.gaps f t → Covers s'.replay.gaps f t) ∧
    (∀ t ∈ s.nextBoot json lines, t ≤ s'.replay.orderingBound.getD 0) ∧
    ∀ f, Pending s.replay.gaps f → Settled s'.replay.gaps f (s.nextBoot json lines) := by
  induction lines generalizing s n with
  | nil =>
    obtain rfl := Except.ok.inj h
    exact ⟨le_rfl, fun _ _ _ h => h, fun _ h => (by cases h), fun _ h => h⟩
  | cons line lines ih =>
    obtain ⟨s₁, hline, hlines⟩ := scanLines_cons_eq_ok.1 h
    have hholds := Scanner.holds_line hacc.gaps hline
    obtain ⟨hbound, hcovers, hnext, hpending⟩ := ih (hacc.line hline) hlines
    refine ⟨hholds.bound.trans hbound, fun f t ht hc => hcovers f t (ht.trans hholds.bound) (hholds.covers f t ht hc),
      ?_⟩
    rw [Scanner.nextBoot_cons hline]
    cases ha : s.accepts json line with
    | some boot =>
      rw [ha] at hholds
      have hle := hholds.accepted boot.timestamp rfl
      refine ⟨fun t ht => ?_, fun f hf => hcovers f _ hle (hholds.lost f (.inl hf))⟩
      rw [← Option.some.inj ht]
      exact hle.trans hbound
    | none =>
      rw [ha] at hholds
      exact ⟨hnext, fun f hf => hpending f (hholds.lost f (.inl hf))⟩

/-- What a line loses is covered as well, as far as the lines that follow it go. -/
theorem settled_lost {s s₁ s' : Scanner V} {n : Nat} {line : List UInt8} {lines : List (List UInt8)}
    (hacc : s.Accounts n) (hline : s.line json line = .ok s₁) (hlines : scanLines json s₁ lines = .ok s') :
    ∀ f ∈ s.lostCandidate s₁.replay, Settled s'.replay.gaps f (s.nextBoot json (line :: lines)) := by
  intro f hf
  have hholds := Scanner.holds_line hacc.gaps hline
  obtain ⟨-, hcovers, -, hpending⟩ := holds_scanLines (hacc.line hline) hlines
  rw [Scanner.nextBoot_cons hline]
  cases ha : s.accepts json line with
  | some boot =>
    rw [ha] at hholds
    exact hcovers f _ (hholds.accepted boot.timestamp rfl) (hholds.lost f (.inr hf))
  | none =>
    rw [ha] at hholds
    exact hpending f (hholds.lost f (.inr hf))

/-- The epochs lost at the lines are as many as the scanner counts, and settled. -/
theorem lostIn_scanLines {s s' : Scanner V} {n : Nat} {lines : List (List UInt8)} (fresh : Nat) (hacc : s.Accounts n)
    (h : scanLines json s lines = .ok s') :
    s.replay.excludedEpochs + (lostIn json fresh s lines).length = s'.replay.excludedEpochs ∧
      ∀ span ∈ lostIn json fresh s lines,
        (span.2 ≤ s'.replay.orderingBound.getD 0 ∧ Covers s'.replay.gaps span.1 span.2) ∨
          (span.2 = fresh ∧ Pending s'.replay.gaps span.1) := by
  induction lines generalizing s n with
  | nil =>
    obtain rfl := Except.ok.inj h
    exact ⟨rfl, fun _ h => absurd h List.not_mem_nil⟩
  | cons line lines ih =>
    obtain ⟨s₁, hline, hlines⟩ := scanLines_cons_eq_ok.1 h
    have hcount := (Scanner.holds_line hacc.gaps hline).count
    have hsettled := settled_lost hacc hline hlines
    have hnext := (holds_scanLines hacc h).2.2.1
    obtain ⟨hcount', hspans⟩ := ih (hacc.line hline) hlines
    rw [lostIn, hline]
    refine ⟨?_, fun span hspan => ?_⟩
    · rw [List.length_append, List.length_map]
      omega
    rcases List.mem_append.1 hspan with hspan | hspan
    · obtain ⟨f, hf, rfl⟩ := List.mem_map.1 hspan
      have hf := hsettled f hf
      cases ha : s.nextBoot json (line :: lines) with
      | some t =>
        rw [ha] at hf
        exact .inl ⟨hnext t ha, hf⟩
      | none =>
        rw [ha] at hf
        exact .inr ⟨rfl, hf⟩
    · exact hspans span hspan

/-! ### The epochs of a file -/

def bootTimes (records : List (Record V)) : List Nat := (records.filter Record.isBoot).map Record.timestamp

omit [F64 V] in
theorem bootTimes_epoch (e : CommittedEpoch V) : bootTimes e.records = [e.boot.timestamp] := by
  have hobs : (e.observations.map (Observation.record e.boot.bootId)).filter Record.isBoot = [] := by
    refine List.filter_eq_nil_iff.2 fun r hr => ?_
    obtain ⟨o, -, rfl⟩ := List.mem_map.1 hr
    unfold Observation.record
    cases o.state <;> exact Bool.false_ne_true
  rw [bootTimes, CommittedEpoch.records, List.filter_cons_of_pos rfl, hobs]
  rfl

namespace Scanner

/-- The starts of the epochs that are committed or stand as the candidate. -/
def epochStarts (s : Scanner V) : Multiset Nat :=
  (bootTimes s.replay.records : Multiset Nat) + (s.candidate.toList.map (·.from) : List Nat)

omit [F64 V] in
theorem epochStarts_invalidate (s : Scanner V) (t : Nat) :
    (s.invalidate t).epochStarts + (s.lostCandidate (s.invalidate t).replay : List Nat) = s.epochStarts := by
  rcases invalidate_cases s t with ⟨epoch, hc, hs⟩ | ⟨hc, hs⟩
  · have hlost : s.lostCandidate (s.invalidate t).replay = [epoch.from] :=
      lostCandidate_of_succ hc (by rw [hs, excludeEpoch_eq])
    rw [hlost, hs, excludeEpoch_eq, epochStarts, epochStarts, hc]
    simp [candidate]
  · have hlost : s.lostCandidate (s.invalidate t).replay = [] :=
      lostCandidate_of_eq (by rw [hs, excludeRecord_eq])
    rw [hlost, hs, excludeRecord_eq, epochStarts, epochStarts, hc]
    simp [candidate]

omit [F64 V] in
theorem epochStarts_damaged (s : Scanner V) (t : Option Nat) :
    (s.damaged t).epochStarts + (s.lostCandidate (s.damaged t).replay : List Nat) = s.epochStarts := by
  cases t with
  | none => exact epochStarts_invalidate s _
  | some t => exact epochStarts_invalidate (s.advance t) t

omit [F64 V] in
theorem epochStarts_decided {s : Scanner V} (h : IsEpoch s.state) :
    (bootTimes s.decided.records : Multiset Nat) + (s.lostCandidate s.decided : List Nat) = s.epochStarts := by
  rw [epochStarts]
  cases hs : s.state with
  | awaitSample epoch =>
    have hc : s.candidate = some epoch := by rw [candidate, hs]
    have hd : s.decided = s.replay.excludeEpoch epoch false := by rw [decided, hs]
    rw [lostCandidate_of_succ hc (by rw [hd, excludeEpoch_eq]), hc, hd, excludeEpoch_eq]
    rfl
  | usable epoch =>
    rw [hs] at h
    obtain ⟨e, rfl⟩ := h
    have hc : s.candidate = some ⟨e.boot.bootId, e.boot.timestamp, e.records⟩ := by rw [candidate, hs]
    have hd : s.decided = s.replay.commitEpoch ⟨e.boot.bootId, e.boot.timestamp, e.records⟩ := by rw [decided, hs]
    have hboots : bootTimes (s.replay.records ++ e.records) = bootTimes s.replay.records ++ [e.boot.timestamp] := by
      rw [bootTimes, List.filter_append, List.map_append]
      exact congrArg _ (bootTimes_epoch e)
    rw [lostCandidate_of_eq (by rw [hd]; rfl), hc, hd, Replay.commitEpoch, hboots, Multiset.coe_nil, add_zero]
    exact (Multiset.coe_add _ _).symm
  | awaitBoot | invalidEpoch =>
    have hc : s.candidate = none := by rw [candidate, hs]
    have hd : s.decided = s.replay := by rw [decided, hs]
    rw [lostCandidate_of_eq (by rw [hd]), hc, hd]
    rfl

omit [F64 V] in
/-- An accepted boot record starts an epoch; no other record does, and what is not lost stays. -/
theorem epochStarts_record {s : Scanner V} {n : Nat} (h : s.Accounts n) (r : Record V) :
    (s.record r).epochStarts + (s.lostCandidate (s.record r).replay : List Nat) =
      s.epochStarts + (((s.acceptsRecord r).map (·.timestamp)).toList : List Nat) := by
  rcases record_cases s r with ⟨hnot, hs⟩ | ⟨boot, rfl, hle, hs⟩ | ⟨hr, hle, -, epoch, hc, hs⟩
  · rw [hs, epochStarts_damaged, acceptsRecord_of_not_takes hnot]
    exact (add_zero _).symm
  · have hstart : ((s.advance boot.timestamp).startBoot boot).epochStarts =
        (bootTimes (s.advance boot.timestamp).decided.records : Multiset Nat) + ([boot.timestamp] : List Nat) := rfl
    have hlost : s.lostCandidate ((s.advance boot.timestamp).startBoot boot).replay =
        (s.advance boot.timestamp).lostCandidate (s.advance boot.timestamp).decided := rfl
    have hdecided : (bootTimes (s.advance boot.timestamp).decided.records : Multiset Nat) +
        ((s.advance boot.timestamp).lostCandidate (s.advance boot.timestamp).decided : List Nat) = s.epochStarts :=
      epochStarts_decided h.candidate
    rw [hs, hstart, hlost, add_right_comm, hdecided, acceptsRecord, not_any_lt.2 hle, if_neg Bool.false_ne_true]
    rfl
  · have hlost : s.lostCandidate (s.record r).replay = [] := lostCandidate_of_eq (by rw [hs]; rfl)
    have haccepts : s.acceptsRecord r = none := by
      cases r with
      | boot boot => cases hr
      | sample r | checkpoint r => rfl
    rw [hlost, haccepts, hs, epochStarts, epochStarts, hc]
    rfl

theorem epochStarts_line {s s' : Scanner V} {n : Nat} (hacc : s.Accounts n) {line : List UInt8}
    (h : s.line json line = .ok s') : s'.epochStarts + (s.lostCandidate s'.replay : List Nat) =
      s.epochStarts + (((s.accepts json line).map (·.timestamp)).toList : List Nat) := by
  rcases line_cases json s line with ⟨hb, hl⟩ | ⟨-, -, e, hl⟩ | ⟨hb, -, hl⟩
  · rw [h] at hl
    obtain rfl := Except.ok.inj hl
    rw [accepts, if_pos hb, lostCandidate_of_eq rfl]
    rfl
  · rw [h] at hl
    cases hl
  · rw [h] at hl
    obtain rfl := Except.ok.inj hl
    rw [accepts, hb, if_neg Bool.false_ne_true]
    cases decodeRecord json line with
    | error e =>
      refine Eq.trans ?_ (add_zero _).symm
      exact epochStarts_damaged { s with index := s.index + 1, sawNonblank := true } _
    | ok r => exact epochStarts_record (hacc.congr (s.index + 1) true) r

theorem epochStarts_scanLines {s s' : Scanner V} {n : Nat} {lines : List (List UInt8)} (fresh : Nat) (hacc : s.Accounts n)
    (h : scanLines json s lines = .ok s') : s'.epochStarts + ((lostIn json fresh s lines).map Prod.fst : List Nat) =
      s.epochStarts + (acceptedBoots json s lines : List Nat) := by
  induction lines generalizing s n with
  | nil =>
    obtain rfl := Except.ok.inj h
    rfl
  | cons line lines ih =>
    obtain ⟨s₁, hline, hlines⟩ := scanLines_cons_eq_ok.1 h
    have hstep := epochStarts_line hacc hline
    have hrest := ih (hacc.line hline) hlines
    have hfst : ∀ (l : List Nat) (t : Nat), (l.map (·, t)).map Prod.fst = l := fun l t => by simp [Function.comp_def]
    rw [lostIn, acceptedBoots, hline]
    dsimp only
    rw [List.map_append, hfst, ← Multiset.coe_add, ← Multiset.coe_add, ← add_assoc, ← add_assoc, ← hstep,
      add_right_comm s'.epochStarts, hrest, add_right_comm]

theorem epochStarts_rest {s s' : Scanner V} {rest : List UInt8} (h : s.rest json rest = .ok s') :
    s'.epochStarts + (s.lostCandidate s'.replay : List Nat) = s.epochStarts := by
  rcases rest_cases json s rest with ⟨rfl, hr⟩ | ⟨-, -, e, hr⟩ | ⟨-, -, hr⟩
  · rw [h] at hr
    obtain rfl := Except.ok.inj hr
    rw [lostCandidate_of_eq rfl]
    exact add_zero _
  · rw [h] at hr
    cases hr
  · rw [h] at hr
    obtain rfl := Except.ok.inj hr
    exact epochStarts_damaged { s with
      index := s.index + 1, sawNonblank := s.sawNonblank || !isBlank rest,
      replay.needsSeparator := !isBlank rest } _

end Scanner
/-! ### Rollups over a recovered history -/

/-- The index of an opened store, with the gaps it recovered from. -/
structure RecoveredHistory (V : Type) where
  inner : HistoryInner V
  recoveryGaps : List RecoveryGap

structure HistoryWindow (V : Type) where
  complete : Bool
  data : Rollup V

/-- `History::open`, from the opened store. -/
def openHistory (store : HistoryStore V) (cutoff : Option Nat) : RecoveredHistory V :=
  ⟨enrichCanonicalReplay {} store.replay.records cutoff, store.replay.gaps⟩

namespace RecoveredHistory

def incomplete (h : RecoveredHistory V) (lo hi : Nat) : Bool :=
  decide (hi ≤ lo) || h.inner.points.isEmpty ||
    h.recoveryGaps.any fun gap => decide (gap.from < hi) && decide (lo < gap.«to»)

/-- `History::rollup`. -/
def rollup (h : RecoveredHistory V) (lo hi points : Nat) : HistoryWindow V where
  complete := if hi ≤ lo then false else if (h.inner.window lo hi).isEmpty then false else !h.incomplete lo hi
  data := h.inner.rollup lo hi points

theorem complete_eq_false {h : RecoveredHistory V} {gap : RecoveryGap} {lo hi : Nat} (hgap : gap ∈ h.recoveryGaps)
    (hlo : lo < gap.«to») (hhi : gap.from < hi) (points : Nat) : (h.rollup lo hi points).complete = false := by
  have hincomplete : h.incomplete lo hi = true := by
    rw [incomplete, Bool.or_eq_true]
    exact .inr (List.any_eq_true.2 ⟨gap, hgap, by simp [hlo, hhi]⟩)
  rw [rollup]
  dsimp only
  split
  · rfl
  · split
    · rfl
    · rw [hincomplete]
      rfl

end RecoveredHistory

/-! ### The account of a file -/

/-- The scanner gets to `s` while it reads the file. -/
def Visits (json : SerdeJson V) (bytes : List UInt8) (s : Scanner V) : Prop :=
  (∃ lines, lines <+: (splitLines 10 bytes).1 ∧ scanLines json {} lines = .ok s) ∨
    ∃ s₀, scanLines json {} (splitLines 10 bytes).1 = .ok s₀ ∧ s₀.rest json (splitLines 10 bytes).2 = .ok s

def nonblankLines (bytes : List UInt8) : List (List UInt8) :=
  ((splitLines 10 bytes).1 ++ [(splitLines 10 bytes).2]).filter (!isBlank ·)

theorem Visits.accounts {bytes : List UInt8} {s : Scanner V} (h : Visits json bytes s) : ∃ n, s.Accounts n := by
  rcases h with ⟨lines, -, hs⟩ | ⟨s₀, hs₀, hs⟩
  · exact ⟨_, Scanner.accounts_start.scanLines hs⟩
  · exact ⟨_, (Scanner.accounts_start.scanLines hs₀).rest hs⟩

theorem openInner_eq_ok {bytes : List UInt8} {boot : BootRecord} {store : HistoryStore V}
    (h : (openInner json bytes boot).2 = .ok store) :
    ∃ replay, validateCanonical json bytes = .ok replay ∧ replay.orderingBound.getD 0 ≤ boot.timestamp ∧
      store.replay = { replay with records := replay.records ++ [Record.boot boot] }.closeOpenGap boot.timestamp := by
  have hopen := openExisting_eq json bytes boot
  rw [h] at hopen
  obtain ⟨replay, line, hv, hle, -, -, hstore⟩ := openExisting_eq_ok hopen
  exact ⟨replay, hv, hle, congrArg HistoryStore.replay hstore⟩

/-- The excluded epochs of a file: as many as the scanner counts, each in a gap that reaches to the next boot
record, and with the committed ones all that an accepted boot record starts. -/
theorem excludedSpans_covered {bytes : List UInt8} {replay : Replay V} {boot : BootRecord}
    (h : validateCanonical json bytes = .ok replay) (hle : replay.orderingBound.getD 0 ≤ boot.timestamp) :
    (excludedSpans json bytes boot.timestamp).length = replay.excludedEpochs ∧
    (Scanner.acceptedBoots json {} (splitLines 10 bytes).1).Perm
      (bootTimes replay.records ++ (excludedSpans json bytes boot.timestamp).map Prod.fst) ∧
    ∀ span ∈ excludedSpans json bytes boot.timestamp,
      Covers (replay.closeOpenGap boot.timestamp).gaps span.1 span.2 := by
  obtain ⟨s, s', hlines, hrest, hfin⟩ := validateCanonical_eq_ok.1 h
  obtain ⟨-, rfl⟩ := Scanner.finish_eq_ok.1 hfin
  have hacc := Scanner.accounts_start.scanLines hlines
  have hacc' := hacc.rest hrest
  have hholds := Scanner.holds_rest hrest
  have hdecided := Scanner.holds_decided s'
  obtain ⟨hcount, hspans⟩ := lostIn_scanLines boot.timestamp Scanner.accounts_start hlines
  have hexcluded : excludedSpans json bytes boot.timestamp = lostIn json boot.timestamp {} (splitLines 10 bytes).1 ++
      (s.lostCandidate s'.replay ++ s'.lostCandidate s'.decided).map (·, boot.timestamp) := by
    rw [excludedSpans, hlines]
    dsimp only
    rw [hrest]
  have hlast := Scanner.onlyLastOpen_decided hacc'.gaps
  rw [Scanner.orderingBound_decided] at hle
  rw [hexcluded]
  refine ⟨?_, ?_, fun span hspan => ?_⟩
  · have hzero : ({} : Scanner V).replay.excludedEpochs = 0 := rfl
    have := hholds.count
    have := hdecided.count
    rw [List.length_append, List.length_map, List.length_append]
    omega
  · have hscan := Scanner.epochStarts_scanLines boot.timestamp Scanner.accounts_start hlines
    have hzero : ({} : Scanner V).epochStarts = 0 := rfl
    rw [hzero, zero_add, ← Scanner.epochStarts_rest hrest, ← Scanner.epochStarts_decided hacc'.candidate] at hscan
    refine Multiset.coe_eq_coe.1 (hscan.symm.trans ?_)
    have hfst : ∀ l : List Nat, (l.map (·, boot.timestamp)).map Prod.fst = l := fun l => by simp [Function.comp_def]
    rw [List.map_append, hfst, ← Multiset.coe_add, ← Multiset.coe_add, ← Multiset.coe_add]
    simp only [add_assoc, add_comm, add_left_comm]
  · -- through the rest of the file and the end of it, to the boot record that opens it
    have hclose : ∀ f, Pending s'.decided.gaps f →
        Covers (s'.decided.closeOpenGap boot.timestamp).gaps f boot.timestamp := fun f hf => hf.closeOpenGap hlast _
    rcases List.mem_append.1 hspan with hspan | hspan
    · rcases hspans span hspan with ⟨hle', hcovers⟩ | ⟨hfresh, hpending⟩
      · have hcovers := hdecided.covers _ _ (hle'.trans hholds.bound) (hholds.covers _ _ hle' hcovers)
        exact hcovers.closeOpenGap hlast ((hle'.trans hholds.bound).trans hle)
      · rw [hfresh]
        exact hclose _ (hdecided.lost _ (.inl (hholds.lost _ (.inl hpending))))
    · obtain ⟨f, hf, rfl⟩ := List.mem_map.1 hspan
      refine hclose f (hdecided.lost f ?_)
      rcases List.mem_append.1 hf with hf | hf
      · exact .inl (hholds.lost f (.inr hf))
      · exact .inr hf

/-- The scanner accounts for every line of a file whose last line is terminated or not blank. -/
theorem scan_accounted {bytes : List UInt8} {replay : Replay V} (hscan : validateCanonical json bytes = .ok replay)
    (hlast : (splitLines 10 bytes).2 = [] ∨ isBlank (splitLines 10 bytes).2 = false) :
    (∃ es : List (CommittedEpoch V), replay.records = es.flatMap CommittedEpoch.records) ∧ InOrder replay.records ∧
    replay.records.length + replay.excludedRecords = (nonblankLines bytes).length ∧
    (∀ gaps, gaps = replay.gaps ∨ (∃ s, Visits json bytes s ∧ gaps = s.replay.gaps) →
      (gaps.filter fun gap => decide gap.isOpen).length ≤ 1) ∧
    ∀ boot store, (openInner json bytes boot).2 = .ok store →
      (excludedSpans json bytes boot.timestamp).length = replay.excludedEpochs ∧
      (Scanner.acceptedBoots json {} (splitLines 10 bytes).1).Perm
        (bootTimes replay.records ++ (excludedSpans json bytes boot.timestamp).map Prod.fst) ∧
      ∀ span ∈ excludedSpans json bytes boot.timestamp, Covers store.replay.gaps span.1 span.2 ∧
        ∀ cutoff lo hi points, lo < span.2 → span.1 < hi →
          ((openHistory store cutoff).rollup lo hi points).complete = false := by
  obtain ⟨s, s', hlines, hrest, hfin⟩ := validateCanonical_eq_ok.1 hscan
  obtain ⟨-, hreplay⟩ := Scanner.finish_eq_ok.1 hfin
  have hacc := (Scanner.accounts_start.scanLines hlines).rest hrest
  obtain ⟨hes, hord, -, hcount⟩ := hacc.decided
  rw [hreplay] at hes hord hcount
  refine ⟨hes, hord, ?_, ?_, ?_⟩
  · rw [hcount, nonblankLines, List.filter_append, List.length_append, zero_add]
    rcases hlast with hnil | hblank
    · rw [hnil]
      rfl
    · have hempty : (splitLines 10 bytes).2.isEmpty = false := by
        cases hb : (splitLines 10 bytes).2 with
        | nil => rw [hb] at hblank; cases hblank
        | cons b rest => rfl
      rw [hempty, List.filter_cons_of_pos (by rw [hblank]; rfl)]
      rfl
  · rintro gaps (rfl | ⟨t, ht, rfl⟩)
    · rw [← hreplay]
      exact (Scanner.onlyLastOpen_decided hacc.gaps).filter_le
    · obtain ⟨n, hacc⟩ := ht.accounts
      exact hacc.gaps.filter_le
  · intro boot store hopen
    obtain ⟨replay', hscan', hle, hstore⟩ := openInner_eq_ok hopen
    obtain rfl : replay = replay' := Except.ok.inj (hscan.symm.trans hscan')
    obtain ⟨hlength, hperm, hcovers⟩ := excludedSpans_covered hscan hle
    refine ⟨hlength, hperm, fun span hspan => ?_⟩
    have hcover : Covers store.replay.gaps span.1 span.2 := by
      rw [hstore]
      exact hcovers span hspan
    refine ⟨hcover, fun cutoff lo hi points hlo hhi => ?_⟩
    obtain ⟨gap, hgap, hfrom, hto⟩ := hcover
    exact RecoveredHistory.complete_eq_false hgap (hlo.trans_le hto) (hfrom.trans_lt hhi) points

end

/-- The checkpoint of the second process stands in the epoch of the first, which is lost with its sample. -/
def strayObjects : List (RawRecord ℚ) :=
  [⟨format, version, "boot", 3, "a", ⟨40, 1, [40]⟩, .missing⟩,
    ⟨format, version, "sample", 4, "a", ⟨40, 1, [40]⟩, .entries []⟩,
    ⟨format, version, "checkpoint", 5, "b", ⟨40, 1, [40]⟩, .missing⟩,
    ⟨format, version, "boot", 6, "b", ⟨40, 1, [40]⟩, .missing⟩,
    ⟨format, version, "sample", 7, "b", ⟨40, 1, [40]⟩, .entries []⟩]

def strayFile : List UInt8 := joinLines 10 (strayObjects.map (·.text.toUTF8.data.toList))

theorem scan_accounted_stray :
    ∃ replay store, validateCanonical (.table strayObjects) strayFile = .ok replay ∧
      (openInner (.table strayObjects) strayFile ⟨9, "c", ⟨40, 1, [40]⟩⟩).2 = .ok store ∧
      replay.records.length + replay.excludedRecords = 5 ∧ replay.excludedRecords = 3 ∧
      ∀ cutoff points, ((openHistory store cutoff).rollup 5 8 points).complete = false := by
  have hrun : ((validateCanonical (.table strayObjects) strayFile).toOption.map (·.excludedRecords),
      (openInner (.table strayObjects) strayFile ⟨9, "c", ⟨40, 1, [40]⟩⟩).2.toOption.isSome,
      (nonblankLines strayFile).length, (splitLines 10 strayFile).2,
      excludedSpans (.table strayObjects) strayFile 9) = (some 3, true, 5, [], [(3, 6)]) := by decide +kernel
  simp only [Prod.mk.injEq] at hrun
  obtain ⟨hscan, hopen, hlines, hrest, hspans⟩ := hrun
  obtain ⟨replay, hv, hexcluded⟩ := Option.map_eq_some_iff.1 hscan
  obtain ⟨store, ho⟩ := Option.isSome_iff_exists.1 hopen
  have hv := toOption_eq_some hv
  have ho := toOption_eq_some ho
  obtain ⟨-, -, hcount, -, hstore⟩ := scan_accounted hv (.inl hrest)
  obtain ⟨-, -, hcovers⟩ := hstore _ store ho
  refine ⟨replay, store, hv, ho, hcount.trans hlines, hexcluded, fun cutoff points => ?_⟩
  exact (hcovers (3, 6) (by rw [hspans]; exact List.mem_cons_self)).2 cutoff 5 8 points (by decide) (by decide)

end OpenProxy
