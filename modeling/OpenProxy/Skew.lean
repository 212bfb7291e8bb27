import OpenProxy.Durability
import OpenProxy.Live
import OpenProxy.Restart

/-!
# Timestamps when the clock steps back (`History::open`, `append`, `reconfigure_retention` of `history.rs`)

One sampler appends; between any two sections of its append retention may be set, a set retention may prune the
index, and a compaction may replace the file. Writes may fail, and a new process may open what is left of the file.
Every clock reading is the environment's choice.
-/

namespace OpenProxy.Skew

open Transition Durability

section
variable {V : Type} [F64 V]

structure State (V : Type) where
  store : Durability.State V
  inner : HistoryInner V
  append : Live.Append V
  days : Nat
  /-- The cutoffs of the calls of `reconfigure_retention` that have stored the days and not pruned yet. -/
  prunes : List Nat

inductive Op where
  /-- The sections of an append, in order. -/
  | read
  | index (t : Nat) (snapshot : String) (capacity : CapacitySnapshot)
  | store (fault : Option Nat)
  | reconfigure (days now : Nat)
  | prune (n : Nat)
  /-- The cutoff is that of a finite retention at some reading of the clock. -/
  | compact (t days : Nat) (authorized : Bool) (fault : Option CompactionFault)
  | reopen (days timestamp : Nat) (bootId : String) (capacity : CapacitySnapshot)

/-- `History::open`; `bytes` is the canonical file, if there is one. -/
def openHistory (json : SerdeJson V) (days : Nat) (bytes : Option (List UInt8)) (boot : BootRecord) :
    Except OpenError (State V) := do
  let writer ← openStore json bytes boot
  return {
    store := Durability.start json writer boot
    inner := enrichCanonicalReplay {} writer.store.replay.records (Live.cutoffAt days boot.timestamp)
    append := .idle
    days
    prunes := [] }

/-- The section of `reconfigure_retention` that holds the index. -/
def prune (inner : HistoryInner V) (cutoff : Nat) : HistoryInner V :=
  HistoryInner.setBounds { inner with points := inner.points.filter (cutoff ≤ ·.t) }

variable [DecidableEq V]

def step (json : SerdeJson V) (parseF64 : String → Option V) (s : State V) : Op → Option (State V)
  | .read =>
    match s.append with
    | .idle => some { s with append := .read s.store.writer.store.lastTimestamp }
    | _ => none
  | .index t snapshot capacity =>
    match s.append with
    | .read canonicalLast =>
      let current := parseExposition parseF64 snapshot
      let t := max t (max (s.inner.availableTo.getD 0) (canonicalLast.getD 0))
      some { s with
        inner := Live.indexSnapshot s.inner s.days s.store.writer.store.bootId t current capacity
        append := .indexed t capacity (canonicalState current) }
    | _ => none
  | .store fault =>
    match s.append with
    | .indexed t capacity state =>
      (Durability.step json s.store (.appendSample t (canonicalCapacity capacity) state fault)).map fun store =>
        { s with store, append := .idle }
    | _ => none
  | .reconfigure days now =>
    some { s with days, prunes := if days = 0 then s.prunes else s.prunes ++ [now - days * 86400] }
  | .prune n =>
    (s.prunes[n]?).map fun cutoff => { s with inner := prune s.inner cutoff, prunes := s.prunes.eraseIdx n }
  | .compact t days authorized fault =>
    if 0 < days ∧ t ≤ maxU64 then
      (Durability.step json s.store (.compact (t - days * 86400) authorized fault)).map fun store => { s with store }
    else none
  | .reopen days timestamp bootId capacity =>
    (openHistory json days (some s.store.bytes) ⟨timestamp, bootId, canonicalCapacity capacity⟩).toOption

/-- The records that the step writes read back, with rounded numbers. -/
def Clean (json : SerdeJson V) (s : State V) : Op → Prop
  | .store fault =>
    match s.append with
    | .indexed t capacity state => Readable json s.store (.appendSample t (canonicalCapacity capacity) state fault)
    | _ => True
  | .reopen _ timestamp bootId capacity =>
    json.Keeps (leadingBlanks json (some s.store.bytes)) (.boot ⟨timestamp, bootId, canonicalCapacity capacity⟩)
  | .read | .index _ _ _ | .reconfigure _ _ | .prune _ | .compact _ _ _ _ => True

end

/-! ### The index -/

section
variable {V : Type}

/-- The points are in the order of their timestamps, and the bounds are the first and the last one's. -/
structure Ordered (inner : HistoryInner V) : Prop where
  sorted : (inner.points.map (·.t)).Pairwise (· ≤ ·)
  availableFrom : inner.availableFrom = inner.points.head?.map (·.t)
  availableTo : inner.availableTo = inner.points.getLast?.map (·.t)

variable {inner : HistoryInner V}

theorem ordered_setBounds (h : (inner.points.map (·.t)).Pairwise (· ≤ ·)) : Ordered inner.setBounds := ⟨h, rfl, rfl⟩

theorem Ordered.prune (h : Ordered inner) (cutoff : Nat) : Ordered (prune inner cutoff) :=
  ordered_setBounds (h.sorted.sublist (List.filter_sublist.map _))

theorem Ordered.le_availableTo (h : Ordered inner) : ∀ point ∈ inner.points, point.t ≤ inner.availableTo.getD 0 := by
  intro point hpoint
  have hsorted := h.sorted
  rw [h.availableTo]
  rcases List.eq_nil_or_concat' inner.points with hpoints | ⟨init, last, hpoints⟩
  · rw [hpoints] at hpoint
    cases hpoint
  rw [hpoints] at hpoint hsorted ⊢
  rw [List.map_append, List.pairwise_append] at hsorted
  simp only [List.getLast?_concat, Option.map_some, Option.getD_some]
  rcases List.mem_append.1 hpoint with hpoint | hpoint
  · exact hsorted.2.2 _ (List.mem_map_of_mem hpoint) _ (List.mem_map_of_mem (List.mem_singleton.2 rfl))
  · rw [List.mem_singleton.1 hpoint]

variable [F64 V]

/-- A point that is not before the last one goes to the end, whatever retention leaves of the others. -/
theorem Ordered.index (h : Ordered inner) (days : Nat) (bootId : String) {t : Nat} (ht : inner.availableTo.getD 0 ≤ t)
    (current : ParsedSnapshot V) (capacity : CapacitySnapshot) :
    Ordered (Live.indexSnapshot inner days bootId t current capacity) := by
  refine ordered_setBounds ?_
  rw [List.map_append, List.pairwise_append]
  refine ⟨h.sorted.sublist (List.filter_sublist.map _), List.pairwise_singleton _ _, fun a ha b hb => ?_⟩
  obtain ⟨point, hpoint, rfl⟩ := List.mem_map.1 ha
  have hb' : b = t := by simpa using hb
  rw [hb']
  exact (h.le_availableTo point (List.mem_filter.1 hpoint).1).trans ht

/-- What is indexed of a stream of records are some of them, in their order. -/
theorem points_foldl_record (records : List (Record V)) (e : Enrich V) (cutoff : Option Nat) :
    ((records.foldl (Enrich.record · cutoff) e).inner.points.map (·.t)).Sublist
      (e.inner.points.map (·.t) ++ records.map Record.timestamp) := by
  induction records generalizing e with
  | nil => simp
  | cons r records ih =>
    have hrecord : ((e.record cutoff r).inner.points.map (·.t)).Sublist
        (e.inner.points.map (·.t) ++ [r.timestamp]) := by
      have hingest (bootId : String) (capacity : Capacity) (current : ParsedSnapshot V) :
          ((ingestCanonicalSample e.inner r.timestamp bootId capacity current cutoff).points.map (·.t)).Sublist
            (e.inner.points.map (·.t) ++ [r.timestamp]) := by
        simp only [ingestCanonicalSample]
        split
        · simp
        · exact List.sublist_append_left _ _
      cases r with
      | boot r => exact List.sublist_append_left _ _
      | sample r => exact hingest _ _ _
      | checkpoint r =>
        rw [Enrich.record]
        split
        · split
          · exact hingest _ _ _
          · exact List.sublist_append_left _ _
        · exact List.sublist_append_left _ _
    have hrest := ih (e.record cutoff r)
    refine hrest.trans ?_
    rw [List.map_cons, ← List.singleton_append (l := records.map Record.timestamp), ← List.append_assoc]
    exact hrecord.append_right _

/-- The records the store starts with are in order. -/
theorem inOrder_open {json : SerdeJson V} {bytes : Option (List UInt8)} {boot : BootRecord} {w : Writer V}
    (hopen : openStore json bytes boot = .ok w) : InOrder w.store.replay.records := by
  cases bytes with
  | none =>
    rw [openStore, openFirst] at hopen
    cases hline : encodeRecord json (.boot boot) with
    | error e =>
      rw [hline] at hopen
      cases hopen
    | ok line =>
      rw [hline] at hopen
      obtain rfl := Except.ok.inj hopen
      exact List.pairwise_singleton _ _
  | some bytes =>
    obtain ⟨replay, line, hvalid, hle, -, -, hstore⟩ := openExisting_eq_ok hopen
    obtain ⟨t, t', hlines, hrest, hfinish⟩ := validateCanonical_eq_ok.1 hvalid
    obtain ⟨-, hdecided⟩ := Scanner.finish_eq_ok.1 hfinish
    obtain ⟨-, hord, hbound, -⟩ := ((Scanner.accounts_start.scanLines hlines).rest hrest).decided
    have hlast : t'.replay.orderingBound = replay.orderingBound := by
      rw [← Scanner.orderingBound_decided, hdecided]
    rw [hdecided] at hord hbound
    rw [hstore]
    exact Scanner.Accounts.inOrder_concat hord fun r hr => (hbound r hr).trans (hlast ▸ hle)

/-- Opening indexes the records of the file in order. -/
theorem ordered_open {json : SerdeJson V} {bytes : Option (List UInt8)} {boot : BootRecord} {w : Writer V}
    (hopen : openStore json bytes boot = .ok w) (cutoff : Option Nat) :
    Ordered (enrichCanonicalReplay {} w.store.replay.records cutoff) :=
  ordered_setBounds ((inOrder_open hopen).sublist (points_foldl_record w.store.replay.records _ cutoff))

end

/-! ### The store -/

section
variable {V : Type}

/-- A record that is left out does not come after those that are kept. -/
theorem last_le_of_sublist {boot : BootRecord} {rest rest' : List (Record V)} (hsub : rest'.Sublist rest)
    (h : InOrder (.boot boot :: rest)) : (rest'.getLast?.map Record.timestamp).getD boot.timestamp ≤
      (rest.getLast?.map Record.timestamp).getD boot.timestamp := by
  rcases List.eq_nil_or_concat' rest with hrest | ⟨init, last, hrest⟩
  · rw [hrest, List.sublist_nil] at hsub
    rw [hrest, hsub]
  have hlast : ∀ r ∈ Record.boot boot :: rest, r.timestamp ≤ last.timestamp := by
    intro r hr
    rw [InOrder, hrest, ← List.cons_append, List.map_append, List.pairwise_append] at h
    rw [hrest, ← List.cons_append] at hr
    rcases List.mem_append.1 hr with hr | hr
    · exact h.2.2 _ (List.mem_map_of_mem hr) _ (List.mem_map_of_mem (List.mem_singleton.2 rfl))
    · rw [List.mem_singleton.1 hr]
  have hle : (rest'.getLast?.map Record.timestamp).getD boot.timestamp ≤ last.timestamp := by
    cases hr : rest'.getLast? with
    | none => exact hlast _ List.mem_cons_self
    | some r => exact hlast r (List.mem_cons_of_mem _ (hsub.subset (List.mem_of_getLast? hr)))
  rw [hrest, List.getLast?_concat]
  exact hle

variable [F64 V] [DecidableEq V] {json : SerdeJson V}

/-- A compaction does not move the last timestamp on. -/
theorem compact_lastTimestamp {s s' : Durability.State V} (h : Durability.Inv json s) {cutoff : Nat}
    (hcutoff : cutoff < maxU64) {authorized : Bool} {fault : Option CompactionFault}
    (hs : Durability.step json s (.compact cutoff authorized fault) = some s') :
    s'.writer.store.poisoned = s.writer.store.poisoned ∧ (s.writer.store.poisoned = false →
      s'.writer.store.lastTimestamp.getD 0 ≤ s.writer.store.lastTimestamp.getD 0) := by
  rw [Durability.step] at hs
  have hcases := compactIfAuthorized_cases json s.writer cutoff authorized fault
  generalize s.writer.compactIfAuthorized json cutoff authorized fault = p at hs hcases
  obtain rfl := Option.some.inj hs
  cases hcases with
  | kept store disk uncommitted => exact ⟨congrArg _ store, fun _ => by rw [store]⟩
  | @replaced replay replacement lines result scan gaps usable encode check exact granted committed =>
    refine ⟨rfl, fun hp => ?_⟩
    obtain ⟨l, hl⟩ := h.layout
    have hgap : ¬ replay.HasOpenGap := by
      rintro ⟨gap, hmem, hopen⟩
      have := gaps gap hmem
      omega
    obtain ⟨rest, hsub, hretained⟩ := l.retained scan hgap cutoff
    rw [(hl hp).2]
    show (replacement.records.getLast?.map Record.timestamp).getD 0 ≤ _
    rw [(isExactly_iff.1 exact).1, hretained, List.getLast?_append, List.getLast?_cons, Option.some_or,
      Option.map_some, Option.getD_some, Option.getD_some]
    have hle := last_le_of_sublist hsub l.inOrder
    cases hr : rest.getLast? with
    | none =>
      rw [hr] at hle
      exact hle
    | some r =>
      rw [hr] at hle
      exact hle

/-- An append that regresses has a timestamp before the store's last. -/
theorem appendSample_regression {w : Writer V} {t : Nat} {capacity : Capacity} {state : List (StateEntry V)}
    {fault : Option Nat} (h : (w.appendSample json t capacity state fault).2 = .error .timestampRegression) :
    w.store.poisoned = false ∧ t < w.store.lastTimestamp.getD 0 := by
  have hwrite (r : Record V) (lastState : Option (List (StateEntry V)))
      (h : (w.write json r lastState fault).2 = .error .timestampRegression) :
      r.timestamp < w.store.lastTimestamp.getD 0 := by
    rw [Writer.write] at h
    split at h
    · rename_i hlt
      by_contra hle
      exact Bool.false_ne_true ((Scanner.not_any_lt.2 (Nat.le_of_not_lt hle)).symm.trans hlt)
    · rw [appendRecord] at h
      cases hencode : encodeRecord json r with
      | error e =>
        rw [hencode] at h
        cases h
      | ok line =>
        rw [hencode] at h
        cases fault with
        | none => cases h
        | some written => cases h
  rw [Writer.appendSample] at h
  split at h
  · cases h
  rename_i hp
  refine ⟨Bool.eq_false_of_not_eq_true hp, ?_⟩
  split at h
  · rw [Writer.checkpoint, if_neg hp] at h
    exact hwrite _ _ h
  · exact hwrite _ _ h

end

/-! ### Runs -/

section
variable {V : Type} [F64 V] {json : SerdeJson V}

/-- What the timestamp of the append under way has reached. -/
def reached : Live.Append V → Option Nat
  | .read canonicalLast => some (canonicalLast.getD 0)
  | .indexed t _ _ => some t
  | .idle | .stored _ => none

structure Inv (json : SerdeJson V) (s : State V) : Prop where
  ordered : Ordered s.inner
  store : Durability.Inv json s.store
  append : ∀ t ∈ reached s.append, s.store.writer.store.poisoned = false →
    s.store.writer.store.lastTimestamp.getD 0 ≤ t

theorem openHistory_eq_ok {days : Nat} {bytes : Option (List UInt8)} {boot : BootRecord} {s : State V}
    (hopen : openHistory json days bytes boot = .ok s) : ∃ w, openStore json bytes boot = .ok w ∧
      s.store = Durability.start json w boot ∧ s.append = .idle ∧
      s.inner = enrichCanonicalReplay {} w.store.replay.records (Live.cutoffAt days boot.timestamp) := by
  obtain ⟨w, hw, hs⟩ := bind_eq_ok.1 hopen
  obtain rfl := Except.ok.inj hs
  exact ⟨w, hw, rfl, rfl, rfl⟩

theorem ordered_openHistory {days : Nat} {bytes : Option (List UInt8)} {boot : BootRecord} {s : State V}
    (hopen : openHistory json days bytes boot = .ok s) : Ordered s.inner := by
  obtain ⟨w, hw, -, -, hinner⟩ := openHistory_eq_ok hopen
  rw [hinner]
  exact ordered_open hw _

theorem inv_open {days : Nat} {bytes : Option (List UInt8)} {boot : BootRecord} {s : State V}
    (hopen : openHistory json days bytes boot = .ok s)
    (hboot : json.Keeps (leadingBlanks json bytes) (.boot boot)) : Inv json s := by
  obtain ⟨w, hw, hstore, happend, -⟩ := openHistory_eq_ok hopen
  refine ⟨ordered_openHistory hopen, hstore ▸ start_inv hw hboot, fun t ht => ?_⟩
  rw [happend] at ht
  cases ht

variable [DecidableEq V] {parseF64 : String → Option V}

theorem step_reopen_eq_some {s s' : State V} {days timestamp : Nat} {bootId : String} {capacity : CapacitySnapshot}
    (hs : step json parseF64 s (.reopen days timestamp bootId capacity) = some s') :
    openHistory json days (some s.store.bytes) ⟨timestamp, bootId, canonicalCapacity capacity⟩ = .ok s' := by
  rw [step] at hs
  exact toOption_eq_some hs

/-- Every step keeps the index in order. -/
theorem ordered_step {s s' : State V} {op : Op} (h : Ordered s.inner) (hs : step json parseF64 s op = some s') :
    Ordered s'.inner := by
  cases op with
  | read =>
    rw [step] at hs
    split at hs
    · obtain rfl := Option.some.inj hs
      exact h
    · cases hs
  | index t snapshot capacity =>
    rw [step] at hs
    split at hs
    · obtain rfl := Option.some.inj hs
      exact h.index _ _ ((le_max_left _ _).trans (le_max_right _ _)) _ _
    · cases hs
  | store fault =>
    rw [step] at hs
    split at hs
    · obtain ⟨store, -, rfl⟩ := Option.map_eq_some_iff.1 hs
      exact h
    · cases hs
  | reconfigure days now =>
    obtain rfl := Option.some.inj hs
    exact h
  | prune n =>
    obtain ⟨cutoff, -, rfl⟩ := Option.map_eq_some_iff.1 hs
    exact h.prune cutoff
  | compact t days authorized fault =>
    rw [step] at hs
    split at hs
    · obtain ⟨store, -, rfl⟩ := Option.map_eq_some_iff.1 hs
      exact h
    · cases hs
  | reopen days timestamp bootId capacity => exact ordered_openHistory (step_reopen_eq_some hs)

theorem step_inv (hone : ∀ raw, 10 ∉ json.toVec raw) {s s' : State V} {op : Op} (h : Inv json s)
    (hop : Clean json s op) (hs : step json parseF64 s op = some s') : Inv json s' := by
  have hordered := ordered_step h.ordered hs
  cases op with
  | read =>
    rw [step] at hs
    split at hs
    · obtain rfl := Option.some.inj hs
      refine ⟨hordered, h.store, fun t ht _ => ?_⟩
      obtain rfl := Option.some.inj ht
      exact le_rfl
    · cases hs
  | index t snapshot capacity =>
    rw [step] at hs
    split at hs
    · rename_i canonicalLast happend
      obtain rfl := Option.some.inj hs
      refine ⟨hordered, h.store, fun t' ht hp => ?_⟩
      obtain rfl := Option.some.inj ht
      have hread : s.store.writer.store.lastTimestamp.getD 0 ≤ canonicalLast.getD 0 :=
        h.append _ (by rw [happend]; rfl) hp
      exact hread.trans ((le_max_right _ _).trans (le_max_right _ _))
    · cases hs
  | store fault =>
    rw [step] at hs
    rw [Clean] at hop
    split at hs
    · rename_i t capacity state happend
      rw [happend] at hop
      obtain ⟨store, hstore, rfl⟩ := Option.map_eq_some_iff.1 hs
      exact ⟨hordered, Durability.step_inv hone h.store ⟨hop, trivial⟩ hstore, nofun⟩
    · cases hs
  | reconfigure days now =>
    obtain rfl := Option.some.inj hs
    exact ⟨hordered, h.store, h.append⟩
  | prune n =>
    obtain ⟨cutoff, -, rfl⟩ := Option.map_eq_some_iff.1 hs
    exact ⟨hordered, h.store, h.append⟩
  | compact t days authorized fault =>
    rw [step] at hs
    split at hs
    · rename_i hcutoff
      obtain ⟨store, hstore, rfl⟩ := Option.map_eq_some_iff.1 hs
      have hlt : t - days * 86400 < maxU64 := by
        have : 0 < maxU64 := by decide
        omega
      obtain ⟨hpoisoned, hlast⟩ := compact_lastTimestamp h.store hlt hstore
      refine ⟨hordered, h.store.compact hone (Or.inl hlt) hstore, fun t' ht hp => ?_⟩
      have hp : s.store.writer.store.poisoned = false := hpoisoned.symm.trans hp
      exact (hlast hp).trans (h.append t' ht hp)
    · cases hs
  | reopen days timestamp bootId capacity => exact inv_open (step_reopen_eq_some hs) hop

/-- In every state of every run, whatever the clock reads: the points are in the order of their timestamps, the
bounds are the first and the last one's, and the record of the append under way does not regress. -/
theorem ordered_under_skew (hone : ∀ raw, 10 ∉ json.toVec raw) {days : Nat} {bytes : Option (List UInt8)}
    {boot : BootRecord} {s₀ : State V} (hopen : openHistory json days bytes boot = .ok s₀)
    (hboot : json.Keeps (leadingBlanks json bytes) (.boot boot)) {ops : List Op} {s : State V}
    (hclean : Meets (step json parseF64) (Clean json) s₀ ops)
    (hs : exec (step json parseF64) s₀ ops = some s) :
    (s.inner.points.map (·.t)).Pairwise (· ≤ ·) ∧
      s.inner.availableFrom = s.inner.points.head?.map (·.t) ∧
      s.inner.availableTo = s.inner.points.getLast?.map (·.t) ∧
      ∀ t capacity state, s.append = .indexed t capacity state → ∀ fault,
        (s.store.writer.appendSample json t (canonicalCapacity capacity) state fault).2 ≠
          .error .timestampRegression := by
  have h : Inv json s :=
    exec_invariant_of_meets (fun _ _ _ h hop hstep => step_inv hone h hop hstep) (inv_open hopen hboot) hclean hs
  refine ⟨h.ordered.sorted, h.ordered.availableFrom, h.ordered.availableTo, ?_⟩
  intro t capacity state happend fault hregress
  obtain ⟨hp, hlt⟩ := appendSample_regression hregress
  have hle := h.append t (by rw [happend]; rfl) hp
  omega

end

/-! ### A clock that steps back -/

instance {V : Type} [F64 V] [DecidableEq V] (json : SerdeJson V) (s : State V) : DecidablePred (Clean json s)
  | .store fault =>
    match h : s.append with
    | .indexed t capacity state =>
      decidable_of_iff (Readable json s.store (.appendSample t (canonicalCapacity capacity) state fault))
        (by rw [Clean, h])
    | .idle | .read _ | .stored _ => isTrue (by rw [Clean, h]; trivial)
  | .reopen _ timestamp bootId capacity =>
    (inferInstance : Decidable
      (json.Keeps (leadingBlanks json (some s.store.bytes)) (.boot ⟨timestamp, bootId, canonicalCapacity capacity⟩)))
  | .read | .index _ _ _ | .reconfigure _ _ | .prune _ | .compact _ _ _ _ => isTrue trivial

/-- Two processes, and a sample of the first. -/
def skewed : List (RawRecord ℚ) :=
  [⟨format, version, "boot", 90000, "a", ⟨40, 1, [40]⟩, .missing⟩,
    ⟨format, version, "sample", 90000, "a", ⟨40, 1, [40]⟩, .entries [⟨"counter", "n_total", ∅, 5⟩]⟩,
    ⟨format, version, "boot", 90000, "b", ⟨40, 1, [40]⟩, .missing⟩]

/-- The clock falls back to 10 and to 20; between, retention is set and the file is compacted and opened again. -/
def skewedRun : List Op :=
  [.read, .index 10 "n_total 5" Live.oneKey, .store none, .reconfigure 1 90000, .prune 0, .compact 90000 1 true none,
    .reopen 1 90000 "b" Live.oneKey, .read, .index 20 "n_total 7" Live.oneKey]

theorem ordered_under_skew_backwards :
    ∃ s₀ s, openHistory (.table skewed) 0 none ⟨90000, "a", ⟨40, 1, [40]⟩⟩ = .ok s₀ ∧
      exec (step (.table skewed) Live.naturalNumber) s₀ skewedRun = some s ∧
      s.inner.points.map (·.t) = [90000, 90000] ∧ s.inner.availableTo = s.inner.points.getLast?.map (·.t) := by
  have hrun : (openHistory (.table skewed) 0 none ⟨90000, "a", ⟨40, 1, [40]⟩⟩).toOption.any (fun s₀ => decide (
      Meets (step (.table skewed) Live.naturalNumber) (Clean (.table skewed)) s₀ skewedRun ∧
      ((exec (step (.table skewed) Live.naturalNumber) s₀ skewedRun).map fun s =>
        s.inner.points.map (·.t)) = some [90000, 90000])) = true := by decide +kernel
  obtain ⟨s₀, hopen, hrun⟩ := (Option.any_eq_true ..).1 hrun
  obtain ⟨hclean, hrun⟩ := of_decide_eq_true hrun
  obtain ⟨s, hs, hpoints⟩ := Option.map_eq_some_iff.1 hrun
  have hopen := toOption_eq_some hopen
  obtain ⟨-, -, hto, -⟩ := ordered_under_skew (SerdeJson.oneLine_table (by decide +kernel)) hopen
    (by decide +kernel) hclean hs
  exact ⟨s₀, s, hopen, hs, hpoints, hto⟩

end OpenProxy.Skew
