import OpenProxy.Served

/-!
# Counters over the lifetime of a file (`rollup`, `current` of `history.rs`, `rangeSamples` of `shared.js`)

Each process that wrote to the file counted from zero, and so did each part of one that a reset separates. Under
unlimited retention the dashboard's picture of everything adds up what all of them counted, the running process and
what it has not recorded yet included.
-/

namespace OpenProxy.Lifetime

open RangeTail Buckets Dashboard Served Telescope Transition

/-! ### The samples of a run -/

/-- The samples that a replay of the records ingests, after those that left `boot` and `state`. -/
def replayed (boot : Option String) (state : Option (List (StateEntry ℚ))) : List (Record ℚ) → List Telescope.Sample
  | [] => []
  | .boot r :: records => replayed (some r.bootId) none records
  | .sample r :: records =>
    ⟨r.timestamp, r.bootId, r.capacity, parsedCanonicalState r.state, none⟩ ::
      replayed (some r.bootId) (some r.state) records
  | .checkpoint r :: records =>
    match if boot == some r.bootId then state else none with
    | some state' =>
      ⟨r.timestamp, r.bootId, r.capacity, parsedCanonicalState state', none⟩ :: replayed boot state records
    | none => replayed boot state records

/-- The sample that an operation appends. -/
def sampled (parseF64 : String → Option ℚ) (bootId : String) : Op → Option Telescope.Sample
  | .history (.index t exposition capacity) =>
    some ⟨t, bootId, canonicalCapacity capacity, parseExposition parseF64 exposition, none⟩
  | _ => none

/-- Retention is not limited. -/
def Unlimited : Op → Prop
  | .history (.reconfigure days _) => days = 0
  | _ => True

theorem foldl_replayed (records : List (Record ℚ)) (e : Enrich ℚ) :
    (records.foldl (Enrich.record · none) e).inner =
      (replayed e.currentBoot e.currentState records).foldl Telescope.Sample.ingest e.inner := by
  induction records generalizing e with
  | nil => rfl
  | cons r records ih =>
    rw [List.foldl_cons, ih]
    cases r with
    | boot r => rfl
    | sample r => rfl
    | checkpoint r =>
      obtain ⟨inner, boot, state⟩ := e
      rw [Enrich.record, replayed]
      by_cases hboot : (boot == some r.bootId) = true
      · rw [if_pos hboot, if_pos hboot]
        cases state <;> rfl
      · rw [if_neg hboot, if_neg hboot]

/-- Another sample has the deltas that come on top. -/
theorem deltas_concat (inner : HistoryInner ℚ) (samples : List Telescope.Sample) (s : Telescope.Sample) :
    deltas inner (samples ++ [s]) = deltas inner samples ++
      [(normalize (samples.foldl Telescope.Sample.ingest inner).lastParsed s.current
        ((samples.foldl Telescope.Sample.ingest inner).resets s.bootId)).deltas] := by
  induction samples generalizing inner with
  | nil => rfl
  | cons s' samples ih => rw [List.cons_append, deltas, ih, deltas, List.foldl_cons, List.cons_append]

/-- The deltas are what all runs count at their ends. -/
theorem sum_all {samples : List Telescope.Sample} (hwhole : ∀ s ∈ samples, Whole s) (hstays : Stays samples)
    (key : MetricKey) : ((deltas {} samples).map (valueOf · key)).sum = ((runs samples).map (lastValue · key)).sum := by
  cases samples with
  | nil => rfl
  | cons s samples =>
    have hfirst : valueOf (normalize ({} : HistoryInner ℚ).lastParsed s.current
        (({} : HistoryInner ℚ).resets s.bootId)).deltas key = valueOf s.current.counters key := by
      rw [valueOf, deltas_first, valueOf]
    rw [deltas, List.map_cons, List.sum_cons, hfirst]
    exact sum_deltas (follows_ingest {} s) hwhole hstays key

/-! ### The index of a run -/

/-- The index holds the deltas of the samples, and is at the last of them. -/
structure Indexed (samples : List Telescope.Sample) (inner : HistoryInner ℚ) : Prop where
  deltas : inner.points.map (·.deltas) = deltas {} samples
  lastParsed : inner.lastParsed = (samples.foldl Telescope.Sample.ingest {}).lastParsed
  lastSampleBoot : inner.lastSampleBoot = (samples.foldl Telescope.Sample.ingest {}).lastSampleBoot

namespace Indexed
variable {samples : List Telescope.Sample} {inner : HistoryInner ℚ}

theorem resets (h : Indexed samples inner) (bootId : String) :
    inner.resets bootId = (samples.foldl Telescope.Sample.ingest {}).resets bootId := by
  rw [HistoryInner.resets, h.lastParsed, h.lastSampleBoot]
  rfl

theorem concat (h : Indexed samples inner) (s : Telescope.Sample) (t : Nat) (capacity : CapacitySnapshot) :
    Indexed (samples ++ [s]) (Live.indexSnapshot inner 0 s.bootId t s.current capacity) := by
  have hkeep : inner.points.filter (keeps (Live.cutoffAt 0 t) ·.t) = inner.points :=
    List.filter_eq_self.2 fun _ _ => rfl
  have hpoints : (Live.indexSnapshot inner 0 s.bootId t s.current capacity).points.map (·.deltas) =
      inner.points.map (·.deltas) ++ [(normalize inner.lastParsed s.current (inner.resets s.bootId)).deltas] := by
    let normalized := normalize inner.lastParsed s.current (inner.resets s.bootId)
    let point : IndexedPoint ℚ := ⟨t, normalized.deltas, normalized.gauges, some capacity⟩
    show (inner.points.filter (keeps (Live.cutoffAt 0 t) ·.t) ++ [point]).map (·.deltas) = _
    rw [hkeep, List.map_append]
    rfl
  refine ⟨?_, ?_, ?_⟩
  · rw [hpoints, deltas_concat, h.deltas, h.lastParsed, h.resets]
  · rw [List.foldl_append]
    rfl
  · rw [List.foldl_append]
    rfl

end Indexed

theorem indexed_open {json : SerdeJson ℚ} {bytes : Option (List UInt8)} {boot : BootRecord} {s : State ℚ}
    (hopen : RangeTail.openHistory json 0 bytes boot = .ok s) :
    Indexed (replayed none none s.history.store.writer.store.replay.records) s.history.inner ∧
      s.history.days = 0 ∧ s.history.prunes = [] := by
  obtain ⟨history, hhistory, hs⟩ := bind_eq_ok.1 hopen
  obtain rfl := Except.ok.inj hs
  obtain ⟨writer, -, hs⟩ := bind_eq_ok.1 hhistory
  obtain rfl := Except.ok.inj hs
  refine ⟨?_, rfl, rfl⟩
  show Indexed (replayed none none writer.store.replay.records) (enrichCanonicalReplay {} writer.store.replay.records none)
  have hfold : (enrichCanonicalReplay {} writer.store.replay.records none) =
      ((replayed none none writer.store.replay.records).foldl Telescope.Sample.ingest {}).setBounds :=
    congrArg HistoryInner.setBounds (foldl_replayed writer.store.replay.records {})
  have hcutoff : ∀ (records : List (Record ℚ)) (boot : Option String) (state : Option (List (StateEntry ℚ))),
      ∀ s ∈ replayed boot state records, s.cutoff = none := by
    intro records
    induction records with
    | nil => exact fun _ _ s hs => absurd hs List.not_mem_nil
    | cons r records ih =>
      intro boot state s hs
      cases r with
      | boot r => exact ih _ _ s hs
      | sample r =>
        rcases List.mem_cons.1 hs with rfl | hs
        · rfl
        · exact ih _ _ s hs
      | checkpoint r =>
        rw [replayed] at hs
        split at hs
        · rcases List.mem_cons.1 hs with rfl | hs
          · rfl
          · exact ih _ _ s hs
        · exact ih _ _ s hs
  rw [hfold]
  exact ⟨points_foldl (hcutoff _ _ _) {}, rfl, rfl⟩

section
variable {json : SerdeJson ℚ} {parseF64 : String → Option ℚ}

theorem bootId_write (w : Writer ℚ) (record : Record ℚ) (lastState : Option (List (StateEntry ℚ))) (fault : Option Nat) :
    (w.write json record lastState fault).1.store.bootId = w.store.bootId := by
  rw [Writer.write]
  split
  · rfl
  · dsimp only
    split <;> rfl

theorem bootId_appendSample (w : Writer ℚ) (timestamp : Nat) (capacity : Capacity) (state : List (StateEntry ℚ))
    (fault : Option Nat) : (w.appendSample json timestamp capacity state fault).1.store.bootId = w.store.bootId := by
  rw [Writer.appendSample]
  split
  · rfl
  split
  · rw [Writer.checkpoint]
    split
    · rfl
    · exact bootId_write ..
  · exact bootId_write ..

theorem writer_appended (s : Durability.State ℚ) (record : Record ℚ) (fault : Option Nat)
    (p : Writer ℚ × Except WriteError Unit) : (s.appended json record fault p).writer = p.1 := by
  obtain ⟨w, result⟩ := p
  cases result with
  | ok _ => rfl
  | error e => cases e <;> rfl

theorem bootId_compact (w : Writer ℚ) (cutoff : Nat) (authorized : Bool) (fault : Option CompactionFault) :
    (w.compactIfAuthorized json cutoff authorized fault).1.store.bootId = w.store.bootId := by
  have hcases := compactIfAuthorized_cases json w cutoff authorized fault
  generalize w.compactIfAuthorized json cutoff authorized fault = p at hcases
  cases hcases with
  | kept store disk uncommitted => rw [store]
  | replaced => rfl

/-- The state when the samples are indexed. -/
structure Recorded (bootId : String) (samples : List Telescope.Sample) (s : State ℚ) : Prop where
  indexed : Indexed samples s.history.inner
  bootId : s.bootId = bootId
  days : s.history.days = 0
  prunes : s.history.prunes = []

variable {bootId : String} {samples : List Telescope.Sample} {s s' : State ℚ}

theorem Recorded.step {op : Op} (h : Recorded bootId samples s) (hop : Unlimited op)
    (hs : RangeTail.step json parseF64 s op = some s') :
    Recorded bootId (samples ++ (sampled parseF64 bootId op).toList) s' := by
  cases op with
  | install expected =>
    obtain rfl := Option.some.inj hs
    show Recorded bootId (samples ++ []) _
    rw [List.append_nil]
    split
    · exact ⟨h.indexed, h.bootId, h.days, h.prunes⟩
    · exact h
  | history op =>
    obtain ⟨hstep, -⟩ := step_history_eq_some hs
    obtain ⟨history, revision⟩ := s'
    cases op with
    | read =>
      rw [Skew.step] at hstep
      split at hstep
      · obtain rfl := Option.some.inj hstep
        show Recorded bootId (samples ++ []) _
        rw [List.append_nil]
        exact ⟨h.indexed, h.bootId, h.days, h.prunes⟩
      · cases hstep
    | index t exposition capacity =>
      rw [Skew.step] at hstep
      split at hstep
      · obtain rfl := Option.some.inj hstep
        refine ⟨?_, h.bootId, h.days, h.prunes⟩
        have hid : s.history.store.writer.store.bootId = bootId := h.bootId
        show Indexed _ (Live.indexSnapshot _ _ _ _ _ _)
        rw [h.days, hid]
        exact h.indexed.concat ⟨t, bootId, canonicalCapacity capacity, parseExposition parseF64 exposition, none⟩ _ _
      · cases hstep
    | store fault =>
      rw [Skew.step] at hstep
      split at hstep
      · obtain ⟨store, hstore, rfl⟩ := Option.map_eq_some_iff.1 hstep
        show Recorded bootId (samples ++ []) _
        rw [List.append_nil]
        refine ⟨h.indexed, ?_, h.days, h.prunes⟩
        obtain rfl := Option.some.inj hstore
        show (Durability.State.appended _ _ _ _ _).writer.store.bootId = bootId
        rw [writer_appended, bootId_appendSample]
        exact h.bootId
      · cases hstep
    | reconfigure days now =>
      obtain rfl := Option.some.inj hstep
      obtain rfl : days = 0 := hop
      show Recorded bootId (samples ++ []) _
      rw [List.append_nil]
      exact ⟨h.indexed, h.bootId, rfl, h.prunes⟩
    | prune n =>
      -- nothing limits retention, so that nothing is left to prune
      obtain ⟨cutoff, hcutoff, -⟩ := Option.map_eq_some_iff.1 hstep
      rw [h.prunes] at hcutoff
      cases hcutoff
    | compact t days authorized fault =>
      rw [Skew.step] at hstep
      split at hstep
      · obtain ⟨store, hstore, rfl⟩ := Option.map_eq_some_iff.1 hstep
        show Recorded bootId (samples ++ []) _
        rw [List.append_nil]
        refine ⟨h.indexed, ?_, h.days, h.prunes⟩
        obtain rfl := Option.some.inj hstore
        show (Writer.compactIfAuthorized _ _ _ _ _).1.store.bootId = bootId
        rw [bootId_compact]
        exact h.bootId
      · cases hstep
    | reopen days timestamp bootId capacity => cases hs

theorem Recorded.exec {ops : List Op} (h : Recorded bootId samples s) (hops : ∀ op ∈ ops, Unlimited op)
    (hs : exec (RangeTail.step json parseF64) s ops = some s') :
    Recorded bootId (samples ++ ops.filterMap (sampled parseF64 bootId)) s' := by
  induction ops generalizing s samples with
  | nil =>
    obtain rfl := Option.some.inj hs
    rw [List.filterMap_nil, List.append_nil]
    exact h
  | cons op ops ih =>
    rw [List.forall_mem_cons] at hops
    obtain ⟨t, hstep, hrest⟩ := exec_cons_eq_some.1 hs
    have := ih (h.step hops.1 hstep) hops.2 hrest
    rw [List.append_assoc] at this
    rw [List.filterMap_cons]
    cases hsampled : sampled parseF64 bootId op with
    | none =>
      rw [hsampled] at this
      exact this
    | some sample =>
      rw [hsampled] at this
      exact this

end

/-! ### The picture of everything -/

/-- The samples of the file that was opened and of the run. -/
def lifetime (parseF64 : String → Option ℚ) (s : State ℚ) (ops : List Op) : List Telescope.Sample :=
  replayed none none s.history.store.writer.store.replay.records ++ ops.filterMap (sampled parseF64 s.bootId)

section
variable {gauge : MetricKey → Prop} {json : SerdeJson ℚ} {parseF64 : String → Option ℚ}

/-- The range has the deltas of all samples, and the tail that of the snapshot. -/
theorem total_lifetime {s₀ s : State ℚ} {ops : List Op}
    (h : Recorded s₀.bootId (lifetime parseF64 s₀ ops) s) (hsorted : Sorted s.history.inner) {lo hi : Nat}
    (hcovers : ∀ p ∈ s.history.inner.points, lo < p.t ∧ p.t ≤ hi) (n t : Nat) (exposition : String)
    (capacity : CapacitySnapshot) (key : MetricKey) :
    total (s.rollup lo hi n).totals key + total (s.current parseF64 t exposition).tail.totals key =
      ((deltas {} (lifetime parseF64 s₀ (ops ++ [.history (.index t exposition capacity)]))).map (valueOf · key)).sum := by
  have hshown : shown s.history.inner lo hi = s.history.inner.points :=
    List.filter_eq_self.2 fun p hp => decide_eq_true (hcovers p hp)
  have hrange : total (s.rollup lo hi n).totals key = ((s.history.inner.points.map (·.deltas)).map (valueOf · key)).sum := by
    show total (s.history.inner.rollup lo hi n).totals key = _
    rw [total_rollup hsorted, hshown, List.map_map]
    rfl
  have htail : total (s.current parseF64 t exposition).tail.totals key =
      valueOf (normalize s.history.inner.lastParsed (parseExposition parseF64 exposition)
        (s.history.inner.resets s₀.bootId)).deltas key := by
    rw [← h.bootId]
    exact total_metricValues _ key
  have hsplit : lifetime parseF64 s₀ (ops ++ [.history (.index t exposition capacity)]) = lifetime parseF64 s₀ ops ++
      [⟨t, s₀.bootId, canonicalCapacity capacity, parseExposition parseF64 exposition, none⟩] := by
    rw [lifetime, lifetime, List.filterMap_append, List.append_assoc]
    rfl
  rw [hrange, htail, hsplit, deltas_concat, List.map_append, List.sum_append, List.map_singleton, List.sum_singleton,
    h.indexed.deltas, h.indexed.lastParsed, h.indexed.resets]

/-- In every run under unlimited retention a range of everything and its tail are drawn as what all processes have
counted up to the snapshot, resets between them or within them aside. -/
theorem drawn_lifetime {bytes : Option (List UInt8)} {boot : BootRecord} {s₀ : State ℚ}
    (hopen : RangeTail.openHistory json 0 bytes boot = .ok s₀)
    (hrecords : ∀ r ∈ s₀.history.store.writer.store.replay.records, SoundRecord gauge r) {ops : List Op}
    (hops : ∀ op ∈ ops, SoundOp gauge parseF64 op) (hunlimited : ∀ op ∈ ops, Unlimited op)
    (hlength : ops.length < 2 ^ 64) {i j : Nat} {a b : State ℚ}
    (ha : exec (step json parseF64) s₀ (ops.take i) = some a) (hb : exec (step json parseF64) s₀ (ops.take j) = some b)
    (hsame : a.revision = b.revision) {defaultWindowDays now : Nat} {query : DashboardQuery} {range : RangeResponse}
    (hrange : apiDashboard a defaultWindowDays now query = .ok range)
    (hcovers : ∀ p ∈ a.history.inner.points,
      query.requestedFrom now defaultWindowDays < p.t ∧ p.t ≤ query.requestedTo now)
    {t : Nat} {exposition : String} {capacity : CapacitySnapshot}
    (hexposition : SoundSnapshot gauge (parseExposition parseF64 exposition))
    (hwhole : ∀ s ∈ lifetime parseF64 s₀ (ops.take j ++ [.history (.index t exposition capacity)]), Whole s)
    (hstays : Stays (lifetime parseF64 s₀ (ops.take j ++ [.history (.index t exposition capacity)])))
    (locale : Dashboard.Locale) {key : MetricKey} (hkey : Plain key) (hcounter : ¬ gauge key) :
    windowed (fun s => valueIn s.rows key)
        (rangeSamples locale range (some (b.current parseF64 t exposition).tail)) =
      ((runs (lifetime parseF64 s₀ (ops.take j ++ [.history (.index t exposition capacity)]))).map
        (lastValue · key)).sum := by
  have hgood : ∀ {k : Nat} {s : State ℚ}, exec (step json parseF64) s₀ (ops.take k) = some s → SoundState gauge s :=
    fun hs => soundState_exec hopen hrecords (fun op hop => hops op (List.mem_of_mem_take hop)) hs
  obtain ⟨-, hrollup⟩ := apiDashboard_eq_ok hrange
  obtain ⟨hindexed, hdays, hprunes⟩ := indexed_open hopen
  have hrecorded : Recorded s₀.bootId (lifetime parseF64 s₀ (ops.take j)) b :=
    (Recorded.mk hindexed rfl hdays hprunes).exec (fun op hop => hunlimited op (List.mem_of_mem_take hop)) hb
  have hindex := inner_eq_of_same hopen hlength ha hb hsame
  rw [hindex] at hcovers
  have htotals : (a.rollup (query.requestedFrom now defaultWindowDays) (query.requestedTo now) query.buckets).totals =
      (b.rollup (query.requestedFrom now defaultWindowDays) (query.requestedTo now) query.buckets).totals := by
    show (a.history.inner.rollup _ _ _).totals = (b.history.inner.rollup _ _ _).totals
    rw [hindex]
  rw [windowed_drawn (hgood ha) hrollup hexposition hsame locale hkey hcounter, htotals,
    total_lifetime hrecorded (hgood hb).sorted hcovers query.buckets t exposition capacity, sum_all hwhole hstays]

end

theorem replayed_boots {records : List (Record ℚ)} (h : ∀ r ∈ records, r.isBoot = true) (boot : Option String)
    (state : Option (List (StateEntry ℚ))) : replayed boot state records = [] := by
  induction records generalizing boot state with
  | nil => rfl
  | cons r records ih =>
    rw [List.forall_mem_cons] at h
    cases r with
    | boot r => exact ih h.2 _ _
    | sample r => cases h.1
    | checkpoint r => cases h.1

def requests (t : Nat) (exposition : String) : Telescope.Sample :=
  ⟨t, "a", canonicalCapacity Live.oneKey, parseExposition Live.naturalNumber exposition, none⟩

/-- Five requests, and two after the counters started over. -/
def startedOver : List Telescope.Sample := [requests 90000 "n_total 5", requests 90005 "n_total 2"]

theorem whole_startedOver : ∀ s ∈ startedOver, Whole s := by
  have hall : (startedOver.all fun s => s.current.counters.toList.all fun p =>
      decide (p.2 = (p.2.num.toNat : ℚ))) = true := by decide +kernel
  intro s hs key value hvalue
  have hs := List.all_eq_true.1 (List.all_eq_true.1 hall s hs) (key, value)
    (Std.ExtTreeMap.mem_toList_iff_getElem?_eq_some.2 hvalue)
  exact ⟨_, of_decide_eq_true hs⟩

theorem stays_startedOver : Stays startedOver := by
  have hrestarts : restarts (requests 90000 "n_total 5") (requests 90005 "n_total 2") = true := by decide +kernel
  refine List.isChain_cons_cons.2 ⟨fun h => ?_, List.isChain_singleton _⟩
  rw [hrestarts] at h
  cases h

theorem drawn_lifetime_startedOver :
    ∃ s₀ s range, RangeTail.openHistory (.table Skew.skewed) 0 none ⟨90000, "a", ⟨40, 1, [40]⟩⟩ = .ok s₀ ∧
      exec (step (.table Skew.skewed) Live.naturalNumber) s₀ fiveSampled = some s ∧
      apiDashboard s 30 90000 { «from» := some 0 } = .ok range ∧
      windowed (fun s => valueIn s.rows nTotal) (rangeSamples ⟨id, fun _ => .refl _⟩ range
        (some (s.current Live.naturalNumber 90005 "n_total 2").tail)) = 5 + 2 := by
  have hrun : (RangeTail.openHistory (.table Skew.skewed) 0 none ⟨90000, "a", ⟨40, 1, [40]⟩⟩).toOption.any (fun s₀ =>
      s₀.history.store.writer.store.replay.records.all Record.isBoot && decide (s₀.bootId = "a") &&
        (exec (step (.table Skew.skewed) Live.naturalNumber) s₀ fiveSampled).any fun s =>
          s.history.inner.points.all fun p => decide (0 < p.t ∧ p.t ≤ 90000)) = true := by decide +kernel
  obtain ⟨s₀, hopen, hrun⟩ := (Option.any_eq_true ..).1 hrun
  rw [Bool.and_eq_true, Bool.and_eq_true, List.all_eq_true] at hrun
  obtain ⟨⟨hboots, hid⟩, hrun⟩ := hrun
  obtain ⟨s, hs, hpoints⟩ := (Option.any_eq_true ..).1 hrun
  rw [List.all_eq_true] at hpoints
  have hopen := toOption_eq_some hopen
  have hrecords : ∀ r ∈ s₀.history.store.writer.store.replay.records, SoundRecord (fun _ => False) r := by
    intro r hr
    have hboot := hboots r hr
    cases r with
    | boot r => trivial
    | sample r => cases hboot
    | checkpoint r => trivial
  have hfive : SoundSnapshot (fun _ => False) (parseExposition Live.naturalNumber "n_total 5") :=
    sound_single (n := 5) (by decide +kernel) (by decide +kernel)
  have htwo : SoundSnapshot (fun _ => False) (parseExposition Live.naturalNumber "n_total 2") :=
    sound_single (n := 2) (by decide +kernel) (by decide +kernel)
  have hops : ∀ op ∈ fiveSampled, SoundOp (fun _ => False) Live.naturalNumber op ∧ Unlimited op := by
    intro op hop
    simp only [fiveSampled, List.mem_cons, List.not_mem_nil, or_false] at hop
    rcases hop with rfl | rfl | rfl | rfl | rfl
    · exact ⟨trivial, trivial⟩
    · exact ⟨hfive, trivial⟩
    · exact ⟨trivial, trivial⟩
    · exact ⟨trivial, trivial⟩
    · exact ⟨trivial, trivial⟩
  have hlifetime : lifetime Live.naturalNumber s₀
      (fiveSampled.take 5 ++ [.history (.index 90005 "n_total 2" Live.oneKey)]) = startedOver := by
    rw [lifetime, replayed_boots hboots, of_decide_eq_true hid]
    rfl
  have hlast : exec (step (.table Skew.skewed) Live.naturalNumber) s₀ (fiveSampled.take 5) = some s := hs
  have hrange : apiDashboard s 30 90000 { «from» := some 0 } = .ok { s.rollup 0 90000 288 with
      requestedFrom := 0, totalsOnce := totalsOnce_rollup s.history.inner 0 90000 288 } := rfl
  have hdrawn := drawn_lifetime hopen hrecords (fun op hop => (hops op hop).1) (fun op hop => (hops op hop).2)
    (by decide) hlast hlast rfl hrange (fun p hp => of_decide_eq_true (hpoints p hp)) htwo
    (hlifetime ▸ whole_startedOver) (hlifetime ▸ stays_startedOver) ⟨id, fun _ => .refl _⟩
    (show Plain nTotal from plain_unlabelled (by decide)) id
  have hruns : ((runs startedOver).map (lastValue · nTotal)) = [5, 2] := by decide +kernel
  refine ⟨s₀, s, _, hopen, hs, hrange, hdrawn.trans ?_⟩
  rw [hlifetime, hruns]
  norm_num

end OpenProxy.Lifetime
