import OpenProxy.Json
import OpenProxy.Live

/-!
# Request metrics in the history (`record_shape` of `proxy.rs`)

Every generation request leaves counts and sizes in the metrics registry, and the sampler takes the registry's
exposition into the history. The registry belongs to the metrics library: a counter shows the sum of its
increments, a histogram the sum, the number and the cumulative buckets of what was recorded in it, and the
exposition has one line for each of these. The registry is exact; the history holds the floats that the lines read
as, and its arithmetic is that of `f64`.
-/

namespace OpenProxy.Shape

open Json Text Transition

/-! ### Floats -/

/-- The number is a float. -/
def Representable {V : Type} [F64 V] (toRat : V → ℚ) (x : ℚ) : Prop := ∃ a : V, F64.isFinite a = true ∧ toRat a = x

/-- What `f64` keeps to: `toRat` is the number a finite float stands for, `round` the float that a number reads as.
Comparisons are exact, and so is a difference that is a float. -/
structure Ieee {V : Type} [F64 V] (toRat : V → ℚ) (round : ℚ → V) : Prop where
  lt {a b : V} : F64.isFinite a = true → F64.isFinite b = true → (F64.lt a b = true ↔ toRat a < toRat b)
  sub {a b : V} : F64.isFinite a = true → F64.isFinite b = true → Representable toRat (toRat a - toRat b) →
    F64.isFinite (a - b) = true ∧ toRat (a - b) = toRat a - toRat b
  round {a : V} : F64.isFinite a = true → round (toRat a) = a
  zero : F64.isFinite (0 : V) = true ∧ toRat 0 = 0
  epsilon : F64.isFinite (-F64.epsilon : V) = true ∧ toRat (-F64.epsilon) < 0

theorem Ieee.round_representable {V : Type} [F64 V] {toRat : V → ℚ} {round : ℚ → V} (h : Ieee toRat round) {x : ℚ}
    (hx : Representable toRat x) : F64.isFinite (round x) = true ∧ toRat (round x) = x := by
  obtain ⟨a, ha, rfl⟩ := hx
  rw [h.round ha]
  exact ⟨ha, rfl⟩

theorem representable_rat (x : ℚ) : Representable (id : ℚ → ℚ) x := ⟨x, rfl, rfl⟩

/-- Exact arithmetic. -/
theorem ieee_rat : Ieee (id : ℚ → ℚ) id where
  lt _ _ := decide_eq_true_iff
  sub _ _ _ := ⟨rfl, rfl⟩
  round _ := rfl
  zero := ⟨rfl, rfl⟩
  epsilon := ⟨rfl, by norm_num [F64.epsilon]⟩

/-! ### The metrics of the proxy -/

def counterNames : List String := [
  "nimproxy_affinity_total", "nimproxy_completion_tokens_total", "nimproxy_deadline_exceeded_total",
  "nimproxy_finish_reason_total", "nimproxy_json_mode_total", "nimproxy_lane_cooldown_total",
  "nimproxy_lane_requests_total", "nimproxy_login_failures_total", "nimproxy_prompt_tokens_total",
  "nimproxy_reasoning_tokens_total", "nimproxy_requests_total", "nimproxy_shed_total",
  "nimproxy_stream_requests_total", "nimproxy_tool_calls_total", "nimproxy_tool_choice_total",
  "nimproxy_unauthorized_total", "nimproxy_usage_observations_total", "nimproxy_worker_exhausted_total"]

def gaugeNames : List String := [
  "nimproxy_active_requests", "nimproxy_history_persistence_degraded", "nimproxy_model_inflight",
  "nimproxy_model_limit", "nimproxy_queue_depth"]

/-- `HISTOGRAM_BUCKETS`, each bound with its text in the exposition. -/
def histogramBuckets : List (String × List (String × ℚ)) := [
  ("nimproxy_ttft_seconds", [("0.05", 0.05), ("0.1", 0.1), ("0.25", 0.25), ("0.5", 0.5), ("1", 1), ("2", 2),
    ("5", 5), ("10", 10), ("30", 30), ("60", 60)]),
  ("nimproxy_tokens_per_second", [("1", 1), ("2", 2), ("5", 5), ("10", 10), ("20", 20), ("40", 40), ("80", 80),
    ("160", 160), ("320", 320)]),
  ("nimproxy_queue_wait_seconds", [("0.001", 0.001), ("0.05", 0.05), ("0.25", 0.25), ("1", 1), ("5", 5),
    ("15", 15), ("60", 60), ("180", 180), ("600", 600)]),
  ("nimproxy_upstream_seconds", [("0.25", 0.25), ("0.5", 0.5), ("1", 1), ("2", 2), ("5", 5), ("10", 10),
    ("30", 30), ("60", 60), ("120", 120), ("300", 300)]),
  ("nimproxy_tpot_seconds", [("0.005", 0.005), ("0.01", 0.01), ("0.02", 0.02), ("0.04", 0.04), ("0.08", 0.08),
    ("0.16", 0.16), ("0.32", 0.32)]),
  ("nimproxy_request_messages", [("1", 1), ("2", 2), ("4", 4), ("8", 8), ("16", 16), ("32", 32), ("64", 64),
    ("128", 128)]),
  ("nimproxy_request_tools", [("0", 0), ("1", 1), ("2", 2), ("4", 4), ("8", 8), ("16", 16), ("32", 32),
    ("64", 64)]),
  ("nimproxy_request_max_tokens", [("128", 128), ("256", 256), ("512", 512), ("1024", 1024), ("2048", 2048),
    ("4096", 4096), ("8192", 8192), ("16384", 16384), ("32768", 32768), ("65536", 65536), ("131072", 131072)]),
  ("nimproxy_request_temperature", [("0", 0), ("0.2", 0.2), ("0.4", 0.4), ("0.6", 0.6), ("0.8", 0.8), ("1", 1),
    ("1.2", 1.2), ("1.5", 1.5), ("2", 2)])]

def histogramNames : List String := histogramBuckets.map Prod.fst

structure Counter where
  name : String
  mem : name ∈ counterNames
  deriving DecidableEq

structure Histogram where
  name : String
  mem : name ∈ histogramNames
  deriving DecidableEq

def Histogram.bounds (h : Histogram) : List (String × ℚ) := (histogramBuckets.lookup h.name).getD []

/-- Labels of a metric; `le` is the exposition's own. -/
structure LabelSet where
  labels : Labels
  le : labels.contains "le" = false
  deriving DecidableEq

def labelSet (ls : List (String × String)) (h : "le" ∉ ls.map Prod.fst) : LabelSet where
  labels := .ofList ls
  le := by
    rw [Std.ExtTreeMap.contains_ofList, ← Bool.not_eq_true, List.contains_iff_mem]
    exact h

inductive Recording where
  | counter (c : Counter) (labels : LabelSet) (n : Nat)
  | histogram (h : Histogram) (labels : LabelSet) (value : ℚ)

/-! ### The registry -/

def increments (rs : List Recording) (c : Counter) (labels : LabelSet) : List Nat :=
  rs.filterMap fun
    | .counter c' labels' n => if c' = c ∧ labels' = labels then some n else none
    | .histogram .. => none

def observations (rs : List Recording) (h : Histogram) (labels : LabelSet) : List ℚ :=
  rs.filterMap fun
    | .counter .. => none
    | .histogram h' labels' value => if h' = h ∧ labels' = labels then some value else none

/-- The counter-like series of an exposition. -/
inductive SeriesId where
  | counter (c : Counter) (labels : LabelSet)
  | bucket (h : Histogram) (labels : LabelSet) (le : String)
  | sum (h : Histogram) (labels : LabelSet)
  | count (h : Histogram) (labels : LabelSet)

def SeriesId.key : SeriesId → MetricKey
  | .counter c labels => ⟨c.name, labels.labels⟩
  | .bucket h labels le => ⟨h.name ++ "_bucket", labels.labels.insert "le" le⟩
  | .sum h labels => ⟨h.name ++ "_sum", labels.labels⟩
  | .count h labels => ⟨h.name ++ "_count", labels.labels⟩

/-- The value a series shows after some recordings, if there is one. -/
def SeriesId.value (rs : List Recording) : SeriesId → Option ℚ
  | .counter c labels =>
    let ns := increments rs c labels
    if ns = [] then none else some ns.sum
  | .bucket h labels le =>
    let values := observations rs h labels
    if values = [] then none
    else if le = "+Inf" then some values.length
    else (h.bounds.lookup le).map fun bound => (values.countP (· ≤ bound) : ℚ)
  | .sum h labels =>
    let values := observations rs h labels
    if values = [] then none else some values.sum
  | .count h labels =>
    let values := observations rs h labels
    if values = [] then none else some values.length

/-- `# TYPE` of a metric. -/
def kindOf (name : String) : Option PrometheusType :=
  if name ∈ counterNames then some .counter
  else if name ∈ gaugeNames then some .gauge
  else if name ∈ histogramNames then some .histogram
  else none

section
variable {V : Type} [F64 V]

/-- The lines are the exposition of the registry, in some order. A value that does not read as a finite float makes
its line unreadable. -/
structure Renders (round : ℚ → V) (rs : List Recording) (lines : List (Line V)) : Prop where
  readable : .sample none ∈ lines → ∃ (id : SeriesId) (x : ℚ), id.value rs = some x ∧ F64.isFinite (round x) = false
  types : ∀ name kind, .type name kind ∈ lines → kindOf name = some kind
  sound : ∀ key value, .sample (some (key, value)) ∈ lines →
    key.metric ∈ gaugeNames ∨ ∃ (id : SeriesId) (x : ℚ), id.key = key ∧ id.value rs = some x ∧ value = round x
  complete : ∀ (id : SeriesId) (x : ℚ), id.value rs = some x → F64.isFinite (round x) = true →
    .sample (some (id.key, round x)) ∈ lines

end

theorem counterName_ne : ∀ n ∈ counterNames, ∀ h ∈ histogramNames,
    n ≠ h ++ "_bucket" ∧ n ≠ h ++ "_sum" ∧ n ≠ h ++ "_count" := by
  decide +kernel

theorem histogramName_ne : ∀ n ∈ histogramNames, ∀ h ∈ histogramNames,
    n ++ "_bucket" ≠ h ++ "_sum" ∧ n ++ "_bucket" ≠ h ++ "_count" ∧ n ++ "_sum" ≠ h ++ "_count" := by
  decide +kernel

theorem Counter.ext {c c' : Counter} (h : c.name = c'.name) : c = c' := by
  cases c
  cases c'
  cases h
  rfl

theorem Histogram.ext {h h' : Histogram} {suffix : String} (heq : h.name ++ suffix = h'.name ++ suffix) : h = h' := by
  cases h
  cases h'
  cases (String.append_left_inj suffix).1 heq
  rfl

theorem LabelSet.ext {l l' : LabelSet} (h : l.labels = l'.labels) : l = l' := by
  cases l
  cases l'
  cases h
  rfl

theorem insert_le_injective {l l' : LabelSet} {le le' : String}
    (h : l.labels.insert "le" le = l'.labels.insert "le" le') : l = l' ∧ le = le' := by
  have hget : ∀ name : String, (l.labels.insert "le" le)[name]? = (l'.labels.insert "le" le')[name]? := fun name => by
    rw [h]
  refine ⟨LabelSet.ext <| Std.ExtTreeMap.ext_getElem? fun name => ?_, ?_⟩
  · by_cases hname : name = "le"
    · rw [hname, Std.ExtTreeMap.getElem?_eq_none_of_contains_eq_false l.le,
        Std.ExtTreeMap.getElem?_eq_none_of_contains_eq_false l'.le]
    · have := hget name
      rwa [Std.ExtTreeMap.getElem?_insert, Std.ExtTreeMap.getElem?_insert, if_neg, if_neg] at this
      all_goals exact fun h' => hname (compare_eq_iff_eq.1 h').symm
  · have := hget "le"
    rw [Std.ExtTreeMap.getElem?_insert_self, Std.ExtTreeMap.getElem?_insert_self] at this
    exact Option.some.inj this

/-- No two series have the same name and labels. -/
theorem SeriesId.key_injective {id id' : SeriesId} (hkey : id.key = id'.key) : id = id' := by
  cases id <;> cases id' <;> obtain ⟨hname, hlabels⟩ := MetricKey.mk.inj hkey
  case counter.counter => rw [Counter.ext hname, LabelSet.ext hlabels]
  case bucket.bucket =>
    obtain ⟨hl, hle⟩ := insert_le_injective hlabels
    rw [Histogram.ext hname, hl, hle]
  case sum.sum => rw [Histogram.ext hname, LabelSet.ext hlabels]
  case count.count => rw [Histogram.ext hname, LabelSet.ext hlabels]
  case counter.bucket c _ h _ _ => exact absurd hname (counterName_ne _ c.mem _ h.mem).1
  case counter.sum c _ h _ => exact absurd hname (counterName_ne _ c.mem _ h.mem).2.1
  case counter.count c _ h _ => exact absurd hname (counterName_ne _ c.mem _ h.mem).2.2
  case bucket.counter h _ _ c _ => exact absurd hname.symm (counterName_ne _ c.mem _ h.mem).1
  case sum.counter h _ c _ => exact absurd hname.symm (counterName_ne _ c.mem _ h.mem).2.1
  case count.counter h _ c _ => exact absurd hname.symm (counterName_ne _ c.mem _ h.mem).2.2
  case bucket.sum h _ _ h' _ => exact absurd hname (histogramName_ne _ h.mem _ h'.mem).1
  case bucket.count h _ _ h' _ => exact absurd hname (histogramName_ne _ h.mem _ h'.mem).2.1
  case sum.count h _ h' _ => exact absurd hname (histogramName_ne _ h.mem _ h'.mem).2.2
  case sum.bucket h _ h' _ _ => exact absurd hname.symm (histogramName_ne _ h'.mem _ h.mem).1
  case count.bucket h _ h' _ _ => exact absurd hname.symm (histogramName_ne _ h'.mem _ h.mem).2.1
  case count.sum h _ h' _ => exact absurd hname.symm (histogramName_ne _ h'.mem _ h.mem).2.2

/-! ### The snapshot of an exposition -/

theorem endsWith_counterName : ∀ n ∈ counterNames, endsWith n "_total" = true := by decide +kernel

theorem kindOf_counterName : ∀ n ∈ counterNames, kindOf n = some .counter := by decide +kernel

theorem kindOf_histogramSeries : ∀ h ∈ histogramNames,
    kindOf (h ++ "_bucket") = none ∧ kindOf (h ++ "_sum") = none ∧ kindOf (h ++ "_count") = none := by
  decide +kernel

theorem kindOf_gaugeName : ∀ n ∈ gaugeNames, kindOf n = some .gauge := by decide +kernel

theorem suffix_gaugeName : ∀ n ∈ gaugeNames,
    (∀ suffix ∈ ["_bucket", "_count", "_sum"], stripSuffix n suffix = none) ∧
      ["_total", "_bucket", "_count", "_sum"].any (endsWith n) = false := by
  decide +kernel

def Declared (types : Types) : Prop := ∀ (name : String) kind, types[name]? = some kind → kindOf name = some kind

theorem isCounterLike_of_none {types : Types} (h : Declared types) {metric : String}
    (hkind : kindOf metric = none ∨ kindOf metric = some .counter)
    (hends : ["_total", "_bucket", "_count", "_sum"].any (endsWith metric) = true) :
    isCounterLike metric types = true := by
  unfold isCounterLike
  split
  · rename_i kind hget
    rcases hkind with hkind | hkind
    · rw [h _ _ hget] at hkind
      cases hkind
    · rw [h _ _ hget] at hkind
      obtain rfl := Option.some.inj hkind
      rfl
  · rw [hends, Bool.or_true]

theorem isCounterLike_series {types : Types} (h : Declared types) (id : SeriesId) :
    isCounterLike id.key.metric types = true := by
  cases id with
  | counter c labels =>
    refine isCounterLike_of_none h (.inr (kindOf_counterName _ c.mem)) ?_
    exact List.any_eq_true.2 ⟨"_total", by simp, endsWith_counterName _ c.mem⟩
  | bucket hg labels le =>
    refine isCounterLike_of_none h (.inl (kindOf_histogramSeries _ hg.mem).1) ?_
    exact List.any_eq_true.2 ⟨"_bucket", by simp, endsWith_append _ _⟩
  | sum hg labels =>
    refine isCounterLike_of_none h (.inl (kindOf_histogramSeries _ hg.mem).2.1) ?_
    exact List.any_eq_true.2 ⟨"_sum", by simp, endsWith_append _ _⟩
  | count hg labels =>
    refine isCounterLike_of_none h (.inl (kindOf_histogramSeries _ hg.mem).2.2) ?_
    exact List.any_eq_true.2 ⟨"_count", by simp, endsWith_append _ _⟩

theorem isCounterLike_gauge {types : Types} (h : Declared types) {metric : String} (hmem : metric ∈ gaugeNames) :
    isCounterLike metric types = false := by
  obtain ⟨hstrip, hends⟩ := suffix_gaugeName _ hmem
  unfold isCounterLike
  split
  · rename_i kind hget
    have hkind := h _ _ hget
    rw [kindOf_gaugeName _ hmem] at hkind
    obtain rfl := Option.some.inj hkind
    rfl
  · rw [hends, Bool.or_false, List.any_eq_false]
    intro suffix hsuffix
    rw [hstrip suffix hsuffix]
    exact Bool.false_ne_true

section
variable {V : Type}

def isSample : Line V → Bool
  | .sample _ => true
  | _ => false

/-- The parser after some lines of an exposition. -/
structure Reads (lines : List (Line V)) (p : Parse V) : Prop where
  types : Declared p.types
  series : p.series = lines.countP isSample
  sound : ∀ (key : MetricKey) value, p.parsed.counters[key]? = some value → key.metric ∉ gaugeNames ∧
    .sample (some (key, value)) ∈ lines
  complete : ∀ key value, key.metric ∉ gaugeNames → .sample (some (key, value)) ∈ lines →
    ∃ value', p.parsed.counters[key]? = some value'

theorem Reads.other {lines : List (Line V)} {p : Parse V} (h : Reads lines p) {line : Line V}
    (hline : isSample line = false) {types : Types} (htypes : Declared types) {skippedLines : Nat} :
    Reads (lines ++ [line])
      { p with types, parsed := { p.parsed with skippedLines } } := by
  have hmem : ∀ key value, Line.sample (some (key, value)) ∈ lines ++ [line] → Line.sample (some (key, value)) ∈ lines := by
    intro key value hmem
    rcases List.mem_append.1 hmem with hmem | hmem
    · exact hmem
    · rw [← List.mem_singleton.1 hmem] at hline
      cases hline
  refine ⟨htypes, ?_, fun key value hget => ?_, fun key value hname hmem' => ?_⟩
  · rw [List.countP_append, List.countP_singleton, hline]
    exact h.series
  · exact (h.sound key value hget).imp_right (List.mem_append_left _)
  · exact h.complete key value hname (hmem key value hmem')

theorem Reads.sample {lines : List (Line V)} {p : Parse V} (h : Reads lines p) {key : MetricKey} {value : V}
    (hkey : key.metric ∈ gaugeNames ∨ ∃ id : SeriesId, id.key = key) :
    Reads (lines ++ [.sample (some (key, value))])
      { p with parsed := p.parsed.insert p.types key value, series := p.series + 1 } := by
  have hseries : p.series + 1 = (lines ++ [Line.sample (some (key, value))]).countP isSample := by
    rw [List.countP_append, h.series]
    rfl
  have hmem : ∀ key' value', key' ≠ key → Line.sample (some (key', value')) ∈ lines ++ [.sample (some (key, value))] →
      Line.sample (some (key', value')) ∈ lines := by
    intro key' value' hne hmem
    rcases List.mem_append.1 hmem with hmem | hmem
    · exact hmem
    · cases List.mem_singleton.1 hmem
      exact absurd rfl hne
  by_cases hgauge : key.metric ∈ gaugeNames
  · rw [ParsedSnapshot.insert, isCounterLike_gauge h.types hgauge]
    refine ⟨h.types, hseries, fun key' value' hget => ?_, fun key' value' hname hmem' => ?_⟩
    · exact (h.sound key' value' hget).imp_right (List.mem_append_left _)
    · refine h.complete key' value' hname (hmem key' value' ?_ hmem')
      rintro rfl
      exact hname hgauge
  · obtain ⟨id, rfl⟩ := hkey.resolve_left hgauge
    rw [ParsedSnapshot.insert, isCounterLike_series h.types]
    refine ⟨h.types, hseries, fun key' value' hget => ?_, fun key' value' hname hmem' => ?_⟩
    · replace hget : (p.parsed.counters.insert id.key value)[key']? = some value' := hget
      rw [Std.ExtTreeMap.getElem?_insert] at hget
      split at hget
      · rename_i heq
        obtain rfl := compare_eq_iff_eq.1 heq
        obtain rfl := Option.some.inj hget
        exact ⟨hgauge, List.mem_append_right _ List.mem_cons_self⟩
      · exact (h.sound key' value' hget).imp_right (List.mem_append_left _)
    · show ∃ value', (p.parsed.counters.insert id.key value)[key']? = some value'
      rw [Std.ExtTreeMap.getElem?_insert]
      split
      · exact ⟨value, rfl⟩
      · rename_i hne
        refine h.complete key' value' hname (hmem key' value' ?_ hmem')
        rintro rfl
        exact hne (compare_eq_iff_eq.2 rfl)

theorem Reads.nil : Reads ([] : List (Line V)) {} := by
  refine ⟨fun name kind h => ?_, rfl, fun key value h => ?_, fun key value _ h => absurd h List.not_mem_nil⟩
  · rw [Std.ExtTreeMap.getElem?_empty] at h
    cases h
  · rw [Std.ExtTreeMap.getElem?_empty] at h
    cases h

theorem Declared.insert {types : Types} (h : Declared types) {name : String} {kind : PrometheusType}
    (hkind : kindOf name = some kind) : Declared (types.insert name kind) := by
  intro name' kind' hget
  rw [Std.ExtTreeMap.getElem?_insert] at hget
  split at hget
  · rename_i heq
    obtain rfl := compare_eq_iff_eq.1 heq
    obtain rfl := Option.some.inj hget
    exact hkind
  · exact h name' kind' hget

theorem Reads.line {lines : List (Line V)} {p : Parse V} {line : Line V} (h : Reads lines p)
    (hroom : isSample line = true → p.series < maxExpositionSeries) (hreadable : line ≠ .sample none)
    (htypes : ∀ name kind, line = .type name kind → kindOf name = some kind)
    (hsample : ∀ key value, line = .sample (some (key, value)) →
      key.metric ∈ gaugeNames ∨ ∃ id : SeriesId, id.key = key) :
    Reads (lines ++ [line]) (p.line line) := by
  cases line with
  | overlong => exact h.other rfl h.types
  | other => exact h.other rfl h.types
  | type name kind =>
    rw [Parse.line]
    split
    · exact h.other rfl (h.types.insert (htypes name kind rfl))
    · exact h.other rfl h.types
  | sample sample =>
    obtain _ | ⟨key, value⟩ := sample
    · exact absurd rfl hreadable
    · have hp : p.line (.sample (some (key, value))) =
          { p with parsed := p.parsed.insert p.types key value, series := p.series + 1 } :=
        if_neg (Nat.not_le.2 (hroom rfl))
      rw [hp]
      exact h.sample (hsample key value rfl)

variable [F64 V]

theorem Reads.foldl {round : ℚ → V} {rs : List Recording} {all lines : List (Line V)} (hall : Renders round rs all)
    (hfinite : ∀ (id : SeriesId) (x : ℚ), id.value rs = some x → F64.isFinite (round x) = true)
    (hcap : lines.countP isSample ≤ maxExpositionSeries) (hlines : ∀ line ∈ lines, line ∈ all) :
    Reads lines (lines.foldl Parse.line {}) := by
  induction lines using List.reverseRecOn with
  | nil => exact .nil
  | append_singleton lines line ih =>
    rw [List.countP_append, List.countP_singleton] at hcap
    have h := ih (by omega) fun line' hline' => hlines line' (List.mem_append_left _ hline')
    have hline := hlines line (List.mem_append_right _ List.mem_cons_self)
    rw [List.foldl_append]
    refine h.line (fun hs => ?_) ?_ ?_ ?_
    · rw [h.series]
      rw [hs] at hcap
      exact Nat.lt_of_succ_le hcap
    · rintro rfl
      obtain ⟨id, x, hx, hnot⟩ := hall.readable hline
      rw [hfinite id x hx] at hnot
      cases hnot
    · rintro name kind rfl
      exact hall.types name kind hline
    · rintro key value rfl
      exact (hall.sound key value hline).imp_right fun ⟨id, _, hid, _⟩ => ⟨id, hid⟩

theorem gauge_ne_series {id : SeriesId} : id.key.metric ∉ gaugeNames := by
  intro h
  have hdeclared : Declared ∅ := fun name kind hget => by
    rw [Std.ExtTreeMap.getElem?_empty] at hget
    cases hget
  have hfalse := isCounterLike_gauge hdeclared h
  rw [isCounterLike_series hdeclared] at hfalse
  cases hfalse

/-- The counters of a snapshot are the series of the registry, as they are read. -/
theorem getElem?_parseLines {round : ℚ → V} {rs : List Recording} {lines : List (Line V)}
    (h : Renders round rs lines)
    (hfinite : ∀ (id : SeriesId) (x : ℚ), id.value rs = some x → F64.isFinite (round x) = true)
    (hcap : lines.countP isSample ≤ maxExpositionSeries) (key : MetricKey) (value : V) :
    (parseLines lines).counters[key]? = some value ↔
      ∃ (id : SeriesId) (x : ℚ), id.key = key ∧ id.value rs = some x ∧ value = round x := by
  have hreads := Reads.foldl h hfinite hcap fun _ h => h
  constructor
  · intro hget
    obtain ⟨hgauge, hmem⟩ := hreads.sound key value hget
    exact (h.sound key value hmem).resolve_left hgauge
  · rintro ⟨id, x, rfl, hvalue, rfl⟩
    obtain ⟨value', hget⟩ :=
      hreads.complete id.key _ gauge_ne_series (h.complete id x hvalue (hfinite id x hvalue))
    obtain ⟨-, hmem⟩ := hreads.sound _ _ hget
    obtain ⟨id', x', hkey, hvalue', rfl⟩ := (h.sound _ _ hmem).resolve_left gauge_ne_series
    rw [SeriesId.key_injective hkey, hvalue] at hvalue'
    rw [Option.some.inj hvalue']
    exact hget

end

/-! ### Growth of the registry -/

def Recording.NonNegative : Recording → Prop
  | .counter .. => True
  | .histogram _ _ value => 0 ≤ value

theorem increments_append (rs more : List Recording) (c : Counter) (labels : LabelSet) :
    increments (rs ++ more) c labels = increments rs c labels ++ increments more c labels := List.filterMap_append

theorem observations_append (rs more : List Recording) (h : Histogram) (labels : LabelSet) :
    observations (rs ++ more) h labels = observations rs h labels ++ observations more h labels :=
  List.filterMap_append

theorem observations_nonneg {rs : List Recording} (hrs : ∀ r ∈ rs, r.NonNegative) (h : Histogram)
    (labels : LabelSet) : ∀ value ∈ observations rs h labels, 0 ≤ value := by
  intro value hmem
  obtain ⟨r, hr, hvalue⟩ := List.mem_filterMap.1 hmem
  cases r with
  | counter => cases hvalue
  | histogram h' labels' value' =>
    dsimp only at hvalue
    split at hvalue
    · obtain rfl := Option.some.inj hvalue
      exact hrs _ hr
    · cases hvalue

/-- No series disappears, and none decreases if nothing negative is recorded. -/
theorem SeriesId.value_append {rs more : List Recording} (hmore : ∀ r ∈ more, r.NonNegative) {id : SeriesId}
    {value : ℚ} (h : id.value rs = some value) : ∃ value', id.value (rs ++ more) = some value' ∧ value ≤ value' := by
  cases id with
  | counter c labels =>
    rw [SeriesId.value] at h ⊢
    split at h
    · cases h
    rename_i hne
    obtain rfl := Option.some.inj h
    rw [increments_append, if_neg (List.append_ne_nil_of_left_ne_nil hne _), List.sum_append]
    exact ⟨_, rfl, by exact_mod_cast Nat.le_add_right _ _⟩
  | bucket hg labels le =>
    rw [SeriesId.value] at h ⊢
    split at h
    · cases h
    rename_i hne
    rw [observations_append, if_neg (List.append_ne_nil_of_left_ne_nil hne _)]
    split at h
    · rename_i hinf
      obtain rfl := Option.some.inj h
      rw [if_pos hinf, List.length_append]
      exact ⟨_, rfl, by exact_mod_cast Nat.le_add_right _ _⟩
    · rename_i hinf
      obtain ⟨bound, hbound, rfl⟩ := Option.map_eq_some_iff.1 h
      rw [if_neg hinf, hbound, Option.map_some, List.countP_append]
      exact ⟨_, rfl, by exact_mod_cast Nat.le_add_right _ _⟩
  | sum hg labels =>
    rw [SeriesId.value] at h ⊢
    split at h
    · cases h
    rename_i hne
    obtain rfl := Option.some.inj h
    rw [observations_append, if_neg (List.append_ne_nil_of_left_ne_nil hne _), List.sum_append]
    exact ⟨_, rfl, le_add_of_nonneg_right (List.sum_nonneg (observations_nonneg hmore hg labels))⟩
  | count hg labels =>
    rw [SeriesId.value] at h ⊢
    split at h
    · cases h
    rename_i hne
    obtain rfl := Option.some.inj h
    rw [observations_append, if_neg (List.append_ne_nil_of_left_ne_nil hne _), List.length_append]
    exact ⟨_, rfl, by exact_mod_cast Nat.le_add_right _ _⟩

/-! ### `record_shape` -/

def toolChoiceMode (v : Json.Value) : String :=
  match v.get "tool_choice" with
  | some (.string s) =>
    if s = "auto" then "auto" else if s = "none" then "none" else if s = "required" then "required" else "other"
  | some (.object _) => "named"
  | _ => "auto"

def countTools (v : Json.Value) : Option Nat :=
  (((v.get "tools").bind Json.Value.asArray).map List.length).or
    (((v.get "functions").bind Json.Value.asArray).map List.length)

def isJsonMode (v : Json.Value) : Bool :=
  (((v.get "response_format").bind (·.get "type")).bind Json.Value.asStr).any fun t =>
    t = "json_object" || t = "json_schema"

def wantsStream (parsed : Option Json.Value) : Bool :=
  ((parsed.bind (·.get "stream")).bind Json.Value.asBool).getD false

def counter (name : String) (h : name ∈ counterNames := by decide) : Counter := ⟨name, h⟩

def histogram (name : String) (h : name ∈ histogramNames := by decide) : Histogram := ⟨name, h⟩

def clientLabel (client : String) : LabelSet := labelSet [("client", client)] (by simp)

def streamLabels (client : String) (stream : Bool) : LabelSet :=
  labelSet [("client", client), ("stream", if stream then "true" else "false")] (by simp)

def modeLabel (mode : String) : LabelSet := labelSet [("mode", mode)] (by simp)

def temperature (v : Json.Value) : Option ℚ := (v.get "temperature").bind Json.Value.asFloat

def maxTokens (v : Json.Value) : Option Nat :=
  ((v.get "max_tokens").bind Json.Value.asU64).or ((v.get "max_completion_tokens").bind Json.Value.asU64)

def recordShape (client : String) (parsed : Option Json.Value) (wantsStream : Bool) : List Recording :=
  .counter (counter "nimproxy_stream_requests_total") (streamLabels client wantsStream) 1 ::
  match parsed with
  | none => []
  | some v =>
    ((v.get "messages").bind Json.Value.asArray).toList.map (fun msgs =>
      .histogram (histogram "nimproxy_request_messages") (clientLabel client) (asF64 msgs.length)) ++
    (countTools v).toList.flatMap (fun n => [
      .histogram (histogram "nimproxy_request_tools") (clientLabel client) (asF64 n),
      .counter (counter "nimproxy_tool_choice_total") (modeLabel (toolChoiceMode v)) 1]) ++
    (maxTokens v).toList.map (fun mt =>
      .histogram (histogram "nimproxy_request_max_tokens") (clientLabel client) (asF64 mt)) ++
    (temperature v).toList.map (fun t =>
      .histogram (histogram "nimproxy_request_temperature") (clientLabel client) t) ++
    if isJsonMode v then [.counter (counter "nimproxy_json_mode_total") (clientLabel client) 1] else []

theorem asF64_nonneg (n : Nat) : 0 ≤ asF64 n := Nat.cast_nonneg _

/-- Only a temperature can be negative. -/
theorem recordShape_nonneg {client : String} {parsed : Option Json.Value} {stream : Bool}
    (h : ∀ v t, parsed = some v → temperature v = some t → 0 ≤ t) :
    ∀ r ∈ recordShape client parsed stream, r.NonNegative := by
  intro r hr
  rcases List.mem_cons.1 hr with rfl | hr
  · trivial
  cases parsed with
  | none => exact absurd hr List.not_mem_nil
  | some v =>
    simp only [List.mem_append, List.mem_map, List.mem_flatMap, Option.mem_toList] at hr
    rcases hr with (((⟨msgs, -, rfl⟩ | ⟨n, -, hr⟩) | ⟨mt, -, rfl⟩) | ⟨t, ht, rfl⟩) | hr
    · exact asF64_nonneg _
    · simp only [List.mem_cons, List.not_mem_nil, or_false] at hr
      rcases hr with rfl | rfl
      · exact asF64_nonneg _
      · trivial
    · exact asF64_nonneg _
    · exact h v t rfl ht
    · split at hr
      · rw [List.mem_singleton.1 hr]
        trivial
      · exact absurd hr List.not_mem_nil

/-! ### The process and its samples -/

section
variable {V : Type} [F64 V]

/-- The registry, the history, and what was taken of each sample of this process. -/
structure Process (V : Type) where
  recordings : List Recording := []
  inner : HistoryInner V
  samples : List (ParsedSnapshot V × NormalizedMetrics V) := []

inductive Event (V : Type) where
  /-- A generation request of a client. -/
  | request (client : String) (parsed : Option Json.Value)
  /-- The other counters, and the times and rates the proxy measures. -/
  | count (c : Counter) (labels : LabelSet) (n : Nat)
  | elapsed (h : Histogram) (labels : LabelSet) (value : { x : ℚ // 0 ≤ x })
  | sample (t : Nat) (lines : List (Line V)) (capacity : CapacitySnapshot)

def step (days : Nat) (bootId : String) (p : Process V) : Event V → Option (Process V)
  | .request client parsed =>
    some { p with recordings := p.recordings ++ recordShape client parsed (wantsStream parsed) }
  | .count c labels n => some { p with recordings := p.recordings ++ [.counter c labels n] }
  | .elapsed h labels value => some { p with recordings := p.recordings ++ [.histogram h labels value] }
  | .sample t lines capacity =>
    let current := parseLines lines
    some { p with
      inner := Live.indexSnapshot p.inner days bootId t current capacity
      samples := p.samples ++ [(current, normalize p.inner.lastParsed current (p.inner.resets bootId))] }

/-- The metrics library renders what was recorded. -/
def Rendered (round : ℚ → V) (p : Process V) : Event V → Prop
  | .sample _ lines _ => Renders round p.recordings lines
  | _ => True

/-- Every series has a float for its value, and differs by a float from the last sample. -/
structure Exact (toRat : V → ℚ) (p : Process V) : Prop where
  value : ∀ (id : SeriesId) (x : ℚ), id.value p.recordings = some x → Representable toRat x
  difference : ∀ s, p.samples.getLast? = some s → ∀ (id : SeriesId) (x : ℚ) (before : V),
    id.value p.recordings = some x → s.1.counters[id.key]? = some before → Representable toRat (x - toRat before)

/-- No temperature is negative, the exposition is not longer than what the history reads of it, and its values and
their differences from those of the last sample are floats. -/
def Within (toRat : V → ℚ) (p : Process V) : Event V → Prop
  | .request _ parsed => ∀ v t, parsed = some v → temperature v = some t → 0 ≤ t
  | .sample _ lines _ => lines.countP isSample ≤ maxExpositionSeries ∧ Exact toRat p
  | _ => True

/-- The number that a map holds for a series. -/
def numberOf (toRat : V → ℚ) (values : Series V) (key : MetricKey) : ℚ := ((values[key]?).map toRat).getD 0

/-- What the snapshots hold does not shrink from `previous` to `current`, and grows by a float. -/
def Grows (toRat : V → ℚ) (previous current : Series V) : Prop :=
  ∀ (key : MetricKey) before, previous[key]? = some before → ∃ value, current[key]? = some value ∧
    F64.isFinite before = true ∧ F64.isFinite value = true ∧ toRat before ≤ toRat value ∧
      Representable toRat (toRat value - toRat before)

variable {toRat : V → ℚ} {round : ℚ → V}

theorem drops_of_grows (hf : Ieee toRat round) {previous current : ParsedSnapshot V}
    (h : Grows toRat previous.counters current.counters) : drops previous current = false := by
  rw [drops, List.any_eq_false]
  rintro ⟨key, value⟩ hmem
  have hget := Std.ExtTreeMap.mem_toList_iff_getElem?_eq_some.1 hmem
  dsimp only
  cases hbefore : previous.counters[key]? with
  | none => exact Bool.false_ne_true
  | some before =>
    obtain ⟨value', hvalue', hfin, hfin', hle, hdiff⟩ := h key before hbefore
    obtain rfl := Option.some.inj (hget.symm.trans hvalue')
    intro hlt
    obtain ⟨hsub, heq⟩ := hf.sub hfin' hfin hdiff
    have hlt : toRat (value - before) < toRat (-F64.epsilon) := (hf.lt hsub hf.epsilon.1).1 hlt
    have := hf.epsilon.2
    linarith

theorem delta_of_le (hf : Ieee toRat round) {before value : V} (hbefore : F64.isFinite before = true)
    (hvalue : F64.isFinite value = true) (hle : toRat before ≤ toRat value)
    (hdiff : Representable toRat (toRat value - toRat before)) :
    toRat (delta (some before) value) = toRat value - toRat before := by
  obtain ⟨hsub, heq⟩ := hf.sub hvalue hbefore hdiff
  have hdelta : delta (some before) value = value - before := by
    refine if_neg fun h => ?_
    have hlt := (hf.lt hsub hf.zero.1).1 (Bool.and_eq_true_iff.1 h).2
    rw [heq, hf.zero.2] at hlt
    linarith
  rw [hdelta, heq]

theorem getElem?_deltas (previous : Option (ParsedSnapshot V)) (current : ParsedSnapshot V) (reset : Bool)
    (key : MetricKey) :
    (normalize previous current reset).deltas[key]? =
      (current.counters[key]?).map fun value =>
        if reset || (normalize previous current reset).inferredReset then value
        else delta (previous.bind (·.counters[key]?)) value := by
  rw [normalize, Std.ExtTreeMap.getElem?_map]

theorem normalize_grows (hf : Ieee toRat round) {previous current : ParsedSnapshot V}
    (h : Grows toRat previous.counters current.counters) :
    (normalize (some previous) current false).inferredReset = false ∧
      ∀ key : MetricKey, numberOf toRat previous.counters key +
        numberOf toRat (normalize (some previous) current false).deltas key = numberOf toRat current.counters key := by
  have hreset : (normalize (some previous) current false).inferredReset = false := drops_of_grows hf h
  refine ⟨hreset, fun key => ?_⟩
  rw [numberOf, numberOf, numberOf, getElem?_deltas, hreset]
  cases hbefore : previous.counters[key]? with
  | none =>
    cases current.counters[key]? with
    | none => simp
    | some value => simp [hbefore, delta]
  | some before =>
    obtain ⟨value, hvalue, hfin, hfin', hle, hdiff⟩ := h key before hbefore
    rw [hvalue]
    simp [hbefore, delta_of_le hf hfin hfin' hle hdiff]

/-- The first sample of a process counts from zero. -/
theorem normalize_first {inner : HistoryInner V} {bootId : String} (h : inner.Foreign bootId)
    (current : ParsedSnapshot V) :
    (normalize inner.lastParsed current (inner.resets bootId)).inferredReset = false ∧
      (∀ key : MetricKey, (normalize inner.lastParsed current (inner.resets bootId)).deltas[key]? =
        current.counters[key]?) := by
  rw [resets_of_foreign h]
  cases inner.lastParsed with
  | none =>
    refine ⟨rfl, fun key => ?_⟩
    rw [getElem?_deltas]
    cases current.counters[key]? <;> rfl
  | some previous =>
    refine ⟨rfl, fun key => ?_⟩
    rw [getElem?_deltas]
    cases current.counters[key]? <;> rfl

/-- No sample was taken for a restart, and the deltas of a series add up to its last value. -/
def Accounted (toRat : V → ℚ) (samples : List (ParsedSnapshot V × NormalizedMetrics V)) : Prop :=
  (∀ s ∈ samples, s.2.inferredReset = false) ∧
    ∀ s, samples.getLast? = some s → ∀ key : MetricKey,
      (samples.map fun s => numberOf toRat s.2.deltas key).sum = numberOf toRat s.1.counters key

omit [F64 V] in
theorem Accounted.concat {samples : List (ParsedSnapshot V × NormalizedMetrics V)} (h : Accounted toRat samples)
    {current : ParsedSnapshot V} {normalized : NormalizedMetrics V} (hreset : normalized.inferredReset = false)
    (hsum : ∀ key : MetricKey, (samples.map fun s => numberOf toRat s.2.deltas key).sum +
      numberOf toRat normalized.deltas key = numberOf toRat current.counters key) :
    Accounted toRat (samples ++ [(current, normalized)]) := by
  refine ⟨fun s hs => ?_, fun s hs key => ?_⟩
  · rcases List.mem_append.1 hs with hs | hs
    · exact h.1 s hs
    · rw [List.mem_singleton.1 hs]
      exact hreset
  · obtain rfl := Option.some.inj ((List.getLast?_concat ..).symm.trans hs)
    rw [List.map_append, List.sum_append, List.map_singleton, List.sum_singleton]
    exact hsum key

/-- The history follows the registry: it holds a snapshot of this process, from which nothing shrank since, or
none. -/
structure Inv (toRat : V → ℚ) (round : ℚ → V) (bootId : String) (p : Process V) : Prop where
  accounted : Accounted toRat p.samples
  foreign : p.samples = [] → p.inner.Foreign bootId
  follows : ∀ s, p.samples.getLast? = some s →
    p.inner.lastSampleBoot = some bootId ∧ p.inner.lastParsed = some s.1 ∧
      ∃ rs more, p.recordings = rs ++ more ∧ (∀ r ∈ more, r.NonNegative) ∧
        (∀ (id : SeriesId) (x : ℚ), id.value rs = some x → Representable toRat x) ∧
        ∀ (key : MetricKey) value, s.1.counters[key]? = some value ↔
          ∃ (id : SeriesId) (x : ℚ), id.key = key ∧ id.value rs = some x ∧ value = round x

variable {days : Nat} {bootId : String} {p p' : Process V}

theorem Inv.record (h : Inv toRat round bootId p) {new : List Recording} (hnew : ∀ r ∈ new, r.NonNegative) :
    Inv toRat round bootId { p with recordings := p.recordings ++ new } := by
  refine ⟨h.accounted, h.foreign, fun s hs => ?_⟩
  obtain ⟨hboot, hparsed, rs, more, hrs, hmore, hvalues, hcounters⟩ := h.follows s hs
  refine ⟨hboot, hparsed, rs, more ++ new, ?_, fun r hr => ?_, hvalues, hcounters⟩
  · rw [← List.append_assoc, ← hrs]
  · exact (List.mem_append.1 hr).elim (hmore r) (hnew r)

theorem Inv.sample (hf : Ieee toRat round) (h : Inv toRat round bootId p) {lines : List (Line V)}
    (hlines : Renders round p.recordings lines) (hcap : lines.countP isSample ≤ maxExpositionSeries)
    (hexact : Exact toRat p) (t : Nat) (capacity : CapacitySnapshot) :
    ∀ p', step days bootId p (.sample t lines capacity) = some p' → Inv toRat round bootId p' := by
  rintro p' hstep
  obtain rfl := Option.some.inj hstep
  have hcounters := getElem?_parseLines hlines
    (fun id x hx => (hf.round_representable (hexact.value id x hx)).1) hcap
  have haccounted : Accounted toRat (p.samples ++
      [(parseLines lines, normalize p.inner.lastParsed (parseLines lines) (p.inner.resets bootId))]) := by
    rcases List.eq_nil_or_concat p.samples with hnil | ⟨init, s, hlast⟩
    · obtain ⟨hreset, hdeltas⟩ := normalize_first (h.foreign hnil) (parseLines lines)
      refine h.accounted.concat hreset fun key => ?_
      rw [hnil, numberOf, hdeltas, List.map_nil, List.sum_nil, zero_add]
      rfl
    · have hs : p.samples.getLast? = some s := by rw [hlast, List.concat_eq_append, List.getLast?_concat]
      obtain ⟨hboot, hparsed, rs, more, hrs, hmore, hvalues, hs_counters⟩ := h.follows s hs
      have hgrows : Grows toRat s.1.counters (parseLines lines).counters := by
        intro key before hbefore
        obtain ⟨id, x, rfl, hx, rfl⟩ := (hs_counters key before).1 hbefore
        obtain ⟨x', hx', hle⟩ := SeriesId.value_append hmore hx
        rw [← hrs] at hx'
        obtain ⟨hfin, hrat⟩ := hf.round_representable (hvalues id x hx)
        obtain ⟨hfin', hrat'⟩ := hf.round_representable (hexact.value id x' hx')
        refine ⟨round x', (hcounters id.key _).2 ⟨id, x', rfl, hx', rfl⟩, hfin, hfin', ?_, ?_⟩
        · rw [hrat, hrat']
          exact hle
        · rw [hrat']
          exact hexact.difference s hs id x' (round x) hx' hbefore
      have hresets : p.inner.resets bootId = false := by
        rw [HistoryInner.resets, hboot, bne_self_eq_false, Bool.and_false]
      obtain ⟨hreset, hdeltas⟩ := normalize_grows hf hgrows
      rw [hparsed, hresets]
      refine h.accounted.concat hreset fun key => ?_
      rw [h.accounted.2 s hs key, hdeltas]
  refine ⟨haccounted, fun hnil => absurd hnil (List.append_ne_nil_of_right_ne_nil _ (List.cons_ne_nil _ _)), ?_⟩
  intro s hs
  obtain rfl := Option.some.inj ((List.getLast?_concat ..).symm.trans hs)
  exact ⟨rfl, rfl, p.recordings, [], (List.append_nil _).symm, fun r hr => absurd hr List.not_mem_nil, hexact.value,
    hcounters⟩

theorem step_inv (hf : Ieee toRat round) (h : Inv toRat round bootId p) {event : Event V}
    (hlib : Rendered round p event) (hwithin : Within toRat p event) (hstep : step days bootId p event = some p') :
    Inv toRat round bootId p' := by
  cases event with
  | request client parsed =>
    obtain rfl := Option.some.inj hstep
    exact h.record (recordShape_nonneg hwithin)
  | count c labels n =>
    obtain rfl := Option.some.inj hstep
    refine h.record fun r hr => ?_
    rw [List.mem_singleton.1 hr]
    trivial
  | elapsed hg labels value =>
    obtain rfl := Option.some.inj hstep
    refine h.record fun r hr => ?_
    rw [List.mem_singleton.1 hr]
    exact value.2
  | sample t lines capacity => exact h.sample hf hlib hwithin.1 hwithin.2 t capacity p' hstep

/-- A process whose clients send no negative temperature is not taken for another one, as long as the history's
arithmetic is exact on what is sampled. -/
theorem samples_accounted (hf : Ieee toRat round) {inner : HistoryInner V} (hinner : inner.Foreign bootId)
    {events : List (Event V)} (hlib : Meets (step days bootId) (Rendered round) { inner } events)
    (hwithin : Meets (step days bootId) (Within toRat) { inner } events)
    (hrun : exec (step days bootId) { inner } events = some p) : Accounted toRat p.samples := by
  refine (exec_invariant_of_meets (I := Inv toRat round bootId) ?_ ?_ (hlib.and hwithin) hrun).accounted
  · intro p event p' hp hevent hstep
    exact step_inv hf hp hevent.1 hevent.2 hstep
  · exact ⟨⟨fun s hs => absurd hs List.not_mem_nil, fun s hs => by cases hs⟩, fun _ => hinner,
      fun s hs => by cases hs⟩

end

/-! ### An exposition -/

def counterKeys (rs : List Recording) : List (Counter × LabelSet) :=
  rs.filterMap fun
    | .counter c labels _ => some (c, labels)
    | .histogram .. => none

def histogramKeys (rs : List Recording) : List (Histogram × LabelSet) :=
  rs.filterMap fun
    | .counter .. => none
    | .histogram h labels _ => some (h, labels)

def seriesIds (rs : List Recording) : List SeriesId :=
  (counterKeys rs).dedup.map (fun (c, labels) => .counter c labels) ++
    (histogramKeys rs).dedup.flatMap fun (h, labels) =>
      h.bounds.map (fun (le, _) => .bucket h labels le) ++ [.bucket h labels "+Inf", .sum h labels, .count h labels]

/-- The exposition of the series in order, after the types of the metrics. -/
def render (rs : List Recording) : List (Line ℚ) :=
  (counterKeys rs).map (fun (c, _) => .type c.name .counter) ++
    (histogramKeys rs).map (fun (h, _) => .type h.name .histogram) ++
    (seriesIds rs).filterMap fun id => (id.value rs).map fun value => .sample (some (id.key, value))

theorem mem_counterKeys {rs : List Recording} {c : Counter} {labels : LabelSet} (h : increments rs c labels ≠ []) :
    (c, labels) ∈ counterKeys rs := by
  obtain ⟨n, hn⟩ := List.exists_mem_of_ne_nil _ h
  obtain ⟨r, hr, hvalue⟩ := List.mem_filterMap.1 hn
  refine List.mem_filterMap.2 ⟨r, hr, ?_⟩
  cases r with
  | counter c' labels' n' =>
    dsimp only at hvalue
    split at hvalue
    · rename_i heq
      rw [heq.1, heq.2]
    · cases hvalue
  | histogram => cases hvalue

theorem mem_histogramKeys {rs : List Recording} {h : Histogram} {labels : LabelSet}
    (hne : observations rs h labels ≠ []) : (h, labels) ∈ histogramKeys rs := by
  obtain ⟨value, hv⟩ := List.exists_mem_of_ne_nil _ hne
  obtain ⟨r, hr, hvalue⟩ := List.mem_filterMap.1 hv
  refine List.mem_filterMap.2 ⟨r, hr, ?_⟩
  cases r with
  | counter => cases hvalue
  | histogram h' labels' value' =>
    dsimp only at hvalue
    split at hvalue
    · rename_i heq
      rw [heq.1, heq.2]
    · cases hvalue

theorem mem_seriesIds {rs : List Recording} {id : SeriesId} {value : ℚ} (h : id.value rs = some value) :
    id ∈ seriesIds rs := by
  have hhistogram : ∀ {hg : Histogram} {labels : LabelSet}, observations rs hg labels ≠ [] → ∀ id,
      id ∈ hg.bounds.map (fun (le, _) => SeriesId.bucket hg labels le) ++
        [.bucket hg labels "+Inf", .sum hg labels, .count hg labels] → id ∈ seriesIds rs := by
    intro hg labels hne id hid
    exact List.mem_append_right _ (List.mem_flatMap.2 ⟨_, List.mem_dedup.2 (mem_histogramKeys hne), hid⟩)
  cases id with
  | counter c labels =>
    rw [SeriesId.value] at h
    split at h
    · cases h
    rename_i hne
    exact List.mem_append_left _ (List.mem_map.2 ⟨_, List.mem_dedup.2 (mem_counterKeys hne), rfl⟩)
  | bucket hg labels le =>
    rw [SeriesId.value] at h
    split at h
    · cases h
    rename_i hne
    refine hhistogram hne _ ?_
    split at h
    · rename_i hinf
      rw [hinf]
      exact List.mem_append_right _ List.mem_cons_self
    · obtain ⟨bound, hbound, -⟩ := Option.map_eq_some_iff.1 h
      obtain ⟨before, after, hbounds, -⟩ := List.lookup_eq_some_iff.1 hbound
      refine List.mem_append_left _ (List.mem_map.2 ⟨(le, bound), ?_, rfl⟩)
      rw [hbounds]
      exact List.mem_append_right _ List.mem_cons_self
  | sum hg labels =>
    rw [SeriesId.value] at h
    split at h
    · cases h
    rename_i hne
    exact hhistogram hne _ (List.mem_append_right _ (by simp))
  | count hg labels =>
    rw [SeriesId.value] at h
    split at h
    · cases h
    rename_i hne
    exact hhistogram hne _ (List.mem_append_right _ (by simp))

theorem kindOf_histogramName : ∀ n ∈ histogramNames, kindOf n = some .histogram := by decide +kernel

theorem renders_render (rs : List Recording) : Renders id rs (render rs) := by
  have hmem : ∀ line ∈ render rs, (∃ c : Counter, line = .type c.name .counter) ∨
      (∃ h : Histogram, line = .type h.name .histogram) ∨
      ∃ (id : SeriesId) (value : ℚ), id.value rs = some value ∧ line = .sample (some (id.key, value)) := by
    intro line hline
    simp only [render, List.mem_append, List.mem_map, List.mem_filterMap, Option.map_eq_some_iff] at hline
    rcases hline with (⟨⟨c, _⟩, -, rfl⟩ | ⟨⟨h, _⟩, -, rfl⟩) | ⟨id, -, value, hvalue, rfl⟩
    · exact .inl ⟨c, rfl⟩
    · exact .inr (.inl ⟨h, rfl⟩)
    · exact .inr (.inr ⟨id, value, hvalue, rfl⟩)
  refine ⟨fun hline => ?_, fun name kind hline => ?_, fun key value hline => ?_, fun id value hvalue _ => ?_⟩
  · rcases hmem _ hline with ⟨c, heq⟩ | ⟨h, heq⟩ | ⟨id, value, -, heq⟩ <;> cases heq
  · rcases hmem _ hline with ⟨c, heq⟩ | ⟨h, heq⟩ | ⟨id, value, -, heq⟩
    · cases heq
      exact kindOf_counterName _ c.mem
    · cases heq
      exact kindOf_histogramName _ h.mem
    · cases heq
  · rcases hmem _ hline with ⟨c, heq⟩ | ⟨h, heq⟩ | ⟨id, value, hvalue, heq⟩
    · cases heq
    · cases heq
    · cases heq
      exact .inr ⟨id, value, rfl, hvalue, rfl⟩
  · refine List.mem_append_right _ (List.mem_filterMap.2 ⟨id, mem_seriesIds hvalue, ?_⟩)
    rw [hvalue]
    rfl

theorem length_bounds : ∀ n ∈ histogramNames, ((histogramBuckets.lookup n).getD []).length ≤ 11 := by
  decide +kernel

/-- A recording brings at most the series of one histogram. -/
theorem length_seriesIds (rs : List Recording) : (seriesIds rs).length ≤ 14 * rs.length := by
  have hlen : (counterKeys rs).length + (histogramKeys rs).length ≤ rs.length := by
    induction rs with
    | nil => exact le_rfl
    | cons r rs ih =>
      cases r with
      | counter c labels n =>
        simp only [counterKeys, histogramKeys, List.filterMap_cons, List.length_cons] at ih ⊢
        omega
      | histogram h labels value =>
        simp only [counterKeys, histogramKeys, List.filterMap_cons, List.length_cons] at ih ⊢
        omega
  have hflat : ∀ keys : List (Histogram × LabelSet),
      (keys.flatMap fun (h, labels) => h.bounds.map (fun (le, _) => SeriesId.bucket h labels le) ++
        [.bucket h labels "+Inf", .sum h labels, .count h labels]).length ≤ 14 * keys.length := by
    intro keys
    induction keys with
    | nil => exact le_rfl
    | cons key keys ih =>
      have hbounds := length_bounds _ key.1.mem
      rw [List.flatMap_cons, List.length_append, List.length_append, List.length_map, List.length_cons]
      simp only [Histogram.bounds, List.length_cons, List.length_nil] at ih ⊢
      omega
  have hc := (List.dedup_sublist (counterKeys rs)).length_le
  have hh := (List.dedup_sublist (histogramKeys rs)).length_le
  have hf := hflat (histogramKeys rs).dedup
  rw [seriesIds, List.length_append, List.length_map]
  omega

theorem countP_render (rs : List Recording) : (render rs).countP isSample ≤ 14 * rs.length := by
  have htypes : ∀ types : List (Line ℚ), (∀ line ∈ types, isSample line = false) → types.countP isSample = 0 :=
    fun types h => List.countP_eq_zero.2 fun line hline => by rw [h line hline]; exact Bool.false_ne_true
  rw [render, List.countP_append, htypes]
  · calc 0 + List.countP isSample _ ≤ (seriesIds rs).length := by
          rw [Nat.zero_add]
          exact List.countP_le_length.trans (List.length_filterMap_le _ _)
      _ ≤ 14 * rs.length := length_seriesIds rs
  · intro line hline
    rcases List.mem_append.1 hline with hline | hline <;> obtain ⟨_, _, rfl⟩ := List.mem_map.1 hline <;> rfl

/-! ### Two requests -/

def temperatureBody (n : Number) : Option Json.Value := some (.object [("temperature", .number n)])

def requestRecordings (n : Number) : List Recording := recordShape "local" (temperatureBody n) false

/-- Two requests of a client, and a sample after each. -/
def twoRequests (first second : Number) : List (Event ℚ) := [
  .request "local" (temperatureBody first), .sample 60 (render (requestRecordings first)) ⟨1, [40], 40⟩,
  .request "local" (temperatureBody second),
  .sample 120 (render (requestRecordings first ++ requestRecordings second)) ⟨1, [40], 40⟩]

theorem recordShape_temperature {n : Number} {t : ℚ} (h : (Json.Value.number n).asFloat = some t) :
    requestRecordings n =
      [.counter (counter "nimproxy_stream_requests_total") (streamLabels "local" false) 1,
        .histogram (histogram "nimproxy_request_temperature") (clientLabel "local") t] := by
  cases n <;> cases h <;> rfl

theorem rendered_twoRequests (first second : Number) :
    Meets (step 0 "boot") (Rendered id) { inner := {} } (twoRequests first second) := by
  refine ⟨trivial, fun p₁ h₁ => ?_⟩
  obtain rfl := Option.some.inj h₁
  refine ⟨renders_render _, fun p₂ h₂ => ?_⟩
  obtain rfl := Option.some.inj h₂
  refine ⟨trivial, fun p₃ h₃ => ?_⟩
  obtain rfl := Option.some.inj h₃
  exact ⟨renders_render _, fun _ _ => trivial⟩

theorem countP_twoRequests {first second : Number} {a b : ℚ} (hfirst : (Json.Value.number first).asFloat = some a)
    (hsecond : (Json.Value.number second).asFloat = some b) :
    (render (requestRecordings first)).countP isSample ≤ maxExpositionSeries ∧
      (render (requestRecordings first ++ requestRecordings second)).countP isSample ≤ maxExpositionSeries := by
  refine ⟨(countP_render _).trans ?_, (countP_render _).trans ?_⟩
  · rw [recordShape_temperature hfirst]
    exact (by decide : 14 * 2 ≤ maxExpositionSeries)
  · rw [recordShape_temperature hfirst, recordShape_temperature hsecond]
    exact (by decide : 14 * 4 ≤ maxExpositionSeries)

theorem exec_twoRequests (first second : Number) :
    ∃ p, exec (step 0 "boot") { inner := {} } (twoRequests first second) = some p ∧
      (parseLines (render (requestRecordings first ++ requestRecordings second)),
        normalize (some (parseLines (render (requestRecordings first))))
          (parseLines (render (requestRecordings first ++ requestRecordings second))) false) ∈ p.samples :=
  ⟨_, rfl, List.mem_cons_of_mem _ List.mem_cons_self⟩

theorem exact_rat (p : Process ℚ) : Exact id p where
  value _ x _ := representable_rat x
  difference _ _ _ _ _ _ _ := representable_rat _

theorem samples_accounted_half :
    ∃ p, exec (step 0 "boot") { inner := {} } (twoRequests (.posInt 1) (.float 0.5)) = some p ∧
      Accounted id p.samples := by
  obtain ⟨hcap₁, hcap₂⟩ := countP_twoRequests (show (Json.Value.number (.posInt 1)).asFloat = _ from rfl)
    (show (Json.Value.number (.float 0.5)).asFloat = _ from rfl)
  obtain ⟨p, hrun, -⟩ := exec_twoRequests (.posInt 1) (.float 0.5)
  refine ⟨p, hrun, samples_accounted ieee_rat (fun h => by cases h) (rendered_twoRequests _ _) ?_ hrun⟩
  refine ⟨fun v t hv ht => ?_, fun p₁ h₁ => ⟨⟨hcap₁, exact_rat _⟩, fun p₂ h₂ =>
    ⟨fun v t hv ht => ?_, fun p₃ h₃ => ?_⟩⟩⟩
  · obtain rfl := Option.some.inj hv
    obtain rfl := Option.some.inj ht
    exact asF64_nonneg 1
  · obtain rfl := Option.some.inj hv
    obtain rfl := Option.some.inj ht
    norm_num
  · exact ⟨⟨hcap₂, exact_rat _⟩, fun _ _ => trivial⟩

theorem inferredReset_of_drop {previous current : ParsedSnapshot ℚ} {key : MetricKey} {before value : ℚ}
    (hbefore : previous.counters[key]? = some before) (hvalue : current.counters[key]? = some value)
    (h : value - before < -(1 / 2 ^ 52)) : (normalize (some previous) current false).inferredReset = true := by
  refine List.any_eq_true.2 ⟨(key, value), Std.ExtTreeMap.mem_toList_iff_getElem?_eq_some.2 hvalue, ?_⟩
  dsimp only
  rw [hbefore]
  exact decide_eq_true h

def temperatureSum : SeriesId := .sum (histogram "nimproxy_request_temperature") (clientLabel "local")

/-- A temperature of 1, then one of −1: the sum of the temperatures drops, and every series starts over. -/
theorem not_samples_accounted_negative :
    Meets (step 0 "boot") (Rendered id) { inner := {} } (twoRequests (.posInt 1) (.negInt 0)) ∧
      ∃ p, exec (step 0 "boot") { inner := {} } (twoRequests (.posInt 1) (.negInt 0)) = some p ∧
        ∃ s ∈ p.samples, s.2.inferredReset = true := by
  have hfirst : (Json.Value.number (.posInt 1)).asFloat = some 1 := by decide
  have hsecond : (Json.Value.number (.negInt 0)).asFloat = some (-1) := by decide
  obtain ⟨hcap₁, hcap₂⟩ := countP_twoRequests hfirst hsecond
  have hsum₁ : temperatureSum.value (requestRecordings (.posInt 1)) = some 1 := by
    rw [recordShape_temperature hfirst]
    simp [temperatureSum, SeriesId.value, observations]
  have hsum₂ : temperatureSum.value (requestRecordings (.posInt 1) ++ requestRecordings (.negInt 0)) = some 0 := by
    rw [recordShape_temperature hfirst, recordShape_temperature hsecond]
    simp [temperatureSum, SeriesId.value, observations]
  have hbefore := (getElem?_parseLines (renders_render _) (fun _ _ _ => rfl) hcap₁ temperatureSum.key 1).2
    ⟨temperatureSum, 1, rfl, hsum₁, rfl⟩
  have hafter := (getElem?_parseLines (renders_render _) (fun _ _ _ => rfl) hcap₂ temperatureSum.key 0).2
    ⟨temperatureSum, 0, rfl, hsum₂, rfl⟩
  obtain ⟨p, hrun, hmem⟩ := exec_twoRequests (.posInt 1) (.negInt 0)
  exact ⟨rendered_twoRequests _ _, p, hrun, _, hmem, inferredReset_of_drop hbefore hafter (by norm_num)⟩

end OpenProxy.Shape
