import OpenProxy.Text

/-!
# Exposition snapshots (`parse_exposition`, `is_counter_like`, `normalize` of `history.rs`)

A sample of the history starts as the text of a Prometheus exposition. `parseExposition` reads it into
counter-like and other series, and `normalize` turns two successive snapshots into the deltas of the
counter-like ones: a drop of any of them is taken for a restart of the process that counted.

`f64` is a type `V` with the operations the code uses and no laws. Equality on it is the `==` of `f64`
on the finite numbers (which takes `-0.0` for `0.0`).
-/

namespace OpenProxy

open Text

class F64 (V : Type) extends Add V, Sub V, Mul V, Div V, Neg V, Zero V where
  /-- `n as f64`. -/
  ofNat : Nat → V
  epsilon : V
  lt : V → V → Bool
  le : V → V → Bool
  isFinite : V → Bool

/-- Exact arithmetic. -/
instance : F64 ℚ where
  ofNat n := n
  epsilon := 1 / 2 ^ 52
  lt a b := decide (a < b)
  le a b := decide (a ≤ b)
  isFinite _ := true

abbrev Labels := Std.ExtTreeMap String String

structure MetricKey where
  metric : String
  labels : Labels
  deriving DecidableEq, Repr

namespace MetricKey

def lex (k : MetricKey) : Lex (String × List (Lex (String × String))) :=
  toLex (k.metric, k.labels.toList.map toLex)

theorem lex_injective : Function.Injective lex := by
  rintro ⟨metric, labels⟩ ⟨metric', labels'⟩ h
  simp only [lex, EmbeddingLike.apply_eq_iff_eq, Prod.mk.injEq] at h
  obtain ⟨rfl, h⟩ := h
  have := List.map_injective_iff.2 toLex.injective h
  rw [Std.ExtTreeMap.toList_inj] at this
  rw [this]

/-- The derived order: by name, then by the labels in order. -/
instance : LinearOrder MetricKey := LinearOrder.lift' lex lex_injective

instance : Std.LawfulEqOrd MetricKey := ⟨fun h => compare_eq_iff_eq.1 h⟩

/-- Named, so that the maps share it. -/
instance : Std.TransOrd MetricKey := inferInstance

end MetricKey

/-- `BTreeMap<MetricKey, f64>`. -/
abbrev Series (V : Type) := Std.ExtTreeMap MetricKey V

/-- What a map holds for a series, in exact arithmetic. -/
def valueOf (values : Series ℚ) (key : MetricKey) : ℚ := (values[key]?).getD 0

structure ParsedSnapshot (V : Type) where
  counters : Series V := ∅
  gauges : Series V := ∅
  skippedLines : Nat := 0

inductive PrometheusType where
  | counter
  | gauge
  | histogram
  deriving DecidableEq, Repr

/-! ### Reading a line -/

def maxExpositionLineBytes : Nat := 1024 * 1024
def maxExpositionSeries : Nat := 100000

def validName (first rest : Char → Bool) (name : List Char) : Bool :=
  match name with
  | [] => false
  | c :: cs => first c && cs.all rest

def validMetricName (name : String) : Bool :=
  validName (fun c => c.isAlpha || c == '_' || c == ':') (fun c => c.isAlphanum || c == '_' || c == ':')
    name.toList

def validLabelName (name : List Char) : Bool :=
  validName (fun c => c.isAlpha || c == '_') (fun c => c.isAlphanum || c == '_') name

def skipWhitespace (cs : List Char) : List Char := cs.dropWhile isWhitespace

/-- A quoted label value after its opening quote, and what follows the closing one. -/
def labelValue : List Char → Option (List Char × List Char)
  | [] | ['\\'] => none
  | '"' :: cs => some ([], cs)
  | '\\' :: c :: cs => do
    let c ← match c with
      | '"' => some '"'
      | '\\' => some '\\'
      | 'n' => some '\n'
      | _ => none
    let (value, rest) ← labelValue cs
    return (c :: value, rest)
  | c :: cs => do
    let (value, rest) ← labelValue cs
    return (c :: value, rest)

/-- The loop of `parse_labels`; every round reads at least one character. -/
def parseLabelsLoop : Nat → Labels → List Char → Option Labels
  | 0, _, _ => none
  | fuel + 1, labels, cs =>
    match skipWhitespace cs with
    | [] => some labels
    | cs =>
      let name := cs.takeWhile fun c => c.isAlphanum || c == '_'
      if validLabelName name then
        match skipWhitespace (cs.drop name.length) with
        | '=' :: cs =>
          match skipWhitespace cs with
          | '"' :: cs => do
            let (value, cs) ← labelValue cs
            if labels.contains (.ofList name) then none
            else
              let labels := labels.insert (.ofList name) (.ofList value)
              match skipWhitespace cs with
              | ',' :: cs => parseLabelsLoop fuel labels cs
              | [] => some labels
              | _ => none
          | _ => none
        | _ => none
      else none

def parseLabels (input : List Char) : Option Labels := parseLabelsLoop (input.length + 1) ∅ input

def parseMetricKey (series : List Char) : Option MetricKey :=
  let metric := String.ofList (series.takeWhile (· != '\x7b'))
  match series.dropWhile (· != '\x7b') with
  | [] => if validMetricName metric then some ⟨metric, ∅⟩ else none
  | _ :: labels =>
    if series.getLast? == some '\x7d' && validMetricName metric then
      (parseLabels labels.dropLast).map (⟨metric, ·⟩)
    else none

/-- `str::split_once(char::is_whitespace)`. -/
def splitOnceWhitespace (cs : List Char) : Option (List Char × List Char) :=
  match cs.dropWhile (!isWhitespace ·) with
  | [] => none
  | _ :: rest => some (cs.takeWhile (!isWhitespace ·), rest)

/-- The series and the value of a sample line. -/
def splitSample (line : List Char) : Option (List Char × List Char) :=
  let tail := (line.reverse.takeWhile (· != '\x7d')).reverse
  if tail.length = line.length then splitOnceWhitespace line
  else (splitOnceWhitespace tail).map fun (_, value) => (line.take (line.length - tail.length), value)

/-- The name and the kind of a `# TYPE` line that has nothing else. -/
def parseType (metadata : List Char) : Option (String × PrometheusType) :=
  match splitWhitespace metadata with
  | [name, kind] => do
    let kind ← match String.ofList kind with
      | "counter" => some .counter
      | "gauge" => some .gauge
      | "histogram" => some .histogram
      | _ => none
    if validMetricName (.ofList name) then some (.ofList name, kind) else none
  | _ => none

inductive Line (V : Type) where
  | overlong
  /-- Blank lines, comments and `# TYPE` lines that say nothing. -/
  | other
  | type (name : String) (kind : PrometheusType)
  /-- Any other line, with what it reads as. -/
  | sample (s : Option (MetricKey × V))

section
variable {V : Type} [F64 V]

def parseSample (parseF64 : String → Option V) (line : List Char) : Option (MetricKey × V) := do
  let (seriesText, valueText) ← splitSample line
  let valueText := skipWhitespace valueText
  if valueText.isEmpty || valueText.any isWhitespace then none
  else
    let value ← parseF64 (.ofList valueText)
    if F64.isFinite value then (parseMetricKey seriesText).map (·, value) else none

def readLine (parseF64 : String → Option V) (line : String) : Line V :=
  if maxExpositionLineBytes < byteLen line then .overlong
  else if line.toList.isEmpty then .other
  else
    match stripPrefix line "# TYPE " with
    | some metadata =>
      match parseType metadata.toList with
      | some (name, kind) => .type name kind
      | none => .other
    | none => if startsWith line "#" then .other else .sample (parseSample parseF64 line.toList)

/-! ### Reading an exposition -/

abbrev Types := Std.ExtTreeMap String PrometheusType

def isCounterLike (metric : String) (types : Types) : Bool :=
  match types[metric]? with
  | some kind => kind == .counter || kind == .histogram
  | none =>
    (["_bucket", "_count", "_sum"].any fun suffix =>
      (stripSuffix metric suffix).any fun base => types[base]? == some .histogram) ||
    ["_total", "_bucket", "_count", "_sum"].any (endsWith metric)

structure Parse (V : Type) where
  parsed : ParsedSnapshot V := {}
  types : Types := ∅
  series : Nat := 0

def ParsedSnapshot.skip (p : ParsedSnapshot V) : ParsedSnapshot V :=
  { p with skippedLines := p.skippedLines + 1 }

def ParsedSnapshot.insert (p : ParsedSnapshot V) (types : Types) (key : MetricKey) (value : V) :
    ParsedSnapshot V :=
  if isCounterLike key.metric types then { p with counters := p.counters.insert key value }
  else { p with gauges := p.gauges.insert key value }

def Parse.line (p : Parse V) : Line V → Parse V
  | .overlong => { p with parsed := p.parsed.skip }
  | .other => p
  | .type name kind =>
    if p.types.size < maxExpositionSeries || p.types.contains name then
      { p with types := p.types.insert name kind }
    else { p with parsed := p.parsed.skip }
  | .sample s =>
    if maxExpositionSeries ≤ p.series then { p with parsed := p.parsed.skip }
    else
      match s with
      | none => { p with parsed := p.parsed.skip }
      | some (key, value) =>
        { p with parsed := p.parsed.insert p.types key value, series := p.series + 1 }

def parseLines (lines : List (Line V)) : ParsedSnapshot V := (lines.foldl Parse.line {}).parsed

def parseExposition (parseF64 : String → Option V) (exposition : String) : ParsedSnapshot V :=
  parseLines ((lines exposition).map (readLine parseF64))

/-- Every value of the snapshot is finite. -/
def ParsedSnapshot.Finite (p : ParsedSnapshot V) : Prop :=
  (∀ (key : MetricKey) (value : V), p.counters[key]? = some value → F64.isFinite value = true) ∧
    ∀ (key : MetricKey) (value : V), p.gauges[key]? = some value → F64.isFinite value = true

theorem finite_insert {series : Series V}
    (h : ∀ (key : MetricKey) (value : V), series[key]? = some value → F64.isFinite value = true)
    {key : MetricKey} {value : V} (hv : F64.isFinite value = true) :
    ∀ (key' : MetricKey) (value' : V), (series.insert key value)[key']? = some value' → F64.isFinite value' = true := by
  intro key' value' h'
  rw [Std.ExtTreeMap.getElem?_insert] at h'
  split at h'
  · obtain rfl := Option.some.inj h'
    exact hv
  · exact h key' value' h'

theorem parseSample_finite {parseF64 : String → Option V} {line : List Char} {key : MetricKey} {value : V}
    (h : parseSample parseF64 line = some (key, value)) : F64.isFinite value = true := by
  simp only [parseSample, Option.bind_eq_bind, Option.bind_eq_some_iff] at h
  obtain ⟨⟨seriesText, valueText⟩, -, h⟩ := h
  split at h
  · cases h
  obtain ⟨v, -, h⟩ := Option.bind_eq_some_iff.1 h
  split at h
  · rename_i hfin
    obtain ⟨k, -, hk⟩ := Option.map_eq_some_iff.1 h
    obtain ⟨rfl, rfl⟩ := Prod.mk.inj hk
    exact hfin
  · cases h

theorem readLine_finite {parseF64 : String → Option V} {line : String} {key : MetricKey} {value : V}
    (h : readLine parseF64 line = .sample (some (key, value))) : F64.isFinite value = true := by
  unfold readLine at h
  split at h
  · cases h
  split at h
  · cases h
  split at h
  · split at h <;> cases h
  split at h
  · cases h
  · injection h with h
    exact parseSample_finite h

theorem Parse.line_finite {p : Parse V} (hp : p.parsed.Finite) {line : Line V}
    (h : ∀ key value, line = .sample (some (key, value)) → F64.isFinite value = true) :
    (p.line line).parsed.Finite := by
  cases line with
  | overlong | other => exact hp
  | type name kind =>
    rw [Parse.line]
    split <;> exact hp
  | sample s =>
    unfold Parse.line
    dsimp only
    split
    · exact hp
    cases s with
    | none => exact hp
    | some kv =>
      have hv := h kv.1 kv.2 rfl
      simp only [ParsedSnapshot.insert]
      split
      · exact ⟨finite_insert hp.1 hv, hp.2⟩
      · exact ⟨hp.1, finite_insert hp.2 hv⟩

theorem parseExposition_finite (parseF64 : String → Option V) (exposition : String) :
    (parseExposition parseF64 exposition).Finite := by
  have hlines : ∀ (ls : List String) (p : Parse V), p.parsed.Finite →
      ((ls.map (readLine parseF64)).foldl Parse.line p).parsed.Finite := by
    intro ls
    induction ls with
    | nil => exact fun _ hp => hp
    | cons line ls ih => exact fun p hp => ih _ (p.line_finite hp fun _ _ => readLine_finite)
  refine hlines _ _ ⟨?_, ?_⟩ <;>
  · intro key value h
    rw [Std.ExtTreeMap.getElem?_empty] at h
    cases h

/-! ### Deltas -/

structure NormalizedMetrics (V : Type) where
  deltas : Series V
  gauges : Series V
  inferredReset : Bool

/-- A counter-like series of both snapshots dropped. -/
def drops (previous current : ParsedSnapshot V) : Bool :=
  current.counters.toList.any fun (key, value) =>
    (previous.counters[key]?).any fun before => F64.lt (value - before) (-F64.epsilon)

/-- The delta of a series that did not reset. -/
def delta (previous : Option V) (value : V) : V :=
  match previous with
  | none => value
  | some before =>
    let delta := value - before
    if F64.le (-F64.epsilon) delta && F64.lt delta 0 then 0 else delta

def normalize (previous : Option (ParsedSnapshot V)) (current : ParsedSnapshot V) (reset : Bool) :
    NormalizedMetrics V :=
  let inferredReset := !reset && previous.any (drops · current)
  let resetEpoch := reset || inferredReset
  { deltas := current.counters.map fun key value =>
      if resetEpoch then value else delta (previous.bind (·.counters[key]?)) value
    gauges := current.gauges
    inferredReset := inferredReset }

end

end OpenProxy
