import OpenProxy.Exposition

/-!
# Canonical history records (`history/codec.rs`)

A line of the canonical file is a JSON object of one of three kinds: a boot opens the epoch of a process,
a sample carries the whole metric state, a checkpoint says that the state did not change. The JSON
library is a parameter.
-/

namespace OpenProxy

structure Capacity where
  capacityRpm : Nat
  enabledKeys : Nat
  keyRpms : List Nat
  deriving DecidableEq, Repr

inductive StateKind where
  | counter
  | gauge
  deriving DecidableEq, Repr

structure StateEntry (V : Type) where
  kind : StateKind
  metric : String
  labels : Labels
  value : V
  deriving DecidableEq

structure BootRecord where
  timestamp : Nat
  bootId : String
  capacity : Capacity
  deriving DecidableEq, Repr

structure SampleRecord (V : Type) where
  timestamp : Nat
  bootId : String
  capacity : Capacity
  state : List (StateEntry V)
  deriving DecidableEq

structure CheckpointRecord where
  timestamp : Nat
  bootId : String
  capacity : Capacity
  deriving DecidableEq, Repr

inductive Record (V : Type) where
  | boot (r : BootRecord)
  | sample (r : SampleRecord V)
  | checkpoint (r : CheckpointRecord)
  deriving DecidableEq

namespace Record

variable {V : Type}

/-- `record_timestamp`. -/
def timestamp : Record V → Nat
  | boot r => r.timestamp
  | sample r => r.timestamp
  | checkpoint r => r.timestamp

/-- `record_boot_id`. -/
def bootId : Record V → String
  | boot r => r.bootId
  | sample r => r.bootId
  | checkpoint r => r.bootId

def isBoot : Record V → Bool
  | boot _ => true
  | _ => false

def isSample : Record V → Bool
  | sample _ => true
  | _ => false

end Record

/-! ### The metric state of a sample -/

section
variable {V : Type}

def StateEntry.key (e : StateEntry V) : MetricKey := ⟨e.metric, e.labels⟩

def stateEntry (kind : StateKind) (p : MetricKey × V) : StateEntry V := ⟨kind, p.1.metric, p.1.labels, p.2⟩

def canonicalState (snapshot : ParsedSnapshot V) : List (StateEntry V) :=
  snapshot.counters.toList.map (stateEntry .counter) ++ snapshot.gauges.toList.map (stateEntry .gauge)

def ParsedSnapshot.insertEntry (parsed : ParsedSnapshot V) (entry : StateEntry V) : ParsedSnapshot V :=
  match entry.kind with
  | .counter => { parsed with counters := parsed.counters.insert entry.key entry.value }
  | .gauge => { parsed with gauges := parsed.gauges.insert entry.key entry.value }

def parsedCanonicalState (state : List (StateEntry V)) : ParsedSnapshot V :=
  state.foldl ParsedSnapshot.insertEntry {}

theorem insertMany_toList (series : Series V) : (∅ : Series V).insertMany series.toList = series := by
  refine Std.ExtTreeMap.ext_getElem? fun key => ?_
  cases h : series[key]? with
  | some value =>
    exact Std.ExtTreeMap.getElem?_insertMany_list_of_mem Std.ReflCmp.compare_self
      Std.ExtTreeMap.distinct_keys_toList (Std.ExtTreeMap.mem_toList_iff_getElem?_eq_some.2 h)
  | none =>
    rw [Std.ExtTreeMap.getElem?_insertMany_list_of_contains_eq_false, Std.ExtTreeMap.getElem?_empty]
    rw [Std.ExtTreeMap.map_fst_toList_eq_keys, Std.ExtTreeMap.contains_keys]
    rw [Std.ExtTreeMap.contains_eq_isSome_getElem?, h]
    rfl

theorem foldl_insertCounters (l : List (MetricKey × V)) (parsed : ParsedSnapshot V) :
    (l.map (stateEntry .counter)).foldl ParsedSnapshot.insertEntry parsed =
      { parsed with counters := parsed.counters.insertMany l } := by
  induction l generalizing parsed with
  | nil => rfl
  | cons p l ih => rw [List.map_cons, List.foldl_cons, ih, Std.ExtTreeMap.insertMany_cons]; rfl

theorem foldl_insertGauges (l : List (MetricKey × V)) (parsed : ParsedSnapshot V) :
    (l.map (stateEntry .gauge)).foldl ParsedSnapshot.insertEntry parsed =
      { parsed with gauges := parsed.gauges.insertMany l } := by
  induction l generalizing parsed with
  | nil => rfl
  | cons p l ih => rw [List.map_cons, List.foldl_cons, ih, Std.ExtTreeMap.insertMany_cons]; rfl

theorem parsedCanonicalState_canonicalState (snapshot : ParsedSnapshot V) :
    parsedCanonicalState (canonicalState snapshot) = { snapshot with skippedLines := 0 } := by
  rw [parsedCanonicalState, canonicalState, List.foldl_append, foldl_insertCounters, foldl_insertGauges,
    insertMany_toList, insertMany_toList]

end

/-! ### Lines -/

def format : String := "nimproxy-history"
def version : Nat := 1

structure RawStateEntry (V : Type) where
  kind : String
  metric : String
  labels : Labels
  value : V
  deriving DecidableEq

inductive StateField (V : Type) where
  | missing
  | null
  | entries (state : List (RawStateEntry V))
  deriving DecidableEq

/-- The JSON object of a line. -/
structure RawRecord (V : Type) where
  format : String
  v : Nat
  kind : String
  timestamp : Nat
  bootId : String
  capacity : Capacity
  state : StateField V
  deriving DecidableEq

/-- Why `serde_json::from_slice` fails: the text ends early or is no JSON, or it is JSON of another shape
(a number out of range counts as such). -/
inductive JsonError where
  | syntaxError
  | data
  deriving DecidableEq, Repr

/-- What the codec and the scanner use of the JSON library. -/
structure SerdeJson (V : Type) where
  toVec : RawRecord V → List UInt8
  fromSlice : List UInt8 → Except JsonError (RawRecord V)
  /-- The `timestamp` of a JSON object, if it is a `u64`. -/
  timestamp : List UInt8 → Option Nat

inductive DecodeError where
  | invalidUtf8
  | invalidJson
  | unsupportedFormat
  | unsupportedVersion
  | invalidRecord
  | invalidRecordKind
  | invalidState
  | duplicateSeries
  deriving DecidableEq, Repr

inductive EncodeError where
  | invalidState
  | duplicateSeries
  deriving DecidableEq, Repr

section
variable {V : Type} [F64 V]

def StateKind.name : StateKind → String
  | .counter => "counter"
  | .gauge => "gauge"

def StateKind.ofName : String → Option StateKind
  | "counter" => some .counter
  | "gauge" => some .gauge
  | _ => none

@[simp] theorem StateKind.ofName_name (kind : StateKind) : ofName kind.name = some kind := by
  cases kind <;> rfl

/-- The checks of `decode_state`, entry by entry; `series` holds the keys seen so far. -/
def decodeEntries (series : List (StateKind × MetricKey)) :
    List (RawStateEntry V) → Except DecodeError (List (StateEntry V))
  | [] => .ok []
  | entry :: raw =>
    match StateKind.ofName entry.kind with
    | none => .error .invalidState
    | some kind =>
      if F64.isFinite entry.value then
        let key := (kind, (⟨entry.metric, entry.labels⟩ : MetricKey))
        if key ∈ series then .error .duplicateSeries
        else do
          let rest ← decodeEntries (key :: series) raw
          return ⟨kind, entry.metric, entry.labels, entry.value⟩ :: rest
      else .error .invalidState

def decodeState (raw : List (RawStateEntry V)) : Except DecodeError (List (StateEntry V)) := decodeEntries [] raw

def encodeEntries (series : List (StateKind × MetricKey)) :
    List (StateEntry V) → Except EncodeError (List (RawStateEntry V))
  | [] => .ok []
  | entry :: state =>
    if F64.isFinite entry.value then
      if (entry.kind, entry.key) ∈ series then .error .duplicateSeries
      else do
        let rest ← encodeEntries ((entry.kind, entry.key) :: series) state
        return ⟨entry.kind.name, entry.metric, entry.labels, entry.value⟩ :: rest
    else .error .invalidState

def encodeState (state : List (StateEntry V)) : Except EncodeError (List (RawStateEntry V)) :=
  encodeEntries [] state

def decodeRaw (raw : RawRecord V) : Except DecodeError (Record V) :=
  if raw.format ≠ format then .error .unsupportedFormat
  else if raw.v ≠ version then .error .unsupportedVersion
  else
    match raw.kind, raw.state with
    | "boot", .missing => .ok (.boot ⟨raw.timestamp, raw.bootId, raw.capacity⟩)
    | "checkpoint", .missing => .ok (.checkpoint ⟨raw.timestamp, raw.bootId, raw.capacity⟩)
    | "sample", .entries state => do
      return .sample ⟨raw.timestamp, raw.bootId, raw.capacity, ← decodeState state⟩
    | "boot", _ | "checkpoint", _ | "sample", _ => .error .invalidRecord
    | _, _ => .error .invalidRecordKind

def encodeRaw (record : Record V) : Except EncodeError (RawRecord V) :=
  match record with
  | .boot r => .ok ⟨format, version, "boot", r.timestamp, r.bootId, r.capacity, .missing⟩
  | .sample r => do
    return ⟨format, version, "sample", r.timestamp, r.bootId, r.capacity, .entries (← encodeState r.state)⟩
  | .checkpoint r => .ok ⟨format, version, "checkpoint", r.timestamp, r.bootId, r.capacity, .missing⟩

def decodeRecord (json : SerdeJson V) (line : List UInt8) : Except DecodeError (Record V) :=
  if (ByteArray.mk line.toArray).validateUTF8 then
    match json.fromSlice line with
    | .ok raw => decodeRaw raw
    | .error .syntaxError => .error .invalidJson
    | .error .data => .error .invalidRecord
  else .error .invalidUtf8

def encodeRecord (json : SerdeJson V) (record : Record V) : Except EncodeError (List UInt8) :=
  (encodeRaw record).map json.toVec

/-! ### Round trip -/

def isBlank (line : List UInt8) : Bool := line.all Text.isAsciiWhitespace

/-- What the store relies on for an object it writes, after the blanks of an unterminated line if there are
any: it is one line of UTF-8 text and reads back as it was, its numbers included. Blanks before an object
are skipped or a syntax error. -/
structure SerdeJson.ReadsBack (json : SerdeJson V) (blank : List UInt8) (raw : RawRecord V) : Prop where
  oneLine : 10 ∉ json.toVec raw
  nonblank : isBlank (json.toVec raw) = false
  utf8 : (ByteArray.mk (blank ++ json.toVec raw).toArray).validateUTF8 = true
  read : json.fromSlice (blank ++ json.toVec raw) = .ok raw ∨
    blank ≠ [] ∧ json.fromSlice (blank ++ json.toVec raw) = .error .syntaxError

/-- The record reads back as it was. -/
def SerdeJson.Keeps (json : SerdeJson V) (blank : List UInt8) (record : Record V) : Prop :=
  ∀ raw, encodeRaw record = .ok raw → json.ReadsBack blank raw

theorem decodeEntries_of_encodeEntries {series : List (StateKind × MetricKey)} {state : List (StateEntry V)}
    {raw : List (RawStateEntry V)} (h : encodeEntries series state = .ok raw) :
    decodeEntries series raw = .ok state := by
  induction state generalizing series raw with
  | nil => cases h; rfl
  | cons entry state ih =>
    rw [encodeEntries] at h
    split at h
    · rename_i hfin
      split at h
      · cases h
      · rename_i hkey
        cases hrest : encodeEntries ((entry.kind, entry.key) :: series) state with
        | error e => rw [hrest] at h; cases h
        | ok rest =>
          rw [hrest] at h
          cases h
          have ih := ih hrest
          rw [StateEntry.key] at ih hkey
          simp only [decodeEntries, StateKind.ofName_name, hfin, if_true, hkey, if_false, ih]
          rfl
    · cases h

theorem decodeRaw_of_encodeRaw {record : Record V} {raw : RawRecord V} (h : encodeRaw record = .ok raw) :
    decodeRaw raw = .ok record := by
  cases record with
  | boot r => cases h; rfl
  | checkpoint r => cases h; rfl
  | sample r =>
    simp only [encodeRaw, encodeState] at h
    cases hs : encodeEntries [] r.state with
    | error e => rw [hs] at h; cases h
    | ok state =>
      rw [hs] at h
      cases h
      simp only [decodeRaw, decodeState, ne_eq, not_true_eq_false, if_false,
        decodeEntries_of_encodeEntries hs]
      rfl

theorem encodeEntries_eq_ok {series : List (StateKind × MetricKey)} {state : List (StateEntry V)}
    (hfin : ∀ e ∈ state, F64.isFinite e.value = true) (hnd : (state.map fun e => (e.kind, e.key)).Nodup)
    (hseries : ∀ e ∈ state, (e.kind, e.key) ∉ series) : ∃ raw, encodeEntries series state = .ok raw := by
  induction state generalizing series with
  | nil => exact ⟨[], rfl⟩
  | cons e state ih =>
    obtain ⟨hnot, hnd⟩ := List.nodup_cons.1 hnd
    have hseries' : ∀ e' ∈ state, (e'.kind, e'.key) ∉ (e.kind, e.key) :: series := by
      intro e' h' hmem
      rcases List.mem_cons.1 hmem with heq | hmem
      · exact hnot (List.mem_map.2 ⟨e', h', heq⟩)
      · exact hseries e' (List.mem_cons_of_mem _ h') hmem
    obtain ⟨raw, hraw⟩ := ih (fun e' h' => hfin e' (List.mem_cons_of_mem _ h')) hnd hseries'
    rw [encodeEntries, if_pos (hfin e List.mem_cons_self), if_neg (hseries e List.mem_cons_self), hraw]
    exact ⟨_, rfl⟩

/-- The state of a snapshot is always encoded. -/
theorem encodeState_canonicalState {snapshot : ParsedSnapshot V} (h : snapshot.Finite) :
    ∃ raw, encodeState (canonicalState snapshot) = .ok raw := by
  have hkeys : ∀ (series : Series V) (kind : StateKind),
      ((series.toList.map (stateEntry kind)).map fun e => (e.kind, e.key)) = series.keys.map (kind, ·) := by
    intro series kind
    rw [← Std.ExtTreeMap.map_fst_toList_eq_keys, List.map_map, List.map_map]
    rfl
  have hnodup : ∀ (series : Series V) (kind : StateKind), (series.keys.map (kind, ·)).Nodup := fun series kind =>
    List.Nodup.map (fun _ _ h => (Prod.mk.inj h).2) Std.ExtTreeMap.nodup_keys
  refine encodeEntries_eq_ok (fun e he => ?_) ?_ fun _ _ => List.not_mem_nil
  · rcases List.mem_append.1 he with he | he
    · obtain ⟨⟨key, value⟩, hp, rfl⟩ := List.mem_map.1 he
      exact h.1 key value (Std.ExtTreeMap.mem_toList_iff_getElem?_eq_some.1 hp)
    · obtain ⟨⟨key, value⟩, hp, rfl⟩ := List.mem_map.1 he
      exact h.2 key value (Std.ExtTreeMap.mem_toList_iff_getElem?_eq_some.1 hp)
  · rw [canonicalState, List.map_append, hkeys, hkeys, List.nodup_append]
    refine ⟨hnodup _ _, hnodup _ _, ?_⟩
    rintro _ ha _ hb rfl
    obtain ⟨key, -, rfl⟩ := List.mem_map.1 ha
    obtain ⟨key', -, hk⟩ := List.mem_map.1 hb
    cases (Prod.mk.inj hk).1

theorem encodeRecord_eq_ok {json : SerdeJson V} {record : Record V} {line : List UInt8}
    (h : encodeRecord json record = .ok line) : ∃ raw, encodeRaw record = .ok raw ∧ line = json.toVec raw := by
  rw [encodeRecord] at h
  cases hr : encodeRaw record with
  | error e => rw [hr] at h; cases h
  | ok raw => rw [hr] at h; cases h; exact ⟨raw, rfl, rfl⟩

/-- A line that reads back as the record. -/
structure LineOf (json : SerdeJson V) (blank : List UInt8) (record : Record V) (line : List UInt8) : Prop where
  oneLine : 10 ∉ line
  nonblank : isBlank line = false
  decode : decodeRecord json (blank ++ line) = .ok record ∨
    blank ≠ [] ∧ decodeRecord json (blank ++ line) = .error .invalidJson

theorem lineOf_encode {json : SerdeJson V} {blank : List UInt8} {record : Record V} (hk : json.Keeps blank record)
    {line : List UInt8} (h : encodeRecord json record = .ok line) : LineOf json blank record line := by
  obtain ⟨raw, hr, rfl⟩ := encodeRecord_eq_ok h
  obtain ⟨hone, hnon, hutf, hread⟩ := hk raw hr
  refine ⟨hone, hnon, ?_⟩
  rw [decodeRecord, if_pos hutf]
  rcases hread with hread | ⟨hb, hread⟩
  · rw [hread]
    exact .inl (decodeRaw_of_encodeRaw hr)
  · rw [hread]
    exact .inr ⟨hb, rfl⟩

theorem LineOf.decode_nil {json : SerdeJson V} {record : Record V} {line : List UInt8}
    (h : LineOf json [] record line) : decodeRecord json line = .ok record :=
  h.decode.resolve_right fun hne => hne.1 rfl

/-! ### Rounded numbers -/

/-- The same series with a finite value, which may be another one. -/
def RawStateEntry.Rounded (entry entry' : RawStateEntry V) : Prop :=
  entry'.kind = entry.kind ∧ entry'.metric = entry.metric ∧ entry'.labels = entry.labels ∧
    F64.isFinite entry'.value = true

omit [F64 V] in
/-- The same series. -/
def StateEntry.Rounded (entry entry' : StateEntry V) : Prop := entry'.kind = entry.kind ∧ entry'.key = entry.key

def StateField.Rounded : StateField V → StateField V → Prop
  | .missing, .missing | .null, .null => True
  | .entries state, .entries state' => List.Forall₂ RawStateEntry.Rounded state state'
  | _, _ => False

/-- The same object, its values rounded. -/
structure RawRecord.Rounded (raw raw' : RawRecord V) : Prop where
  same : raw' = { raw with state := raw'.state }
  state : raw.state.Rounded raw'.state

/-- The same record, its values rounded. -/
inductive Record.Rounded : Record V → Record V → Prop
  | boot (r : BootRecord) : Rounded (.boot r) (.boot r)
  | checkpoint (r : CheckpointRecord) : Rounded (.checkpoint r) (.checkpoint r)
  | sample (r : SampleRecord V) {state : List (StateEntry V)} (h : List.Forall₂ StateEntry.Rounded r.state state) :
    Rounded (.sample r) (.sample { r with state })

/-- What the store relies on for an object with numbers: it is one line of UTF-8 text and reads back as it was,
but for the rounding of its values. -/
structure SerdeJson.ReadsRounded (json : SerdeJson V) (raw : RawRecord V) : Prop where
  oneLine : 10 ∉ json.toVec raw
  nonblank : isBlank (json.toVec raw) = false
  utf8 : (ByteArray.mk (json.toVec raw).toArray).validateUTF8 = true
  read : ∃ raw', json.fromSlice (json.toVec raw) = .ok raw' ∧ raw.Rounded raw'

/-- The record reads back as it was, but for the rounding of its values. -/
def SerdeJson.Rounds (json : SerdeJson V) (record : Record V) : Prop :=
  ∀ raw, encodeRaw record = .ok raw → json.ReadsRounded raw

/-- The record that the line of a record reads back as. -/
def readBack (json : SerdeJson V) (record : Record V) : Record V :=
  (((encodeRecord json record).toOption.bind fun line => (decodeRecord json line).toOption)).getD record

omit [F64 V] in
theorem Record.Rounded.header {r r' : Record V} (h : r.Rounded r') :
    r'.isBoot = r.isBoot ∧ r'.bootId = r.bootId ∧ r'.timestamp = r.timestamp := by
  cases h <;> exact ⟨rfl, rfl, rfl⟩

omit [F64 V] in
theorem Record.Rounded.sample_eq {r : SampleRecord V} {r' : Record V} (h : (Record.sample r).Rounded r') :
    ∃ state, r' = .sample { r with state } := by
  cases h
  exact ⟨_, rfl⟩

theorem decodeEntries_of_rounded {series : List (StateKind × MetricKey)} {state : List (StateEntry V)}
    {raw raw' : List (RawStateEntry V)} (h : encodeEntries series state = .ok raw)
    (hround : List.Forall₂ RawStateEntry.Rounded raw raw') :
    ∃ state', decodeEntries series raw' = .ok state' ∧ List.Forall₂ StateEntry.Rounded state state' := by
  induction state generalizing series raw raw' with
  | nil =>
    cases h
    cases hround
    exact ⟨[], rfl, .nil⟩
  | cons entry state ih =>
    rw [encodeEntries] at h
    split at h
    · split at h
      · cases h
      rename_i hkey
      cases hrest : encodeEntries ((entry.kind, entry.key) :: series) state with
      | error e => rw [hrest] at h; cases h
      | ok rest =>
        rw [hrest] at h
        cases h
        cases hround with
        | @cons _ entry' _ rest' hentry hrest' =>
          obtain ⟨hkind, hmetric, hlabels, hfin⟩ := hentry
          obtain ⟨state', hstate', hrounded⟩ := ih hrest hrest'
          rw [StateEntry.key] at hkey hstate'
          refine ⟨⟨entry.kind, entry.metric, entry.labels, entry'.value⟩ :: state', ?_, .cons ⟨rfl, rfl⟩ hrounded⟩
          simp only [decodeEntries, hkind, hmetric, hlabels, StateKind.ofName_name, hfin, if_true, hkey, if_false,
            hstate']
          rfl
    · cases h

theorem decodeRaw_of_rounded {record : Record V} {raw raw' : RawRecord V} (h : encodeRaw record = .ok raw)
    (hround : raw.Rounded raw') : ∃ record', decodeRaw raw' = .ok record' ∧ record.Rounded record' := by
  obtain ⟨hsame, hstate⟩ := hround
  obtain ⟨state', hstate'⟩ : ∃ state', raw'.state = state' := ⟨_, rfl⟩
  rw [hstate'] at hsame hstate
  subst hsame
  cases record with
  | boot r =>
    cases h
    cases state' with
    | missing => exact ⟨_, rfl, .boot r⟩
    | null | entries state => cases hstate
  | checkpoint r =>
    cases h
    cases state' with
    | missing => exact ⟨_, rfl, .checkpoint r⟩
    | null | entries state => cases hstate
  | sample r =>
    simp only [encodeRaw, encodeState] at h
    cases hs : encodeEntries [] r.state with
    | error e => rw [hs] at h; cases h
    | ok state =>
      rw [hs] at h
      cases h
      cases state' with
      | missing | null => cases hstate
      | entries state' =>
        obtain ⟨entries, hentries, hrounded⟩ := decodeEntries_of_rounded hs hstate
        refine ⟨.sample { r with state := entries }, ?_, .sample r hrounded⟩
        simp only [decodeRaw, decodeState, ne_eq, not_true_eq_false, if_false, hentries]
        rfl

/-- The line of a record reads back as the record, but for the rounding of its values. -/
theorem lineOf_readBack {json : SerdeJson V} {record : Record V} (hk : json.Rounds record) {line : List UInt8}
    (h : encodeRecord json record = .ok line) :
    LineOf json [] (readBack json record) line ∧ record.Rounded (readBack json record) := by
  obtain ⟨raw, hr, rfl⟩ := encodeRecord_eq_ok h
  obtain ⟨hone, hnon, hutf, raw', hread, hround⟩ := hk raw hr
  obtain ⟨record', hdecode, hrounded⟩ := decodeRaw_of_rounded hr hround
  have hline : decodeRecord json (json.toVec raw) = .ok record' := by
    rw [decodeRecord, if_pos hutf, hread]
    exact hdecode
  have hback : readBack json record = record' := by
    rw [readBack, h]
    show ((decodeRecord json (json.toVec raw)).toOption).getD record = record'
    rw [hline]
    rfl
  rw [hback]
  exact ⟨⟨hone, hnon, .inl hline⟩, hrounded⟩

end

/-! ### The texts of finitely many objects -/

section
variable {V : Type} [F64 V]

instance [DecidableEq V] (json : SerdeJson V) (blank : List UInt8) (raw : RawRecord V) :
    Decidable (json.ReadsBack blank raw) :=
  decidable_of_iff (10 ∉ json.toVec raw ∧ isBlank (json.toVec raw) = false ∧
      (ByteArray.mk (blank ++ json.toVec raw).toArray).validateUTF8 = true ∧
      (json.fromSlice (blank ++ json.toVec raw) = .ok raw ∨
        blank ≠ [] ∧ json.fromSlice (blank ++ json.toVec raw) = .error .syntaxError))
    ⟨fun ⟨h₁, h₂, h₃, h₄⟩ => ⟨h₁, h₂, h₃, h₄⟩, fun h => ⟨h.oneLine, h.nonblank, h.utf8, h.read⟩⟩

instance : DecidableRel (@RawStateEntry.Rounded V _) := fun _ _ => inferInstanceAs (Decidable (_ ∧ _))

instance : DecidableRel (@StateField.Rounded V _)
  | .missing, .missing | .null, .null => isTrue trivial
  | .entries state, .entries state' => inferInstanceAs (Decidable (List.Forall₂ RawStateEntry.Rounded state state'))
  | .missing, .null | .missing, .entries _ | .null, .missing | .null, .entries _ | .entries _, .missing
  | .entries _, .null => isFalse id

instance [DecidableEq V] (raw raw' : RawRecord V) : Decidable (raw.Rounded raw') :=
  decidable_of_iff (raw' = { raw with state := raw'.state } ∧ raw.state.Rounded raw'.state)
    ⟨fun ⟨h₁, h₂⟩ => ⟨h₁, h₂⟩, fun h => ⟨h.same, h.state⟩⟩

instance [DecidableEq V] (json : SerdeJson V) (raw : RawRecord V) : Decidable (json.ReadsRounded raw) :=
  decidable_of_iff (10 ∉ json.toVec raw ∧ isBlank (json.toVec raw) = false ∧
      (ByteArray.mk (json.toVec raw).toArray).validateUTF8 = true ∧
      (json.fromSlice (json.toVec raw)).toOption.any fun raw' => decide (raw.Rounded raw'))
    ⟨fun ⟨h₁, h₂, h₃, h₄⟩ =>
      have ⟨raw', hread, hround⟩ := (Option.any_eq_true ..).1 h₄
      ⟨h₁, h₂, h₃, raw', toOption_eq_some hread, of_decide_eq_true hround⟩,
    fun ⟨h₁, h₂, h₃, raw', hread, hround⟩ =>
      ⟨h₁, h₂, h₃, (Option.any_eq_true ..).2 ⟨raw', by rw [hread]; rfl, decide_eq_true hround⟩⟩⟩

instance [DecidableEq V] (json : SerdeJson V) (record : Record V) : Decidable (json.Rounds record) :=
  match h : encodeRaw record with
  | .ok raw => decidable_of_iff (json.ReadsRounded raw)
      ⟨fun hr _ h' => Except.ok.inj (h.symm.trans h') ▸ hr, fun hk => hk raw h⟩
  | .error _ => isTrue fun _ h' => nomatch h.symm.trans h'

instance [DecidableEq V] (json : SerdeJson V) (blank : List UInt8) (record : Record V) :
    Decidable (json.Keeps blank record) :=
  match h : encodeRaw record with
  | .ok raw => decidable_of_iff (json.ReadsBack blank raw)
      ⟨fun hr _ h' => Except.ok.inj (h.symm.trans h') ▸ hr, fun hk => hk raw h⟩
  | .error _ => isTrue fun _ h' => nomatch h.symm.trans h'

end

def jsonString (s : String) : String := "\"" ++ s ++ "\""

def jsonArray (items : List String) : String := "[" ++ ",".intercalate items ++ "]"

def jsonObject (fields : List (String × String)) : String :=
  "\x7b" ++ ",".intercalate (fields.map fun p => jsonString p.1 ++ ":" ++ p.2) ++ "\x7d"

def Capacity.text (c : Capacity) : String :=
  jsonObject [("capacity_rpm", toString c.capacityRpm), ("enabled_keys", toString c.enabledKeys),
    ("key_rpms", jsonArray (c.keyRpms.map toString))]

def RawStateEntry.text (entry : RawStateEntry ℚ) : String :=
  jsonObject [("kind", jsonString entry.kind), ("metric", jsonString entry.metric),
    ("labels", jsonObject (entry.labels.toList.map fun p => (p.1, jsonString p.2))),
    ("value", toString entry.value.num ++ ".0")]

/-- The text of an object whose strings need no escapes and whose values are integers. -/
def RawRecord.text (raw : RawRecord ℚ) : String :=
  jsonObject ([("format", jsonString raw.format), ("v", toString raw.v), ("kind", jsonString raw.kind),
    ("timestamp", toString raw.timestamp), ("boot_id", jsonString raw.bootId), ("capacity", raw.capacity.text)] ++
    match raw.state with
    | .missing => []
    | .null => [("state", "null")]
    | .entries state => [("state", jsonArray (state.map RawStateEntry.text))])

/-- The JSON library on these objects. -/
def SerdeJson.table (objects : List (RawRecord ℚ)) : SerdeJson ℚ where
  toVec raw := if raw ∈ objects then raw.text.toUTF8.data.toList else []
  fromSlice line := ((objects.find? fun raw => raw.text.toUTF8.data.toList == line).map Except.ok).getD (.error .syntaxError)
  timestamp line := (objects.find? fun raw => raw.text.toUTF8.data.toList == line).map (·.timestamp)

/-- The records of a process with one key, and the boot of the next. -/
def twoProcesses (boot sample checkpoint next : Nat) (state : StateField ℚ) : List (RawRecord ℚ) :=
  [⟨format, version, "boot", boot, "a", ⟨40, 1, [40]⟩, .missing⟩,
    ⟨format, version, "sample", sample, "a", ⟨40, 1, [40]⟩, state⟩,
    ⟨format, version, "checkpoint", checkpoint, "a", ⟨40, 1, [40]⟩, .missing⟩,
    ⟨format, version, "boot", next, "b", ⟨40, 1, [40]⟩, .missing⟩]

theorem SerdeJson.oneLine_table {objects : List (RawRecord ℚ)} (h : ∀ raw ∈ objects, 10 ∉ raw.text.toUTF8.data.toList)
    (raw : RawRecord ℚ) : 10 ∉ (table objects).toVec raw := by
  rw [table]
  dsimp only
  split
  · rename_i hraw
    exact h raw hraw
  · exact List.not_mem_nil

end OpenProxy
