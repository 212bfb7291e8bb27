import OpenProxy.Compaction
import OpenProxy.Lib.Transition

/-!
# The canonical store (`history/store.rs`)

One writer appends to the file behind the canonical path. A compaction writes the retained records to a
temporary file, checks that it reads back as them, and renames it over the canonical path; the writer goes
on with the new file. Calls can fail where the code distinguishes it: `fault` says where. An append that
fails to encode, write or sync poisons the writer.
-/

namespace OpenProxy

open Lines

/-- The files by number, and the one the canonical path names. -/
structure Disk where
  files : List (List UInt8)
  canonical : Nat
  deriving DecidableEq, Repr

namespace Disk

def read (d : Disk) (file : Nat) : List UInt8 := d.files.getD file []

def append (d : Disk) (file : Nat) (bytes : List UInt8) : Disk := { d with files := d.files.modify file (· ++ bytes) }

/-- A temporary file, numbered next. -/
def create (d : Disk) (bytes : List UInt8) : Disk := { d with files := d.files ++ [bytes] }

theorem read_append_self {d : Disk} {file : Nat} (h : file < d.files.length) (bytes : List UInt8) :
    (d.append file bytes).read file = d.read file ++ bytes := by
  simp [read, append, h]

theorem read_create_of_lt {d : Disk} {file : Nat} (h : file < d.files.length) (bytes : List UInt8) :
    (d.create bytes).read file = d.read file := by
  simp [read, create, h, List.getElem?_append_left]

theorem read_create_self (d : Disk) (bytes : List UInt8) : (d.create bytes).read d.files.length = bytes := by
  simp [read, create]

end Disk

structure HistoryStore (V : Type) where
  file : Nat
  bootId : String
  lastState : Option (List (StateEntry V))
  replay : Replay V
  lastTimestamp : Option Nat
  poisoned : Bool

inductive WriteError where
  | encode
  | io
  | poisoned
  | timestampRegression
  deriving DecidableEq, Repr

inductive CompactionOutcome where
  | durable
  | deferred
  | superseded
  | committedSyncPending
  deriving DecidableEq, Repr

/-- Where a compaction fails. -/
inductive CompactionFault where
  | readCanonical
  | tempCreate
  /-- After `written` bytes. -/
  | tempWrite (written : Nat)
  | tempSync
  | readTemp
  | rename
  | directorySync
  deriving DecidableEq, Repr

/-- A store with the disk it writes to. -/
structure Writer (V : Type) where
  disk : Disk
  store : HistoryStore V

section
variable {V : Type} [F64 V]

/-! ### Opening -/

def openExisting (json : SerdeJson V) (bytes : List UInt8) (boot : BootRecord) : Except OpenError (Writer V) := do
  let replay ← validateCanonical json bytes
  if replay.orderingBound.any (boot.timestamp < ·) then .error (.invalidStream 0 "timestamp regresses")
  else
    match encodeRecord json (.boot boot) with
    | .error _ => .error .io
    | .ok line =>
      let separator := if replay.needsSeparator then [10] else []
      let replay := { replay with records := replay.records ++ [Record.boot boot] }.closeOpenGap boot.timestamp
      return {
        disk := ⟨[bytes ++ separator ++ line ++ [10]], 0⟩
        store := ⟨0, boot.bootId, none, replay, some boot.timestamp, false⟩ }

/-- What opening an existing file leaves. -/
theorem openExisting_eq_ok {json : SerdeJson V} {bytes : List UInt8} {boot : BootRecord} {w : Writer V}
    (h : openExisting json bytes boot = .ok w) : ∃ replay line, validateCanonical json bytes = .ok replay ∧
      replay.orderingBound.getD 0 ≤ boot.timestamp ∧ encodeRecord json (.boot boot) = .ok line ∧
      w.disk = ⟨[bytes ++ (if replay.needsSeparator then [10] else []) ++ line ++ [10]], 0⟩ ∧
      w.store = ⟨0, boot.bootId, none,
        { replay with records := replay.records ++ [Record.boot boot] }.closeOpenGap boot.timestamp,
        some boot.timestamp, false⟩ := by
  rw [openExisting] at h
  obtain ⟨replay, hv, h⟩ := bind_eq_ok.1 h
  split at h
  · cases h
  rename_i hlate
  cases henc : encodeRecord json (.boot boot) with
  | error e =>
    rw [henc] at h
    cases h
  | ok line =>
    rw [henc] at h
    obtain rfl := Except.ok.inj h
    exact ⟨replay, line, hv, Scanner.not_any_lt.1 (eq_false_of_ne_true hlate), rfl, rfl, rfl⟩

/-- `publish_first_boot`. -/
def openFirst (json : SerdeJson V) (boot : BootRecord) : Except OpenError (Writer V) :=
  match encodeRecord json (.boot boot) with
  | .error _ => .error .io
  | .ok line =>
    .ok {
      disk := ⟨[line ++ [10]], 0⟩
      store := ⟨0, boot.bootId, none, { records := [.boot boot] }, some boot.timestamp, false⟩ }

/-- `HistoryStore::open`; `bytes` is the canonical file, if there is one, and `boot` has a fresh boot id. -/
def openStore (json : SerdeJson V) (bytes : Option (List UInt8)) (boot : BootRecord) :
    Except OpenError (Writer V) :=
  match bytes with
  | some bytes => openExisting json bytes boot
  | none => openFirst json boot

/-! ### Appending -/

/-- `append_record`; a fault leaves that many bytes of the line in the file. -/
def appendRecord (json : SerdeJson V) (disk : Disk) (file : Nat) (record : Record V) (fault : Option Nat) :
    Disk × Except WriteError Unit :=
  match encodeRecord json record with
  | .error _ => (disk, .error .encode)
  | .ok line =>
    match fault with
    | none => (disk.append file (line ++ [10]), .ok ())
    | some written => (disk.append file ((line ++ [10]).take written), .error .io)

/-- What `append_sample_inner` and `checkpoint_inner` do with their record; `lastState` is the state after it. -/
def Writer.write (json : SerdeJson V) (w : Writer V) (record : Record V)
    (lastState : Option (List (StateEntry V))) (fault : Option Nat) : Writer V × Except WriteError Unit :=
  if w.store.lastTimestamp.any (record.timestamp < ·) then (w, .error .timestampRegression)
  else
    let (disk, result) := appendRecord json w.disk w.store.file record fault
    match result with
    | .ok () =>
      ({ disk, store := { w.store with lastTimestamp := some record.timestamp, lastState := lastState } }, .ok ())
    | .error error => ({ disk, store := { w.store with poisoned := true } }, .error error)

def Writer.checkpoint (json : SerdeJson V) (w : Writer V) (timestamp : Nat) (capacity : Capacity)
    (fault : Option Nat) : Writer V × Except WriteError Unit :=
  if w.store.poisoned then (w, .error .poisoned)
  else w.write json (.checkpoint ⟨timestamp, w.store.bootId, capacity⟩) w.store.lastState fault

variable [DecidableEq V]

def Writer.appendSample (json : SerdeJson V) (w : Writer V) (timestamp : Nat) (capacity : Capacity)
    (state : List (StateEntry V)) (fault : Option Nat) : Writer V × Except WriteError Unit :=
  if w.store.poisoned then (w, .error .poisoned)
  else if w.store.lastState = some state then w.checkpoint json timestamp capacity fault
  else w.write json (.sample ⟨timestamp, w.store.bootId, capacity, state⟩) (some state) fault

/-- The record an append writes; a checkpoint has no state. -/
def nextRecord (w : Writer V) (timestamp : Nat) (capacity : Capacity) (state : Option (List (StateEntry V))) :
    Record V :=
  match state with
  | some state =>
    if w.store.lastState = some state then .checkpoint ⟨timestamp, w.store.bootId, capacity⟩
    else .sample ⟨timestamp, w.store.bootId, capacity, state⟩
  | none => .checkpoint ⟨timestamp, w.store.bootId, capacity⟩

omit [F64 V] in
theorem isBoot_nextRecord (w : Writer V) (timestamp : Nat) (capacity : Capacity)
    (state : Option (List (StateEntry V))) :
    (nextRecord w timestamp capacity state).isBoot = false ∧
      (nextRecord w timestamp capacity state).bootId = w.store.bootId := by
  unfold nextRecord
  cases state with
  | none => exact ⟨rfl, rfl⟩
  | some state =>
    dsimp only
    split <;> exact ⟨rfl, rfl⟩

theorem appendSample_ok {json : SerdeJson V} {w : Writer V} {timestamp : Nat} {capacity : Capacity}
    {state : List (StateEntry V)} {line : List UInt8} (hp : w.store.poisoned = false)
    (hle : w.store.lastTimestamp.getD 0 ≤ timestamp)
    (hline : encodeRecord json (nextRecord w timestamp capacity (some state)) = .ok line) :
    w.appendSample json timestamp capacity state none =
      ({ disk := w.disk.append w.store.file (line ++ [10]),
         store := { w.store with lastTimestamp := some timestamp, lastState := some state } }, .ok ()) := by
  rw [nextRecord] at hline
  by_cases hstate : w.store.lastState = some state
  · rw [if_pos hstate] at hline
    rw [Writer.appendSample, hp, if_neg Bool.false_ne_true, if_pos hstate, Writer.checkpoint, hp,
      if_neg Bool.false_ne_true, Writer.write, Record.timestamp, Scanner.not_any_lt.2 hle, if_neg Bool.false_ne_true,
      appendRecord, hline, hstate]
  · rw [if_neg hstate] at hline
    rw [Writer.appendSample, hp, if_neg Bool.false_ne_true, if_neg hstate, Writer.write, Record.timestamp,
      Scanner.not_any_lt.2 hle, if_neg Bool.false_ne_true, appendRecord, hline]

/-! ### Compacting -/

/-- The lines of the temporary file. -/
def encodeRecords (json : SerdeJson V) (records : List (Record V)) : Except EncodeError (List (List UInt8)) :=
  records.mapM (encodeRecord json)

omit [DecidableEq V] in
theorem encodeRecords_cons_eq_ok {json : SerdeJson V} {record : Record V} {records : List (Record V)}
    {lines : List (List UInt8)} :
    encodeRecords json (record :: records) = .ok lines ↔
      ∃ l ls, encodeRecord json record = .ok l ∧ encodeRecords json records = .ok ls ∧ l :: ls = lines := by
  simp only [encodeRecords, List.mapM_cons, bind_eq_ok, pure, Except.pure, Except.ok.injEq, exists_and_left]

omit [DecidableEq V] in
theorem not_mem_encodeRecords {json : SerdeJson V} (hone : ∀ raw, 10 ∉ json.toVec raw) {records : List (Record V)}
    {lines : List (List UInt8)} (h : encodeRecords json records = .ok lines) : ∀ line ∈ lines, 10 ∉ line := by
  induction records generalizing lines with
  | nil => cases h; intro line hl; cases hl
  | cons record records ih =>
    obtain ⟨l, ls, hl, hls, rfl⟩ := encodeRecords_cons_eq_ok.1 h
    intro line hline
    rcases List.mem_cons.1 hline with rfl | hline
    · obtain ⟨raw, -, rfl⟩ := encodeRecord_eq_ok hl
      exact hone raw
    · exact ih hls line hline

omit [DecidableEq V] in
theorem length_encodeRecords {json : SerdeJson V} {records : List (Record V)} {lines : List (List UInt8)}
    (h : encodeRecords json records = .ok lines) : records.length = lines.length := by
  induction records generalizing lines with
  | nil => cases h; rfl
  | cons record records ih =>
    obtain ⟨l, ls, -, hls, rfl⟩ := encodeRecords_cons_eq_ok.1 h
    exact congrArg Nat.succ (ih hls)

/-- The replacement reads back as exactly the retained records. -/
def Replay.isExactly (replay : Replay V) (retained : List (Record V)) : Bool :=
  replay.records == retained && replay.gaps.isEmpty && !replay.needsSeparator && replay.excludedEpochs == 0 &&
    replay.excludedRecords == 0

omit [F64 V] in
theorem isExactly_iff {replay : Replay V} {retained : List (Record V)} : replay.isExactly retained = true ↔
    replay.records = retained ∧ replay.gaps = [] ∧ replay.needsSeparator = false ∧ replay.excludedEpochs = 0 ∧
      replay.excludedRecords = 0 := by
  simp [Replay.isExactly, and_assoc]

/-- The lines of a replacement that reads back as the retained records read back as them. -/
theorem encodes_of_isExactly {json : SerdeJson V} (hone : ∀ raw, 10 ∉ json.toVec raw) {retained : List (Record V)}
    {lines : List (List UInt8)} {replacement : Replay V} (hencode : encodeRecords json retained = .ok lines)
    (hcheck : validateCanonical json (joinLines 10 lines) = .ok replacement)
    (hexact : replacement.isExactly retained = true) : Encodes json retained lines := by
  obtain rfl := (isExactly_iff.1 hexact).1
  have hlines := not_mem_encodeRecords hone hencode
  exact encodes_of_sublist hlines (records_sublist hlines hcheck) (length_encodeRecords hencode)

def lastStateOf (bootId : String) (records : List (Record V)) : Option (List (StateEntry V)) :=
  records.reverse.findSome? fun
    | .sample r => if r.bootId = bootId then some r.state else none
    | _ => none

omit [F64 V] [DecidableEq V] in
/-- The last state of the live epoch. -/
theorem lastStateOf_append (older : List (Record V)) (boot : BootRecord) (os : List (Observation V))
    (h : (stateAfter none os).isSome) :
    lastStateOf boot.bootId (older ++ .boot boot :: os.map (Observation.record boot.bootId)) = stateAfter none os := by
  have hos : ∀ os : List (Observation V), (os.map (Observation.record boot.bootId)).reverse.findSome? (fun
      | .sample r => if r.bootId = boot.bootId then some r.state else none
      | _ => none) = stateAfter none os := by
    intro os
    induction os using List.reverseRecOn with
    | nil => rfl
    | append_singleton os o ih =>
      rw [List.map_append, List.reverse_append, List.map_singleton, List.reverse_singleton, List.singleton_append,
        List.findSome?_cons, stateAfter, List.foldl_append]
      show _ = o.state.or (stateAfter none os)
      unfold Observation.record
      cases o.state with
      | none => exact ih
      | some state => simp
  rw [lastStateOf, List.reverse_append, List.reverse_cons, List.append_assoc, List.findSome?_append, hos]
  obtain ⟨state, hs⟩ := Option.isSome_iff_exists.1 h
  rw [hs, Option.some_or]

/-- The writer after the rename of the file last created. -/
def Writer.replace (w : Writer V) (file : Nat) (replacement : Replay V) : Writer V where
  disk := { w.disk with canonical := file }
  store := { w.store with
    file := file
    lastTimestamp := replacement.records.getLast?.map Record.timestamp
    lastState := lastStateOf w.store.bootId replacement.records
    replay := replacement }

/-- What the temporary file is left with when writing it, syncing it or reading it back fails. -/
def tempFailure (content : List UInt8) : Option CompactionFault → Option (List UInt8)
  | some (.tempWrite written) => some (content.take written)
  | some .tempSync | some .readTemp => some content
  | _ => none

/-- The replacement of a compaction, from the temporary file on. -/
def Writer.publish (json : SerdeJson V) (w : Writer V) (retained : List (Record V)) (authorized : Bool)
    (fault : Option CompactionFault) : Writer V × Except Unit CompactionOutcome :=
  match encodeRecords json retained with
  | .error _ => ({ w with disk := w.disk.create [] }, .error ())
  | .ok lines =>
    let created := { w with disk := w.disk.create (joinLines 10 lines) }
    match tempFailure (joinLines 10 lines) fault with
    | some bytes => ({ w with disk := w.disk.create bytes }, .error ())
    | none =>
      match validateCanonical json (joinLines 10 lines) with
      | .error _ => (created, .error ())
      | .ok replacement =>
        if !replacement.isExactly retained then (created, .error ())
        else if !authorized then (created, .ok .superseded)
        else if fault = some .rename then (created, .error ())
        else
          (created.replace w.disk.files.length replacement,
            .ok (if fault = some .directorySync then .committedSyncPending else .durable))

/-- `compact_inner_if_authorized`; `authorized` is the answer of the closure. -/
def Writer.compactIfAuthorized (json : SerdeJson V) (w : Writer V) (cutoff : Nat) (authorized : Bool)
    (fault : Option CompactionFault) : Writer V × Except Unit CompactionOutcome :=
  if fault = some .readCanonical then (w, .error ())
  else
    match validateCanonical json (w.disk.read w.disk.canonical) with
    | .error _ => (w, .error ())
    | .ok replay =>
      if replay.gaps.any (cutoff < ·.«to») || w.store.lastState.isNone then (w, .ok .deferred)
      else if fault = some .tempCreate then (w, .error ())
      else
        w.publish json
          (retainedCompactionRecords id replay.records cutoff w.store.bootId w.store.lastState.isSome)
          authorized fault

/-- What a compaction can do. -/
inductive Compacted (json : SerdeJson V) (w : Writer V) (cutoff : Nat) (authorized : Bool) :
    Writer V × Except Unit CompactionOutcome → Prop where
  /-- It fails, defers or is superseded: there is at most one more file, which nothing names. -/
  | kept {w' : Writer V} {result : Except Unit CompactionOutcome} (store : w'.store = w.store)
      (disk : w'.disk = w.disk ∨ ∃ bytes, w'.disk = w.disk.create bytes)
      (uncommitted : result ≠ .ok .durable ∧ result ≠ .ok .committedSyncPending) :
      Compacted json w cutoff authorized (w', result)
  | replaced {replay replacement : Replay V} {lines : List (List UInt8)} {result : Except Unit CompactionOutcome}
      (scan : validateCanonical json (w.disk.read w.disk.canonical) = .ok replay)
      (gaps : ∀ gap ∈ replay.gaps, gap.«to» ≤ cutoff) (usable : w.store.lastState.isSome)
      (encode : encodeRecords json (retainedCompactionRecords id replay.records cutoff w.store.bootId true) = .ok lines)
      (check : validateCanonical json (joinLines 10 lines) = .ok replacement)
      (exact : replacement.isExactly (retainedCompactionRecords id replay.records cutoff w.store.bootId true))
      (granted : authorized = true) (committed : result = .ok .durable ∨ result = .ok .committedSyncPending) :
      Compacted json w cutoff authorized
        ({ w with disk := w.disk.create (joinLines 10 lines) }.replace w.disk.files.length replacement, result)

theorem publish_cases (json : SerdeJson V) (w : Writer V) (retained : List (Record V)) (authorized : Bool)
    (fault : Option CompactionFault) :
    (∃ bytes result, w.publish json retained authorized fault = ({ w with disk := w.disk.create bytes }, result) ∧
        result ≠ .ok .durable ∧ result ≠ .ok .committedSyncPending) ∨
      ∃ lines replacement result, encodeRecords json retained = .ok lines ∧
        validateCanonical json (joinLines 10 lines) = .ok replacement ∧ replacement.isExactly retained ∧
        authorized = true ∧ (result = .ok .durable ∨ result = .ok .committedSyncPending) ∧
        w.publish json retained authorized fault =
          ({ w with disk := w.disk.create (joinLines 10 lines) }.replace w.disk.files.length replacement, result) := by
  rw [Writer.publish]
  cases hencode : encodeRecords json retained with
  | error e => exact .inl ⟨_, _, rfl, nofun, nofun⟩
  | ok lines =>
    dsimp only
    split
    · exact .inl ⟨_, _, rfl, nofun, nofun⟩
    cases hcheck : validateCanonical json (joinLines 10 lines) with
    | error e => exact .inl ⟨_, _, rfl, nofun, nofun⟩
    | ok replacement =>
      dsimp only
      split
      · exact .inl ⟨_, _, rfl, nofun, nofun⟩
      rename_i hexact
      split
      · exact .inl ⟨_, _, rfl, nofun, nofun⟩
      rename_i hauth
      split
      · exact .inl ⟨_, _, rfl, nofun, nofun⟩
      refine .inr ⟨lines, replacement, _, rfl, hcheck, by simpa using hexact, by simpa using hauth, ?_, rfl⟩
      split
      · exact .inr rfl
      · exact .inl rfl

theorem compactIfAuthorized_cases (json : SerdeJson V) (w : Writer V) (cutoff : Nat) (authorized : Bool)
    (fault : Option CompactionFault) :
    Compacted json w cutoff authorized (w.compactIfAuthorized json cutoff authorized fault) := by
  rw [Writer.compactIfAuthorized]
  split
  · exact .kept rfl (.inl rfl) ⟨nofun, nofun⟩
  cases hscan : validateCanonical json (w.disk.read w.disk.canonical) with
  | error e => exact .kept rfl (.inl rfl) ⟨nofun, nofun⟩
  | ok replay =>
    dsimp only
    split
    · exact .kept rfl (.inl rfl) ⟨nofun, nofun⟩
    rename_i hdefer
    rw [Bool.not_eq_true, Bool.or_eq_false_iff, List.any_eq_false, Option.isNone_eq_false_iff] at hdefer
    obtain ⟨hgaps, husable⟩ := hdefer
    split
    · exact .kept rfl (.inl rfl) ⟨nofun, nofun⟩
    rw [husable]
    rcases publish_cases json w _ authorized fault with
      ⟨bytes, result, he, hr⟩ | ⟨lines, replacement, result, hencode, hcheck, hexact, hauth, hr, he⟩
    · rw [he]
      exact .kept rfl (.inr ⟨bytes, rfl⟩) hr
    · rw [he]
      exact .replaced hscan (fun gap hgap => by simpa using hgaps gap hgap) husable hencode hcheck hexact hauth hr

end

end OpenProxy
