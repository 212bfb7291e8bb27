import OpenProxy.Store

/-!
# No acknowledged record is lost or duplicated

The log of a writer is what its file has to hold: the records committed before it was opened, its boot
record, and each record it wrote as its line reads back (the JSON library may round its numbers), marked
with whether the append was acknowledged. A committed compaction takes the log to what it retains of it. The
file holds the lines of the log in order, each once, and at most a torn line after them, through every order
of appends, checkpoints and compactions and every failure, as long as no compaction uses the cutoff `u64::MAX`
while the scan of the file leaves a gap open.

The check that defers a compaction compares the end of each gap with the cutoff, and an open gap ends at
`u64::MAX`.
-/

namespace OpenProxy.Durability

open Lines Transition

section
variable {V : Type} [F64 V]

/-! ### The log -/

/-- `failed`: an append failed to encode, write or sync. -/
structure State (V : Type) where
  writer : Writer V
  log : List (Record V × Bool)
  failed : Bool

inductive Op (V : Type) where
  | appendSample (timestamp : Nat) (capacity : Capacity) (state : List (StateEntry V)) (fault : Option Nat)
  | checkpoint (timestamp : Nat) (capacity : Capacity) (fault : Option Nat)
  | compact (cutoff : Nat) (authorized : Bool) (fault : Option CompactionFault)

/-- The bytes of the canonical file. -/
def State.bytes (s : State V) : List UInt8 := s.writer.disk.read s.writer.disk.canonical

/-- A failed append left the whole line behind. -/
def wholeLine (json : SerdeJson V) (record : Record V) (fault : Option Nat) : Bool :=
  match encodeRecord json record, fault with
  | .ok line, some written => decide (line.length < written)
  | _, _ => false

def State.appended (json : SerdeJson V) (s : State V) (record : Record V) (fault : Option Nat) :
    Writer V × Except WriteError Unit → State V
  | (w, .ok ()) => { s with writer := w, log := s.log ++ [(readBack json record, true)] }
  | (w, .error .poisoned) | (w, .error .timestampRegression) => { s with writer := w }
  | (w, .error .encode) | (w, .error .io) =>
    { writer := w
      log := s.log ++ if wholeLine json record fault then [(readBack json record, false)] else []
      failed := true }

/-- A freshly opened writer: the log is what a scan of its file has committed when it comes to the boot
record, and the boot record. -/
def start (json : SerdeJson V) (w : Writer V) (boot : BootRecord) : State V where
  writer := w
  log :=
    (match scanLines json {} (splitLines 10 (w.disk.read w.disk.canonical)).1 with
      | .ok s => s.replay.records.map (·, true)
      | .error _ => []) ++ [(.boot boot, true)]
  failed := false

variable [DecidableEq V]

def step (json : SerdeJson V) (s : State V) : Op V → Option (State V)
  | .appendSample timestamp capacity state fault =>
    some (s.appended json (nextRecord s.writer timestamp capacity (some state)) fault
      (s.writer.appendSample json timestamp capacity state fault))
  | .checkpoint timestamp capacity fault =>
    some (s.appended json (nextRecord s.writer timestamp capacity none) fault
      (s.writer.checkpoint json timestamp capacity fault))
  | .compact cutoff authorized fault =>
    let (w, result) := s.writer.compactIfAuthorized json cutoff authorized fault
    some { s with
      writer := w
      log := match result with
        | .ok .durable | .ok .committedSyncPending =>
          retainedCompactionRecords Prod.fst s.log cutoff w.store.bootId true
        | _ => s.log }

/-! ### The file holds the log -/

omit [DecidableEq V] in
/-- How the file holds the log: lines from before the writer, its boot record (blanks of an unterminated line
may precede it), one line for each later record, and a torn line. A scan that comes to the boot record has
committed the log up to there. -/
structure Layout (json : SerdeJson V) (bytes : List UInt8) (log : List (Record V)) (bootId : String) where
  base : List (List UInt8)
  blank : List UInt8
  line : List UInt8
  lines : List (List UInt8)
  torn : List UInt8
  older : List (Record V)
  boot : BootRecord
  rest : List (Record V)
  log_eq : log = older ++ .boot boot :: rest
  bytes_eq : bytes = joinLines 10 (base ++ (blank ++ line) :: lines) ++ torn
  baseLines : ∀ l ∈ base, 10 ∉ l
  blankLine : 10 ∉ blank
  bootLine : LineOf json blank (.boot boot) line
  restLines : Encodes json rest lines
  tornLine : 10 ∉ torn
  bootId_eq : boot.bootId = bootId
  live : ∀ r ∈ rest, r.isBoot = false ∧ r.bootId = bootId
  inOrder : InOrder (.boot boot :: rest)
  scanned : ∃ s s', scanLines json {} base = .ok s ∧ s.line json (blank ++ line) = .ok s' ∧ s'.replay.records = older

/-- The record to append is written as one line, which reads back with rounded numbers. -/
def Readable (json : SerdeJson V) (s : State V) : Op V → Prop
  | .appendSample timestamp capacity state _ => json.Rounds (nextRecord s.writer timestamp capacity (some state))
  | .checkpoint timestamp capacity _ => json.Rounds (nextRecord s.writer timestamp capacity none)
  | .compact _ _ _ => True

/-- No compaction with the cutoff `u64::MAX` meets a gap that is still open. -/
def Closed (json : SerdeJson V) (s : State V) : Op V → Prop
  | .compact cutoff _ _ => cutoff < maxU64 ∨ ∀ replay, validateCanonical json s.bytes = .ok replay → ¬ replay.HasOpenGap
  | _ => True

structure Inv (json : SerdeJson V) (s : State V) : Prop where
  canonical : s.writer.disk.canonical = s.writer.store.file
  exists_file : s.writer.store.file < s.writer.disk.files.length
  failed : s.failed = true → s.writer.store.poisoned = true
  layout : ∃ l : Layout json s.bytes (s.log.map Prod.fst) s.writer.store.bootId,
    s.writer.store.poisoned = false → l.torn = [] ∧
      s.writer.store.lastTimestamp = some ((l.rest.getLast?.map Record.timestamp).getD l.boot.timestamp)

end

/-! ### What a scan finds -/

section
variable {V : Type} [F64 V] {json : SerdeJson V}

/-- A scan of a file that ends with a live epoch, if it leaves no gap open, has committed what it had when it
came to the boot record, and the whole live epoch. -/
theorem scan_file {base lines : List (List UInt8)} {blank line torn : List UInt8} {boot : BootRecord}
    {rest : List (Record V)} {replay : Replay V} (hbase : ∀ l ∈ base, 10 ∉ l) (hblank : 10 ∉ blank)
    (hline : LineOf json blank (.boot boot) line) (hlines : Encodes json rest lines) (htorn : 10 ∉ torn)
    (hlive : ∀ r ∈ rest, r.isBoot = false ∧ r.bootId = boot.bootId) (hord : InOrder (.boot boot :: rest))
    (hscan : validateCanonical json (joinLines 10 (base ++ (blank ++ line) :: lines) ++ torn) = .ok replay)
    (hgap : ¬ replay.HasOpenGap) :
    ∃ s s', scanLines json {} base = .ok s ∧ s.line json (blank ++ line) = .ok s' ∧ torn = [] ∧ rest ≠ [] ∧
      replay.records = s'.replay.records ++ .boot boot :: rest := by
  have hnot : ∀ l ∈ base ++ (blank ++ line) :: lines, 10 ∉ l := by
    intro l hl
    rcases List.mem_append.1 hl with hl | hl
    · exact hbase l hl
    rcases List.mem_cons.1 hl with rfl | hl
    · exact fun h => (List.mem_append.1 h).elim hblank hline.oneLine
    · exact hlines.not_mem l hl
  obtain ⟨t, t', ht, htr, hfin⟩ := validateCanonical_eq_ok.1 hscan
  rw [splitLines_file hnot htorn] at ht htr
  obtain ⟨s, hs, ht⟩ := scanLines_append_eq_ok.1 ht
  obtain ⟨s', hs', ht⟩ := scanLines_cons_eq_ok.1 ht
  obtain ⟨u, hu, htracks⟩ := Scanner.line_boot hline s
  obtain rfl : s' = u := Except.ok.inj (hs'.symm.trans hu)
  obtain ⟨v, hv, htracks⟩ := htracks.lines hlive hord hlines
  obtain rfl : t = v := Except.ok.inj (ht.symm.trans hv)
  obtain ⟨rfl, hne, hrecords⟩ := htracks.finish htr hfin hgap
  exact ⟨s, s', hs, hs', rfl, hne, hrecords⟩

/-- A scan that leaves no gap open has committed the log, and nothing is torn. -/
theorem Layout.scan {bytes : List UInt8} {log : List (Record V)} {bootId : String} {replay : Replay V}
    (l : Layout json bytes log bootId) (hscan : validateCanonical json bytes = .ok replay)
    (hgap : ¬ replay.HasOpenGap) : l.torn = [] ∧ l.rest ≠ [] ∧ replay.records = log := by
  have hlive : ∀ r ∈ l.rest, r.isBoot = false ∧ r.bootId = l.boot.bootId := fun r hr =>
    ⟨(l.live r hr).1, (l.live r hr).2.trans l.bootId_eq.symm⟩
  rw [l.bytes_eq] at hscan
  obtain ⟨s, s', hs, hs', htorn, hne, hrecords⟩ :=
    scan_file l.baseLines l.blankLine l.bootLine l.restLines l.tornLine hlive l.inOrder hscan hgap
  obtain ⟨t, t', ht, ht', holder⟩ := l.scanned
  obtain rfl : s = t := Except.ok.inj (hs.symm.trans ht)
  obtain rfl : s' = t' := Except.ok.inj (hs'.symm.trans ht')
  rw [holder] at hrecords
  exact ⟨htorn, hne, hrecords.trans l.log_eq.symm⟩

/-- Of the live epoch a compaction keeps the boot record, and some of what follows it. -/
theorem Layout.retained {bytes : List UInt8} {log : List (Record V)} {bootId : String} {replay : Replay V}
    (l : Layout json bytes log bootId) (hscan : validateCanonical json bytes = .ok replay)
    (hgap : ¬ replay.HasOpenGap) (cutoff : Nat) : ∃ rest, rest.Sublist l.rest ∧
      retainedCompactionRecords id replay.records cutoff bootId true =
        retainedCompactionRecords id l.older cutoff bootId true ++ .boot l.boot :: rest := by
  obtain ⟨-, -, hrecords⟩ := l.scan hscan hgap
  obtain ⟨rest, hsub, hlive⟩ := @retained_live V (Record V) id (.boot l.boot) l.rest bootId
    (fun r hr => (l.live r hr).1) rfl l.bootId_eq cutoff
  exact ⟨rest, hsub, by rw [hrecords.trans l.log_eq, retained_append (by rfl), hlive]⟩

/-! ### Appends -/

/-- A whole line was appended. -/
def Layout.push {bytes line : List UInt8} {log : List (Record V)} {bootId : String} {r : Record V}
    (l : Layout json bytes log bootId) (htorn : l.torn = []) (hline : LineOf json [] r line)
    (hr : r.isBoot = false ∧ r.bootId = bootId)
    (hlast : (l.rest.getLast?.map Record.timestamp).getD l.boot.timestamp ≤ r.timestamp) :
    Layout json (bytes ++ (line ++ [10])) (log ++ [r]) bootId :=
  { l with
    lines := l.lines ++ [line]
    torn := []
    rest := l.rest ++ [r]
    log_eq := (congrArg (· ++ [r]) l.log_eq).trans (List.append_assoc ..)
    bytes_eq := by
      refine (congrArg (· ++ (line ++ [10])) l.bytes_eq).trans ?_
      simp [htorn, joinLines_cons]
    restLines := List.rel_append l.restLines (.cons hline .nil)
    tornLine := List.not_mem_nil
    live := fun r' h' => by
      rcases List.mem_append.1 h' with h' | h'
      · exact l.live r' h'
      · rw [List.mem_singleton.1 h']
        exact hr
    inOrder := l.inOrder.snoc hlast }

/-- Part of a line was appended. -/
def Layout.tear {bytes part : List UInt8} {log : List (Record V)} {bootId : String}
    (l : Layout json bytes log bootId) (htorn : l.torn = []) (hpart : 10 ∉ part) :
    Layout json (bytes ++ part) log bootId :=
  { l with
    torn := part
    bytes_eq := by
      refine (congrArg (· ++ part) l.bytes_eq).trans ?_
      rw [htorn, List.append_nil]
    tornLine := hpart }

variable [DecidableEq V]

omit [DecidableEq V] in
theorem Inv.of_layout {s : State V} {bytes : List UInt8} {log : List (Record V)} (hbytes : s.bytes = bytes)
    (hlog : s.log.map Prod.fst = log) (canonical : s.writer.disk.canonical = s.writer.store.file)
    (exists_file : s.writer.store.file < s.writer.disk.files.length)
    (failed : s.failed = true → s.writer.store.poisoned = true)
    (l : Layout json bytes log s.writer.store.bootId)
    (h : s.writer.store.poisoned = false → l.torn = [] ∧
      s.writer.store.lastTimestamp = some ((l.rest.getLast?.map Record.timestamp).getD l.boot.timestamp)) :
    Inv json s := by
  subst hbytes hlog
  exact ⟨canonical, exists_file, failed, l, h⟩

omit [DecidableEq V] in
theorem Inv.write {s : State V} (h : Inv json s) (hp : s.writer.store.poisoned = false) {r : Record V}
    (hk : json.Rounds r) (hr : r.isBoot = false ∧ r.bootId = s.writer.store.bootId)
    (lastState : Option (List (StateEntry V))) (fault : Option Nat) :
    Inv json (s.appended json r fault (s.writer.write json r lastState fault)) := by
  obtain ⟨l, hl⟩ := h.layout
  obtain ⟨htorn, hlast⟩ := hl hp
  have hfile : ∀ bytes, s.writer.store.file < (s.writer.disk.append s.writer.store.file bytes).files.length := by
    intro bytes
    rw [Disk.append, List.length_modify]
    exact h.exists_file
  have hbytes : ∀ bytes, (s.writer.disk.append s.writer.store.file bytes).read s.writer.disk.canonical =
      s.bytes ++ bytes := by
    intro bytes
    rw [State.bytes, h.canonical]
    exact Disk.read_append_self h.exists_file bytes
  rw [Writer.write]
  split
  · exact h
  rename_i hregress
  rw [appendRecord]
  cases hencode : encodeRecord json r with
  | error e =>
    refine Inv.of_layout rfl ?_ h.canonical h.exists_file (fun _ => rfl) l fun h' => by cases h'
    simp [State.appended, wholeLine, hencode]
  | ok line =>
    obtain ⟨hline, hround⟩ := lineOf_readBack hk hencode
    obtain ⟨hboot, hid, ht⟩ := hround.header
    rw [← hboot, ← hid] at hr
    rw [hlast] at hregress
    have hle : (l.rest.getLast?.map Record.timestamp).getD l.boot.timestamp ≤ (readBack json r).timestamp := by
      rw [ht]
      simpa using hregress
    cases fault with
    | none =>
      refine Inv.of_layout (hbytes _) List.map_append h.canonical (hfile _) h.failed
        (l.push htorn hline hr hle) fun _ => ⟨rfl, ?_⟩
      simp [Layout.push, State.appended, ht]
    | some written =>
      by_cases hwhole : line.length < written
      · -- the line is there, but not acknowledged
        have htake : (line ++ [10]).take written = line ++ [10] := List.take_of_length_le (by simp; omega)
        refine Inv.of_layout ((hbytes _).trans (congrArg _ htake)) ?_ h.canonical (hfile _) (fun _ => rfl)
          (l.push htorn hline hr hle) fun h' => by cases h'
        simp [State.appended, wholeLine, hencode, hwhole]
      · have htake : (line ++ [10]).take written = line.take written :=
          List.take_append_of_le_length (Nat.le_of_not_lt hwhole)
        refine Inv.of_layout ((hbytes _).trans (congrArg _ htake)) ?_ h.canonical (hfile _) (fun _ => rfl)
          (l.tear htorn fun hmem => hline.oneLine (List.mem_of_mem_take hmem)) fun h' => by cases h'
        simp [State.appended, wholeLine, hencode, hwhole]

theorem Inv.checkpoint {s : State V} (h : Inv json s) {timestamp : Nat} {capacity : Capacity} {fault : Option Nat}
    (hk : json.Rounds (nextRecord s.writer timestamp capacity none)) :
    Inv json (s.appended json (nextRecord s.writer timestamp capacity none) fault
      (s.writer.checkpoint json timestamp capacity fault)) := by
  rw [Writer.checkpoint]
  split
  · exact h
  · rename_i hp
    exact h.write (Bool.eq_false_of_not_eq_true hp) hk (isBoot_nextRecord ..) _ fault

theorem Inv.appendSample {s : State V} (h : Inv json s) {timestamp : Nat} {capacity : Capacity}
    {state : List (StateEntry V)} {fault : Option Nat}
    (hk : json.Rounds (nextRecord s.writer timestamp capacity (some state))) :
    Inv json (s.appended json (nextRecord s.writer timestamp capacity (some state)) fault
      (s.writer.appendSample json timestamp capacity state fault)) := by
  rw [Writer.appendSample]
  split
  · exact h
  rename_i hp
  by_cases hstate : s.writer.store.lastState = some state
  · have hnext : nextRecord s.writer timestamp capacity (some state) = nextRecord s.writer timestamp capacity none := by
      simp [nextRecord, hstate]
    rw [if_pos hstate, hnext]
    exact h.checkpoint (hnext ▸ hk)
  · have hnext : nextRecord s.writer timestamp capacity (some state) =
        .sample ⟨timestamp, s.writer.store.bootId, capacity, state⟩ := by
      simp [nextRecord, hstate]
    rw [if_neg hstate, hnext]
    rw [hnext] at hk
    exact h.write (Bool.eq_false_of_not_eq_true hp) hk ⟨rfl, rfl⟩ _ fault

/-! ### Compactions -/

/-- A committed compaction: the new file holds what it retains of the log. -/
theorem Inv.replace {s : State V} (h : Inv json s) (hone : ∀ raw, 10 ∉ json.toVec raw) {cutoff : Nat}
    {replay replacement : Replay V} {lines : List (List UInt8)}
    (hscan : validateCanonical json s.bytes = .ok replay) (hgap : ¬ replay.HasOpenGap)
    (hencode : encodeRecords json
      (retainedCompactionRecords id replay.records cutoff s.writer.store.bootId true) = .ok lines)
    (hcheck : validateCanonical json (joinLines 10 lines) = .ok replacement)
    (hexact : replacement.isExactly (retainedCompactionRecords id replay.records cutoff s.writer.store.bootId true)) :
    Inv json { s with
      writer := { s.writer with disk := s.writer.disk.create (joinLines 10 lines) }.replace
        s.writer.disk.files.length replacement
      log := retainedCompactionRecords Prod.fst s.log cutoff s.writer.store.bootId true } := by
  obtain ⟨l, -⟩ := h.layout
  obtain ⟨-, -, hrecords⟩ := l.scan hscan hgap
  obtain ⟨rest, hsub, hretained⟩ := l.retained hscan hgap cutoff
  rw [hretained] at hencode hexact
  -- the check of the replacement has read a record from each of its lines
  obtain ⟨base, ls, rfl, hbase, hls⟩ := (encodes_of_isExactly hone hencode hcheck hexact).append
  obtain _ | @⟨_, line, _, ls, hline, hlines⟩ := hls
  have hboot : ∀ r ∈ rest, r.isBoot = false ∧ r.bootId = s.writer.store.bootId := fun r hr =>
    l.live r (hsub.subset hr)
  have hboot' : ∀ r ∈ rest, r.isBoot = false ∧ r.bootId = l.boot.bootId := fun r hr =>
    ⟨(hboot r hr).1, (hboot r hr).2.trans l.bootId_eq.symm⟩
  have hord : InOrder (.boot l.boot :: rest) := List.Pairwise.sublist ((hsub.cons_cons _).map _) l.inOrder
  obtain ⟨hexact, hgaps, -⟩ := isExactly_iff.1 hexact
  have hgap' : ¬ replacement.HasOpenGap := by
    rintro ⟨gap, hmem, -⟩
    rw [hgaps] at hmem
    cases hmem
  obtain ⟨t, t', ht, ht', -, -, holder⟩ := scan_file hbase.not_mem List.not_mem_nil hline hlines
    List.not_mem_nil hboot' hord (by rw [List.append_nil]; exact hcheck) hgap'
  have hlast : replacement.records.getLast?.map Record.timestamp =
      some ((rest.getLast?.map Record.timestamp).getD l.boot.timestamp) := by
    rw [hexact, List.getLast?_append, List.getLast?_cons]
    cases rest.getLast? <;> rfl
  refine Inv.of_layout (Disk.read_create_self ..) ?_ rfl ?_ h.failed
    { base, blank := [], line, lines := ls, torn := [], older := _, boot := l.boot, rest,
      log_eq := hretained
      bytes_eq := (List.append_nil _).symm
      baseLines := hbase.not_mem
      blankLine := List.not_mem_nil
      bootLine := hline
      restLines := hlines
      tornLine := List.not_mem_nil
      bootId_eq := l.bootId_eq
      live := hboot
      inOrder := hord
      scanned := ⟨t, t', ht, ht', List.append_cancel_right (holder.symm.trans hexact)⟩ } fun _ => ⟨rfl, hlast⟩
  · rw [hrecords, retainedCompactionRecords_map]
    rfl
  · simp [Writer.replace, Disk.create]

omit [DecidableEq V] in
/-- A compaction that does not commit leaves the canonical file as it is. -/
theorem Inv.bytes_kept {s : State V} (h : Inv json s) {w : Writer V}
    (hdisk : w.disk = s.writer.disk ∨ ∃ bytes, w.disk = s.writer.disk.create bytes) :
    w.disk.canonical = s.writer.disk.canonical ∧ w.disk.read w.disk.canonical = s.bytes ∧
      s.writer.store.file < w.disk.files.length := by
  have hlt := h.exists_file
  rcases hdisk with hdisk | ⟨bytes, hdisk⟩
  · rw [hdisk]
    exact ⟨rfl, rfl, hlt⟩
  · rw [hdisk]
    refine ⟨rfl, Disk.read_create_of_lt (h.canonical ▸ hlt) bytes, ?_⟩
    rw [Disk.create, List.length_append]
    exact Nat.lt_add_right _ hlt

theorem Inv.compact {s s' : State V} (h : Inv json s) (hone : ∀ raw, 10 ∉ json.toVec raw) {cutoff : Nat}
    {authorized : Bool} {fault : Option CompactionFault} (hclosed : Closed json s (.compact cutoff authorized fault))
    (hs : step json s (.compact cutoff authorized fault) = some s') : Inv json s' := by
  rw [step] at hs
  have hcases := compactIfAuthorized_cases json s.writer cutoff authorized fault
  generalize s.writer.compactIfAuthorized json cutoff authorized fault = p at hs hcases
  cases hcases with
  | @kept w result store disk uncommitted =>
    obtain ⟨hcanonical, hbytes, hfile⟩ := h.bytes_kept disk
    obtain ⟨l, hl⟩ := h.layout
    obtain ⟨d, st⟩ := w
    obtain rfl : st = s.writer.store := store
    have hkept : Inv json { s with writer := ⟨d, s.writer.store⟩ } :=
      Inv.of_layout hbytes rfl (hcanonical.trans h.canonical) hfile h.failed l hl
    cases result with
    | error e =>
      obtain rfl := Option.some.inj hs
      exact hkept
    | ok outcome =>
      cases outcome with
      | durable => exact absurd rfl uncommitted.1
      | committedSyncPending => exact absurd rfl uncommitted.2
      | deferred | superseded =>
        obtain rfl := Option.some.inj hs
        exact hkept
  | @replaced replay replacement lines result scan gaps usable encode check exact granted committed =>
    have hgap : ¬ replay.HasOpenGap := by
      rcases hclosed with hlt | hclosed
      · rintro ⟨gap, hmem, hopen⟩
        have := gaps gap hmem
        omega
      · exact hclosed replay scan
    have hinv := h.replace hone scan hgap encode check exact
    rcases committed with rfl | rfl
    · obtain rfl := Option.some.inj hs
      exact hinv
    · obtain rfl := Option.some.inj hs
      exact hinv

theorem step_inv (hone : ∀ raw, 10 ∉ json.toVec raw) {s s' : State V} {op : Op V} (h : Inv json s)
    (hop : Readable json s op ∧ Closed json s op) (hs : step json s op = some s') : Inv json s' := by
  cases op with
  | appendSample timestamp capacity state fault =>
    obtain rfl := Option.some.inj hs
    exact h.appendSample hop.1
  | checkpoint timestamp capacity fault =>
    obtain rfl := Option.some.inj hs
    exact h.checkpoint hop.1
  | compact cutoff authorized fault => exact h.compact hone hop.2 hs

/-! ### A freshly opened store -/

omit [DecidableEq V] in
/-- The blanks at the end of the file that no separator follows. -/
def leadingBlanks (json : SerdeJson V) (file : Option (List UInt8)) : List UInt8 :=
  match file with
  | none => []
  | some bytes =>
    match validateCanonical json bytes with
    | .ok replay => if replay.needsSeparator then [] else (splitLines 10 bytes).2
    | .error _ => []

omit [DecidableEq V] in
theorem start_inv_of {w : Writer V} {boot : BootRecord} {line : List UInt8} {s : Scanner V}
    (base : List (List UInt8)) (blank : List UInt8)
    (hdisk : w.disk = ⟨[joinLines 10 (base ++ [blank ++ line])], 0⟩) (hfile : w.store.file = 0)
    (hid : w.store.bootId = boot.bootId) (hlast : w.store.lastTimestamp = some boot.timestamp)
    (hbase : ∀ l ∈ base, 10 ∉ l) (hscan : scanLines json {} base = .ok s) (hblank : 10 ∉ blank)
    (hline : LineOf json blank (.boot boot) line) : Inv json (start json w boot) := by
  obtain ⟨s', hs', -⟩ := Scanner.line_boot hline s
  have hbytes : w.disk.read w.disk.canonical = joinLines 10 (base ++ [blank ++ line]) := by
    rw [hdisk]
    rfl
  have hnot : ∀ l ∈ base ++ [blank ++ line], 10 ∉ l := by
    intro l hl
    rcases List.mem_append.1 hl with hl | hl
    · exact hbase l hl
    · rw [List.mem_singleton.1 hl]
      exact fun h => (List.mem_append.1 h).elim hblank hline.oneLine
  have hsplit : splitLines 10 (w.disk.read w.disk.canonical) = (base ++ [blank ++ line], []) := by
    rw [hbytes, ← List.append_nil (joinLines _ _)]
    exact splitLines_file hnot List.not_mem_nil
  have hscan' : scanLines json {} (base ++ [blank ++ line]) = .ok s' :=
    scanLines_append_eq_ok.2 ⟨s, hscan, scanLines_cons_eq_ok.2 ⟨s', hs', rfl⟩⟩
  have hlog : (start json w boot).log.map Prod.fst = s'.replay.records ++ [.boot boot] := by
    rw [start, hsplit]
    simp [hscan', Function.comp_def]
  refine Inv.of_layout hbytes hlog ?_ ?_ nofun
    { base, blank, line, lines := [], torn := [], older := _, boot, rest := [],
      log_eq := rfl
      bytes_eq := (List.append_nil _).symm
      baseLines := hbase
      blankLine := hblank
      bootLine := hline
      restLines := .nil
      tornLine := List.not_mem_nil
      bootId_eq := hid.symm
      live := nofun
      inOrder := List.pairwise_singleton _ _
      scanned := ⟨s, s', hscan, hs', rfl⟩ } fun _ => ⟨rfl, hlast⟩
  · show w.disk.canonical = w.store.file
    rw [hdisk, hfile]
  · show w.store.file < w.disk.files.length
    rw [hdisk, hfile]
    exact Nat.one_pos

omit [DecidableEq V] in
theorem start_inv {file : Option (List UInt8)} {boot : BootRecord} {w : Writer V}
    (hopen : openStore json file boot = .ok w) (hboot : json.Keeps (leadingBlanks json file) (.boot boot)) :
    Inv json (start json w boot) := by
  cases file with
  | none =>
    rw [openStore, openFirst] at hopen
    cases hline : encodeRecord json (.boot boot) with
    | error e => rw [hline] at hopen; cases hopen
    | ok line =>
      rw [hline] at hopen
      cases hopen
      exact start_inv_of [] [] (by simp [joinLines_cons]) rfl rfl rfl nofun rfl List.not_mem_nil
        (lineOf_encode hboot hline)
  | some bytes =>
    rw [openStore, openExisting] at hopen
    obtain ⟨replay, hreplay, hopen⟩ := bind_eq_ok.1 hopen
    split at hopen
    · cases hopen
    cases hline : encodeRecord json (.boot boot) with
    | error e => rw [hline] at hopen; cases hopen
    | ok line =>
      rw [hline] at hopen
      cases hopen
      obtain ⟨s, s', hs, hrest, -⟩ := validateCanonical_eq_ok.1 hreplay
      obtain ⟨hlines, htail⟩ := not_mem_splitLines (d := 10) bytes
      have hbytes : bytes = joinLines 10 (splitLines 10 bytes).1 ++ (splitLines 10 bytes).2 :=
        (joinLines_splitLines bytes).symm
      simp only [leadingBlanks, hreplay] at hboot
      cases hsep : replay.needsSeparator with
      | true =>
        -- the unterminated line becomes a line of its own
        rw [hsep, if_pos rfl] at hboot
        obtain ⟨t, ht⟩ := Scanner.line_of_rest hrest
        refine start_inv_of ((splitLines 10 bytes).1 ++ [(splitLines 10 bytes).2]) [] ?_ rfl rfl rfl ?_
          (scanLines_append_eq_ok.2 ⟨s, hs, scanLines_cons_eq_ok.2 ⟨t, ht, rfl⟩⟩) List.not_mem_nil
          (lineOf_encode hboot hline)
        · conv_lhs => rw [hbytes]
          simp [joinLines_cons]
        · intro l hl
          rcases List.mem_append.1 hl with hl | hl
          · exact hlines l hl
          · rw [List.mem_singleton.1 hl]
            exact htail
      | false =>
        rw [hsep, if_neg Bool.false_ne_true] at hboot
        refine start_inv_of _ _ ?_ rfl rfl rfl hlines hs htail (lineOf_encode hboot hline)
        conv_lhs => rw [hbytes]
        simp [joinLines_cons]

/-- In every run whose compactions do not meet an open gap with the cutoff `u64::MAX`: the canonical path names
the file the writer appends to, this file holds the log (and a scan that leaves no gap open reads exactly it), a
compaction that fails, defers or is superseded changes neither the file nor the store, and after a failed append
nothing is acknowledged. -/
theorem acknowledged_kept (hone : ∀ raw, 10 ∉ json.toVec raw) {file : Option (List UInt8)} {boot : BootRecord}
    {w : Writer V} (hopen : openStore json file boot = .ok w)
    (hboot : json.Keeps (leadingBlanks json file) (.boot boot)) {ops : List (Op V)} {s : State V}
    (hmeets : Meets (step json) (fun s op => Readable json s op ∧ Closed json s op) (start json w boot) ops)
    (hs : exec (step json) (start json w boot) ops = some s) :
    s.writer.disk.canonical = s.writer.store.file ∧
    Nonempty (Layout json s.bytes (s.log.map Prod.fst) s.writer.store.bootId) ∧
    (∀ replay, validateCanonical json s.bytes = .ok replay → ¬ replay.HasOpenGap →
      replay.records = s.log.map Prod.fst) ∧
    (∀ cutoff authorized fault w' result,
      s.writer.compactIfAuthorized json cutoff authorized fault = (w', result) →
      result ≠ .ok .durable → result ≠ .ok .committedSyncPending →
      w'.store = s.writer.store ∧ w'.disk.canonical = s.writer.disk.canonical ∧
        w'.disk.read w'.disk.canonical = s.bytes) ∧
    (s.failed = true → ∀ timestamp capacity state fault,
      s.writer.appendSample json timestamp capacity state fault = (s.writer, .error .poisoned) ∧
        s.writer.checkpoint json timestamp capacity fault = (s.writer, .error .poisoned)) := by
  have h : Inv json s :=
    exec_invariant_of_meets (fun s op s' hs hop hstep => step_inv hone hs hop hstep)
      (start_inv hopen hboot) hmeets hs
  obtain ⟨l, -⟩ := h.layout
  refine ⟨h.canonical, ⟨l⟩, fun replay hscan hgap => (l.scan hscan hgap).2.2, ?_, ?_⟩
  · intro cutoff authorized fault w' result hcompact hd hc
    have hcases := compactIfAuthorized_cases json s.writer cutoff authorized fault
    rw [hcompact] at hcases
    cases hcases with
    | kept store disk uncommitted =>
      obtain ⟨hcanonical, hbytes, -⟩ := h.bytes_kept disk
      exact ⟨store, hcanonical, hbytes⟩
    | replaced scan gaps usable encode check exact granted committed =>
      rcases committed with hres | hres
      · exact absurd hres hd
      · exact absurd hres hc
  · intro hfailed timestamp capacity state fault
    have hp := h.failed hfailed
    constructor
    · rw [Writer.appendSample, if_pos hp]
    · rw [Writer.checkpoint, if_pos hp]

end

/-! ### Runs -/

instance {V : Type} (replay : Replay V) : Decidable replay.HasOpenGap :=
  inferInstanceAs (Decidable (∃ gap ∈ replay.gaps, gap.«to» = maxU64))

instance {V : Type} [F64 V] [DecidableEq V] (json : SerdeJson V) (s : State V) : DecidablePred (Readable json s)
  | .appendSample _ _ _ _ => inferInstanceAs (Decidable (json.Rounds _))
  | .checkpoint _ _ _ => inferInstanceAs (Decidable (json.Rounds _))
  | .compact _ _ _ => isTrue trivial

instance {V : Type} [F64 V] (json : SerdeJson V) (s : State V) : DecidablePred (Closed json s)
  | .appendSample _ _ _ _ => isTrue trivial
  | .checkpoint _ _ _ => isTrue trivial
  | .compact cutoff _ _ =>
    if hlt : cutoff < maxU64 then isTrue (.inl hlt)
    else
      match h : validateCanonical json s.bytes with
      | .ok replay => decidable_of_iff (¬ replay.HasOpenGap)
          ⟨fun hgap => .inr fun _ h' => Except.ok.inj (h.symm.trans h') ▸ hgap,
            fun hclosed => (hclosed.resolve_left hlt) replay h⟩
      | .error _ => isTrue (.inr fun _ h' => nomatch h.symm.trans h')

def capacity40 : Capacity := ⟨40, 1, [40]⟩

/-- The objects of two processes at one time. -/
def objectsAt (t : Nat) : List (RawRecord ℚ) :=
  ["a", "b"].flatMap fun bootId =>
    [⟨format, version, "boot", t, bootId, capacity40, .missing⟩,
      ⟨format, version, "sample", t, bootId, capacity40, .entries []⟩,
      ⟨format, version, "checkpoint", t, bootId, capacity40, .missing⟩]

/-- A sample, a compaction, and an append that fails in the middle of its line. -/
def tornRun : List (Op ℚ) :=
  [.appendSample 7 capacity40 [] none, .compact 7 true none, .appendSample 7 capacity40 [] (some 20)]

theorem acknowledged_kept_torn :
    ∃ w s, openStore (.table (objectsAt 7)) none ⟨7, "b", capacity40⟩ = .ok w ∧
      exec (step (.table (objectsAt 7))) (start (.table (objectsAt 7)) w ⟨7, "b", capacity40⟩) tornRun = some s ∧
      s.log.length = 2 ∧ Nonempty (Layout (.table (objectsAt 7)) s.bytes (s.log.map Prod.fst) s.writer.store.bootId) ∧
      ∀ state, s.writer.appendSample (.table (objectsAt 7)) 8 capacity40 state none =
        (s.writer, .error .poisoned) := by
  have hrun : (openStore (.table (objectsAt 7)) none ⟨7, "b", capacity40⟩).toOption.any (fun w => decide (
      Meets (step (.table (objectsAt 7)))
        (fun s op => Readable (.table (objectsAt 7)) s op ∧ Closed (.table (objectsAt 7)) s op)
        (start (.table (objectsAt 7)) w ⟨7, "b", capacity40⟩) tornRun ∧
      (exec (step (.table (objectsAt 7))) (start (.table (objectsAt 7)) w ⟨7, "b", capacity40⟩) tornRun).map
        (fun s => (s.failed, s.log.length)) = some (true, 2))) = true := by decide +kernel
  obtain ⟨w, hopen, hrun⟩ := (Option.any_eq_true ..).1 hrun
  obtain ⟨hmeets, hrun⟩ := of_decide_eq_true hrun
  obtain ⟨s, hs, hrun⟩ := Option.map_eq_some_iff.1 hrun
  obtain ⟨hfailed, hlog⟩ := Prod.mk.inj hrun
  have hopen := toOption_eq_some hopen
  obtain ⟨-, hlayout, -, -, hpoisoned⟩ := acknowledged_kept (SerdeJson.oneLine_table (by decide +kernel)) hopen
    (by decide +kernel) hmeets hs
  exact ⟨w, s, hopen, hs, hlog, hlayout, fun state => (hpoisoned hfailed 8 capacity40 state none).1⟩

/-- The file of an earlier process whose last line is at `u64::MAX`. -/
def lastMoment : List UInt8 :=
  joinLines 10 [RawRecord.text ⟨format, version, "boot", maxU64, "a", capacity40, .missing⟩ |>.toUTF8.data.toList,
    RawRecord.text ⟨format, version, "sample", maxU64, "a", capacity40, .entries []⟩ |>.toUTF8.data.toList]

/-- The checkpoint before the first sample leaves a gap open, which the compaction takes for a closed one. -/
def openGapRun : List (Op ℚ) :=
  [.checkpoint maxU64 capacity40 none, .appendSample maxU64 capacity40 [] none, .compact maxU64 true none]

/-- The acknowledged sample is at the cutoff, and its line is gone. -/
theorem not_acknowledged_kept_openGap :
    ∃ w s line, openStore (.table (objectsAt maxU64)) (some lastMoment) ⟨maxU64, "b", capacity40⟩ = .ok w ∧
      exec (step (.table (objectsAt maxU64))) (start (.table (objectsAt maxU64)) w ⟨maxU64, "b", capacity40⟩)
        openGapRun = some s ∧
      (.sample ⟨maxU64, "b", capacity40, []⟩, true) ∈ s.log ∧
      encodeRecord (.table (objectsAt maxU64)) (.sample ⟨maxU64, "b", capacity40, []⟩) = .ok line ∧
      line ∉ (splitLines 10 s.bytes).1 := by
  have hrun : (openStore (.table (objectsAt maxU64)) (some lastMoment) ⟨maxU64, "b", capacity40⟩).toOption.any
      (fun w => (exec (step (.table (objectsAt maxU64)))
        (start (.table (objectsAt maxU64)) w ⟨maxU64, "b", capacity40⟩) openGapRun).any fun s =>
          decide ((.sample ⟨maxU64, "b", capacity40, []⟩, true) ∈ s.log ∧ s.bytes = lastMoment)) = true := by
    decide +kernel
  have hline : ((encodeRecord (.table (objectsAt maxU64)) (.sample ⟨maxU64, "b", capacity40, []⟩)).toOption.any
      fun line => decide (line ∉ (splitLines 10 lastMoment).1)) = true := by decide +kernel
  obtain ⟨w, hopen, hrun⟩ := (Option.any_eq_true ..).1 hrun
  obtain ⟨s, hs, hrun⟩ := (Option.any_eq_true ..).1 hrun
  obtain ⟨hmem, hbytes⟩ := of_decide_eq_true hrun
  obtain ⟨line, hencode, hline⟩ := (Option.any_eq_true ..).1 hline
  rw [← hbytes] at hline
  exact ⟨w, s, line, toOption_eq_some hopen, hs, hmem, toOption_eq_some hencode, of_decide_eq_true hline⟩

end OpenProxy.Durability
