import OpenProxy.AppState
import OpenProxy.Lib.Transition

/-!
# The configuration on disk (`load`, `save` of `config.rs`)

A save writes the configuration to a temporary file and renames it over the stored one. Each of its steps may fail, the
process may die between any two of them and in the middle of the write, and whatever is left of the temporary file is
there when the next save or load begins. The stored file changes in the rename only.
-/

namespace OpenProxy.Persist

open Transition

/-! ### Files -/

abbrev Files := String → Option (List UInt8)

def storeName : String := "config.json"

def tmpName : String := "config.json.tmp"

theorem tmpName_ne_storeName : storeName ≠ tmpName := by decide

/-- `serde_json::from_str` and `to_vec_pretty` of a stored configuration. -/
structure SerdeConfig where
  fromStr : String → Except String StoredConfig
  toVecPretty : StoredConfig → List UInt8

section
variable (json : SerdeConfig) (path : String)

/-- What is written for a configuration is text that reads back as it. -/
def SerdeConfig.Reads (sc : StoredConfig) : Prop :=
  ∃ raw, String.fromUTF8? ⟨(json.toVecPretty sc).toArray⟩ = some raw ∧ json.fromStr raw = .ok sc

/-- `load` once the temporary file is out of the way. -/
def readStore (files : Files) : Except String (Option StoredConfig) :=
  match files storeName with
  | none => AppState.load path none
  | some bytes =>
    match String.fromUTF8? ⟨bytes.toArray⟩ with
    | none => .error s!"cannot read {path}: stream did not contain valid UTF-8"
    | some raw =>
      match json.fromStr raw with
      | .error e => .error (s!"{path} is corrupt ({e}); restore it from backup, " ++
          "or delete it to re-run first-time setup (this discards all settings and keys)")
      | .ok sc => AppState.load path (some sc)

/-- A load drops the temporary file, if it can. -/
def dropTmp (removed : Bool) (files : Files) : Files := if removed then Function.update files tmpName none else files

def load (removed : Bool) (files : Files) : Files × Except String (Option StoredConfig) :=
  (dropTmp removed files, readStore json path (dropTmp removed files))

/-! ### Saving -/

/-- The step of a save that comes next. -/
inductive SavePc where
  | createDir
  | removeTmp
  | openTmp
  /-- `write_all`, with the number of bytes that are in the file. -/
  | write (written : Nat)
  | syncFile
  | rename
  | syncDir

structure State where
  files : Files
  /-- The save that is under way; the store lock admits one at a time. -/
  saving : Option (StoredConfig × SavePc) := none
  /-- The saves that ended, and whether they returned `Ok`. -/
  ended : List (StoredConfig × Bool) := []

inductive Op where
  | save (sc : StoredConfig)
  /-- The next step of the save succeeds; of a write, `n + 1` more bytes. -/
  | proceed (n : Nat)
  | fail
  | die
  /-- The process starts again; the temporary file can be removed or not. -/
  | load (removed : Bool)

def State.goto (s : State) (sc : StoredConfig) (pc : SavePc) (files : Files) : State :=
  { s with files := files, saving := some (sc, pc) }

def State.finish (s : State) (sc : StoredConfig) (ok : Bool) : State :=
  { s with saving := none, ended := s.ended ++ [(sc, ok)] }

/-- The next step of a save succeeds. An existing file is not created anew, and a missing one is not renamed. -/
def proceed (s : State) (sc : StoredConfig) (n : Nat) : SavePc → Option State
  | .createDir => some (s.goto sc .removeTmp s.files)
  | .removeTmp => some (s.goto sc .openTmp (Function.update s.files tmpName none))
  | .openTmp =>
    match s.files tmpName with
    | none => some (s.goto sc (.write 0) (Function.update s.files tmpName (some [])))
    | some _ => none
  | .write written =>
    if (json.toVecPretty sc).length ≤ written then some (s.goto sc .syncFile s.files)
    else some (s.goto sc (.write (written + n + 1))
      (Function.update s.files tmpName (some ((json.toVecPretty sc).take (written + n + 1)))))
  | .syncFile => some (s.goto sc .rename s.files)
  | .rename =>
    match s.files tmpName with
    | none => none
    | some bytes =>
      some (s.goto sc .syncDir (Function.update (Function.update s.files storeName (some bytes)) tmpName none))
  | .syncDir => some (s.finish sc true)

/-- The next step of a save fails. The first removal and the last sync may. -/
def fail (s : State) (sc : StoredConfig) : SavePc → State
  | .removeTmp => s.goto sc .openTmp s.files
  | .syncDir => s.finish sc true
  | .createDir | .openTmp | .write _ | .syncFile | .rename => s.finish sc false

def step (s : State) (op : Op) : Option State :=
  match s.saving, op with
  | none, .save sc => some { s with saving := some (sc, .createDir) }
  | none, .load removed => some { s with files := dropTmp removed s.files }
  | none, .die => some s
  | some (sc, pc), .proceed n => proceed json s sc n pc
  | some (sc, pc), .fail => some (fail s sc pc)
  | some (sc, _), .die => some (s.finish sc false)
  | _, _ => none

end

/-! ### What a load may find -/

/-- The saves so far; one that is under way has not returned `Ok`. -/
def State.attempts (s : State) : List (StoredConfig × Bool) := s.ended ++ (s.saving.map fun p => (p.1, false)).toList

/-- The results that a load may have: a save that returned `Ok` leaves its own configuration, and another one may have
left it. -/
def outcomes (start : Except String (Option StoredConfig)) (attempts : List (StoredConfig × Bool)) :
    List (Except String (Option StoredConfig)) :=
  attempts.foldl (fun rs a => if a.2 then [.ok (some a.1)] else .ok (some a.1) :: rs) [start]

variable {start r : Except String (Option StoredConfig)} {attempts : List (StoredConfig × Bool)} {sc : StoredConfig}

theorem outcomes_concat (a : StoredConfig × Bool) :
    outcomes start (attempts ++ [a]) =
      if a.2 then [.ok (some a.1)] else .ok (some a.1) :: outcomes start attempts := by
  rw [outcomes, List.foldl_append]
  rfl

theorem mem_outcomes_tried (h : r ∈ outcomes start attempts) : r ∈ outcomes start (attempts ++ [(sc, false)]) := by
  rw [outcomes_concat, if_neg Bool.false_ne_true]
  exact List.mem_cons_of_mem _ h

theorem mem_outcomes_new (ok : Bool) : .ok (some sc) ∈ outcomes start (attempts ++ [(sc, ok)]) := by
  rw [outcomes_concat]
  cases ok <;> simp

/-- Where all saves are of one configuration, a load finds that one or what was there. -/
theorem eq_of_mem_outcomes (hsame : ∀ a ∈ attempts, a.1 = sc) (h : r ∈ outcomes start attempts) :
    (r = start ∧ ∀ a ∈ attempts, a.2 = false) ∨ r = .ok (some sc) := by
  induction attempts using List.reverseRecOn with
  | nil => exact .inl ⟨List.mem_singleton.1 h, by simp⟩
  | append_singleton attempts a ih =>
    rw [outcomes_concat, hsame a (by simp)] at h
    split at h
    · exact .inr (List.mem_singleton.1 h)
    · rename_i hok
      rcases List.mem_cons.1 h with h | h
      · exact .inr h
      · rcases ih (fun b hb => hsame b (List.mem_append_left _ hb)) h with ⟨hr, hall⟩ | hr
        · refine .inl ⟨hr, fun b hb => ?_⟩
          rcases List.mem_append.1 hb with hb | hb
          · exact hall b hb
          · rw [List.mem_singleton.1 hb]
            simpa using hok
        · exact .inr hr

/-! ### The stored file -/

section
variable {json : SerdeConfig} {path : String} {files : Files} {s s' : State} {pc : SavePc}

theorem readStore_congr {files' : Files} (h : files' storeName = files storeName) :
    readStore json path files' = readStore json path files := by
  rw [readStore, readStore, h]

theorem readStore_updateTmp (bytes : Option (List UInt8)) :
    readStore json path (Function.update files tmpName bytes) = readStore json path files :=
  readStore_congr (Function.update_of_ne tmpName_ne_storeName _ _)

theorem readStore_dropTmp (removed : Bool) : readStore json path (dropTmp removed files) = readStore json path files := by
  cases removed
  · rfl
  · exact readStore_updateTmp none

theorem load_of_validate (h : sc.validate = .ok ()) : AppState.load path (some sc) = .ok (some sc) := by
  have hversion : sc.version = 1 := by
    simp only [StoredConfig.validate, StoredConfig.validateServer, bind_eq_ok, ensure_eq_ok] at h
    obtain ⟨_, ⟨_, hversion, -⟩, -⟩ := h
    simpa using hversion
  simp only [AppState.load, ensure, hversion, h]
  rfl

theorem readStore_written (hreads : json.Reads sc) (hvalid : sc.validate = .ok ())
    (h : files storeName = some (json.toVecPretty sc)) : readStore json path files = .ok (some sc) := by
  obtain ⟨raw, hraw, hsc⟩ := hreads
  simp only [readStore, h, hraw, hsc, load_of_validate hvalid]

/-! ### The invariant -/

/-- How far the save has come. -/
def Progress (json : SerdeConfig) (path : String) (files : Files) (sc : StoredConfig) : SavePc → Prop
  | .createDir | .removeTmp | .openTmp => True
  | .write written => files tmpName = some ((json.toVecPretty sc).take written)
  | .syncFile | .rename => files tmpName = some (json.toVecPretty sc)
  | .syncDir => readStore json path files = .ok (some sc)

structure Inv (json : SerdeConfig) (path : String) (start : Except String (Option StoredConfig)) (s : State) : Prop where
  store : readStore json path s.files ∈ outcomes start s.attempts
  progress : ∀ sc pc, s.saving = some (sc, pc) →
    json.Reads sc ∧ sc.validate = .ok () ∧ Progress json path s.files sc pc

theorem attempts_saving (h : s.saving = some (sc, pc)) : s.attempts = s.ended ++ [(sc, false)] := by
  rw [State.attempts, h]
  rfl

theorem attempts_goto (files : Files) (sc : StoredConfig) (pc : SavePc) :
    (s.goto sc pc files).attempts = s.ended ++ [(sc, false)] := rfl

theorem attempts_finish (sc : StoredConfig) (ok : Bool) : (s.finish sc ok).attempts = s.ended ++ [(sc, ok)] := by
  rw [State.attempts, State.finish]
  exact List.append_nil _

namespace Inv

theorem goto (h : Inv json path start s) (hs : s.saving = some (sc, pc)) {files : Files} {pc' : SavePc}
    (hstore : readStore json path files = readStore json path s.files ∨ readStore json path files = .ok (some sc))
    (hprogress : Progress json path files sc pc') : Inv json path start (s.goto sc pc' files) where
  store := by
    show readStore json path files ∈ _
    rw [attempts_goto]
    rcases hstore with hstore | hstore
    · rw [hstore, ← attempts_saving hs]
      exact h.store
    · rw [hstore]
      exact mem_outcomes_new false
  progress sc' pc'' h' := by
    cases h'
    obtain ⟨hreads, hvalid, -⟩ := h.progress sc pc hs
    exact ⟨hreads, hvalid, hprogress⟩

/-- A save that stops short. -/
theorem stop (h : Inv json path start s) (hs : s.saving = some (sc, pc)) : Inv json path start (s.finish sc false) where
  store := by
    rw [attempts_finish, ← attempts_saving hs]
    exact h.store
  progress sc' pc' h' := by cases h'

theorem finish (h : Inv json path start s) (hs : s.saving = some (sc, .syncDir)) :
    Inv json path start (s.finish sc true) where
  store := by
    obtain ⟨-, -, hread⟩ := h.progress sc .syncDir hs
    rw [attempts_finish]
    show readStore json path s.files ∈ _
    rw [hread]
    exact mem_outcomes_new true
  progress sc' pc' h' := by cases h'

theorem proceed (h : Inv json path start s) (hs : s.saving = some (sc, pc)) {n : Nat}
    (hstep : Persist.proceed json s sc n pc = some s') : Inv json path start s' := by
  obtain ⟨hreads, hvalid, hprogress⟩ := h.progress sc pc hs
  cases pc with
  | createDir =>
    cases hstep
    exact h.goto hs (.inl rfl) trivial
  | removeTmp =>
    cases hstep
    exact h.goto hs (.inl (readStore_updateTmp none)) trivial
  | openTmp =>
    simp only [Persist.proceed] at hstep
    split at hstep
    · cases hstep
      exact h.goto hs (.inl (readStore_updateTmp _)) (Function.update_self ..)
    · cases hstep
  | write written =>
    simp only [Persist.proceed] at hstep
    split at hstep
    · rename_i hall
      cases hstep
      refine h.goto hs (.inl rfl) ?_
      rw [Progress, show s.files tmpName = _ from hprogress, List.take_of_length_le hall]
    · cases hstep
      exact h.goto hs (.inl (readStore_updateTmp _)) (Function.update_self ..)
  | syncFile =>
    cases hstep
    exact h.goto hs (.inl rfl) hprogress
  | rename =>
    have hread : readStore json path (Function.update (Function.update s.files storeName (some (json.toVecPretty sc)))
        tmpName none) = .ok (some sc) := by
      rw [readStore_updateTmp]
      exact readStore_written hreads hvalid (Function.update_self ..)
    simp only [Persist.proceed, show s.files tmpName = _ from hprogress] at hstep
    cases hstep
    exact h.goto hs (.inr hread) hread
  | syncDir =>
    cases hstep
    exact h.finish hs

theorem fail (h : Inv json path start s) (hs : s.saving = some (sc, pc)) :
    Inv json path start (Persist.fail s sc pc) := by
  cases pc with
  | removeTmp => exact h.goto hs (.inl rfl) trivial
  | syncDir => exact h.finish hs
  | _ => exact h.stop hs

theorem step {op : Op} (h : Inv json path start s)
    (hop : ∀ sc, op = .save sc → json.Reads sc ∧ sc.validate = .ok ()) (hstep : Persist.step json s op = some s') :
    Inv json path start s' := by
  cases hs : s.saving with
  | none =>
    have hattempts : s.attempts = s.ended := by
      rw [State.attempts, hs]
      exact List.append_nil _
    unfold Persist.step at hstep
    rw [hs] at hstep
    cases op with
    | save sc =>
      cases hstep
      refine ⟨?_, fun sc' pc' h' => ?_⟩
      · rw [attempts_saving rfl]
        exact mem_outcomes_tried (hattempts ▸ h.store)
      · cases h'
        exact ⟨(hop sc rfl).1, (hop sc rfl).2, trivial⟩
    | load removed =>
      cases hstep
      refine ⟨?_, fun sc' pc' h' => by cases h'⟩
      show readStore json path (dropTmp removed s.files) ∈ outcomes start (s.ended ++ [])
      rw [List.append_nil, ← hattempts, readStore_dropTmp]
      exact h.store
    | die =>
      cases hstep
      exact h
    | proceed n => cases hstep
    | fail => cases hstep
  | some p =>
    obtain ⟨sc, pc⟩ := p
    unfold Persist.step at hstep
    rw [hs] at hstep
    cases op with
    | proceed n => exact h.proceed hs hstep
    | fail =>
      cases hstep
      exact h.fail hs
    | die =>
      cases hstep
      exact h.stop hs
    | save sc' => cases hstep
    | load removed => cases hstep

theorem exec {ops : List Op} (h : Inv json path start s)
    (hops : ∀ sc, .save sc ∈ ops → json.Reads sc ∧ sc.validate = .ok ())
    (hrun : Transition.exec (Persist.step json) s ops = some s') : Inv json path start s' := by
  refine exec_invariant_of_forall (fun s op s' hi hop hstep => hi.step hop hstep) h (fun op hmem sc hop => ?_) hrun
  exact hops sc (hop ▸ hmem)

end Inv

variable (path) in
/-- However often saving stops, and wherever, the next load finds a configuration whole: the newest one whose save
returned `Ok`, or that of a later save that did not. Where one configuration is saved again and again, that is what was
there before or the new one, and the new one after an `Ok`. -/
theorem save_crash_safe {ops : List Op} (hops : ∀ sc, .save sc ∈ ops → json.Reads sc ∧ sc.validate = .ok ())
    (hrun : Transition.exec (step json) { files := files } ops = some s) (removed : Bool) :
    (load json path removed s.files).2 ∈ outcomes (load json path removed files).2 s.attempts ∧
    ∀ sc, (∀ a ∈ s.attempts, a.1 = sc) →
      ((load json path removed s.files).2 = (load json path removed files).2 ∧ (sc, true) ∉ s.ended) ∨
        (load json path removed s.files).2 = .ok (some sc) := by
  have hstart : Inv json path (readStore json path files) { files := files } := ⟨List.mem_singleton_self _, by simp⟩
  have hstore := (hstart.exec hops hrun).store
  simp only [load, readStore_dropTmp]
  refine ⟨hstore, fun sc hsame => ?_⟩
  rcases eq_of_mem_outcomes hsame hstore with ⟨hr, hall⟩ | hr
  · refine .inl ⟨hr, fun hmem => ?_⟩
    cases hall _ (List.mem_append_left _ hmem)
  · exact .inr hr

end

/-- The file of the default configuration with a target. -/
def textWith (target : String) : String :=
  "\n".intercalate [
    "\x7b", "  \"version\": 1,", "  \"default_locale\": \"en\",", "  \"upstream\": \x7b",
    "    \"base_url\": \"https://integrate.api.nvidia.com\",", "    \"nim_keys\": [],",
    "    \"enabled\": true,", "    \"models\": [],", "    \"supports_stream_options\": true", "  \x7d,",
    "  \"upstreams\": [],", "  \"disabled_models\": [],", "  \"client_auth\": \x7b",
    "    \"mode\": \"keyed\",", "    \"keys\": []", "  \x7d,", "  \"limits\": \x7b",
    "    \"heartbeat_secs\": 10,", "    \"max_inflight\": 512,", "    \"max_wait_secs\": 900,",
    "    \"models_ttl_secs\": 600,", "    \"request_timeout_secs\": 300,", "    \"stream_idle_secs\": 300,",
    "    \"strict_passthrough\": false", "  \x7d,", "  \"history\": \x7b", "    \"days\": 30", "  \x7d,",
    "  \"dashboard\": \x7b", "    \"default_window_days\": 30,", "    \"slo_target_percent\": " ++ target, "  \x7d,",
    "  \"governor\": \x7b", "    \"enabled\": true,", "    \"overrides\": \x7b\x7d", "  \x7d,",
    "  \"users\": []", "\x7d"]

def defaultText : String := textWith "99.9"

def defaultJson : SerdeConfig where
  fromStr raw := if raw = defaultText then .ok {} else .error "expected value at line 1 column 1"
  toVecPretty _ := Text.asBytes defaultText

/-- On a fresh directory with half a save left over: the old file cannot be removed, the next write is cut short, and
the third save dies after the rename. -/
def interruptedSaves : List Op :=
  [.load false, .save {}, .proceed 0, .fail, .fail, .save {}, .proceed 0, .proceed 0, .proceed 0, .proceed 10, .die,
    .load true, .save {}, .proceed 0, .proceed 0, .proceed 0, .proceed 2000, .proceed 0, .proceed 0, .proceed 0, .die]

theorem save_crash_safe_interrupted :
    ∃ s, Transition.exec (step defaultJson)
        { files := fun name => if name = tmpName then some (Text.asBytes "half a save") else none } interruptedSaves =
          some s ∧
      s.ended = [({}, false), ({}, false), ({}, false)] ∧
      ((load defaultJson "config.json" true s.files).2 = .ok none ∨
        (load defaultJson "config.json" true s.files).2 = .ok (some {})) := by
  have hrun : (Transition.exec (step defaultJson)
      { files := fun name => if name = tmpName then some (Text.asBytes "half a save") else none }
      interruptedSaves).any (fun s => s.ended == [({}, false), ({}, false), ({}, false)] && s.saving.isNone) = true := by
    decide +kernel
  obtain ⟨s, hs, hended⟩ := (Option.any_eq_true ..).1 hrun
  rw [Bool.and_eq_true, beq_iff_eq, Option.isNone_iff_eq_none] at hended
  have hops : ∀ sc, .save sc ∈ interruptedSaves → defaultJson.Reads sc ∧ sc.validate = .ok () := by
    intro sc hsc
    have hsc : sc = {} := by simpa [interruptedSaves] using hsc
    rw [hsc]
    refine ⟨⟨defaultText, Text.fromUTF8_asBytes _, ?_⟩, toOption_eq_some (by decide +kernel)⟩
    simp only [defaultJson, if_true]
  have hsame : ∀ a ∈ s.attempts, a.1 = {} := by
    rw [State.attempts, hended.1, hended.2]
    simp
  refine ⟨s, hs, hended.1, ?_⟩
  rcases (save_crash_safe "config.json" hops hs true).2 {} hsame with ⟨hr, -⟩ | hr
  · exact .inl hr
  · exact .inr hr

/-! ### A target that does not read back -/

/-- The float whose text is 97.17183946530199. -/
def target : ℚ := 3418930156303435 / 2 ^ 45

/-- What `serde_json` parses this text as: 9717183946530199 as a float, divided by 10^14. -/
def targetParsed : ℚ := 6837860312606871 / 2 ^ 46

def withTarget (x : ℚ) : StoredConfig := { dashboard := { sloTargetPercent := some x } }

def targetText : String := textWith "97.17183946530199"

/-- The JSON library on one text. -/
def textJson (text : String) (parsed : StoredConfig) : SerdeConfig where
  fromStr raw := if raw = text then .ok parsed else .error "expected value at line 1 column 1"
  toVecPretty _ := Text.asBytes text

theorem load_textJson {text : String} {parsed : StoredConfig} (hvalid : parsed.validate = .ok ()) {files : Files}
    (hfile : files storeName = some (Text.asBytes text)) :
    (load (textJson text parsed) "config.json" true files).2 = .ok (some parsed) := by
  rw [load, readStore_dropTmp]
  simp only [readStore, hfile, Text.fromUTF8_asBytes, textJson, if_true, load_of_validate hvalid]

def targetJson : SerdeConfig := textJson targetText (withTarget targetParsed)

def saveTarget : List Op :=
  .save (withTarget target) :: [0, 0, 0, 2000, 0, 0, 0, 0].map .proceed

/-- The save returns `Ok`, and the next load finds another target. -/
theorem not_save_crash_safe_target : ∃ s, Transition.exec (step targetJson) { files := fun _ => none } saveTarget =
      some s ∧
    (withTarget target).validate = .ok () ∧ s.ended = [(withTarget target, true)] ∧
    (load targetJson "config.json" true s.files).2 = .ok (some (withTarget targetParsed)) ∧
    (load targetJson "config.json" true s.files).2 ≠ .ok (some (withTarget target)) := by
  have hrun : (Transition.exec (step targetJson) { files := fun _ => none } saveTarget).any (fun s =>
      s.ended == [(withTarget target, true)] && s.files storeName == some (Text.asBytes targetText)) = true := by
    decide +kernel
  obtain ⟨s, hs, hended⟩ := (Option.any_eq_true ..).1 hrun
  rw [Bool.and_eq_true, beq_iff_eq, beq_iff_eq] at hended
  obtain ⟨hended, hfile⟩ := hended
  have hvalid : (withTarget targetParsed).validate = .ok () := toOption_eq_some (by decide +kernel)
  have hload := load_textJson hvalid hfile
  refine ⟨s, hs, toOption_eq_some (by decide +kernel), hended, hload, fun hsame => ?_⟩
  have hparsed := hload.symm.trans hsame
  simp only [Except.ok.injEq, Option.some.injEq] at hparsed
  exact absurd (congrArg (·.dashboard.sloTargetPercent) hparsed) (by decide +kernel)

end OpenProxy.Persist
