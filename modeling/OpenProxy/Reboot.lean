import OpenProxy.Authority
import OpenProxy.ConfigFile

/-!
# The configuration across restarts (`run` of `lib.rs`, `commit` of `settings.rs`, `load`, `save` of `config.rs`)

A handler that commits writes the candidate to disk first. The write may fail, and the process may die in the middle
of it or at rest; the next process starts with what it can load. `AppState` is the configuration in memory and
`Persist` the files: here each commit of the one makes a save of the other.
-/

namespace OpenProxy.Reboot

open AppState Transition ConfigFile Persist

section
variable (sha256Hex : String → String) (verifyPassword : String → String → Bool) (json : SerdeText) (path : String)

structure State where
  app : AppState.State
  files : Files

inductive Op where
  /-- An operation of the handlers, with the steps of the save that it comes to: each succeeds, of a write with
  `n + 1` more bytes, or fails, which the handler reports as `error`. -/
  | handle (op : AppState.Op) (saves : List (Option Nat)) (error : String)
  /-- The process dies after these steps of the save that the operation comes to, and another one starts. -/
  | die (op : AppState.Op) (saves : List (Option Nat)) (removed : Bool) (now : Nat)

def act : Option Nat → Persist.Op
  | some n => .proceed n
  | none => .fail

/-- The operation with the result of its write. -/
def withFault (fault : Option String) : AppState.Op → AppState.Op
  | .request username req env => .request username req { env with fault }
  | .resume n newHash secret env => .resume n newHash secret { env with fault }
  | op => op

/-- The candidate that an operation writes, if it comes to that. -/
def written (s : AppState.State) (op : AppState.Op) : Option StoredConfig :=
  (AppState.step sha256Hex verifyPassword s (withFault none op)).bind fun s' =>
    if s.log.length < s'.log.length then some s'.store else none

def saved (files : Files) (cand : StoredConfig) (saves : List (Option Nat)) : Option Persist.State :=
  exec (Persist.step json.config) { files := files } (.save cand :: saves.map act)

/-- The start of a process. -/
def start (removed : Bool) (files : Files) (now : Nat) : Option State :=
  match Persist.load json.config path removed files with
  | (files, .ok stored) => some ⟨boot (stored.getD {}) now, files⟩
  | (_, .error _) => none

/-- The files that a process leaves that dies after these steps. -/
def left (m : State) (op : AppState.Op) (saves : List (Option Nat)) : Option Files :=
  match written sha256Hex verifyPassword m.app op with
  | none => some m.files
  | some cand => (saved json m.files cand saves).map (·.files)

def step (m : State) : Op → Option State
  | .handle op saves error =>
    match written sha256Hex verifyPassword m.app op with
    | none => (AppState.step sha256Hex verifyPassword m.app (withFault none op)).map fun app => { m with app }
    | some cand =>
      (saved json m.files cand saves).bind fun disk =>
        match disk.saving, disk.ended with
        | none, [(_, ok)] =>
          (AppState.step sha256Hex verifyPassword m.app (withFault (if ok then none else some error) op)).map fun app =>
            ⟨app, disk.files⟩
        | _, _ => none
  | .die op saves removed now =>
    (left sha256Hex verifyPassword json m op saves).bind fun files => start json path removed files now

/-- The candidate that is written in a step. -/
def candidate (m : State) : Op → Option StoredConfig
  | .handle op _ _ | .die op _ _ _ => written sha256Hex verifyPassword m.app op

/-- The numbers fit the machine, the text that is written parses, and its float is the one that was written. -/
def Writable (json : SerdeText) (sc : StoredConfig) : Prop :=
  Fits sc ∧ json.Reads (write sc) ∧ reparsed json.reparse sc = sc

end

/-! ### One save -/

section
variable {json : SerdeText} {path : String} {files : Files} {cand : StoredConfig} {d d' : Persist.State}

/-- The stored file stays until the rename, and no step after the rename fails. -/
inductive Underway (files : Files) (cand : StoredConfig) (d : Persist.State) : Prop where
  | saving (pc : SavePc) (saving : d.saving = some (cand, pc)) (ended : d.ended = [])
      (old : pc ≠ .syncDir → d.files storeName = files storeName)
  | failed (saving : d.saving = none) (ended : d.ended = [(cand, false)])
      (old : d.files storeName = files storeName)
  | done (saving : d.saving = none) (ended : d.ended = [(cand, true)])

theorem Underway.proceed {json : SerdeConfig} (h : Underway files cand d) {n : Nat}
    (hs : Persist.step json d (.proceed n) = some d') : Underway files cand d' := by
  unfold Persist.step at hs
  cases h with
  | failed saving | done saving => simp [saving] at hs
  | saving pc saving ended old =>
    rw [saving] at hs
    replace hs : Persist.proceed json d cand n pc = some d' := hs
    have hgoto (pc' : SavePc) (files' : Files) (hold : files' storeName = files storeName) :
        Underway files cand (d.goto cand pc' files') := .saving pc' rfl ended fun _ => hold
    cases pc with
    | createDir | syncFile =>
      cases hs
      exact hgoto _ _ (old (by simp))
    | removeTmp =>
      cases hs
      exact hgoto _ _ ((Function.update_of_ne tmpName_ne_storeName _ _).trans (old (by simp)))
    | openTmp =>
      simp only [Persist.proceed] at hs
      split at hs
      · cases hs
        exact hgoto _ _ ((Function.update_of_ne tmpName_ne_storeName _ _).trans (old (by simp)))
      · cases hs
    | write written =>
      simp only [Persist.proceed] at hs
      split at hs
      · cases hs
        exact hgoto _ _ (old (by simp))
      · cases hs
        exact hgoto _ _ ((Function.update_of_ne tmpName_ne_storeName _ _).trans (old (by simp)))
    | rename =>
      simp only [Persist.proceed] at hs
      split at hs
      · cases hs
      · cases hs
        exact .saving .syncDir rfl ended fun hne => absurd rfl hne
    | syncDir =>
      cases hs
      exact .done rfl (by rw [State.finish, ended, List.nil_append])

theorem Underway.fail {json : SerdeConfig} (h : Underway files cand d) (hs : Persist.step json d .fail = some d') :
    Underway files cand d' := by
  unfold Persist.step at hs
  cases h with
  | failed saving | done saving => simp [saving] at hs
  | saving pc saving ended old =>
    rw [saving] at hs
    obtain rfl : Persist.fail d cand pc = d' := Option.some.inj hs
    cases pc with
    | removeTmp => exact .saving _ rfl ended fun _ => old (by simp)
    | syncDir => exact .done rfl (by rw [Persist.fail, State.finish, ended, List.nil_append])
    | _ => exact .failed rfl (by rw [Persist.fail, State.finish, ended, List.nil_append]) (old (by simp))

theorem underway_saved {saves : List (Option Nat)} (h : saved json files cand saves = some d) :
    Underway files cand d := by
  obtain ⟨d₁, hfirst, hrest⟩ := exec_cons_eq_some.1 h
  obtain rfl := Option.some.inj hfirst
  refine exec_invariant_of_forall (P := fun op => ∃ a, op = act a) (fun d op d' h hop hs => ?_)
    (.saving .createDir rfl rfl fun _ => rfl) (fun op hop => ?_) hrest
  · obtain ⟨_ | n, rfl⟩ := hop
    · exact h.fail hs
    · exact h.proceed hs
  · obtain ⟨a, -, rfl⟩ := List.mem_map.1 hop
    exact ⟨a, rfl⟩

variable (path) in
theorem attempts_saved (hreads : json.config.Reads cand) (hvalid : cand.validate = .ok ()) {saves : List (Option Nat)}
    (h : saved json files cand saves = some d) :
    readStore json.config path d.files ∈ outcomes (readStore json.config path files) d.attempts := by
  have hstart : Persist.Inv json.config path (readStore json.config path files) { files := files } :=
    ⟨List.mem_singleton_self _, by simp⟩
  refine (hstart.exec (fun sc hsc => ?_) h).store
  rcases List.mem_cons.1 hsc with hsc | hsc
  · cases hsc
    exact ⟨hreads, hvalid⟩
  · obtain ⟨a, -, ha⟩ := List.mem_map.1 hsc
    cases a <;> cases ha

end

/-! ### One operation -/

section
variable {sha256Hex : String → String} {verifyPassword : String → String → Bool} {s s' : AppState.State}

theorem save_fault {v : Settings.Save} {since now : Nat} {e : String} :
    ∃ e', s.save sha256Hex v since ⟨some e, now⟩ = s.refuse e' := by
  unfold AppState.State.save
  split
  · exact ⟨_, rfl⟩
  · rename_i cand _
    have hcommit : ∃ e', s.commit cand ⟨some e, now⟩ = (s, .error e') := by
      unfold AppState.State.commit
      split <;> exact ⟨_, rfl⟩
    obtain ⟨e', he'⟩ := hcommit
    rw [he']
    exact ⟨_, rfl⟩

theorem request_fault {username e : String} {req : Request} {now : Nat} :
    (s.request sha256Hex username req ⟨some e, now⟩).1.store = s.store := by
  have hsave (v : Settings.Save) : (s.save sha256Hex v s.log.length ⟨some e, now⟩).1.store = s.store := by
    obtain ⟨e', hrefuse⟩ := @save_fault sha256Hex s v s.log.length now e
    rw [hrefuse]
    rfl
  unfold AppState.State.request
  repeat' split
  all_goals first | exact hsave _ | rfl

theorem resume_fault {task : Task} {newHash secret e : String} {now : Nat} :
    (s.resume sha256Hex verifyPassword task newHash secret ⟨some e, now⟩).1.store = s.store := by
  have hsave (v : Settings.Save) (since : Nat) : ∃ e', s.save sha256Hex v since ⟨some e, now⟩ = s.refuse e' := save_fault
  cases task with
  | setupDone => rfl
  | setup req =>
    obtain ⟨e', hrefuse⟩ := hsave (.setup req newHash secret) s.log.length
    rw [AppState.State.resume, hrefuse]
    rfl
  | users username req =>
    obtain ⟨e', hrefuse⟩ := hsave (.users username req newHash) s.log.length
    rw [AppState.State.resume, hrefuse]
    rfl
  | password username current stored since =>
    obtain ⟨e', hrefuse⟩ := hsave (.password username current stored newHash) since
    rw [AppState.State.resume, hrefuse]
    split <;> rfl
  | locale username l =>
    obtain ⟨e', hrefuse⟩ := hsave (.locale username l) s.log.length
    rw [AppState.State.resume, hrefuse]
    rfl

/-- Where the file cannot be written, the configuration in memory stays as it is. -/
theorem step_fault {op : AppState.Op} {e : String}
    (h : AppState.step sha256Hex verifyPassword s (withFault (some e) op) = some s') : s'.store = s.store := by
  obtain ⟨⟨s₁, r⟩, hs, rfl⟩ := Option.map_eq_some_iff.1 h
  cases op with
  | request username req env =>
    rw [← congrArg Prod.fst (Option.some.inj hs)]
    exact request_fault
  | resume n newHash secret env =>
    obtain ⟨task, -, hs⟩ := Option.map_eq_some_iff.1 hs
    rw [← congrArg Prod.fst hs]
    exact resume_fault
  | setup body admitted =>
    obtain rfl := congrArg Prod.fst (Option.some.inj hs)
    unfold AppState.State.setup
    repeat' split
    all_goals rfl
  | reserve | release | penalize =>
    cases hs
    rfl

theorem step_written {op : AppState.Op} (hi : AppState.Inv s)
    (h : AppState.step sha256Hex verifyPassword s (withFault none op) = some s') :
    (written sha256Hex verifyPassword s op = none ∧ s'.store = s.store) ∨
      (written sha256Hex verifyPassword s op = some s'.store ∧ s'.store.validate = .ok () ∧
        (s.store.superuser.isSome = true → s'.store.superuser.isSome = true)) := by
  rw [written, h, Option.bind_some]
  obtain ⟨r, hs⟩ := step_cases h
  cases hs with
  | refused _ | deferred _ _ | cleared _ _ _ | traffic _ _ => exact .inl ⟨if_neg (lt_irrefl _), rfl⟩
  | commits _ hcand hvalid _ _ =>
    exact .inr ⟨if_pos (by simp), hvalid,
      (Settings.Save.effect hcand).isSome_superuser (Settings.usersValid_of_validate hi.valid)⟩

theorem written_cases {op : AppState.Op} {cand : StoredConfig} (hi : AppState.Inv s)
    (h : written sha256Hex verifyPassword s op = some cand) :
    cand.validate = .ok () ∧ (s.store.superuser.isSome = true → cand.superuser.isSome = true) ∧
      ∃ s', AppState.step sha256Hex verifyPassword s (withFault none op) = some s' ∧ s'.store = cand := by
  obtain ⟨s', hs, -⟩ := Option.bind_eq_some_iff.1 h
  rcases step_written hi hs with ⟨hnone, -⟩ | ⟨hsome, hvalid, hsu⟩
  · cases hnone.symm.trans h
  · obtain rfl := Option.some.inj (hsome.symm.trans h)
    exact ⟨hvalid, hsu, s', hs, rfl⟩

end

/-! ### Runs -/

section
variable {sha256Hex : String → String} {verifyPassword : String → String → Bool} {json : SerdeText} {path : String}

/-- The configuration that a start finds. -/
def onDisk (json : SerdeText) (path : String) (files : Files) : Except String StoredConfig :=
  (readStore json.config path files).map (·.getD {})

theorem start_eq {files : Files} {sc : StoredConfig} (h : onDisk json path files = .ok sc) (removed : Bool) (now : Nat) :
    start json path removed files now = some ⟨boot sc now, dropTmp removed files⟩ := by
  unfold onDisk at h
  cases hread : readStore json.config path files with
  | error e =>
    rw [hread] at h
    cases h
  | ok stored =>
    rw [hread] at h
    cases h
    simp only [start, Persist.load, readStore_dropTmp, hread]

theorem start_cases {files : Files} {removed : Bool} {now : Nat} {m : State}
    (h : start json path removed files now = some m) :
    ∃ sc, onDisk json path files = .ok sc ∧ sc.validate = .ok () ∧ m = ⟨boot sc now, dropTmp removed files⟩ := by
  cases hread : readStore json.config path files with
  | error e => simp [start, Persist.load, readStore_dropTmp, hread] at h
  | ok stored =>
    simp only [start, Persist.load, readStore_dropTmp, hread, Option.some.injEq] at h
    refine ⟨stored.getD {}, by rw [onDisk, hread]; rfl, ?_, h.symm⟩
    unfold readStore at hread
    split at hread
    · exact validate_of_load hread
    · split at hread
      · cases hread
      · split at hread
        · cases hread
        · exact validate_of_load hread

/-- Memory and disk hold the same configuration. -/
structure Agrees (json : SerdeText) (path : String) (m : State) : Prop where
  inv : AppState.Inv m.app
  disk : onDisk json path m.files = .ok m.app.store

theorem onDisk_dropTmp {files : Files} (removed : Bool) :
    onDisk json path (dropTmp removed files) = onDisk json path files := by
  rw [onDisk, readStore_dropTmp, onDisk]

theorem agrees_boot {files : Files} {sc : StoredConfig} (hvalid : sc.validate = .ok ())
    (h : onDisk json path files = .ok sc) (removed : Bool) (now : Nat) :
    Agrees json path ⟨boot sc now, dropTmp removed files⟩ :=
  ⟨boot_inv hvalid now, (onDisk_dropTmp removed).trans h⟩

theorem onDisk_congr {files files' : Files} (h : files' storeName = files storeName) :
    onDisk json path files' = onDisk json path files := by
  rw [onDisk, readStore_congr h, onDisk]

theorem onDisk_of_read {files : Files} {cand : StoredConfig} (h : readStore json.config path files = .ok (some cand)) :
    onDisk json path files = .ok cand := by
  rw [onDisk, h]
  rfl

variable {m m' : State}

/-- Wherever a process dies, what it leaves is what it held or what it was about to. -/
theorem Agrees.left (h : Agrees json path m) {op : AppState.Op} {saves : List (Option Nat)} {files : Files}
    (hwritable : ∀ cand, written sha256Hex verifyPassword m.app op = some cand → Writable json cand)
    (hleft : left sha256Hex verifyPassword json m op saves = some files) :
    ∃ sc, onDisk json path files = .ok sc ∧ sc.validate = .ok () ∧
      (sc = m.app.store ∨ written sha256Hex verifyPassword m.app op = some sc) ∧
      (m.app.store.superuser.isSome = true → sc.superuser.isSome = true) := by
  unfold Reboot.left at hleft
  split at hleft
  · obtain rfl := Option.some.inj hleft
    exact ⟨_, h.disk, h.inv.valid, .inl rfl, id⟩
  · rename_i cand hcand
    obtain ⟨d, hd, rfl⟩ := Option.map_eq_some_iff.1 hleft
    obtain ⟨hvalid, hsu, -⟩ := written_cases h.inv hcand
    obtain ⟨hfits, htext, hfloat⟩ := hwritable cand hcand
    have hmem := attempts_saved path (reads_config hfits hvalid htext hfloat) hvalid hd
    have hsame : ∀ a ∈ d.attempts, a.1 = cand := by
      intro a ha
      rw [State.attempts] at ha
      cases underway_saved hd with
      | saving pc saving ended old => simp_all
      | failed saving ended old => simp_all
      | done saving ended => simp_all
    rcases eq_of_mem_outcomes hsame hmem with ⟨hold, -⟩ | hnew
    · refine ⟨m.app.store, ?_, h.inv.valid, .inl rfl, id⟩
      rw [onDisk, hold]
      exact h.disk
    · exact ⟨cand, onDisk_of_read hnew, hvalid, .inr hcand, hsu⟩

theorem Agrees.step {op : Op} (h : Agrees json path m)
    (hwritable : ∀ cand, candidate sha256Hex verifyPassword m op = some cand → Writable json cand)
    (hs : step sha256Hex verifyPassword json path m op = some m') :
    Agrees json path m' ∧ (m.app.store.superuser.isSome = true → m'.app.store.superuser.isSome = true) := by
  cases op with
  | die op saves removed now =>
    obtain ⟨files, hleft, hstart⟩ := Option.bind_eq_some_iff.1 hs
    obtain ⟨sc, hdisk, hvalid, -, hsu⟩ := h.left hwritable hleft
    rw [start_eq hdisk] at hstart
    obtain rfl := Option.some.inj hstart
    exact ⟨agrees_boot hvalid hdisk removed now, hsu⟩
  | handle op saves error =>
    simp only [Reboot.step] at hs
    split at hs
    · rename_i hnone
      obtain ⟨app, happ, rfl⟩ := Option.map_eq_some_iff.1 hs
      rcases step_written h.inv happ with ⟨-, hstore⟩ | ⟨hsome, -⟩
      · exact ⟨⟨(h.inv.step (step_cases happ).choose_spec), by rw [hstore]; exact h.disk⟩, by rw [hstore]; exact id⟩
      · cases hnone.symm.trans hsome
    · rename_i cand hcand
      obtain ⟨d, hd, hs⟩ := Option.bind_eq_some_iff.1 hs
      obtain ⟨hvalid, hsu, s₁, hs₁, hstore₁⟩ := written_cases h.inv hcand
      obtain ⟨hfits, htext, hfloat⟩ := hwritable cand hcand
      have hmem := attempts_saved path (reads_config hfits hvalid htext hfloat) hvalid hd
      cases underway_saved hd with
      | saving pc saving ended old => simp [saving] at hs
      | failed saving ended old =>
        simp only [saving, ended, Option.map_eq_some_iff, Bool.false_eq_true, if_false] at hs
        obtain ⟨app, happ, rfl⟩ := hs
        have hstore := step_fault happ
        obtain ⟨r, hstep⟩ := step_cases happ
        refine ⟨⟨h.inv.step hstep, ?_⟩, by rw [hstore]; exact id⟩
        rw [hstore]
        exact (onDisk_congr old).trans h.disk
      | done saving ended =>
        simp only [saving, ended, Option.map_eq_some_iff, if_true] at hs
        obtain ⟨app, happ, rfl⟩ := hs
        obtain rfl := Option.some.inj (hs₁.symm.trans happ)
        obtain ⟨r, hstep⟩ := step_cases happ
        refine ⟨⟨h.inv.step hstep, ?_⟩, by rw [hstore₁]; exact hsu⟩
        rw [State.attempts, saving, ended] at hmem
        rw [hstore₁]
        exact onDisk_of_read (List.mem_singleton.1 hmem)

theorem Agrees.exec {ops : List Op} (h : Agrees json path m)
    (hwritable : Meets (Reboot.step sha256Hex verifyPassword json path)
      (fun m op => ∀ cand, candidate sha256Hex verifyPassword m op = some cand → Writable json cand) m ops)
    (hrun : Transition.exec (Reboot.step sha256Hex verifyPassword json path) m ops = some m') :
    Agrees json path m' ∧ (m.app.store.superuser.isSome = true → m'.app.store.superuser.isSome = true) := by
  refine exec_invariant_of_meets (I := fun m' => Agrees json path m' ∧
    (m.app.store.superuser.isSome = true → m'.app.store.superuser.isSome = true))
    (fun m₁ op m₂ hi hC hs => ?_) ⟨h, id⟩ hwritable hrun
  obtain ⟨hagrees, hkept⟩ := hi.1.step hC hs
  exact ⟨hagrees, hkept ∘ hi.2⟩

end

/-- What a process leaves behind that dies in the middle of an operation. -/
structure Survives (sha256Hex : String → String) (verifyPassword : String → String → Bool) (json : SerdeText)
    (path : String) (m : State) (op : AppState.Op) (files : Files) (sc : StoredConfig) : Prop where
  starts : ∀ removed now, start json path removed files now = some ⟨boot sc now, dropTmp removed files⟩
  oldOrNew : sc = m.app.store ∨ written sha256Hex verifyPassword m.app op = some sc
  claimed : m.app.store.superuser.isSome = true → sc.superuser.isSome = true

/-- Over all restarts: the configuration in memory is the one on disk, and wherever a process dies the next one starts,
with the configuration that was there or the one being written. A proxy that has been claimed never asks for setup
again. -/
theorem config_survives {sha256Hex : String → String} {verifyPassword : String → String → Bool} {json : SerdeText}
    {path : String} {removed : Bool} {files : Files} {now : Nat} {before after : List Op} {m₀ m m' : State}
    (hstart : start json path removed files now = some m₀)
    (hwritable : Meets (step sha256Hex verifyPassword json path)
      (fun m op => ∀ cand, candidate sha256Hex verifyPassword m op = some cand → Writable json cand) m₀ (before ++ after))
    (hbefore : exec (step sha256Hex verifyPassword json path) m₀ before = some m)
    (hafter : exec (step sha256Hex verifyPassword json path) m after = some m') :
    onDisk json path m'.files = .ok m'.app.store ∧
    (∀ op saves files, (∀ cand, written sha256Hex verifyPassword m'.app op = some cand → Writable json cand) →
      left sha256Hex verifyPassword json m' op saves = some files →
      ∃ sc, Survives sha256Hex verifyPassword json path m' op files sc) ∧
    (m.app.setupRequired = false → m'.app.store.superuser.isSome = true ∧
      ∀ now, (boot m'.app.store now).setupRequired = false) := by
  obtain ⟨sc, hdisk, hvalid, rfl⟩ := start_cases hstart
  obtain ⟨hm, -⟩ := (agrees_boot hvalid hdisk removed now).exec hwritable.append_left hbefore
  obtain ⟨hm', hkept⟩ := hm.exec (hwritable.append_right hbefore) hafter
  refine ⟨hm'.disk, fun op saves files hnext hleft => ?_, fun hclaimed => ?_⟩
  · obtain ⟨sc, hdisk, -, hold, hsu⟩ := hm'.left hnext hleft
    exact ⟨sc, fun removed now => start_eq hdisk removed now, hold, hsu⟩
  · have hsu := hkept (hm.inv.superuser (.inl hclaimed))
    exact ⟨hsu, fun now => by simpa [boot] using hsu⟩

def claimed : StoredConfig where
  upstream := { nimKeys := [⟨"nvapi-1", "root", true, 40⟩] }
  users := [⟨"root", "hash-root", .superuser, none⟩]

def claimedText : String :=
  "\n".intercalate [
    "\x7b", "  \"version\": 1,", "  \"default_locale\": \"en\",", "  \"upstream\": \x7b",
    "    \"base_url\": \"https://integrate.api.nvidia.com\",", "    \"nim_keys\": [", "      \x7b",
    "        \"key\": \"nvapi-1\",", "        \"owner\": \"root\",", "        \"enabled\": true,",
    "        \"rpm\": 40", "      \x7d", "    ],", "    \"enabled\": true,", "    \"models\": [],",
    "    \"supports_stream_options\": true", "  \x7d,", "  \"upstreams\": [],", "  \"disabled_models\": [],",
    "  \"client_auth\": \x7b", "    \"mode\": \"keyed\",", "    \"keys\": []", "  \x7d,", "  \"limits\": \x7b",
    "    \"heartbeat_secs\": 10,", "    \"max_inflight\": 512,", "    \"max_wait_secs\": 900,",
    "    \"models_ttl_secs\": 600,", "    \"request_timeout_secs\": 300,", "    \"stream_idle_secs\": 300,",
    "    \"strict_passthrough\": false", "  \x7d,", "  \"history\": \x7b", "    \"days\": 30", "  \x7d,",
    "  \"dashboard\": \x7b", "    \"default_window_days\": 30,", "    \"slo_target_percent\": 99.9", "  \x7d,",
    "  \"governor\": \x7b", "    \"enabled\": true,", "    \"overrides\": \x7b\x7d", "  \x7d,",
    "  \"users\": [", "    \x7b", "      \"username\": \"root\",", "      \"password_hash\": \"hash-root\",",
    "      \"role\": \"superuser\"", "    \x7d", "  ]", "\x7d"]

def claimedJson : SerdeText where
  fromStr raw := if raw = claimedText then .ok (write claimed) else .error "expected value at line 1 column 1"
  reparse := id
  toVecPretty _ := Text.asBytes claimedText
  mismatch _ := "invalid value"

theorem writable_claimed : Writable claimedJson claimed := by
  have hfits : Fits claimed := ⟨by decide, by decide, by constructor <;> decide, by decide, by decide, fun model cap h => by
    rw [claimed, Std.ExtTreeMap.getElem?_empty] at h
    cases h⟩
  exact ⟨hfits, ⟨claimedText, Text.fromUTF8_asBytes _, by simp only [claimedJson, if_true]⟩, rfl⟩

def claim : Op :=
  .handle (.setup (.form { username := "root", password := "correct horse", nimKey := some "nvapi-1" }) true) [] ""

/-- The process dies in the first claim, the disk is full in the second, and the third goes through. -/
def reboots : List Op :=
  [claim, .die (.resume 0 "hash-root" "" ⟨none, 1⟩) ([0, 0, 0, 10].map some) true 2,
    claim, .handle (.resume 0 "hash-root" "" ⟨none, 3⟩) ([0, 0, 0, 2000].map some ++ [none]) "No space left on device",
    claim, .handle (.resume 0 "hash-root" "" ⟨none, 4⟩) ([0, 0, 0, 2000, 0, 0, 0, 0].map some) "",
    .handle (.resume 0 "" "" ⟨none, 5⟩) [] ""]

abbrev rebootStep : State → Op → Option State :=
  step id (fun password hash => password == hash) claimedJson "config.json"

/-- The first start. -/
def fresh : State := ⟨boot {} 0, dropTmp true fun _ => none⟩

theorem config_survives_reboots : ∃ m sc, start claimedJson "config.json" true (fun _ => none) 0 = some fresh ∧
    exec rebootStep fresh reboots = some m ∧
      start claimedJson "config.json" false m.files 6 = some ⟨boot sc 6, m.files⟩ ∧ (boot sc 6).setupRequired = false := by
  have hstart : start claimedJson "config.json" true (fun _ => none) 0 = some fresh := start_eq rfl true 0
  have hrun : (exec rebootStep fresh reboots).any (fun m => !m.app.setupRequired) = true := by decide +kernel
  have hcand : Meets rebootStep (fun m op => ∀ cand ∈ candidate id (fun password hash => password == hash) m op,
      cand = claimed) fresh reboots := by decide +kernel
  obtain ⟨m, hm, hclaimed⟩ := (Option.any_eq_true ..).1 hrun
  have hwritable : Meets rebootStep (fun m op => ∀ cand, candidate id (fun password hash => password == hash) m op =
      some cand → Writable claimedJson cand) fresh (reboots ++ []) := by
    rw [List.append_nil]
    refine hcand.imp fun m op hall cand hc => ?_
    rw [hall cand hc]
    exact writable_claimed
  obtain ⟨-, hdies, hsetup⟩ := config_survives hstart hwritable hm exec_nil
  have hrest : written id (fun password hash => password == hash) m.app (.reserve none none 6) = none :=
    if_neg (lt_irrefl _)
  obtain ⟨sc, hsc⟩ := hdies (.reserve none none 6) [] m.files (fun cand h => by cases hrest.symm.trans h)
    (by rw [left, hrest])
  refine ⟨m, sc, hstart, hm, hsc.starts false 6, ?_⟩
  have hsu := hsc.claimed (hsetup (by simpa using hclaimed)).1
  simpa [boot] using hsu

end OpenProxy.Reboot
