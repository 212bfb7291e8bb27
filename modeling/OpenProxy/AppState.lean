import OpenProxy.Handlers

/-!
# The configuration at run time (`AppState`, `commit` and the handlers of `settings.rs`, `load` of `config.rs`)

Every write ends in `commit` under the store lock: validate, persist, swap the runtime configuration and the
pool, and only then publish the candidate. A password is hashed outside the lock, so `setup_submit`, `users`,
`account` and `locale` read the store in one critical section and write it in a later one: between the two a
request is a `Task`, and any other request may run. The model steps from one critical section to the next.

Side effects on caches (model catalog, no-inject memory, scraper memo) and the session cookie are left out.
-/

namespace OpenProxy.AppState

open Text Transition Settings

/-- A request between two critical sections. -/
inductive Task where
  | setup (req : SetupReq)
  /-- `setup_submit` has committed and not cleared the flag yet. -/
  | setupDone
  | users (username : String) (req : UsersReq)
  /-- `account` has read the hash `stored`, when `since` commits had been made. -/
  | password (username current stored : String) (since : Nat)
  | locale (username locale : String)

/-- A commit that went through. -/
structure Event where
  save : Save
  /-- How many commits there were when the request read what it relies on. -/
  since : Nat
  before : StoredConfig
  after : StoredConfig

structure State where
  store : StoredConfig
  cfg : Config
  pool : Pool
  /-- The days that history was last told to keep. -/
  retention : Nat
  configRevision : Nat
  setupRequired : Bool
  tasks : List Task
  /-- The commits so far, and the password hashes stored or generated so far. -/
  log : List Event
  hashes : List String

inductive AccountBody where
  | password (current new : String)
  | locale (locale : Option String)
  | invalidLocale
  | invalidAction

inductive Request where
  | edit (e : Edit)
  /-- With the new password, if there is one. -/
  | users (req : UsersReq) (password : String)
  | account (body : AccountBody)
  | locale (locale : String)

/-- What a commit meets outside: why the file cannot be written, if so, and the time. -/
structure Env where
  fault : Option String
  now : Nat

inductive Op where
  /-- `POST /setup`; the throttle admits it or not. -/
  | setup (body : SetupBody) (admitted : Bool)
  /-- A request of an authenticated principal. -/
  | request (username : String) (req : Request) (env : Env)
  /-- The `n`-th task takes the lock again, with the hash of its new password and a client secret. -/
  | resume (n : Nat) (newHash secret : String) (env : Env)
  | reserve (prefer : Option Nat) (allowed : Option (List Nat)) (now : Nat)
  | release (lane stamp : Nat)
  | penalize (lane backoff now : Nat)

/-- The answer, once there is one. -/
abbrev Answer := Option (Except ApiError Unit)

/-- What is left of `load` once the file has been read and parsed. -/
def load (path : String) (file : Option StoredConfig) : Except String (Option StoredConfig) :=
  match file with
  | none => .ok none
  | some sc => do
    ensure (decide (sc.version ≤ 1))
      s!"{path} has version {sc.version} but this build understands version 1; upgrade open-proxy"
    sc.validate
    return some sc

def Task.since (log : List Event) : Task → Nat
  | .password _ _ _ since => since
  | .setup _ | .setupDone | .users _ _ | .locale _ _ => log.length

/-- What a task commits. -/
def Task.save (newHash secret : String) : Task → Option Save
  | .setup req => some (.setup req newHash secret)
  | .setupDone => none
  | .users username req => some (.users username req newHash)
  | .password username current stored _ => some (.password username current stored newHash)
  | .locale username l => some (.locale username l)

def boot (sc : StoredConfig) (now : Nat) : State where
  store := sc
  cfg := sc.runtime
  pool := Pool.new sc.poolSpecs now
  retention := sc.historyDays
  configRevision := 1
  setupRequired := sc.superuser.isNone
  tasks := []
  log := []
  hashes := sc.users.map (·.passwordHash)

/-- `commit`: nothing is applied unless the candidate is valid and has been written. -/
def State.commit (s : State) (candidate : StoredConfig) (env : Env) : State × Except String Unit :=
  match candidate.validate with
  | .error e => (s, .error e)
  | .ok () =>
    match env.fault with
    | some e => (s, .error s!"cannot write the config store: {e}")
    | none =>
      let s := { s with cfg := candidate.runtime }
      let s := { s with pool := s.pool.rebuild candidate.poolSpecs env.now }
      let s := if candidate.historyDays ≠ s.store.historyDays then { s with retention := candidate.historyDays }
        else s
      let s := { s with store := candidate }
      ({ s with configRevision := s.configRevision + 1 }, .ok ())

def State.defer (s : State) (task : Task) : State × Answer := ({ s with tasks := s.tasks ++ [task] }, none)

def State.refuse (s : State) (e : ApiError) : State × Answer := (s, some (.error e))

section
variable (sha256Hex : String → String) (verifyPassword : String → String → Bool)

/-- A critical section that writes. -/
def State.save (s : State) (v : Save) (since : Nat) (env : Env) : State × Answer :=
  match v.candidate sha256Hex s.store with
  | .error e => s.refuse e
  | .ok cand =>
    match s.commit cand env with
    | (s', .error e) => s'.refuse (badRequest e)
    | (s', .ok ()) => ({ s' with log := s'.log ++ [⟨v, since, s.store, cand⟩] }, some (.ok ()))

/-- `setup_submit` up to the hashing. -/
def State.setup (s : State) (body : SetupBody) (admitted : Bool) : State × Answer :=
  if !s.setupRequired then s.refuse setupComplete
  else if byteLen body.req.password < 10 then s.refuse weakPassword
  else if !admitted then s.refuse throttled
  else s.defer (.setup body.req)

/-- A handler behind `require_session` up to its first commit or task. -/
def State.request (s : State) (username : String) (req : Request) (env : Env) : State × Answer :=
  if s.setupRequired then s.refuse setupRequiredError
  else
    match req with
    | .edit e => s.save sha256Hex (.edit username e) s.log.length env
    | .users req password =>
      match requireAdmin s.store username "user management requires an admin" with
      | .error e => s.refuse e
      | .ok () =>
        if req.hashes && byteLen password < 10 then s.refuse weakPassword
        else s.defer (.users username req)
    | .account .invalidAction => s.refuse ⟨400, "invalid_action", "account action must be locale"⟩
    | .account .invalidLocale => s.refuse LocaleError.invalid.response
    | .account (.locale none) => s.save sha256Hex (.accountLocale username none) s.log.length env
    | .account (.locale (some l)) =>
      match installedLocale l with
      | .error e => s.refuse e.response
      | .ok l => s.save sha256Hex (.accountLocale username (some l)) s.log.length env
    | .account (.password current new) =>
      if byteLen new < 10 then s.refuse weakPassword
      else
        match s.store.user username with
        | none => s.refuse staleSession
        | some user => s.defer (.password username current user.passwordHash s.log.length)
    | .locale l =>
      match requireAdmin s.store username adminServer with
      | .error e => s.refuse e
      | .ok () =>
        match installedLocale l with
        | .error e => s.refuse e.response
        | .ok l => s.defer (.locale username l)

/-- Whether a task comes to hash a new password. -/
def Task.hashes : Task → Bool
  | .setup _ => true
  | .users _ req => req.hashes
  | .password _ current stored _ => verifyPassword current stored
  | .setupDone | .locale _ _ => false

/-- The rest of a handler from its second critical section on. -/
def State.resume (s : State) (task : Task) (newHash secret : String) (env : Env) : State × Answer :=
  match task with
  | .setupDone => ({ s with setupRequired := false }, some (.ok ()))
  | .setup req =>
    match s.save sha256Hex (.setup req newHash secret) s.log.length env with
    | (s', some (.ok ())) => s'.defer .setupDone
    | refused => refused
  | .users username req => s.save sha256Hex (.users username req newHash) s.log.length env
  | .password username current stored since =>
    if verifyPassword current stored then
      s.save sha256Hex (.password username current stored newHash) since env
    else s.refuse wrongPassword
  | .locale username l => s.save sha256Hex (.locale username l) s.log.length env

/-- The hash that an operation generates. -/
def State.newHash (s : State) : Op → Option String
  | .resume n newHash _ _ =>
    (s.tasks[n]?).bind fun task => if task.hashes verifyPassword then some newHash else none
  | _ => none

def State.handle (s : State) : Op → Option (State × Answer)
  | .setup body admitted => some (s.setup body admitted)
  | .request username req env => some (s.request sha256Hex username req env)
  | .resume n newHash secret env =>
    (s.tasks[n]?).map fun task =>
      let s := { s with
        tasks := s.tasks.eraseIdx n
        hashes := s.hashes ++ (s.newHash verifyPassword (.resume n newHash secret env)).toList }
      s.resume sha256Hex verifyPassword task newHash secret env
  | .reserve prefer allowed now => some ({ s with pool := (s.pool.reserveFiltered prefer allowed now).2 }, none)
  | .release lane stamp => some ({ s with pool := s.pool.release lane stamp }, none)
  | .penalize lane backoff now => some ({ s with pool := s.pool.penalize lane backoff now }, none)

def step (s : State) (op : Op) : Option State :=
  (s.handle sha256Hex verifyPassword op).map (·.1)

end

/-! ### What one operation can do -/

/-- The state that `commit` leaves behind when it goes through. -/
def State.published (s : State) (cand : StoredConfig) (now : Nat) : State :=
  { s with
    store := cand
    cfg := cand.runtime
    pool := s.pool.rebuild cand.poolSpecs now
    retention := if cand.historyDays ≠ s.store.historyDays then cand.historyDays else s.retention
    configRevision := s.configRevision + 1 }

theorem commit_cases {s s' : State} {cand : StoredConfig} {env : Env} {r : Except String Unit}
    (h : s.commit cand env = (s', r)) :
    (∃ e, r = .error e ∧ s' = s) ∨
      (r = .ok () ∧ cand.validate = .ok () ∧ s' = s.published cand env.now) := by
  unfold State.commit at h
  split at h
  · rename_i e _
    cases h
    exact .inl ⟨e, rfl, rfl⟩
  · rename_i hvalid
    split at h
    · cases h
      exact .inl ⟨_, rfl, rfl⟩
    · cases h
      refine .inr ⟨rfl, hvalid, ?_⟩
      unfold State.published
      split <;> rfl

section
variable {sha256Hex : String → String} {verifyPassword : String → String → Bool}

theorem save_cases {s s' : State} {v : Save} {since : Nat} {env : Env} {r : Answer}
    (h : s.save sha256Hex v since env = (s', r)) :
    (∃ e, r = some (.error e) ∧ s' = s) ∨
      ∃ cand, r = some (.ok ()) ∧ v.candidate sha256Hex s.store = .ok cand ∧ cand.validate = .ok () ∧
        s' = { s.published cand env.now with log := s.log ++ [⟨v, since, s.store, cand⟩] } := by
  unfold State.save at h
  split at h
  · rename_i e _
    cases h
    exact .inl ⟨e, rfl, rfl⟩
  · rename_i cand hcand
    rcases hc : s.commit cand env with ⟨s₁, r₁⟩
    rw [hc] at h
    rcases commit_cases hc with ⟨e, rfl, rfl⟩ | ⟨rfl, hvalid, rfl⟩
    · cases h
      exact .inl ⟨_, rfl, rfl⟩
    · cases h
      exact .inr ⟨cand, rfl, hcand, hvalid, rfl⟩

/-- What a request has read by the time it lets go of the lock. -/
inductive Admits (s : State) : Op → Task → Prop where
  | setup {body : SetupBody} (hreq : s.setupRequired = true) : Admits s (.setup body true) (.setup body.req)
  | users {username password : String} {req : UsersReq} {env : Env} (hadmin : IsAdmin s.store username) :
      Admits s (.request username (.users req password) env) (.users username req)
  | password {username current new : String} {env : Env} {user : User}
      (huser : s.store.user username = some user) :
      Admits s (.request username (.account (.password current new)) env)
        (.password username current user.passwordHash s.log.length)
  | locale {username l l' : String} {env : Env} (hadmin : IsAdmin s.store username) :
      Admits s (.request username (.locale l) env) (.locale username l')

/-- Where a commit comes from, and since when it has relied on what it read. -/
inductive Origin (verifyPassword : String → String → Bool) (s : State) : Op → Save → Nat → Prop where
  | edit {username : String} {e : Edit} {env : Env} :
      Origin verifyPassword s (.request username (.edit e) env) (.edit username e) s.log.length
  | accountLocale {username : String} {l l' : Option String} {env : Env} :
      Origin verifyPassword s (.request username (.account (.locale l)) env) (.accountLocale username l')
        s.log.length
  | task {n : Nat} {newHash secret : String} {env : Env} {t : Task} {save : Save} (htask : s.tasks[n]? = some t)
      (hsave : t.save newHash secret = some save)
      (hverify : ∀ {username current stored since}, t = .password username current stored since →
        verifyPassword current stored = true)
      (hnew : save.newHash = s.newHash verifyPassword (.resume n newHash secret env)) :
      Origin verifyPassword s (.resume n newHash secret env) save (t.since s.log)

/-- The tasks after an operation that lets go of at most one. -/
def State.withNewHash (s : State) (verifyPassword : String → String → Bool) (op : Op) (tasks : List Task) :
    State :=
  { s with tasks := tasks, hashes := s.hashes ++ (s.newHash verifyPassword op).toList }

/-- What one operation can do. -/
inductive Step (sha256Hex : String → String) (verifyPassword : String → String → Bool) (s : State) (op : Op) :
    Answer → State → Prop where
  | refused {e : ApiError} {tasks : List Task} (htasks : ∀ t ∈ tasks, t ∈ s.tasks) :
      Step sha256Hex verifyPassword s op (some (.error e)) (s.withNewHash verifyPassword op tasks)
  | deferred {t : Task} (htask : Admits s op t) (hnew : s.newHash verifyPassword op = none) :
      Step sha256Hex verifyPassword s op none { s with tasks := s.tasks ++ [t] }
  | cleared {tasks : List Task} (htasks : ∀ t ∈ tasks, t ∈ s.tasks) (hdone : .setupDone ∈ s.tasks)
      (hnew : s.newHash verifyPassword op = none) :
      Step sha256Hex verifyPassword s op (some (.ok ())) { s with tasks := tasks, setupRequired := false }
  | commits {save : Save} {since now : Nat} {cand : StoredConfig} {tasks : List Task} {r : Answer}
      (horigin : Origin verifyPassword s op save since) (hcand : save.candidate sha256Hex s.store = .ok cand)
      (hvalid : cand.validate = .ok ()) (hr : ∀ e, r ≠ some (.error e))
      (htasks : ∀ t ∈ tasks, t ∈ s.tasks ∨ t = .setupDone ∧ ∃ req hash secret, save = .setup req hash secret) :
      Step sha256Hex verifyPassword s op r
        { (s.withNewHash verifyPassword op tasks).published cand now with
          log := s.log ++ [⟨save, since, s.store, cand⟩] }
  | traffic {pool : Pool} (hpool : Pool.SameLanes s.pool pool) (hnew : s.newHash verifyPassword op = none) :
      Step sha256Hex verifyPassword s op none { s with pool := pool }

theorem withNewHash_self {s : State} {op : Op} (h : s.newHash verifyPassword op = none) :
    s.withNewHash verifyPassword op s.tasks = s := by
  simp [State.withNewHash, h]

/-- A refusal changes nothing. -/
theorem Step.refuse {s : State} {op : Op} (h : s.newHash verifyPassword op = none) (e : ApiError) :
    Step sha256Hex verifyPassword s op (some (.error e)) s := by
  have : Step sha256Hex verifyPassword s op (some (.error e)) (s.withNewHash verifyPassword op s.tasks) :=
    .refused fun _ ht => ht
  rwa [withNewHash_self h] at this

theorem setup_step {s s' : State} {body : SetupBody} {admitted : Bool} {r : Answer}
    (h : s.setup body admitted = (s', r)) : Step sha256Hex verifyPassword s (.setup body admitted) r s' := by
  unfold State.setup at h
  split at h
  · cases h; exact .refuse rfl _
  · rename_i hreq
    split at h
    · cases h; exact .refuse rfl _
    · split at h
      · cases h; exact .refuse rfl _
      · rename_i hadm
        obtain rfl : admitted = true := by simpa using hadm
        cases h
        exact .deferred (.setup (by simpa using hreq)) rfl

/-- A request with a single critical section. -/
theorem save_step {s s' : State} {username : String} {req : Request} {env : Env} {r : Answer} {v : Save}
    (ho : Origin verifyPassword s (.request username req env) v s.log.length)
    (h : s.save sha256Hex v s.log.length env = (s', r)) :
    Step sha256Hex verifyPassword s (.request username req env) r s' := by
  rcases save_cases h with ⟨e, rfl, rfl⟩ | ⟨cand, rfl, hcand, hvalid, rfl⟩
  · exact .refuse rfl _
  · have hstep : Step sha256Hex verifyPassword s (.request username req env) (some (.ok ()))
        { (s.withNewHash verifyPassword (.request username req env) s.tasks).published cand env.now with
          log := s.log ++ [⟨v, s.log.length, s.store, cand⟩] } :=
      .commits ho hcand hvalid (by simp) fun _ ht => .inl ht
    rwa [withNewHash_self rfl] at hstep

theorem request_step {s s' : State} {username : String} {req : Request} {env : Env} {r : Answer}
    (h : s.request sha256Hex username req env = (s', r)) :
    Step sha256Hex verifyPassword s (.request username req env) r s' := by
  unfold State.request at h
  split at h
  · cases h; exact .refuse rfl _
  · split at h
    · exact save_step .edit h
    · split at h
      · cases h; exact .refuse rfl _
      · rename_i hadmin
        split at h
        · cases h; exact .refuse rfl _
        · cases h
          exact .deferred (.users (requireAdmin_ok hadmin)) rfl
    · cases h; exact .refuse rfl _
    · cases h; exact .refuse rfl _
    · exact save_step .accountLocale h
    · split at h
      · cases h; exact .refuse rfl _
      · exact save_step .accountLocale h
    · split at h
      · cases h; exact .refuse rfl _
      · split at h
        · cases h; exact .refuse rfl _
        · rename_i huser
          cases h
          exact .deferred (.password huser) rfl
    · split at h
      · cases h; exact .refuse rfl _
      · rename_i hadmin
        split at h
        · cases h; exact .refuse rfl _
        · cases h
          exact .deferred (.locale (requireAdmin_ok hadmin)) rfl

/-- A task takes the lock again: it is refused, or commits and may leave a task behind. -/
theorem resume_save_cases {s s' : State} {n : Nat} {newHash secret : String} {env : Env} {t : Task} {v : Save}
    {r : Answer} (ht : s.tasks[n]? = some t) (hsave : t.save newHash secret = some v)
    (hverify : ∀ {username current stored since}, t = .password username current stored since →
      verifyPassword current stored = true)
    (hnew : v.newHash = s.newHash verifyPassword (.resume n newHash secret env))
    (h : (s.withNewHash verifyPassword (.resume n newHash secret env) (s.tasks.eraseIdx n)).save sha256Hex v
      (t.since s.log) env = (s', r)) :
    (∃ e, r = some (.error e) ∧ Step sha256Hex verifyPassword s (.resume n newHash secret env) r s') ∨
      r = some (.ok ()) ∧ s'.tasks = s.tasks.eraseIdx n ∧
        ∀ r' tasks, (∀ e, r' ≠ some (.error e)) → (∀ t ∈ tasks, t ∈ s.tasks ∨
            t = .setupDone ∧ ∃ req hash secret, v = .setup req hash secret) →
          Step sha256Hex verifyPassword s (.resume n newHash secret env) r' { s' with tasks := tasks } := by
  rcases save_cases h with ⟨e, rfl, rfl⟩ | ⟨cand, rfl, hcand, hvalid, rfl⟩
  · exact .inl ⟨e, rfl, .refused fun _ h => List.mem_of_mem_eraseIdx h⟩
  · exact .inr ⟨rfl, rfl, fun r' tasks hr htasks =>
      .commits (.task ht hsave hverify hnew) hcand hvalid hr htasks⟩

theorem resume_save_step {s s' : State} {n : Nat} {newHash secret : String} {env : Env} {t : Task} {v : Save}
    {r : Answer} (ht : s.tasks[n]? = some t) (hsave : t.save newHash secret = some v)
    (hverify : ∀ {username current stored since}, t = .password username current stored since →
      verifyPassword current stored = true)
    (hnew : v.newHash = s.newHash verifyPassword (.resume n newHash secret env))
    (h : (s.withNewHash verifyPassword (.resume n newHash secret env) (s.tasks.eraseIdx n)).save sha256Hex v
      (t.since s.log) env = (s', r)) :
    Step sha256Hex verifyPassword s (.resume n newHash secret env) r s' := by
  rcases resume_save_cases ht hsave hverify hnew h with ⟨e, rfl, hstep⟩ | ⟨rfl, htasks, hstep⟩
  · exact hstep
  · exact hstep _ s'.tasks (by simp) fun t ht => .inl (List.mem_of_mem_eraseIdx (htasks ▸ ht))

theorem resume_step {s s' : State} {n : Nat} {newHash secret : String} {env : Env} {t : Task} {r : Answer}
    (ht : s.tasks[n]? = some t)
    (h : (s.withNewHash verifyPassword (.resume n newHash secret env) (s.tasks.eraseIdx n)).resume sha256Hex
      verifyPassword t newHash secret env = (s', r)) :
    Step sha256Hex verifyPassword s (.resume n newHash secret env) r s' := by
  have hmem := List.mem_of_getElem? ht
  have hsub : ∀ t ∈ s.tasks.eraseIdx n, t ∈ s.tasks := fun _ h => List.mem_of_mem_eraseIdx h
  have hnew : s.newHash verifyPassword (.resume n newHash secret env) =
      if t.hashes verifyPassword then some newHash else none := by simp [State.newHash, ht]
  cases t with
  | setupDone =>
    cases h
    have hnone : s.newHash verifyPassword (.resume n newHash secret env) = none := by simp [hnew, Task.hashes]
    simpa [State.withNewHash, hnone] using Step.cleared hsub hmem hnone
  | setup req =>
    simp only [State.resume] at h
    split at h
    · rename_i s₁ hs
      cases h
      rcases resume_save_cases ht rfl (by simp) (by simp [hnew, Task.hashes, Save.newHash]) hs with
        ⟨e, he, -⟩ | ⟨-, htasks, hstep⟩
      · cases he
      · refine hstep none _ (by simp) fun t ht => ?_
        rcases List.mem_append.1 ht with ht | ht
        · exact .inl (hsub t (htasks ▸ ht))
        · exact .inr ⟨List.mem_singleton.1 ht, req, newHash, secret, rfl⟩
    · exact resume_save_step ht rfl (by simp) (by simp [hnew, Task.hashes, Save.newHash]) h
  | users username req => exact resume_save_step ht rfl (by simp) (by rw [hnew]; rfl) h
  | password username current stored since =>
    simp only [State.resume] at h
    split at h
    · rename_i hok
      refine resume_save_step ht rfl ?_ (by simp [hnew, Task.hashes, Save.newHash, hok]) h
      intro _ _ _ _ he
      cases he
      exact hok
    · cases h
      exact .refused hsub
  | locale username l => exact resume_save_step ht rfl (by simp) (by simp [hnew, Task.hashes, Save.newHash]) h

theorem handle_step {s s' : State} {op : Op} {r : Answer}
    (h : s.handle sha256Hex verifyPassword op = some (s', r)) : Step sha256Hex verifyPassword s op r s' := by
  cases op with
  | setup body admitted => exact setup_step (Option.some.inj h)
  | request username req env => exact request_step (Option.some.inj h)
  | resume n newHash secret env =>
    obtain ⟨t, ht, h⟩ := Option.map_eq_some_iff.1 h
    exact resume_step ht h
  | reserve prefer allowed now =>
    cases h
    exact .traffic (.reserveFiltered ..) rfl
  | release lane stamp =>
    cases h
    exact .traffic (.release ..) rfl
  | penalize lane backoff now =>
    cases h
    exact .traffic (.penalize ..) rfl

theorem step_cases {s s' : State} {op : Op} (h : step sha256Hex verifyPassword s op = some s') :
    ∃ r, Step sha256Hex verifyPassword s op r s' := by
  obtain ⟨⟨s₁, r⟩, hs, rfl⟩ := Option.map_eq_some_iff.1 h
  exact ⟨r, handle_step hs⟩

end

end OpenProxy.AppState
