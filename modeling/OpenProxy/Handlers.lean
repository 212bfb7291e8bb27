import OpenProxy.Settings

/-!
# Setup, client keys, server sections and accounts (`settings.rs`)

The handlers that `Settings` leaves: the first-run claim, client keys, limits, history, governor, locales.
With them every way to change the store is a `Save`: one critical section that builds a candidate and
commits it. `Effect` says what a save can do to users, keys and client keys, and on whose authority; what
follows about authority is a case analysis over it.

Handlers that only read the store (`api_config`, the two key probes) are left out.
-/

namespace OpenProxy

open Text

def setupComplete : ApiError := ⟨409, "setup_complete", "setup is already complete"⟩

def setupRequiredError : ApiError :=
  ⟨503, "setup_required", "first-time setup has not been completed; open the dashboard to create the superuser"⟩

def throttled : ApiError := ⟨429, "throttled", "too many validation attempts, try again shortly"⟩

def weakPassword : ApiError := ⟨400, "weak_password", "password must be at least 10 characters"⟩

def wrongPassword : ApiError := ⟨403, "wrong_password", "current password is incorrect"⟩

def passwordChanged : ApiError :=
  ⟨409, "password_changed", "your password was changed while this request was in flight; log in again"⟩

/-- `locale_error_response`. -/
def LocaleError.response : LocaleError → ApiError
  | .invalid => ⟨400, "invalid_locale", "locale is not valid"⟩
  | .notInstalled locale => ⟨400, "locale_not_installed", s!"locale {locale} is not installed"⟩

namespace Settings

/-! ### First-run setup -/

structure SetupKey where
  key : String
  rpm : Option Nat := none

structure SetupGroup where
  name : String
  baseUrl : String
  keys : List SetupKey := []
  supportsStreamOptions : Bool := true

structure SetupReq where
  username : String
  password : String
  baseUrl : Option String := none
  nimKeys : List SetupKey := []
  groups : List SetupGroup := []
  /-- The name of a first client key. -/
  createClientKey : Option String := none

/-- The native form: a projection of the wizard's fields. -/
structure NoScriptSetupForm where
  username : String
  password : String
  baseUrl : Option String := none
  nimKey : Option String := none
  nimRpm : Option Nat := none

inductive SetupBody where
  | json (req : SetupReq)
  | form (form : NoScriptSetupForm)

def NoScriptSetupForm.req (form : NoScriptSetupForm) : SetupReq where
  username := form.username
  password := form.password
  baseUrl := form.baseUrl
  nimKeys := ((form.nimKey.filter fun key => trim key != "").map fun key => ⟨key, form.nimRpm⟩).toList

def SetupBody.req : SetupBody → SetupReq
  | .json r => r
  | .form f => f.req

def SetupKey.nimKey (username : String) (k : SetupKey) : NimKey := ⟨trim k.key, username, true, k.rpm.getD 40⟩

def SetupGroup.endpoint (username : String) (g : SetupGroup) : UpstreamEndpoint where
  name := trim g.name
  baseUrl := normalizeBaseUrl (trim g.baseUrl)
  keys := g.keys.map (·.nimKey username)
  supportsStreamOptions := g.supportsStreamOptions

namespace SetupReq

/-- The new superuser is the only user and adopts the primary group's keys and the client keys; keys of the
other groups keep their owners. A base URL sent along is the primary group's. -/
def adopt (req : SetupReq) (hash : String) (cand : StoredConfig) : StoredConfig :=
  { cand with
    users := [⟨req.username, hash, .superuser, none⟩]
    upstream := { cand.upstream with
      nimKeys := cand.upstream.nimKeys.map ({ · with owner := req.username })
      baseUrl := (req.baseUrl.map fun b => trimEndMatches (trim b) "/").getD cand.upstream.baseUrl }
    clientAuth := { cand.clientAuth with
      keys := cand.clientAuth.keys.map ({ · with owner := req.username }) } }

/-- The first group fills the primary one, the others are appended. -/
def populate (req : SetupReq) (cand : StoredConfig) : StoredConfig :=
  match req.groups with
  | first :: groups =>
    { cand with
      upstream := { cand.upstream with
        baseUrl := if first.baseUrl = "" then cand.upstream.baseUrl
          else normalizeBaseUrl (trim first.baseUrl)
        nimKeys := cand.upstream.nimKeys ++ first.keys.map (·.nimKey req.username) }
      upstreams := cand.upstreams ++
        (groups.filter fun g => trim g.name != primaryUpstream).map (·.endpoint req.username) }
  | [] =>
    { cand with upstream := { cand.upstream with
        nimKeys := cand.upstream.nimKeys ++ req.nimKeys.map (·.nimKey req.username) } }

end SetupReq

def last4 (s : String) : String := .ofList (s.toList.drop (s.toList.length - 4))

section
variable (sha256Hex : String → String)

/-- First 8 hex digits of the digest: the public name of a stored key. -/
def fingerprint (key : String) : String := .ofList ((sha256Hex key).toList.take 8)

/-- A client key with the secret just minted. -/
def mintClientKey (cand : StoredConfig) (name owner secret : String) : StoredConfig :=
  { cand with clientAuth := { cand.clientAuth with
      keys := cand.clientAuth.keys ++ [⟨trim name, sha256Hex secret, last4 secret, owner⟩] } }

/-- `setup_submit` under the store lock. -/
def setupSubmit (guard : StoredConfig) (req : SetupReq) (hash secret : String) : Except ApiError StoredConfig :=
  if guard.superuser.isSome then .error setupComplete
  else
    let cand := req.populate (req.adopt hash guard)
    .ok (match req.createClientKey with
      | some name => mintClientKey sha256Hex cand name req.username secret
      | none => cand)

/-! ### Client keys -/

structure ClientsReq where
  add : Option String := none
  remove : Option String := none
  mode : Option String := none

def clients (guard : StoredConfig) (username : String) (req : ClientsReq) (secret : String) :
    Except ApiError StoredConfig :=
  match roleOf guard username with
  | none => .error staleSession
  | some role =>
    match req.add, req.remove, req.mode with
    | some name, none, none => .ok (mintClientKey sha256Hex guard name username secret)
    | none, some name, none =>
      match guard.clientAuth.keys.find? (·.name == name) with
      | none => .error (badRequest "no such client key")
      | some c =>
        if !role.isAdmin && c.owner != username then
          .error (forbidden "you can only revoke your own client keys")
        else
          .ok { guard with clientAuth := { guard.clientAuth with
            keys := guard.clientAuth.keys.eraseP (·.name == name) } }
    | none, none, some mode =>
      if !role.isAdmin then .error (forbidden "changing the API access mode requires an admin")
      else if mode = "open" then .ok { guard with clientAuth := { guard.clientAuth with mode := .opened } }
      else if mode = "keyed" then .ok { guard with clientAuth := { guard.clientAuth with mode := .keyed } }
      else .error (badRequest "mode must be \"open\" or \"keyed\"")
    | _, _, _ => .error (badRequest "send exactly one of add / remove / mode")

end

/-! ### Server sections -/

/-- What the `admin_section!` handlers share. -/
def adminSection (guard : StoredConfig) (username : String) (apply : StoredConfig → StoredConfig) :
    Except ApiError StoredConfig := do
  requireAdmin guard username adminServer
  return apply guard

def limits (guard : StoredConfig) (username : String) (req : Limits) : Except ApiError StoredConfig :=
  adminSection guard username fun cand => { cand with limits := req }

structure HistoryReq where
  days : Nat
  defaultWindowDays : Nat
  /-- `none` is a float that is not finite. -/
  sloTargetPercent : Option Rat

def history (guard : StoredConfig) (username : String) (req : HistoryReq) : Except ApiError StoredConfig :=
  adminSection guard username fun cand =>
    { cand with
      historyDays := req.days
      dashboard := ⟨req.defaultWindowDays, req.sloTargetPercent⟩ }

structure GovernorReq where
  enabled : Option Bool := none
  /-- Model and its cap. -/
  setOverride : Option (String × Nat) := none
  removeOverride : Option String := none

def governorCfg (guard : StoredConfig) (username : String) (req : GovernorReq) : Except ApiError StoredConfig :=
  adminSection guard username fun cand =>
    let set := match req.setOverride with
      | some (model, cap) => cand.governor.overrides.insert model cap
      | none => cand.governor.overrides
    let overrides := match req.removeOverride with
      | some model => set.erase model
      | none => set
    { cand with governor := ⟨req.enabled.getD cand.governor.enabled, overrides⟩ }

/-! ### Locales -/

/-- `account` with a locale: the caller's own preference. -/
def accountLocale (guard : StoredConfig) (username : String) (locale : Option String) :
    Except ApiError StoredConfig :=
  match guard.user username with
  | none => .error staleSession
  | some _ => .ok { guard with users := editUser guard.users username ({ · with locale := locale }) }

/-- `locale` under its second lock: the server's default. -/
def locale (guard : StoredConfig) (username locale : String) : Except ApiError StoredConfig :=
  adminSection guard username fun cand => { cand with defaultLocale := locale }

def PasswordChangeErr.response : PasswordChangeErr → ApiError
  | .userGone => staleSession
  | .hashRotated => passwordChanged

/-! ### Every way to change the store -/

/-- The handlers with a single critical section. -/
inductive Edit where
  | nimKeys (req : NimKeysReq)
  | clients (req : ClientsReq) (secret : String)
  | upstreams (req : UpstreamsReq)
  | upstream (baseUrl : String)
  | models (disabled : List String)
  | server (baseUrl : String) (limits : Limits)
  | limits (req : Limits)
  | history (req : HistoryReq)
  | governor (req : GovernorReq)

/-- A critical section that builds a candidate and commits it, with what its handler computed before it took
the lock: the hash of a new password, a client secret, the hash that the current password was verified against. -/
inductive Save where
  | setup (req : SetupReq) (hash secret : String)
  | edit (username : String) (e : Edit)
  | users (username : String) (req : UsersReq) (newHash : String)
  | password (username current verifiedHash newHash : String)
  | accountLocale (username : String) (locale : Option String)
  | locale (username locale : String)

/-- On whose behalf; the first-run claim has no principal. -/
def Save.caller : Save → Option String
  | .setup _ _ _ => none
  | .edit username _ | .users username _ _ | .password username _ _ _ | .accountLocale username _
  | .locale username _ => some username

section
variable (sha256Hex : String → String)

def Edit.candidate (guard : StoredConfig) (username : String) : Edit → Except ApiError StoredConfig
  | .nimKeys req => Settings.nimKeys (fingerprint sha256Hex) guard username req
  | .clients req secret => Settings.clients sha256Hex guard username req secret
  | .upstreams req => Settings.upstreams guard username req
  | .upstream baseUrl => Settings.upstream guard username baseUrl
  | .models disabled => modelsCfg guard username disabled
  | .server baseUrl l => Settings.server guard username baseUrl l
  | .limits req => Settings.limits guard username req
  | .history req => Settings.history guard username req
  | .governor req => governorCfg guard username req

def Save.candidate (guard : StoredConfig) : Save → Except ApiError StoredConfig
  | .setup req hash secret => setupSubmit sha256Hex guard req hash secret
  | .edit username e => Edit.candidate sha256Hex guard username e
  | .users username req newHash => Settings.users guard username req newHash
  | .password username _ verifiedHash newHash =>
    (applyPasswordChange guard username verifiedHash newHash).mapError PasswordChangeErr.response
  | .accountLocale username l => Settings.accountLocale guard username l
  | .locale username l => Settings.locale guard username l

end

/-- Whether a `users` request brings a new password. -/
def UsersReq.hashes (req : UsersReq) : Bool := req.add.isSome != req.resetPassword.isSome

/-- The hash of a new password that a save brings along. -/
def Save.newHash : Save → Option String
  | .setup _ hash _ => some hash
  | .users _ req newHash => if req.hashes then some newHash else none
  | .password _ _ _ newHash => some newHash
  | .edit _ _ | .accountLocale _ _ | .locale _ _ => none

/-- The user whose stored hash a save sets, replaces or deletes. -/
def Save.rehashes : Save → Option String
  | .setup req _ _ => some req.username
  | .users _ req _ =>
    (req.add.map fun add => trim add.1).orElse fun _ => req.remove.orElse fun _ => req.resetPassword
  | .password username _ _ _ => some username
  | .edit _ _ | .accountLocale _ _ | .locale _ _ => none

/-- The user who edits their own account. -/
def Save.account : Save → Option String
  | .password username _ _ _ | .accountLocale username _ => some username
  | .setup _ _ _ | .edit _ _ | .users _ _ _ | .locale _ _ => none

end Settings

namespace StoredConfig

/-- The store without what `username` owns: its keys, its client keys, its password and its locale. -/
def foreign (sc : StoredConfig) (username : String) : StoredConfig :=
  { sc with
    upstream := { sc.upstream with nimKeys := sc.upstream.nimKeys.filter (·.owner != username) }
    upstreams := sc.upstreams.map fun ep => { ep with keys := ep.keys.filter (·.owner != username) }
    clientAuth := { sc.clientAuth with keys := sc.clientAuth.keys.filter (·.owner != username) }
    users := sc.users.map fun u =>
      if u.username = username then { u with passwordHash := "", locale := none } else u }

def hashOf (sc : StoredConfig) (username : String) : Option String := (sc.user username).map (·.passwordHash)

end StoredConfig

namespace Settings

def IsAdmin (sc : StoredConfig) (username : String) : Prop := ∃ role, roleOf sc username = some role ∧ role.isAdmin

/-- What a save can make of the locked store. -/
inductive Effect (guard : StoredConfig) : Save → StoredConfig → Prop where
  | claims {req : SetupReq} {hash secret : String} {cand : StoredConfig} (hsu : guard.superuser = none)
      (husers : cand.users = [⟨req.username, hash, .superuser, none⟩]) : Effect guard (.setup req hash secret) cand
  | administers {save : Save} {username : String} {cand : StoredConfig} (hcaller : save.caller = some username)
      (hadmin : IsAdmin guard username) (hsave : save.rehashes = none) (husers : cand.users = guard.users) :
      Effect guard save cand
  | ownKeys {username : String} {e : Edit} {cand : StoredConfig}
      (hforeign : cand.foreign username = guard.foreign username) (husers : cand.users = guard.users) :
      Effect guard (.edit username e) cand
  | adds {username newHash : String} {req : UsersReq} {cand : StoredConfig} {user : User}
      (hadmin : IsAdmin guard username) (hsave : (Save.users username req newHash).rehashes = some user.username)
      (hnew : req.hashes = true) (hrole : user.role ≠ .superuser) (hhash : user.passwordHash = newHash)
      (husers : cand.users = guard.users ++ [user]) : Effect guard (.users username req newHash) cand
  | removes {username newHash target : String} {req : UsersReq} {cand : StoredConfig} {user : User}
      (hadmin : IsAdmin guard username) (hsave : (Save.users username req newHash).rehashes = some target)
      (huser : guard.user target = some user) (hrole : user.role ≠ .superuser)
      (husers : cand.users = guard.users.filter (·.username != target)) :
      Effect guard (.users username req newHash) cand
  | resets {username newHash target : String} {req : UsersReq} {cand : StoredConfig} {user : User}
      (hadmin : IsAdmin guard username) (hsave : (Save.users username req newHash).rehashes = some target)
      (hnew : req.hashes = true) (huser : guard.user target = some user) (hrole : user.role ≠ .superuser)
      (husers : cand.users = editUser guard.users target ({ · with passwordHash := newHash })) :
      Effect guard (.users username req newHash) cand
  | setsRole {username newHash target : String} {req : UsersReq} {cand : StoredConfig} {user : User} {role : Role}
      (hadmin : IsAdmin guard username) (hsave : (Save.users username req newHash).rehashes = none)
      (huser : guard.user target = some user) (hrole : user.role ≠ .superuser) (hnew : role ≠ .superuser)
      (husers : cand.users = editUser guard.users target ({ · with role := role })) :
      Effect guard (.users username req newHash) cand
  | ownPassword {username current verifiedHash newHash : String} {user : User}
      (huser : guard.user username = some user) (hhash : user.passwordHash = verifiedHash) :
      Effect guard (.password username current verifiedHash newHash)
        { guard with users := editUser guard.users username ({ · with passwordHash := newHash }) }
  | ownLocale {username : String} {l : Option String} {user : User} (huser : guard.user username = some user) :
      Effect guard (.accountLocale username l)
        { guard with users := editUser guard.users username ({ · with locale := l }) }

/-! ### Key lists and their owners -/

section
variable {username : String}

theorem filter_updateFirst {f : NimKey → Option NimKey} {p : NimKey → Bool}
    (hf : ∀ k, f k = none ↔ p k = false) (ho : ∀ {k k'}, f k = some k' → k'.owner = k.owner)
    {keys keys' : List NimKey} {k : NimKey} (hk : keys.find? p = some k) (hown : k.owner = username)
    (h : updateFirst f keys = some keys') :
    keys'.filter (·.owner != username) = keys.filter (·.owner != username) := by
  induction keys generalizing keys' with
  | nil => cases h
  | cons a keys ih =>
    rw [List.find?_cons] at hk
    unfold updateFirst at h
    cases hp : p a with
    | true =>
      rw [hp] at hk
      obtain rfl : a = k := by simpa using hk
      split at h
      · rename_i a' ha
        cases h
        simp [ho ha, hown]
      · rename_i ha
        exact absurd ((hf a).1 ha) (by simp [hp])
    | false =>
      rw [hp] at hk
      rw [(hf a).2 hp] at h
      obtain ⟨rest, hrest, rfl⟩ := Option.map_eq_some_iff.1 h
      rw [List.filter_cons, List.filter_cons, ih (by simpa using hk) hrest]

theorem filter_eraseP {α : Type} {o : α → String} {p : α → Bool} {keys : List α} {k : α}
    (hk : keys.find? p = some k) (hown : o k = username) :
    (keys.eraseP p).filter (o · != username) = keys.filter (o · != username) := by
  induction keys with
  | nil => cases hk
  | cons a keys ih =>
    rw [List.find?_cons] at hk
    cases hp : p a with
    | true =>
      rw [hp] at hk
      obtain rfl : a = k := by simpa using hk
      simp [hp, hown]
    | false =>
      rw [hp] at hk
      rw [List.eraseP_cons_of_neg (by simp [hp]), List.filter_cons, List.filter_cons, ih (by simpa using hk)]

theorem groupKeys_map_snd (sc : StoredConfig) :
    sc.groupKeys.map (·.2) = sc.upstream.nimKeys ++ sc.upstreams.flatMap (·.keys) := by
  simp [StoredConfig.groupKeys, List.map_flatMap, Function.comp_def]

/-- An edit that finds its key with `p`, in the first list that has one, and leaves the keys of others alone
if that key belongs to `username`. -/
structure OwnEdit (username : String) (p : NimKey → Bool) (f : List NimKey → Option (List NimKey)) : Prop where
  missed : ∀ {keys}, f keys = none → keys.find? p = none
  found : ∀ {keys keys'}, f keys = some keys' → ∃ k, keys.find? p = some k ∧
    (k.owner = username → keys'.filter (·.owner != username) = keys.filter (·.owner != username))

theorem OwnEdit.upstreams {p : NimKey → Bool} {f : List NimKey → Option (List NimKey)}
    (hf : OwnEdit username p f) {eps eps' : List UpstreamEndpoint} {k : NimKey}
    (hk : (eps.flatMap (·.keys)).find? p = some k) (hown : k.owner = username)
    (h : updateFirst (fun ep => (f ep.keys).map fun keys => { ep with keys := keys }) eps = some eps') :
    (eps'.map fun ep => { ep with keys := ep.keys.filter (·.owner != username) }) =
      eps.map fun ep => { ep with keys := ep.keys.filter (·.owner != username) } := by
  induction eps generalizing eps' with
  | nil => cases h
  | cons ep eps ih =>
    rw [List.flatMap_cons, List.find?_append] at hk
    unfold updateFirst at h
    cases hep : f ep.keys with
    | some keys =>
      rw [hep] at h
      cases h
      obtain ⟨k', hk', hkeys⟩ := hf.found hep
      rw [hk'] at hk
      obtain rfl : k' = k := by simpa using hk
      simp [hkeys hown]
    | none =>
      rw [hep] at h
      rw [hf.missed hep] at hk
      obtain ⟨rest, hrest, rfl⟩ := Option.map_eq_some_iff.1 h
      rw [List.map_cons, List.map_cons, ih (by simpa using hk) hrest]

theorem OwnEdit.foreign {p : NimKey → Bool} {f : List NimKey → Option (List NimKey)}
    (hf : OwnEdit username p f) {sc cand : StoredConfig} {k : NimKey}
    (hk : (sc.groupKeys.map (·.2)).find? p = some k) (hown : k.owner = username)
    (h : updateGroups sc f = some cand) : cand.foreign username = sc.foreign username := by
  rw [groupKeys_map_snd, List.find?_append] at hk
  unfold updateGroups at h
  split at h
  · rename_i keys hkeys
    cases h
    obtain ⟨k', hk', hfilter⟩ := hf.found hkeys
    rw [hk'] at hk
    obtain rfl : k' = k := by simpa using hk
    simp only [StoredConfig.foreign, hfilter hown]
  · rename_i hnone
    rw [hf.missed hnone] at hk
    obtain ⟨eps, heps, rfl⟩ := Option.map_eq_some_iff.1 h
    simp only [StoredConfig.foreign, hf.upstreams (by simpa using hk) hown heps]

theorem ownEdit_set {p : NimKey → Bool} {f : NimKey → Option NimKey} (hf : ∀ k, f k = none ↔ p k = false)
    (ho : ∀ {k k'}, f k = some k' → k'.owner = k.owner) : OwnEdit username p (updateFirst f) := by
  have hnone : ∀ keys, updateFirst f keys = none ↔ keys.find? p = none := by
    intro keys
    induction keys with
    | nil => simp [updateFirst]
    | cons a keys ih =>
      unfold updateFirst
      rw [List.find?_cons]
      cases hp : p a with
      | false => simp only [(hf a).2 hp, Option.map_eq_none_iff, ih]
      | true =>
        obtain ⟨a', ha⟩ := Option.ne_none_iff_exists'.1 fun h => by simpa [hp] using (hf a).1 h
        simp [ha]
  refine ⟨fun {keys} => (hnone keys).1, fun {keys keys'} h => ?_⟩
  obtain ⟨k, hk⟩ := Option.ne_none_iff_exists'.1 fun hk => by simp [(hnone keys).2 hk] at h
  exact ⟨k, hk, fun hown => filter_updateFirst hf ho hk hown h⟩

theorem ownEdit_remove (p : NimKey → Bool) :
    OwnEdit username p fun keys => if keys.any p then some (keys.eraseP p) else none := by
  refine ⟨fun {keys} h => ?_, fun {keys keys'} h => ?_⟩
  · simp only [ite_eq_right_iff, reduceCtorEq, imp_false, Bool.not_eq_true] at h
    simpa using h
  · split at h
    · rename_i hany
      cases h
      obtain ⟨k, hk⟩ := Option.isSome_iff_exists.1 (List.find?_isSome.2 (by simpa using hany))
      exact ⟨k, hk, filter_eraseP hk⟩
    · cases h

theorem editGroup_foreign {sc cand : StoredConfig} {name : String} {f : List NimKey → List NimKey}
    (hf : ∀ keys, (f keys).filter (·.owner != username) = keys.filter (·.owner != username))
    (h : editGroup sc name f = some cand) : cand.foreign username = sc.foreign username := by
  unfold editGroup at h
  split at h
  · cases h
    simp only [StoredConfig.foreign, hf]
  · obtain ⟨eps, heps, rfl⟩ := Option.map_eq_some_iff.1 h
    have := map_updateFirst (g := fun ep => { ep with keys := ep.keys.filter (·.owner != username) })
      (fun {ep ep'} hep => by
        split at hep
        · cases hep
          simp only [hf]
        · cases hep) heps
    simp only [StoredConfig.foreign, this]

end

/-! ### What each handler does -/

theorem requireAdmin_ok {sc : StoredConfig} {username msg : String} {u : Unit}
    (h : requireAdmin sc username msg = .ok u) : IsAdmin sc username := by
  unfold requireAdmin at h
  split at h
  · rename_i role hrole
    split at h
    · exact ⟨role, hrole, by assumption⟩
    · cases h
  · cases h

section
variable {guard cand : StoredConfig} {username : String}

/-- A client key is minted, one is revoked that the caller's role or name allows, or an admin sets the access mode. -/
inductive ClientsEdit (sha256Hex : String → String) (guard : StoredConfig) (username secret : String) (role : Role)
    (cand : StoredConfig) : Prop where
  | mints (name : String) (hcand : cand = mintClientKey sha256Hex guard name username secret)
  | revokes (name : String) (c : ClientKey) (hc : guard.clientAuth.keys.find? (·.name == name) = some c)
      (hown : ¬(!role.isAdmin && c.owner != username) = true)
      (hcand : cand = { guard with clientAuth := { guard.clientAuth with
        keys := guard.clientAuth.keys.eraseP (·.name == name) } })
  | setsMode (mode : Mode) (hadmin : role.isAdmin = true)
      (hcand : cand = { guard with clientAuth := { guard.clientAuth with mode := mode } })

theorem clients_cases {sha256Hex : String → String} {req : ClientsReq} {secret : String}
    (h : clients sha256Hex guard username req secret = .ok cand) :
    ∃ role, roleOf guard username = some role ∧ ClientsEdit sha256Hex guard username secret role cand := by
  unfold clients at h
  split at h
  · cases h
  · rename_i role hrole
    refine ⟨role, hrole, ?_⟩
    split at h
    · rename_i name _ _ _
      cases h
      exact .mints name rfl
    · rename_i name _ _ _
      split at h
      · cases h
      · rename_i c hc
        split at h
        · cases h
        · rename_i hown
          cases h
          exact .revokes name c hc hown rfl
    · split at h
      · cases h
      · rename_i hadmin
        have hadmin : role.isAdmin = true := by simpa using hadmin
        split at h
        · cases h
          exact .setsMode .opened hadmin rfl
        · split at h
          · cases h
            exact .setsMode .keyed hadmin rfl
          · cases h
    · cases h

/-- An admin, or only what is one's own. -/
def Within (guard cand : StoredConfig) (username : String) : Prop :=
  cand.users = guard.users ∧ (IsAdmin guard username ∨ cand.foreign username = guard.foreign username)

theorem not_owner {role : Role} {owner : String} (h : ¬(!role.isAdmin && owner != username) = true) :
    role.isAdmin = true ∨ owner = username := by
  simpa [Decidable.or_iff_not_imp_left] using h

theorem nimKeys_within {fp : String → String} {req : NimKeysReq}
    (h : nimKeys fp guard username req = .ok cand) : Within guard cand username := by
  obtain ⟨role, hrole, hedit⟩ := nimKeys_cases h
  cases hedit with
  | adds add hcand =>
    exact ⟨by rw [editGroup_frame hcand], .inr (editGroup_foreign (fun keys => by simp) hcand)⟩
  | removes fp' k hk hown hcand =>
    refine ⟨by rw [updateGroups_frame hcand],
      (not_owner hown).imp (fun hr => ⟨role, hrole, hr⟩) fun hown => ?_⟩
    exact (ownEdit_remove _).foreign hk hown hcand
  | sets set k hk hown hcand =>
    refine ⟨by rw [updateGroups_frame hcand],
      (not_owner hown).imp (fun hr => ⟨role, hrole, hr⟩) fun hown => ?_⟩
    have hset : OwnEdit username (fun k => fp k.key == set.fingerprint) (updateFirst fun k =>
        if fp k.key = set.fingerprint then
          some { k with enabled := set.enabled.getD k.enabled, rpm := set.rpm.getD k.rpm }
        else none) := by
      refine ownEdit_set (fun k => by simp) fun {k k'} hk => ?_
      split at hk
      · cases hk; rfl
      · cases hk
    exact hset.foreign hk hown hcand

theorem clients_within {sha256Hex : String → String} {req : ClientsReq} {secret : String}
    (h : clients sha256Hex guard username req secret = .ok cand) : Within guard cand username := by
  obtain ⟨role, hrole, hedit⟩ := clients_cases h
  cases hedit with
  | mints name hcand =>
    subst cand
    exact ⟨rfl, .inr (by simp [mintClientKey, StoredConfig.foreign])⟩
  | revokes name c hc hown hcand =>
    subst cand
    refine ⟨rfl, (not_owner hown).imp (fun hr => ⟨role, hrole, hr⟩) fun hown => ?_⟩
    have := filter_eraseP (o := ClientKey.owner) hc hown
    simp only [StoredConfig.foreign, this]
  | setsMode mode hadmin hcand =>
    subst cand
    exact ⟨rfl, .inl ⟨role, hrole, hadmin⟩⟩

/-- A handler that checks for an admin and then edits settings other than users. -/
theorem admin_within {msg : String} {body : Unit → Except ApiError StoredConfig}
    (hbody : ∀ {cand}, body () = .ok cand → cand.users = guard.users)
    (h : (requireAdmin guard username msg >>= body) = .ok cand) : Within guard cand username := by
  obtain ⟨_, hadmin, h⟩ := bind_eq_ok.1 h
  exact ⟨hbody h, .inl (requireAdmin_ok hadmin)⟩

theorem upstreams_within {req : UpstreamsReq} (h : upstreams guard username req = .ok cand) :
    Within guard cand username := by
  obtain ⟨hadmin, hedit⟩ := upstreams_cases h
  refine ⟨?_, .inl (requireAdmin_ok hadmin)⟩
  cases hedit <;> subst cand <;> rfl

theorem edit_within {sha256Hex : String → String} {e : Edit}
    (h : e.candidate sha256Hex guard username = .ok cand) : Within guard cand username := by
  cases e with
  | nimKeys req => exact nimKeys_within h
  | clients req secret => exact clients_within h
  | upstreams req => exact upstreams_within h
  | upstream baseUrl => exact admin_within (fun h => by cases h; rfl) h
  | models disabled => exact admin_within (fun h => by cases h; rfl) h
  | server baseUrl l => exact admin_within (fun h => by cases h; rfl) h
  | limits req => exact admin_within (fun h => by cases h; rfl) h
  | history req => exact admin_within (fun h => by cases h; rfl) h
  | governor req => exact admin_within (fun h => by cases h; rfl) h

theorem parseRole_ne_superuser {s : String} {role : Role} (h : parseRole s = some role) : role ≠ .superuser := by
  unfold parseRole at h
  split at h
  · cases h; simp
  · split at h
    · cases h; simp
    · cases h

theorem users_effect {req : UsersReq} {newHash : String} (h : users guard username req newHash = .ok cand) :
    Effect guard (.users username req newHash) cand := by
  obtain ⟨hadmin, hedit⟩ := users_cases h
  have hadmin := requireAdmin_ok hadmin
  cases hedit with
  | adds name text role hadd hrem hreset hset hrole hcand =>
    subst hcand
    refine .adds hadmin ?_ (by simp [UsersReq.hashes, hadd, hreset]) (parseRole_ne_superuser hrole) rfl rfl
    simp [Save.rehashes, hadd]
  | removes target user hadd hrem hreset hset huser hrole hcand =>
    subst hcand
    exact .removes hadmin (by simp [Save.rehashes, hadd, hrem]) huser hrole rfl
  | resets target user hadd hrem hreset hset huser hrole hcand =>
    subst hcand
    exact .resets hadmin (by simp [Save.rehashes, hadd, hrem, hreset])
      (by simp [UsersReq.hashes, hadd, hreset]) huser hrole rfl
  | setsRole target text role user hadd hrem hreset hset hparse huser hrole hcand =>
    subst hcand
    exact .setsRole hadmin (by simp [Save.rehashes, hadd, hrem, hreset]) huser hrole (parseRole_ne_superuser hparse) rfl

theorem mapError_eq_ok {ε ε' α : Type} {x : Except ε α} {f : ε → ε'} {a : α} :
    x.mapError f = .ok a ↔ x = .ok a := by
  cases x <;> simp [Except.mapError]

theorem applyPasswordChange_ok {verifiedHash newHash : String}
    (h : applyPasswordChange guard username verifiedHash newHash = .ok cand) :
    ∃ user, guard.user username = some user ∧ user.passwordHash = verifiedHash ∧
      cand = { guard with users := editUser guard.users username ({ · with passwordHash := newHash }) } := by
  unfold applyPasswordChange at h
  split at h
  · cases h
  · rename_i user huser
    split at h
    · cases h
    · rename_i hhash
      cases h
      exact ⟨user, huser, by simpa using hhash, rfl⟩

theorem accountLocale_ok {l : Option String} (h : accountLocale guard username l = .ok cand) :
    ∃ user, guard.user username = some user ∧
      cand = { guard with users := editUser guard.users username ({ · with locale := l }) } := by
  unfold accountLocale at h
  split at h
  · cases h
  · rename_i user huser
    cases h
    exact ⟨user, huser, rfl⟩

theorem setupSubmit_ok {sha256Hex : String → String} {req : SetupReq} {hash secret : String}
    (h : setupSubmit sha256Hex guard req hash secret = .ok cand) :
    guard.superuser = none ∧ cand.users = [⟨req.username, hash, .superuser, none⟩] := by
  unfold setupSubmit at h
  split at h
  · cases h
  · rename_i hsu
    cases h
    refine ⟨by simpa using hsu, ?_⟩
    have hpop : (req.populate (req.adopt hash guard)).users = [⟨req.username, hash, .superuser, none⟩] := by
      unfold SetupReq.populate
      split <;> rfl
    cases req.createClientKey <;> exact hpop

/-- Every candidate is one of the effects. -/
theorem Save.effect {sha256Hex : String → String} {save : Save} (h : save.candidate sha256Hex guard = .ok cand) :
    Effect guard save cand := by
  cases save with
  | setup req hash secret =>
    obtain ⟨hsu, husers⟩ := setupSubmit_ok h
    exact .claims hsu husers
  | edit username e =>
    obtain ⟨husers, hadmin | hforeign⟩ := edit_within h
    · exact .administers rfl hadmin rfl husers
    · exact .ownKeys hforeign husers
  | users username req newHash => exact users_effect h
  | password username current verifiedHash newHash =>
    obtain ⟨user, huser, hhash, rfl⟩ := applyPasswordChange_ok (mapError_eq_ok.1 h)
    exact .ownPassword huser hhash
  | accountLocale username l =>
    obtain ⟨user, huser, rfl⟩ := accountLocale_ok h
    exact .ownLocale huser
  | locale username l =>
    obtain ⟨_, hadmin, h⟩ := bind_eq_ok.1 h
    cases h
    exact .administers rfl (requireAdmin_ok hadmin) rfl rfl

end

/-! ### What an effect does to the superuser, to hashes and to what others own -/

theorem find?_filter_of_find? {α : Type} {p q : α → Bool} {l : List α} {a : α} (h : l.find? p = some a)
    (hq : q a = true) : (l.filter q).find? p = some a := by
  induction l with
  | nil => cases h
  | cons b l ih =>
    rw [List.find?_cons] at h
    cases hp : p b with
    | true =>
      rw [hp] at h
      obtain rfl : b = a := by simpa using h
      simp [hq, hp]
    | false =>
      rw [hp] at h
      by_cases hb : q b = true
      · simpa [hb, hp] using ih (by simpa using h)
      · simpa [hb] using ih (by simpa using h)

theorem find?_role_editUser {f : User → User} {users : List User} {name : String} {su : User}
    (hf : ∀ u, u.role ≠ .superuser → (f u).role ≠ .superuser)
    (hsu : users.find? (·.role == .superuser) = some su) (hne : su.username ≠ name) :
    (editUser users name f).find? (·.role == .superuser) = some su := by
  induction users with
  | nil => cases hsu
  | cons u users ih =>
    rw [List.find?_cons] at hsu
    by_cases hu : u.role = .superuser
    · obtain rfl : u = su := by simpa [hu] using hsu
      simp [hne, hu]
    · rw [beq_eq_false_iff_ne.2 hu] at hsu
      by_cases hname : u.username = name
      · simpa [hname, hf u hu] using hsu
      · simpa [hname, hu] using ih hsu

theorem checkUser_ok {names out : List String} {u : User} (h : checkUser names u = .ok out) :
    u.username ∉ names ∧ out = u.username :: names := by
  simp only [checkUser, bind_eq_ok, ensure_eq_ok, pure, Except.pure] at h
  obtain ⟨-, -, -, hnew, -, -, h⟩ := h
  refine ⟨by simpa using hnew, ?_⟩
  split at h
  · obtain ⟨-, -, h⟩ := bind_eq_ok.1 h
    cases h; rfl
  · cases h; rfl

/-- What validation says about the users of a store. -/
structure UsersValid (sc : StoredConfig) : Prop where
  distinct : (sc.users.map (·.username)).Nodup
  superusers : (sc.users.filter (·.role == .superuser)).length ≤ 1

theorem usersValid_of_validate {sc : StoredConfig} (h : sc.validate = .ok ()) : UsersValid sc := by
  obtain ⟨-, -, -, husers, -⟩ := validate_iff.1 h
  obtain ⟨names, hnames, hsu⟩ := bind_eq_ok.1 husers
  exact ⟨(checkEach_nodup (·.username) checkUser_ok List.nodup_nil hnames).1, by simpa [ensure_eq_ok] using hsu⟩

theorem user_username {sc : StoredConfig} {name : String} {u : User} (h : sc.user name = some u) :
    u.username = name := by
  simpa using List.find?_some h

/-- A user of another role has another name. -/
theorem UsersValid.superuser_ne {sc : StoredConfig} (hv : UsersValid sc) {su u : User} {name : String}
    (hsu : sc.superuser = some su) (hu : sc.user name = some u) (hrole : u.role ≠ .superuser) :
    su.username ≠ name := by
  intro he
  have hname : su.username = u.username := he.trans (user_username hu).symm
  have : su = u := List.inj_on_of_nodup_map hv.distinct (List.mem_of_find?_eq_some hsu)
    (List.mem_of_find?_eq_some hu) hname
  have hsurole : su.role = .superuser := by simpa using List.find?_some hsu
  exact hrole (this ▸ hsurole)

namespace Effect
variable {guard cand : StoredConfig} {save : Save}

/-- Only the superuser's own account request edits the superuser's record. -/
theorem superuser (h : Effect guard save cand) (hv : UsersValid guard) {su : User}
    (hsu : guard.superuser = some su) (hown : save.account ≠ some su.username) : cand.superuser = some su := by
  cases h with
  | claims hnone _ => rw [hnone] at hsu; cases hsu
  | administers _ _ _ husers | ownKeys _ husers => simpa only [StoredConfig.superuser, husers] using hsu
  | adds _ _ _ _ _ husers =>
    rw [StoredConfig.superuser, husers, List.find?_append]
    simp only [StoredConfig.superuser] at hsu
    rw [hsu, Option.some_or]
  | removes _ _ huser hrole husers =>
    rw [StoredConfig.superuser, husers]
    exact find?_filter_of_find? hsu (by simpa using hv.superuser_ne hsu huser hrole)
  | resets _ _ _ huser hrole husers =>
    rw [StoredConfig.superuser, husers]
    exact find?_role_editUser (fun _ h => h) hsu (hv.superuser_ne hsu huser hrole)
  | setsRole _ _ huser hrole hnew husers =>
    rw [StoredConfig.superuser, husers]
    exact find?_role_editUser (fun _ _ => hnew) hsu (hv.superuser_ne hsu huser hrole)
  | ownPassword _ _ | ownLocale _ =>
    exact find?_role_editUser (fun _ h => h) hsu fun he => hown (congrArg some he.symm)

theorem isSome_superuser_editUser {f : User → User} {users : List User} {name : String}
    (hf : ∀ u, (f u).role = u.role) :
    ((editUser users name f).find? (·.role == .superuser)).isSome =
      (users.find? (·.role == .superuser)).isSome := by
  have hroles := congrArg (List.any · (· == .superuser)) (map_editUser (l := users) (n := name) fun u _ => hf u)
  simpa only [List.any_map, Function.comp_def, List.isSome_find?] using hroles

/-- Once there is a superuser, there is one after every save. -/
theorem isSome_superuser (h : Effect guard save cand) (hv : UsersValid guard)
    (hsu : guard.superuser.isSome = true) : cand.superuser.isSome = true := by
  obtain ⟨su, hsu⟩ := Option.isSome_iff_exists.1 hsu
  by_cases hown : save.account = some su.username
  · cases h with
    | claims hnone _ => rw [hnone] at hsu; cases hsu
    | administers _ _ _ husers | ownKeys _ husers =>
      rw [StoredConfig.superuser, husers, ← StoredConfig.superuser, hsu]
      rfl
    | adds _ _ _ _ _ _ | removes _ _ _ _ _ | resets _ _ _ _ _ _ | setsRole _ _ _ _ _ _ => cases hown
    | ownPassword _ _ | ownLocale _ =>
      refine (isSome_superuser_editUser ?_).trans (congrArg Option.isSome hsu)
      exact fun _ => rfl
  · rw [h.superuser hv hsu hown]; rfl

/-- What a save made by a `user` changes is their own. -/
theorem foreign (h : Effect guard save cand) {username : String} (hcaller : save.caller = some username)
    (hrole : roleOf guard username = some .user) : cand.foreign username = guard.foreign username := by
  have hno : ¬ IsAdmin guard username := by
    rintro ⟨role, hr, hadmin⟩
    obtain rfl : role = .user := Option.some.inj (hr.symm.trans hrole)
    cases hadmin
  have hown : ∀ {f : User → User}, (∀ u, (f u).role = u.role ∧ (f u).username = u.username) →
      StoredConfig.foreign { guard with users := editUser guard.users username f } username =
        guard.foreign username := by
    intro f hf
    have := map_editUser (f := f) (l := guard.users) (n := username) (g := fun u =>
      if u.username = username then { u with passwordHash := "", locale := none } else u) fun u hu => by
        obtain ⟨hrole, hname⟩ := hf u
        simp only [hrole, hname, hu, ↓reduceIte]
    simp only [StoredConfig.foreign, this]
  cases h with
  | claims _ _ => cases hcaller
  | administers hcaller' hadmin _ _ =>
    obtain rfl := Option.some.inj (hcaller.symm.trans hcaller')
    exact absurd hadmin hno
  | adds hadmin _ _ _ _ _ | removes hadmin _ _ _ _ | resets hadmin _ _ _ _ _ | setsRole hadmin _ _ _ _ _ =>
    obtain rfl := Option.some.inj hcaller
    exact absurd hadmin hno
  | ownKeys hforeign _ =>
    obtain rfl := Option.some.inj hcaller
    exact hforeign
  | ownPassword _ _ | ownLocale _ =>
    obtain rfl := Option.some.inj hcaller
    refine hown ?_
    exact fun _ => ⟨rfl, rfl⟩

theorem hash_editUser_kept {f : User → User} (hf : ∀ u, (f u).username = u.username ∧ (f u).passwordHash = u.passwordHash)
    (users : List User) (name username : String) :
    ((editUser users name f).find? (·.username == username)).map (·.passwordHash) =
      (users.find? (·.username == username)).map (·.passwordHash) := by
  by_cases hn : username = name
  · subst hn
    rw [find?_editUser fun u => (hf u).1, Option.map_map]
    exact Option.map_congr fun u _ => (hf u).2
  · rw [find?_editUser_of_ne (fun u => (hf u).1) _ hn]

theorem hash_editUser_set (users : List User) (name username hash : String) :
    let after := ((editUser users name ({ · with passwordHash := hash })).find?
      (·.username == username)).map (·.passwordHash)
    name ≠ username ∧ after = (users.find? (·.username == username)).map (·.passwordHash) ∨
      after = none ∨ after = some hash := by
  by_cases hn : username = name
  · subst hn
    simp only [find?_editUser (f := ({ · with passwordHash := hash })) (fun _ => rfl)]
    cases users.find? (·.username == username) with
    | none => exact .inr (.inl rfl)
    | some u => exact .inr (.inr rfl)
  · refine .inl ⟨Ne.symm hn, ?_⟩
    rw [find?_editUser_of_ne (f := ({ · with passwordHash := hash })) (fun _ => rfl) _ hn]

/-- A save leaves the hash of a user alone, deletes it, or sets it to the new one; the first unless it is
about that user's password. -/
theorem hashOf (h : Effect guard save cand) (hv : (cand.users.map (·.username)).Nodup) (username : String) :
    (save.rehashes ≠ some username ∧ cand.hashOf username = guard.hashOf username) ∨
      cand.hashOf username = none ∨ ∃ hash, save.newHash = some hash ∧ cand.hashOf username = some hash := by
  simp only [StoredConfig.hashOf, StoredConfig.user]
  cases h with
  | claims _ husers =>
    rename_i req hash _ _
    rw [husers]
    by_cases hn : req.username = username
    · exact .inr (.inr ⟨hash, rfl, by simp [hn]⟩)
    · exact .inr (.inl (by simp [hn]))
  | administers _ _ hsave husers => exact .inl ⟨by simp [hsave], by rw [husers]⟩
  | ownKeys _ husers => exact .inl ⟨by simp [Save.rehashes], by rw [husers]⟩
  | adds _ hsave hnew _ hhash husers =>
    rename_i newHash req user hadmin hrole
    rw [husers, List.map_append, List.nodup_append] at hv
    rw [hsave, husers, List.find?_append]
    by_cases hn : user.username = username
    · refine .inr (.inr ⟨newHash, if_pos hnew, ?_⟩)
      have hnone : guard.users.find? (·.username == username) = none := by
        rw [List.find?_eq_none]
        intro u hu hname
        exact hv.2.2 u.username (List.mem_map_of_mem hu) user.username (by simp) (by simpa [hn] using hname)
      simp [hnone, hn, hhash]
    · exact .inl ⟨by simpa using hn, by simp [hn]⟩
  | removes _ hsave huser _ husers =>
    rename_i target req user hadmin hrole
    rw [hsave, husers]
    by_cases hn : target = username
    · refine .inr (.inl ?_)
      rw [Option.map_eq_none_iff, List.find?_eq_none]
      intro u hu
      simpa [hn] using (List.mem_filter.1 hu).2
    · refine .inl ⟨by simpa using hn, ?_⟩
      rw [List.find?_filter]
      congr 2
      funext u
      by_cases hu : u.username = username
      · simp [hu, Ne.symm hn]
      · simp [hu]
  | resets _ hsave hnew _ _ husers =>
    rename_i newHash target req user hadmin huser hrole
    rw [hsave, husers]
    rcases hash_editUser_set guard.users target username newHash with ⟨hn, he⟩ | he | he
    · exact .inl ⟨by simpa using hn, he⟩
    · exact .inr (.inl he)
    · exact .inr (.inr ⟨newHash, if_pos hnew, he⟩)
  | setsRole _ hsave _ _ _ husers =>
    rw [hsave, husers]
    refine .inl ⟨by simp, hash_editUser_kept ?_ ..⟩
    exact fun _ => ⟨rfl, rfl⟩
  | ownPassword _ _ =>
    rename_i name current verifiedHash newHash user huser hhash
    rcases hash_editUser_set guard.users name username newHash with ⟨hn, he⟩ | he | he
    · exact .inl ⟨by simpa [Save.rehashes] using hn, he⟩
    · exact .inr (.inl he)
    · exact .inr (.inr ⟨newHash, rfl, he⟩)
  | ownLocale _ =>
    refine .inl ⟨by simp [Save.rehashes], hash_editUser_kept ?_ ..⟩
    exact fun _ => ⟨rfl, rfl⟩

end Effect

end Settings

end OpenProxy
