import OpenProxy.Config

/-!
# Settings handlers (`settings.rs`)

Under the store lock a handler checks the caller's role and edits a private clone of the store; `commit`
validates the candidate, persists it and swaps it in. Here a handler is the function from the locked store
to its candidate or its refusal. What becomes of the groups' names is the part that routing depends on
(`GroupEdit`): a save keeps the list, appends one name or takes one out.
-/

namespace OpenProxy

open Text

/-- A refusal: status, machine code and message. -/
structure ApiError where
  status : Nat
  code : String
  message : String
  deriving DecidableEq, Repr

def forbidden (msg : String) : ApiError := ⟨403, "forbidden", msg⟩

def badRequest (msg : String) : ApiError := ⟨400, "invalid_config", msg⟩

def staleSession : ApiError := ⟨401, "unauthorized", "your user no longer exists"⟩

namespace Settings

def roleOf (sc : StoredConfig) (username : String) : Option Role := (sc.user username).map (·.role)

/-- The gate of the admin-only sections. -/
def requireAdmin (sc : StoredConfig) (username msg : String) : Except ApiError Unit :=
  match roleOf sc username with
  | some r => if r.isAdmin then .ok () else .error (forbidden msg)
  | none => .error staleSession

/-- Replace the first element that `f` applies to. -/
def updateFirst {α : Type} (f : α → Option α) : List α → Option (List α)
  | [] => none
  | a :: l =>
    match f a with
    | some a' => some (a' :: l)
    | none => (updateFirst f l).map (a :: ·)

/-- Apply `f` to the first key list, primary group first, that it applies to. -/
def updateGroups (sc : StoredConfig) (f : List NimKey → Option (List NimKey)) : Option StoredConfig :=
  match f sc.upstream.nimKeys with
  | some keys => some { sc with upstream := { sc.upstream with nimKeys := keys } }
  | none =>
    (updateFirst (fun ep => (f ep.keys).map fun keys => { ep with keys := keys }) sc.upstreams).map
      fun eps => { sc with upstreams := eps }

/-- `group_keys_mut`: edit the key list of the group called `name`. -/
def editGroup (sc : StoredConfig) (name : String) (f : List NimKey → List NimKey) : Option StoredConfig :=
  if name = primaryUpstream then
    some { sc with upstream := { sc.upstream with nimKeys := f sc.upstream.nimKeys } }
  else
    (updateFirst (fun ep => if ep.name = name then some { ep with keys := f ep.keys } else none)
      sc.upstreams).map fun eps => { sc with upstreams := eps }

/-! ### API keys -/

structure AddNimKey where
  key : String
  rpm : Option Nat
  upstream : Option String

structure SetNimKey where
  fingerprint : String
  enabled : Option Bool
  rpm : Option Nat

structure NimKeysReq where
  add : Option AddNimKey := none
  remove : Option String := none
  set : Option SetNimKey := none

section
variable (fingerprint : String → String)

/-- `find_key_mut`, read: the first key with the fingerprint. -/
def findKey (sc : StoredConfig) (fp : String) : Option NimKey :=
  (sc.groupKeys.map (·.2)).find? fun k => fingerprint k.key == fp

def setKey (sc : StoredConfig) (set : SetNimKey) : Option StoredConfig :=
  updateGroups sc <| updateFirst fun k =>
    if fingerprint k.key = set.fingerprint then
      some { k with enabled := set.enabled.getD k.enabled, rpm := set.rpm.getD k.rpm }
    else none

def removeKey (sc : StoredConfig) (fp : String) : Option StoredConfig :=
  updateGroups sc fun keys =>
    if keys.any fun k => fingerprint k.key == fp then some (keys.eraseP fun k => fingerprint k.key == fp)
    else none

def nimKeys (guard : StoredConfig) (username : String) (req : NimKeysReq) : Except ApiError StoredConfig :=
  match roleOf guard username with
  | none => .error staleSession
  | some role =>
    match req.add, req.remove, req.set with
    | some add, none, none =>
      let group := add.upstream.getD primaryUpstream
      match editGroup guard group (· ++ [⟨trim add.key, username, true, add.rpm.getD 40⟩]) with
      | none => .error (badRequest s!"no such upstream {debug group}")
      | some cand => .ok cand
    | none, some fp, none =>
      match findKey fingerprint guard fp, removeKey fingerprint guard fp with
      | some k, some cand =>
        if !role.isAdmin && k.owner != username then .error (forbidden "you can only remove your own keys")
        else .ok cand
      | _, _ => .error (badRequest "no such key")
    | none, none, some set =>
      match findKey fingerprint guard set.fingerprint, setKey fingerprint guard set with
      | some k, some cand =>
        if !role.isAdmin && k.owner != username then .error (forbidden "you can only change your own keys")
        else .ok cand
      | _, _ => .error (badRequest "no such key")
    | _, _, _ => .error (badRequest "send exactly one of add / remove / set")

end

/-! ### Groups and models -/

structure AddUpstream where
  name : String
  baseUrl : String
  models : Option (List String)
  supportsStreamOptions : Bool

structure SetUpstream where
  name : String
  enabled : Option Bool
  baseUrl : Option String
  models : Option (List String)
  supportsStreamOptions : Option Bool

structure UpstreamsReq where
  add : Option AddUpstream := none
  remove : Option String := none
  set : Option SetUpstream := none

/-- What `set` does to the primary group. -/
def SetUpstream.primary (set : SetUpstream) (u : Upstream) : Upstream :=
  { u with
    enabled := set.enabled.getD u.enabled
    baseUrl := (set.baseUrl.map fun b => normalizeBaseUrl (trim b)).getD u.baseUrl
    models := set.models.getD u.models
    supportsStreamOptions := set.supportsStreamOptions.getD u.supportsStreamOptions }

/-- What it does to any other group. -/
def SetUpstream.extra (set : SetUpstream) (ep : UpstreamEndpoint) : UpstreamEndpoint :=
  { ep with
    enabled := set.enabled.getD ep.enabled
    baseUrl := (set.baseUrl.map fun b => normalizeBaseUrl (trim b)).getD ep.baseUrl
    models := set.models.getD ep.models
    supportsStreamOptions := set.supportsStreamOptions.getD ep.supportsStreamOptions }

def adminServer : String := "server settings require an admin"

def upstreams (guard : StoredConfig) (username : String) (req : UpstreamsReq) :
    Except ApiError StoredConfig := do
  requireAdmin guard username adminServer
  match req.add, req.remove, req.set with
  | some add, none, none =>
    .ok { guard with upstreams := guard.upstreams ++
      [⟨trim add.name, normalizeBaseUrl (trim add.baseUrl), true, [], add.models.getD [],
        add.supportsStreamOptions⟩] }
  | none, some name, none =>
    if name = primaryUpstream then
      .error (badRequest "the primary group cannot be removed; disable it instead")
    else
      match guard.upstreams.findIdx? (·.name == name) with
      | none => .error (badRequest s!"no such upstream {debug name}")
      | some pos => .ok { guard with upstreams := guard.upstreams.eraseIdx pos }
  | none, none, some set =>
    if set.name = primaryUpstream then .ok { guard with upstream := set.primary guard.upstream }
    else
      match updateFirst (fun ep => if ep.name = set.name then some (set.extra ep) else none)
          guard.upstreams with
      | none => .error (badRequest s!"no such upstream {debug set.name}")
      | some eps => .ok { guard with upstreams := eps }
  | _, _, _ => .error (badRequest "send exactly one of add / remove / set")

/-- `upstream`: retarget the primary group. -/
def upstream (guard : StoredConfig) (username baseUrl : String) : Except ApiError StoredConfig := do
  requireAdmin guard username adminServer
  return { guard with upstream := { guard.upstream with baseUrl := normalizeBaseUrl (trim baseUrl) } }

def modelsCfg (guard : StoredConfig) (username : String) (disabled : List String) :
    Except ApiError StoredConfig := do
  requireAdmin guard username adminServer
  return { guard with disabledModels := disabled }

def server (guard : StoredConfig) (username baseUrl : String) (limits : Limits) :
    Except ApiError StoredConfig := do
  requireAdmin guard username adminServer
  return { guard with
    upstream := { guard.upstream with baseUrl := normalizeBaseUrl (trim baseUrl) }
    limits := limits }

/-! ### Users -/

structure UsersReq where
  /-- Name and role; the password is hashed before the lock is taken. -/
  add : Option (String × String) := none
  remove : Option String := none
  /-- The user whose password is reset. -/
  resetPassword : Option String := none
  setRole : Option (String × String) := none
  deriving DecidableEq, Repr

def parseRole (s : String) : Option Role :=
  if s = "admin" then some .admin else if s = "user" then some .user else none

/-- Edit the first user called `name`. -/
def editUser (users : List User) (name : String) (f : User → User) : List User :=
  (updateFirst (fun u => if u.username = name then some (f u) else none) users).getD users

/-- `users` under its second lock; `newHash` is the hash of the new password. -/
def users (guard : StoredConfig) (username : String) (req : UsersReq) (newHash : String) :
    Except ApiError StoredConfig := do
  requireAdmin guard username "user management requires an admin"
  match req.add, req.remove, req.resetPassword, req.setRole with
  | some (name, role), none, none, none =>
    match parseRole role with
    | none => .error (badRequest "role must be \"admin\" or \"user\"")
    | some role => .ok { guard with users := guard.users ++ [⟨trim name, newHash, role, none⟩] }
  | none, some target, none, none =>
    match guard.user target with
    | none => .error (badRequest "no such user")
    | some user =>
      if user.role = .superuser then .error (forbidden "the superuser can never be deleted")
      else
        .ok { guard with
          users := guard.users.filter (·.username != target)
          upstream := { guard.upstream with nimKeys := guard.upstream.nimKeys.filter (·.owner != target) }
          upstreams := guard.upstreams.map fun ep => { ep with keys := ep.keys.filter (·.owner != target) }
          clientAuth := { guard.clientAuth with keys := guard.clientAuth.keys.filter (·.owner != target) } }
  | none, none, some target, none =>
    match guard.user target with
    | none => .error (badRequest "no such user")
    | some user =>
      if user.role = .superuser then
        .error (forbidden
          "the superuser's password can only be changed by the superuser (Account settings)")
      else .ok { guard with users := editUser guard.users target ({ · with passwordHash := newHash }) }
  | none, none, none, some (name, role) =>
    match parseRole role with
    | none => .error (badRequest "role must be \"admin\" or \"user\"")
    | some role =>
      match guard.user name with
      | none => .error (badRequest "no such user")
      | some user =>
        if user.role = .superuser then .error (forbidden "the superuser's role is immutable")
        else .ok { guard with users := editUser guard.users name ({ · with role := role }) }
  | _, _, _, _ =>
    .error (badRequest "send exactly one of add / remove / reset_password / set_role")

inductive PasswordChangeErr where
  | userGone
  | hashRotated
  deriving DecidableEq, Repr

/-- Refused unless the stored hash is still the one the current password was verified against. -/
def applyPasswordChange (cand : StoredConfig) (username verifiedHash newHash : String) :
    Except PasswordChangeErr StoredConfig :=
  match cand.user username with
  | none => .error .userGone
  | some user =>
    if user.passwordHash ≠ verifiedHash then .error .hashRotated
    else .ok { cand with users := editUser cand.users username ({ · with passwordHash := newHash }) }

/-! ### All saves that touch groups or keys -/

inductive Req where
  | nimKeys (req : NimKeysReq)
  | upstreams (req : UpstreamsReq)
  | upstream (baseUrl : String)
  | models (disabled : List String)
  | server (baseUrl : String) (limits : Limits)
  | users (req : UsersReq) (newHash : String)

/-- The candidate a request makes of the locked store. -/
def candidate (fingerprint : String → String) (guard : StoredConfig) (username : String) :
    Req → Except ApiError StoredConfig
  | .nimKeys req => nimKeys fingerprint guard username req
  | .upstreams req => upstreams guard username req
  | .upstream baseUrl => upstream guard username baseUrl
  | .models disabled => modelsCfg guard username disabled
  | .server baseUrl limits => server guard username baseUrl limits
  | .users req newHash => users guard username req newHash

/-- The position of the group that a request takes out. -/
def removedAt (guard : StoredConfig) : Req → Option Nat
  | .upstreams req =>
    match req.add, req.remove, req.set with
    | none, some name, none => (guard.upstreams.findIdx? (·.name == name)).map (· + 1)
    | _, _, _ => none
  | _ => none

/-! ### What the handlers do, case by case -/

/-- Key lists are all that changes. -/
theorem updateGroups_frame {sc cand : StoredConfig} {f : List NimKey → Option (List NimKey)}
    (h : updateGroups sc f = some cand) : cand = { sc with upstream := cand.upstream, upstreams := cand.upstreams } := by
  unfold updateGroups at h
  split at h
  · cases h; rfl
  · obtain ⟨eps, -, rfl⟩ := Option.map_eq_some_iff.1 h
    rfl

theorem editGroup_frame {sc cand : StoredConfig} {name : String} {f : List NimKey → List NimKey}
    (h : editGroup sc name f = some cand) : cand = { sc with upstream := cand.upstream, upstreams := cand.upstreams } := by
  unfold editGroup at h
  split at h
  · cases h; rfl
  · obtain ⟨eps, -, rfl⟩ := Option.map_eq_some_iff.1 h
    rfl

/-- A key is added to a group, or one is removed or set that the caller's role or name allows. -/
inductive NimKeysEdit (fingerprint : String → String) (guard : StoredConfig) (username : String) (role : Role)
    (cand : StoredConfig) : Prop where
  | adds (add : AddNimKey) (hcand : editGroup guard (add.upstream.getD primaryUpstream)
      (· ++ [⟨trim add.key, username, true, add.rpm.getD 40⟩]) = some cand)
  | removes (fp : String) (k : NimKey) (hk : findKey fingerprint guard fp = some k)
      (hown : ¬(!role.isAdmin && k.owner != username) = true) (hcand : removeKey fingerprint guard fp = some cand)
  | sets (set : SetNimKey) (k : NimKey) (hk : findKey fingerprint guard set.fingerprint = some k)
      (hown : ¬(!role.isAdmin && k.owner != username) = true) (hcand : setKey fingerprint guard set = some cand)

theorem nimKeys_cases {fingerprint : String → String} {guard cand : StoredConfig} {username : String} {req : NimKeysReq}
    (h : nimKeys fingerprint guard username req = .ok cand) :
    ∃ role, roleOf guard username = some role ∧ NimKeysEdit fingerprint guard username role cand := by
  unfold nimKeys at h
  split at h
  · cases h
  · rename_i role hrole
    refine ⟨role, hrole, ?_⟩
    split at h
    · rename_i add _ _ _
      dsimp only at h
      split at h
      · cases h
      · rename_i hcand
        cases h
        exact .adds add hcand
    · rename_i fp _ _ _
      split at h
      · rename_i k cand' hk hcand
        split at h
        · cases h
        · rename_i hown
          cases h
          exact .removes fp k hk hown hcand
      · cases h
    · rename_i set _ _ _
      split at h
      · rename_i k cand' hk hcand
        split at h
        · cases h
        · rename_i hown
          cases h
          exact .sets set k hk hown hcand
      · cases h
    · cases h

/-- A group is added, removed by its position, or set in place. -/
inductive UpstreamsEdit (guard : StoredConfig) (req : UpstreamsReq) (cand : StoredConfig) : Prop where
  | adds (add : AddUpstream) (hadd : req.add = some add) (hremove : req.remove = none) (hset : req.set = none)
      (hcand : cand = { guard with upstreams := guard.upstreams ++
        [⟨trim add.name, normalizeBaseUrl (trim add.baseUrl), true, [], add.models.getD [], add.supportsStreamOptions⟩] })
  | removes (name : String) (pos : Nat) (hadd : req.add = none) (hremove : req.remove = some name)
      (hset : req.set = none) (hname : ¬ name = primaryUpstream)
      (hpos : guard.upstreams.findIdx? (·.name == name) = some pos)
      (hcand : cand = { guard with upstreams := guard.upstreams.eraseIdx pos })
  | setsPrimary (set : SetUpstream) (hadd : req.add = none) (hremove : req.remove = none) (hset : req.set = some set)
      (hname : set.name = primaryUpstream) (hcand : cand = { guard with upstream := set.primary guard.upstream })
  | sets (set : SetUpstream) (eps : List UpstreamEndpoint) (hadd : req.add = none) (hremove : req.remove = none)
      (hset : req.set = some set) (hname : ¬ set.name = primaryUpstream)
      (heps : updateFirst (fun ep => if ep.name = set.name then some (set.extra ep) else none) guard.upstreams = some eps)
      (hcand : cand = { guard with upstreams := eps })

theorem upstreams_cases {guard cand : StoredConfig} {username : String} {req : UpstreamsReq}
    (h : upstreams guard username req = .ok cand) :
    requireAdmin guard username adminServer = .ok () ∧ UpstreamsEdit guard req cand := by
  obtain ⟨_, hadmin, h⟩ := bind_eq_ok.1 h
  refine ⟨hadmin, ?_⟩
  split at h
  · rename_i add hadd hremove hset
    cases h
    exact .adds add hadd hremove hset rfl
  · rename_i name hadd hremove hset
    split at h
    · cases h
    · rename_i hname
      split at h
      · cases h
      · rename_i pos hpos
        cases h
        exact .removes name pos hadd hremove hset hname hpos rfl
  · rename_i set hadd hremove hset
    split at h
    · rename_i hname
      cases h
      exact .setsPrimary set hadd hremove hset hname rfl
    · rename_i hname
      split at h
      · cases h
      · rename_i eps heps
        cases h
        exact .sets set eps hadd hremove hset hname heps rfl
  · cases h

/-- A user is added; or one who is not the superuser is removed with their keys, gets a new password or a new role. -/
inductive UsersEdit (guard : StoredConfig) (newHash : String) (req : UsersReq) (cand : StoredConfig) : Prop where
  | adds (name text : String) (role : Role) (hadd : req.add = some (name, text)) (hremove : req.remove = none)
      (hreset : req.resetPassword = none) (hset : req.setRole = none) (hrole : parseRole text = some role)
      (hcand : cand = { guard with users := guard.users ++ [⟨trim name, newHash, role, none⟩] })
  | removes (target : String) (user : User) (hadd : req.add = none) (hremove : req.remove = some target)
      (hreset : req.resetPassword = none) (hset : req.setRole = none) (huser : guard.user target = some user)
      (hrole : ¬ user.role = .superuser)
      (hcand : cand = { guard with
        users := guard.users.filter (·.username != target)
        upstream := { guard.upstream with nimKeys := guard.upstream.nimKeys.filter (·.owner != target) }
        upstreams := guard.upstreams.map fun ep => { ep with keys := ep.keys.filter (·.owner != target) }
        clientAuth := { guard.clientAuth with keys := guard.clientAuth.keys.filter (·.owner != target) } })
  | resets (target : String) (user : User) (hadd : req.add = none) (hremove : req.remove = none)
      (hreset : req.resetPassword = some target) (hset : req.setRole = none) (huser : guard.user target = some user)
      (hrole : ¬ user.role = .superuser)
      (hcand : cand = { guard with users := editUser guard.users target ({ · with passwordHash := newHash }) })
  | setsRole (target text : String) (role : Role) (user : User) (hadd : req.add = none) (hremove : req.remove = none)
      (hreset : req.resetPassword = none) (hset : req.setRole = some (target, text)) (hparse : parseRole text = some role)
      (huser : guard.user target = some user) (hrole : ¬ user.role = .superuser)
      (hcand : cand = { guard with users := editUser guard.users target ({ · with role := role }) })

theorem users_cases {guard cand : StoredConfig} {username newHash : String} {req : UsersReq}
    (h : users guard username req newHash = .ok cand) :
    requireAdmin guard username "user management requires an admin" = .ok () ∧ UsersEdit guard newHash req cand := by
  obtain ⟨_, hadmin, h⟩ := bind_eq_ok.1 h
  refine ⟨hadmin, ?_⟩
  split at h
  · rename_i name text hadd hremove hreset hset
    split at h
    · cases h
    · rename_i role hrole
      cases h
      exact .adds name text role hadd hremove hreset hset hrole rfl
  · rename_i target hadd hremove hreset hset
    split at h
    · cases h
    · rename_i user huser
      split at h
      · cases h
      · rename_i hrole
        cases h
        exact .removes target user hadd hremove hreset hset huser hrole rfl
  · rename_i target hadd hremove hreset hset
    split at h
    · cases h
    · rename_i user huser
      split at h
      · cases h
      · rename_i hrole
        cases h
        exact .resets target user hadd hremove hreset hset huser hrole rfl
  · rename_i target text hadd hremove hreset hset
    split at h
    · cases h
    · rename_i role hparse
      split at h
      · cases h
      · rename_i user huser
        split at h
        · cases h
        · rename_i hrole
          cases h
          exact .setsRole target text role user hadd hremove hreset hset hparse huser hrole rfl
  · cases h

/-! ### What a save does to the list of groups -/

/-- A save keeps the names of the groups, appends one, or takes out the one at `p`. -/
inductive GroupEdit (names : List String) : Option Nat → List String → Prop where
  | keeps : GroupEdit names none names
  | adds (name : String) : GroupEdit names none (names ++ [name])
  | removes (p : Nat) : GroupEdit names (some p) (names.eraseIdx p)

/-- The groups before a removed one stay where they are; so does every group when none is removed. -/
theorem GroupEdit.getElem? {names names' : List String} {rem : Option Nat} (h : GroupEdit names rem names')
    {i : Nat} {name : String} (hi : ∀ p, rem = some p → i < p) (hn : names[i]? = some name) :
    names'[i]? = some name := by
  cases h with
  | keeps => exact hn
  | adds _ => rw [List.getElem?_append_left (List.getElem?_eq_some_iff.1 hn).1, hn]
  | removes p => rw [List.getElem?_eraseIdx_of_lt (hi p rfl), hn]

theorem map_updateFirst {α β : Type} {f : α → Option α} {g : α → β} (hf : ∀ {a a'}, f a = some a' → g a' = g a)
    {l l' : List α} (h : updateFirst f l = some l') : l'.map g = l.map g := by
  induction l generalizing l' with
  | nil => cases h
  | cons a l ih =>
    simp only [updateFirst] at h
    split at h
    · rename_i a' ha
      cases h
      rw [List.map_cons, List.map_cons, hf ha]
    · obtain ⟨l'', hl, rfl⟩ := Option.map_eq_some_iff.1 h
      rw [List.map_cons, List.map_cons, ih hl]

theorem updateGroups_groupNames {sc cand : StoredConfig} {f : List NimKey → Option (List NimKey)}
    (h : updateGroups sc f = some cand) : cand.groupNames = sc.groupNames := by
  unfold updateGroups at h
  split at h
  · cases h; rfl
  · obtain ⟨eps, heps, rfl⟩ := Option.map_eq_some_iff.1 h
    refine congrArg (primaryUpstream :: ·) (map_updateFirst (fun {ep ep'} hep => ?_) heps)
    obtain ⟨_, -, rfl⟩ := Option.map_eq_some_iff.1 hep
    rfl

theorem editGroup_groupNames {sc cand : StoredConfig} {name : String} {f : List NimKey → List NimKey}
    (h : editGroup sc name f = some cand) : cand.groupNames = sc.groupNames := by
  unfold editGroup at h
  split at h
  · cases h; rfl
  · obtain ⟨eps, heps, rfl⟩ := Option.map_eq_some_iff.1 h
    refine congrArg (primaryUpstream :: ·) (map_updateFirst (fun {ep ep'} hep => ?_) heps)
    split at hep
    · cases hep; rfl
    · cases hep

theorem nimKeys_groupNames {fingerprint : String → String} {guard cand : StoredConfig} {username : String}
    {req : NimKeysReq} (h : nimKeys fingerprint guard username req = .ok cand) :
    cand.groupNames = guard.groupNames := by
  obtain ⟨role, -, hedit⟩ := nimKeys_cases h
  cases hedit with
  | adds add hcand => exact editGroup_groupNames hcand
  | removes fp k hk hown hcand => exact updateGroups_groupNames hcand
  | sets set k hk hown hcand => exact updateGroups_groupNames hcand

theorem upstreams_groupEdit {guard cand : StoredConfig} {username : String} {req : UpstreamsReq}
    (h : upstreams guard username req = .ok cand) :
    GroupEdit guard.groupNames (removedAt guard (.upstreams req)) cand.groupNames := by
  obtain ⟨-, hedit⟩ := upstreams_cases h
  cases hedit with
  | adds add hadd hremove hset hcand =>
    subst cand
    simp only [removedAt, hadd, hremove, hset]
    have : StoredConfig.groupNames { guard with upstreams := guard.upstreams ++
        [⟨trim add.name, normalizeBaseUrl (trim add.baseUrl), true, [], add.models.getD [],
          add.supportsStreamOptions⟩] } = guard.groupNames ++ [trim add.name] := by
      simp [StoredConfig.groupNames]
    rw [this]
    exact .adds _
  | removes name pos hadd hremove hset hname hpos hcand =>
    subst cand
    simp only [removedAt, hadd, hremove, hset, hpos, Option.map_some]
    have : StoredConfig.groupNames { guard with upstreams := guard.upstreams.eraseIdx pos } =
        guard.groupNames.eraseIdx (pos + 1) := by
      simp [StoredConfig.groupNames, List.eraseIdx_map]
    rw [this]
    exact .removes _
  | setsPrimary set hadd hremove hset hname hcand =>
    subst cand
    simp only [removedAt, hadd, hremove, hset]
    exact .keeps
  | sets set eps hadd hremove hset hname heps hcand =>
    subst cand
    simp only [removedAt, hadd, hremove, hset]
    have : StoredConfig.groupNames { guard with upstreams := eps } = guard.groupNames := by
      refine congrArg (primaryUpstream :: ·) (map_updateFirst (fun {ep ep'} hep => ?_) heps)
      split at hep
      · cases hep; rfl
      · cases hep
    rw [this]
    exact .keeps

theorem users_groupNames {guard cand : StoredConfig} {username newHash : String} {req : UsersReq}
    (h : users guard username req newHash = .ok cand) : cand.groupNames = guard.groupNames := by
  obtain ⟨-, hedit⟩ := users_cases h
  cases hedit with
  | adds | resets | setsRole => subst cand; rfl
  | removes =>
    subst cand
    simp [StoredConfig.groupNames, Function.comp_def]

theorem upstream_groupNames {guard cand : StoredConfig} {username baseUrl : String}
    (h : upstream guard username baseUrl = .ok cand) : cand.groupNames = guard.groupNames := by
  simp only [upstream, bind_eq_ok, pure, Except.pure, Except.ok.injEq] at h
  obtain ⟨-, -, rfl⟩ := h
  simp only [StoredConfig.groupNames]

theorem modelsCfg_groupNames {guard cand : StoredConfig} {username : String} {disabled : List String}
    (h : modelsCfg guard username disabled = .ok cand) : cand.groupNames = guard.groupNames := by
  simp only [modelsCfg, bind_eq_ok, pure, Except.pure, Except.ok.injEq] at h
  obtain ⟨-, -, rfl⟩ := h
  simp only [StoredConfig.groupNames]

theorem server_groupNames {guard cand : StoredConfig} {username baseUrl : String} {limits : Limits}
    (h : server guard username baseUrl limits = .ok cand) : cand.groupNames = guard.groupNames := by
  simp only [server, bind_eq_ok, pure, Except.pure, Except.ok.injEq] at h
  obtain ⟨-, -, rfl⟩ := h
  simp only [StoredConfig.groupNames]

theorem candidate_groupEdit {fingerprint : String → String} {guard cand : StoredConfig} {username : String}
    {req : Req} (h : candidate fingerprint guard username req = .ok cand) :
    GroupEdit guard.groupNames (removedAt guard req) cand.groupNames := by
  have keeps : cand.groupNames = guard.groupNames → GroupEdit guard.groupNames none cand.groupNames := by
    intro he
    rw [he]
    exact .keeps
  cases req with
  | nimKeys req => exact keeps (nimKeys_groupNames h)
  | upstreams req => exact upstreams_groupEdit h
  | upstream baseUrl => exact keeps (upstream_groupNames h)
  | models disabled => exact keeps (modelsCfg_groupNames h)
  | server baseUrl limits => exact keeps (server_groupNames h)
  | users req newHash => exact keeps (users_groupNames h)

/-! ### Editing one user -/

section
variable {f : User → User} {users : List User} {name : String}

@[simp] theorem editUser_nil : editUser [] name f = [] := rfl

@[simp] theorem editUser_cons (u : User) (users : List User) (name : String) (f : User → User) :
    editUser (u :: users) name f = if u.username = name then f u :: users else u :: editUser users name f := by
  unfold editUser
  by_cases hu : u.username = name
  · simp [updateFirst, hu]
  · simp only [updateFirst, hu, ↓reduceIte]
    cases updateFirst (fun u => if u.username = name then some (f u) else none) users <;> rfl

theorem find?_editUser (hf : ∀ u, (f u).username = u.username) (users : List User) (name : String) :
    (editUser users name f).find? (·.username == name) = (users.find? (·.username == name)).map f := by
  induction users with
  | nil => rfl
  | cons u users ih =>
    by_cases hu : u.username = name
    · simp [hu, hf]
    · simpa [hu] using ih

theorem find?_editUser_of_ne (hf : ∀ u, (f u).username = u.username) (users : List User) {n : String}
    (hn : n ≠ name) :
    (editUser users name f).find? (·.username == n) = users.find? (·.username == n) := by
  induction users with
  | nil => rfl
  | cons u users ih =>
    by_cases hu : u.username = name
    · simp [hu, hf, hn.symm]
    · simp only [editUser_cons, hu, ↓reduceIte, List.find?_cons, ih]

theorem map_editUser {α : Type} {g : User → α} {l : List User} {n : String}
    (hg : ∀ u, u.username = n → g (f u) = g u) : (editUser l n f).map g = l.map g := by
  induction l with
  | nil => rfl
  | cons u l ih =>
    by_cases hu : u.username = n
    · simp [hu, hg]
    · simp [hu, ih]

end

end Settings

end OpenProxy
