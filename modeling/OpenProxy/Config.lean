import OpenProxy.Text
import OpenProxy.PoolWindow

/-!
# The configuration store (`config.rs`, `Config` of `lib.rs`, locales of `presentation.rs`)

`StoredConfig` is what `config.json` holds, `validate` the rulebook every save goes through, and
`poolSpecs` and `runtime` what the pool and the request path read of it. Both number the upstream groups
by position, the primary first; `routeModel` answers with such positions.
-/

namespace OpenProxy

open Text

/-! ### Locales -/

inductive LocaleError where
  | invalid
  | notInstalled (canonical : String)
  deriving DecidableEq, Repr

def defaultLocale : String := "en-US"

def installedLocales : List String := [defaultLocale]

/-- The script subtag: a capital and three small letters. -/
def titleCase : List Char → List Char
  | [] => []
  | c :: cs => c.toUpper :: cs.map Char.toLower

def canonicalLocale (locale : String) : Except LocaleError String :=
  if locale.toList = [] || trim locale ≠ locale || !isAscii locale then .error .invalid
  else
    match splitOn '-' locale.toList with
    | [] => .error .invalid
    | language :: rest =>
      if !((language.length == 2 || language.length == 3) && language.all Char.isAlpha) then .error .invalid
      else
        let canonical := language.map Char.toLower
        let (canonical, rest) :=
          match rest with
          | script :: rest' =>
            if script.length == 4 && script.all Char.isAlpha then
              (canonical ++ '-' :: titleCase script, rest')
            else (canonical, rest)
          | [] => (canonical, rest)
        match rest with
        | [] => .ok (.ofList canonical)
        | [region] =>
          if region.length == 2 && region.all Char.isAlpha then
            .ok (.ofList (canonical ++ '-' :: region.map Char.toUpper))
          else if region.length == 3 && region.all Char.isDigit then .ok (.ofList (canonical ++ '-' :: region))
          else .error .invalid
        | _ => .error .invalid

def installedLocale (locale : String) : Except LocaleError String := do
  let canonical ← canonicalLocale locale
  if installedLocales.contains canonical then .ok canonical else .error (.notInstalled canonical)

/-! ### The store -/

/-- The primary group's name: implicit, and refused for any other group. -/
def primaryUpstream : String := "nvidia"

structure NimKey where
  key : String
  owner : String
  enabled : Bool
  rpm : Nat
  deriving DecidableEq, Repr

/-- The primary group. -/
structure Upstream where
  baseUrl : String := "https://integrate.api.nvidia.com"
  nimKeys : List NimKey := []
  enabled : Bool := true
  models : List String := []
  supportsStreamOptions : Bool := true
  deriving DecidableEq, Repr

structure UpstreamEndpoint where
  name : String
  baseUrl : String
  enabled : Bool := true
  keys : List NimKey := []
  models : List String := []
  supportsStreamOptions : Bool := true
  deriving DecidableEq, Repr

inductive Mode where
  | opened
  | keyed
  deriving DecidableEq, Repr

structure ClientKey where
  name : String
  secretSha256 : String
  last4 : String := ""
  owner : String
  deriving DecidableEq, Repr

structure ClientAuth where
  mode : Mode := .keyed
  keys : List ClientKey := []
  deriving DecidableEq, Repr

structure Limits where
  heartbeatSecs : Nat := 10
  maxInflight : Nat := 512
  maxWaitSecs : Nat := 900
  modelsTtlSecs : Nat := 600
  requestTimeoutSecs : Nat := 300
  streamIdleSecs : Nat := 300
  strictPassthrough : Bool := false
  deriving DecidableEq, Repr

structure DashboardCfg where
  defaultWindowDays : Nat := 30
  /-- `none` is a float that is not finite. -/
  sloTargetPercent : Option Rat := some (999 / 10)
  deriving DecidableEq, Repr

structure GovernorCfg where
  enabled : Bool := true
  overrides : Std.ExtTreeMap String Nat := ∅
  deriving DecidableEq

inductive Role where
  | superuser
  | admin
  | user
  deriving DecidableEq, Repr

def Role.isAdmin : Role → Bool
  | .superuser | .admin => true
  | .user => false

structure User where
  username : String
  passwordHash : String
  role : Role
  locale : Option String := none
  deriving DecidableEq, Repr

structure StoredConfig where
  version : Nat := 1
  defaultLocale : String := OpenProxy.defaultLocale
  upstream : Upstream := {}
  upstreams : List UpstreamEndpoint := []
  disabledModels : List String := []
  clientAuth : ClientAuth := {}
  limits : Limits := {}
  /-- Retention in days; 0 keeps forever. -/
  historyDays : Nat := 30
  dashboard : DashboardCfg := {}
  governor : GovernorCfg := {}
  users : List User := []
  deriving DecidableEq

/-- Strip trailing `/v1`s, then trailing slashes. -/
def normalizeBaseUrl (url : String) : String := trimEndMatches (trimEndMatches url "/v1") "/"

/-! ### Validation -/

def validModelId (s : String) : Bool :=
  s.toList != [] && decide (byteLen s ≤ 128) && s.toList.all fun c =>
    c.isAlphanum || c == '.' || c == '_' || c == '-' || c == '/' || c == ':'

def labelOk (s : String) (max : Nat) : Bool :=
  s.toList != [] && decide (byteLen s ≤ max) && s.toList.all fun c =>
    c.isAlphanum || c == '.' || c == '_' || c == '-'

def ensure (ok : Bool) (err : String) : Except String Unit := if ok then .ok () else .error err

/-- The host part of the authority: inside the brackets of an IPv6 literal, else up to the port. -/
def hostOf (authority : String) : String :=
  match stripPrefix authority "[" with
  | some inner => before inner ']'
  | none => before authority ':'

def checkBaseUrl (base : String) : Except String Unit :=
  match (stripPrefix base "http://").orElse fun _ => stripPrefix base "https://" with
  | none => .error "upstream base_url must start with http:// or https://"
  | some rest =>
    let host := toAsciiLowercase (hostOf (before rest '/'))
    ensure (!(startsWith host "169.254." || startsWith host "fe80:"))
      "upstream base_url must not point at a link-local address"

/-- Check every element, collecting what the loop inserts into its set. -/
def checkEach {α : Type} (f : List String → α → Except String (List String)) (seen : List String)
    (xs : List α) : Except String (List String) :=
  xs.foldlM f seen

def validateModelsList (label : String) (models : List String) : Except String Unit := do
  let _ ← checkEach (fun seen m => do
    ensure (validModelId m)
      s!"{label} entry {debug m} must be 1-128 chars of letters, digits, '.', '_', '-', '/' or ':'"
    ensure (!seen.contains m) s!"{label} has a duplicate entry {debug m}"
    return m :: seen) [] models

def validateDisabledModels (models : List String) : Except String Unit := do
  ensure (decide (models.length ≤ 256)) "disabled_models holds at most 256 entries"
  validateModelsList "disabled_models" models

def validateStoredLocale (label locale : String) : Except String Unit :=
  match canonicalLocale locale with
  | .ok canonical =>
    if canonical ≠ locale then .error s!"{label} must use canonical locale spelling {canonical}"
    else
      match installedLocale canonical with
      | .ok _ => .ok ()
      | .error _ => .error s!"{label} locale {canonical} is not installed"
  | .error _ => .error s!"{label} is not a valid locale"

def checkUpstream (names : List String) (ep : UpstreamEndpoint) : Except String (List String) := do
  ensure (labelOk ep.name 64)
    s!"upstream name {debug ep.name} must be 1-64 chars of letters, digits, '.', '_' or '-'"
  ensure (ep.name != primaryUpstream)
    s!"upstream name {debug primaryUpstream} is reserved for the primary group"
  ensure (!names.contains ep.name) s!"duplicate upstream name {debug ep.name}"
  checkBaseUrl ep.baseUrl
  validateModelsList s!"upstream {debug ep.name} models" ep.models
  return ep.name :: names

def checkUser (names : List String) (u : User) : Except String (List String) := do
  ensure (labelOk u.username 32)
    s!"username {debug u.username} must be 1-32 chars of letters, digits, '.', '_' or '-'"
  ensure (!names.contains u.username) s!"duplicate username {debug u.username}"
  ensure (u.passwordHash != "") s!"user {debug u.username} has an empty password hash"
  match u.locale with
  | some locale => validateStoredLocale s!"user {debug u.username} locale" locale
  | none => pure ()
  return u.username :: names

def checkKey (keys : List String) (gk : String × NimKey) : Except String (List String) := do
  ensure (trim gk.2.key != "") s!"a NIM key in group {debug gk.1} is empty"
  ensure (!keys.contains gk.2.key) "duplicate NIM key"
  ensure (decide (1 ≤ gk.2.rpm ∧ gk.2.rpm ≤ 10000)) s!"NIM key rpm {gk.2.rpm} out of range 1-10000"
  return gk.2.key :: keys

def checkClient (names : List String) (c : ClientKey) : Except String (List String) := do
  ensure (labelOk c.name 64)
    s!"client key name {debug c.name} must be 1-64 chars of letters, digits, '.', '_' or '-'"
  ensure (!names.contains c.name) s!"duplicate client key name {debug c.name}"
  ensure (byteLen c.secretSha256 == 64 && c.secretSha256.toList.all isAsciiHexdigit)
    s!"client key {debug c.name} secret digest is not 64 hex chars"
  return c.name :: names

namespace StoredConfig

def superuser (sc : StoredConfig) : Option User := sc.users.find? (·.role == .superuser)

def user (sc : StoredConfig) (username : String) : Option User := sc.users.find? (·.username == username)

/-- The keys with their groups' names, in the order the loops over the groups visit them. -/
def groupKeys (sc : StoredConfig) : List (String × NimKey) :=
  sc.upstream.nimKeys.map (primaryUpstream, ·) ++ sc.upstreams.flatMap fun ep => ep.keys.map (ep.name, ·)

/-- The superuser owns an enabled key on an enabled group. -/
def poolFloor (sc : StoredConfig) (su : User) : Bool :=
  (sc.upstream.enabled && sc.upstream.nimKeys.any fun k => k.enabled && k.owner == su.username) ||
    sc.upstreams.any fun ep => ep.enabled && ep.keys.any fun k => k.enabled && k.owner == su.username

/-- Ownership and the pool floor, once the store has a superuser. -/
def validateOwners (sc : StoredConfig) (su : User) : Except String Unit := do
  sc.upstream.nimKeys.forM fun k =>
    ensure (sc.user k.owner).isSome s!"NIM key owner {debug k.owner} is not a user"
  sc.upstreams.forM fun ep => ep.keys.forM fun k =>
    ensure (sc.user k.owner).isSome s!"NIM key in group {debug ep.name} owner {debug k.owner} is not a user"
  sc.clientAuth.keys.forM fun c =>
    ensure (sc.user c.owner).isSome s!"client key {debug c.name} owner {debug c.owner} is not a user"
  ensure (sc.poolFloor su)
    "the superuser must own at least one enabled NIM key on an enabled upstream (the pool floor)"

/-- The checks on the server's own settings. -/
def validateServer (sc : StoredConfig) : Except String Unit := do
  ensure (sc.version == 1) s!"version must be 1, got {sc.version}"
  validateStoredLocale "default_locale" sc.defaultLocale
  ensure (sc.limits.heartbeatSecs != 0) "heartbeat_secs must be >= 1"
  ensure (decide (sc.limits.heartbeatSecs < sc.limits.maxWaitSecs))
    "max_wait_secs must be greater than heartbeat_secs"
  ensure (sc.limits.requestTimeoutSecs != 0) "request_timeout_secs must be >= 1"
  ensure (sc.limits.maxInflight != 0) "max_inflight must be >= 1"
  ensure (sc.dashboard.defaultWindowDays != 0) "default_window_days must be >= 1"
  ensure (sc.historyDays == 0 || decide (sc.dashboard.defaultWindowDays ≤ sc.historyDays))
    "history days must be 0 or at least default_window_days"
  ensure (sc.dashboard.sloTargetPercent.any fun p => decide (0 < p) && decide (p ≤ 100))
    "slo_target_percent must be a number greater than 0 and at most 100"

/-- The checks on the groups: URLs, model lists, unique names. -/
def validateUpstreams (sc : StoredConfig) : Except String Unit := do
  checkBaseUrl sc.upstream.baseUrl
  validateModelsList "upstream models" sc.upstream.models
  let _ ← checkEach checkUpstream [primaryUpstream] sc.upstreams

def validateUsers (sc : StoredConfig) : Except String Unit := do
  let _ ← checkEach checkUser [] sc.users
  ensure (decide ((sc.users.filter (·.role == .superuser)).length ≤ 1)) "only one superuser may exist"

def validateGovernor (sc : StoredConfig) : Except String Unit :=
  sc.governor.overrides.toList.forM fun (model, cap) =>
    ensure (trim model != "" && decide (1 ≤ cap ∧ cap ≤ 10000))
      s!"governor override for {debug model} out of range 1-10000"

/-- One rulebook for the wizard, every settings endpoint, and boot. -/
def validate (sc : StoredConfig) : Except String Unit := do
  sc.validateServer
  sc.validateUpstreams
  validateDisabledModels sc.disabledModels
  sc.validateUsers
  let _ ← checkEach checkKey [] sc.groupKeys
  let _ ← checkEach checkClient [] sc.clientAuth.keys
  sc.validateGovernor
  match sc.superuser with
  | some su => sc.validateOwners su
  | none => pure ()

/-! ### What the pool and the request path read -/

/-- The lane specs of one group. -/
def groupSpecs (idx : Nat) (name baseUrl : String) (groupEnabled : Bool) (keys : List NimKey)
    (supportsStreamOptions : Bool) : List LaneSpec :=
  keys.map fun k =>
    ⟨k.key, k.rpm, k.enabled && groupEnabled, idx, trimEndMatches baseUrl "/", name, supportsStreamOptions⟩

/-- Every stored key as a lane spec, tagged with the position of its group. Keys that are disabled, or sit
on a disabled group, ride along as state carriers. -/
def poolSpecs (sc : StoredConfig) : List LaneSpec :=
  groupSpecs 0 primaryUpstream sc.upstream.baseUrl sc.upstream.enabled sc.upstream.nimKeys
      sc.upstream.supportsStreamOptions ++
    (sc.upstreams.zipIdx 1).flatMap fun (ep, i) =>
      groupSpecs i ep.name ep.baseUrl ep.enabled ep.keys ep.supportsStreamOptions

end StoredConfig

/-- One endpoint group as the pool, the router and the dashboard see it. -/
structure EndpointView where
  name : String
  baseUrl : String
  enabled : Bool
  models : List String
  supportsStreamOptions : Bool
  deriving DecidableEq, Repr

/-- One endpoint group as the request path sees it. -/
structure EndpointRuntime where
  name : String
  baseUrl : String
  enabled : Bool
  models : List String
  deriving DecidableEq, Repr

/-- The immutable snapshot the request path consumes. Durations are in seconds. -/
structure Config where
  baseUrl : String
  endpoints : List EndpointRuntime
  disabledModels : List String
  maxWait : Nat
  heartbeat : Nat
  modelsTtl : Nat
  streamIdle : Nat
  requestTimeout : Nat
  strictPassthrough : Bool
  /-- Secret digest and client name; `none` in open mode. -/
  clients : Option (List (String × String))
  maxInflight : Nat
  governor : GovernorCfg
  deriving DecidableEq

namespace StoredConfig

def endpoints (sc : StoredConfig) : List EndpointView :=
  ⟨primaryUpstream, trimEndMatches sc.upstream.baseUrl "/", sc.upstream.enabled, sc.upstream.models,
      sc.upstream.supportsStreamOptions⟩ ::
    sc.upstreams.map fun ep =>
      ⟨ep.name, trimEndMatches ep.baseUrl "/", ep.enabled, ep.models, ep.supportsStreamOptions⟩

def runtime (sc : StoredConfig) : Config where
  baseUrl := trimEndMatches sc.upstream.baseUrl "/"
  endpoints := sc.endpoints.map fun e => ⟨e.name, e.baseUrl, e.enabled, e.models⟩
  disabledModels := sc.disabledModels
  maxWait := sc.limits.maxWaitSecs
  heartbeat := sc.limits.heartbeatSecs
  modelsTtl := sc.limits.modelsTtlSecs
  streamIdle := sc.limits.streamIdleSecs
  requestTimeout := sc.limits.requestTimeoutSecs
  strictPassthrough := sc.limits.strictPassthrough
  clients :=
    match sc.clientAuth.mode with
    | .opened => none
    | .keyed => some (sc.clientAuth.keys.map fun k => (k.secretSha256, k.name))
  maxInflight := sc.limits.maxInflight
  governor := sc.governor

/-- The groups' names by position. -/
def groupNames (sc : StoredConfig) : List String := primaryUpstream :: sc.upstreams.map (·.name)

end StoredConfig

namespace Config

/-- Positions of the enabled groups whose model list satisfies `p`. -/
def positions (cfg : Config) (p : List String → Bool) : List Nat :=
  (cfg.endpoints.zipIdx.filter fun (ep, _) => ep.enabled && p ep.models).map (·.2)

/-- The groups that may serve `model`: those that list it, else the catch-alls. `none` means the model is
disabled. -/
def routeModel (cfg : Config) (model : String) : Option (List Nat) :=
  if cfg.disabledModels.contains model then none
  else
    let specific := cfg.positions fun models => models != [] && models.contains model
    let catchAll := cfg.positions (· == [])
    if specific = [] then some catchAll else some specific

theorem lt_of_mem_routeModel {cfg : Config} {model : String} {route : List Nat} {i : Nat}
    (h : cfg.routeModel model = some route) (hi : i ∈ route) : i < cfg.endpoints.length := by
  have hpos : ∀ p, i ∈ cfg.positions p → i < cfg.endpoints.length := by
    intro p hp
    obtain ⟨⟨ep, j⟩, hmem, rfl⟩ := List.mem_map.1 hp
    exact (List.getElem?_eq_some_iff.1 (List.mk_mem_zipIdx_iff_getElem?.1 (List.mem_filter.1 hmem).1)).1
  unfold routeModel at h
  split at h
  · cases h
  · dsimp only at h
    split at h <;> cases h <;> exact hpos _ hi

end Config

namespace StoredConfig

@[simp] theorem runtime_names (sc : StoredConfig) :
    sc.runtime.endpoints.map (·.name) = sc.groupNames := by
  simp [runtime, endpoints, groupNames, Function.comp_def]

/-- A lane spec carries the name of the group at its position. -/
theorem groupNames_of_mem_poolSpecs {sc : StoredConfig} {spec : LaneSpec} (h : spec ∈ sc.poolSpecs) :
    sc.groupNames[spec.endpoint]? = some spec.upstream := by
  rcases List.mem_append.1 h with h | h
  · obtain ⟨k, -, rfl⟩ := List.mem_map.1 h
    rfl
  · obtain ⟨⟨ep, i⟩, hep, h⟩ := List.mem_flatMap.1 h
    obtain ⟨k, -, rfl⟩ := List.mem_map.1 h
    obtain ⟨hle, hget⟩ := List.mk_mem_zipIdx_iff_le_and_getElem?_sub.1 hep
    obtain ⟨j, rfl⟩ := Nat.exists_eq_add_of_le' hle
    rw [Nat.add_sub_cancel] at hget
    simp [groupNames, hget]

theorem poolSpecs_keys (sc : StoredConfig) : sc.poolSpecs.map (·.key) = sc.groupKeys.map (·.2.key) := by
  have hz : ∀ (eps : List UpstreamEndpoint) (n : Nat),
      ((eps.zipIdx n).flatMap fun (ep, i) =>
        groupSpecs i ep.name ep.baseUrl ep.enabled ep.keys ep.supportsStreamOptions).map (·.key) =
      (eps.flatMap fun ep => ep.keys.map (ep.name, ·)).map (·.2.key) := by
    intro eps
    induction eps with
    | nil => intro n; rfl
    | cons ep eps ih =>
      intro n
      simp only [List.zipIdx_cons, List.flatMap_cons, List.map_append, ih]
      simp [groupSpecs, Function.comp_def]
  simp only [poolSpecs, groupKeys, List.map_append, hz]
  simp [groupSpecs, Function.comp_def]

/-- A stored key has a lane spec at its group's position, enabled if both are. -/
theorem mem_poolSpecs_upstream {sc : StoredConfig} {k : NimKey} (hk : k ∈ sc.upstream.nimKeys) :
    ∃ spec ∈ sc.poolSpecs, spec.key = k.key ∧ spec.rpm = k.rpm ∧ spec.endpoint = 0 ∧
      spec.enabled = (k.enabled && sc.upstream.enabled) :=
  ⟨_, List.mem_append_left _ (List.mem_map_of_mem hk), rfl, rfl, rfl, rfl⟩

theorem mem_poolSpecs_upstreams {sc : StoredConfig} {ep : UpstreamEndpoint} {i : Nat} {k : NimKey}
    (hep : sc.upstreams[i]? = some ep) (hk : k ∈ ep.keys) :
    ∃ spec ∈ sc.poolSpecs, spec.key = k.key ∧ spec.rpm = k.rpm ∧ spec.endpoint = i + 1 ∧
      spec.enabled = (k.enabled && ep.enabled) := by
  refine ⟨_, List.mem_append_right _ (List.mem_flatMap.2 ⟨(ep, i + 1), ?_, List.mem_map_of_mem hk⟩), rfl, rfl,
    rfl, rfl⟩
  exact List.mk_mem_zipIdx_iff_le_and_getElem?_sub.2 ⟨by omega, by simpa using hep⟩

end StoredConfig

/-! ### What validation guarantees -/

theorem ensure_eq_ok {ok : Bool} {err : String} {u : Unit} : ensure ok err = .ok u ↔ ok = true := by
  unfold ensure
  cases ok <;> simp

/-- A check that inserts a fresh name at each turn passes only lists of distinct names. -/
theorem checkEach_nodup {α : Type} {f : List String → α → Except String (List String)} (name : α → String)
    (hf : ∀ {seen x out}, f seen x = .ok out → name x ∉ seen ∧ out = name x :: seen)
    {xs : List α} {seen out : List String} (hs : seen.Nodup) (h : checkEach f seen xs = .ok out) :
    (xs.map name).Nodup ∧ ∀ x ∈ xs, name x ∉ seen := by
  induction xs generalizing seen with
  | nil => exact ⟨.nil, fun x hx => by cases hx⟩
  | cons x xs ih =>
    obtain ⟨seen', hx, hxs⟩ := bind_eq_ok.1 h
    obtain ⟨hnew, rfl⟩ := hf hx
    obtain ⟨hnodup, hnot⟩ := ih (List.nodup_cons.2 ⟨hnew, hs⟩) hxs
    refine ⟨List.nodup_cons.2 ⟨fun hmem => ?_, hnodup⟩, fun y hy => ?_⟩
    · obtain ⟨y, hy, he⟩ := List.mem_map.1 hmem
      exact hnot y hy (he ▸ List.mem_cons_self)
    · rcases List.mem_cons.1 hy with rfl | hy
      · exact hnew
      · exact fun hmem => hnot y hy (List.mem_cons_of_mem _ hmem)

/-- Every element of a list that passes was checked. -/
theorem checkEach_mem {α : Type} {f : List String → α → Except String (List String)} {xs : List α}
    {seen out : List String} (h : checkEach f seen xs = .ok out) {x : α} (hx : x ∈ xs) :
    ∃ seen out, f seen x = .ok out := by
  induction xs generalizing seen with
  | nil => cases hx
  | cons y xs ih =>
    obtain ⟨seen', hy, hxs⟩ := bind_eq_ok.1 h
    rcases List.mem_cons.1 hx with rfl | hx
    · exact ⟨seen, seen', hy⟩
    · exact ih hxs hx

/-- A check that inserts the name of each element passes the elements that are right, with names that are new. -/
theorem checkEach_iff {α : Type} {f : List String → α → Except String (List String)} (name : α → String)
    (right : α → Prop) (hf : ∀ {seen x out}, f seen x = .ok out ↔ right x ∧ name x ∉ seen ∧ out = name x :: seen)
    {xs : List α} {seen : List String} :
    (∃ out, checkEach f seen xs = .ok out) ↔
      (∀ x ∈ xs, right x) ∧ (xs.map name).Nodup ∧ ∀ x ∈ xs, name x ∉ seen := by
  induction xs generalizing seen with
  | nil => exact iff_of_true ⟨seen, rfl⟩ (by simp)
  | cons x xs ih =>
    have hstep : (∃ out, checkEach f seen (x :: xs) = .ok out) ↔
        (right x ∧ name x ∉ seen) ∧ ∃ out, checkEach f (name x :: seen) xs = .ok out := by
      constructor
      · rintro ⟨out, h⟩
        obtain ⟨seen', hx, hxs⟩ := bind_eq_ok.1 h
        obtain ⟨hright, hnew, rfl⟩ := hf.1 hx
        exact ⟨⟨hright, hnew⟩, out, hxs⟩
      · rintro ⟨⟨hright, hnew⟩, out, hxs⟩
        exact ⟨out, bind_eq_ok.2 ⟨_, hf.2 ⟨hright, hnew, rfl⟩, hxs⟩⟩
    rw [hstep, ih, List.map_cons, List.nodup_cons, List.forall_mem_cons, List.forall_mem_cons]
    simp only [List.mem_cons, List.mem_map, not_or, not_exists, not_and]
    constructor
    · rintro ⟨⟨hright, hnew⟩, hrights, hnodup, hunseen⟩
      exact ⟨⟨hright, hrights⟩, ⟨fun y hy => (hunseen y hy).1, hnodup⟩, hnew, fun y hy => (hunseen y hy).2⟩
    · rintro ⟨⟨hright, hrights⟩, ⟨hfresh, hnodup⟩, hnew, hunseen⟩
      exact ⟨⟨hright, hnew⟩, hrights, hnodup, fun y hy => ⟨hfresh y hy, hunseen y hy⟩⟩

theorem checkEach_nil_iff {α : Type} {f : List String → α → Except String (List String)} (name : α → String)
    (right : α → Prop) (hf : ∀ {seen x out}, f seen x = .ok out ↔ right x ∧ name x ∉ seen ∧ out = name x :: seen)
    {xs : List α} :
    (∃ out, checkEach f [] xs = .ok out) ↔ (∀ x ∈ xs, right x) ∧ (xs.map name).Nodup := by
  rw [checkEach_iff name right hf]
  simp

theorem checkKey_iff {keys out : List String} {gk : String × NimKey} :
    checkKey keys gk = .ok out ↔ (Text.trim gk.2.key ≠ "" ∧ 1 ≤ gk.2.rpm ∧ gk.2.rpm ≤ 10000) ∧
      gk.2.key ∉ keys ∧ out = gk.2.key :: keys := by
  simp only [checkKey, bind_eq_ok, ensure_eq_ok, pure, Except.pure, Except.ok.injEq]
  constructor
  · rintro ⟨-, htrim, -, hnew, -, hrpm, rfl⟩
    exact ⟨⟨by simpa using htrim, by simpa using hrpm⟩, by simpa using hnew, rfl⟩
  · rintro ⟨⟨htrim, hrpm⟩, hnew, rfl⟩
    exact ⟨(), by simpa using htrim, (), by simpa using hnew, (), by simpa using hrpm, rfl⟩

theorem checkKeys_iff {gks : List (String × NimKey)} :
    (∃ out, checkEach checkKey [] gks = .ok out) ↔
      (∀ gk ∈ gks, Text.trim gk.2.key ≠ "" ∧ 1 ≤ gk.2.rpm ∧ gk.2.rpm ≤ 10000) ∧ (gks.map (·.2.key)).Nodup :=
  checkEach_nil_iff (fun gk : String × NimKey => gk.2.key) _ checkKey_iff

theorem checkClient_iff {names out : List String} {c : ClientKey} :
    checkClient names c = .ok out ↔
      (labelOk c.name 64 = true ∧ Text.byteLen c.secretSha256 = 64 ∧
        c.secretSha256.toList.all Text.isAsciiHexdigit = true) ∧ c.name ∉ names ∧ out = c.name :: names := by
  simp only [checkClient, bind_eq_ok, ensure_eq_ok, pure, Except.pure, Except.ok.injEq]
  constructor
  · rintro ⟨-, hlabel, -, hnew, -, hdigest, rfl⟩
    rw [Bool.and_eq_true] at hdigest
    exact ⟨⟨hlabel, by simpa using hdigest.1, hdigest.2⟩, by simpa using hnew, rfl⟩
  · rintro ⟨⟨hlabel, hlen, hdigits⟩, hnew, rfl⟩
    exact ⟨(), hlabel, (), by simpa using hnew, (), by rw [hlen, hdigits]; rfl, rfl⟩

theorem checkClients_iff {cs : List ClientKey} :
    (∃ out, checkEach checkClient [] cs = .ok out) ↔
      (∀ c ∈ cs, labelOk c.name 64 = true ∧ Text.byteLen c.secretSha256 = 64 ∧
        c.secretSha256.toList.all Text.isAsciiHexdigit = true) ∧ (cs.map (·.name)).Nodup :=
  checkEach_nil_iff ClientKey.name _ checkClient_iff

theorem forM_eq_ok {ε α : Type} {f : α → Except ε Unit} {xs : List α} {u : Unit} :
    xs.forM f = .ok u ↔ ∀ x ∈ xs, f x = .ok () := by
  induction xs with
  | nil => exact iff_of_true rfl (by simp)
  | cons x xs ih =>
    show (f x >>= fun _ => xs.forM f) = _ ↔ _
    rw [bind_eq_ok, List.forall_mem_cons, ← ih]
    constructor
    · rintro ⟨_, hx, hxs⟩
      exact ⟨hx, hxs⟩
    · rintro ⟨hx, hxs⟩
      exact ⟨(), hx, hxs⟩

theorem validateOwners_iff {sc : StoredConfig} {su : User} :
    sc.validateOwners su = .ok () ↔
      (∀ gk ∈ sc.groupKeys, (sc.user gk.2.owner).isSome = true) ∧
      (∀ c ∈ sc.clientAuth.keys, (sc.user c.owner).isSome = true) ∧ sc.poolFloor su = true := by
  simp only [StoredConfig.validateOwners, bind_eq_ok, forM_eq_ok, ensure_eq_ok, StoredConfig.groupKeys]
  constructor
  · rintro ⟨-, hprimary, -, hothers, -, hclients, hfloor⟩
    refine ⟨fun gk hgk => ?_, hclients, hfloor⟩
    rcases List.mem_append.1 hgk with hgk | hgk
    · obtain ⟨k, hk, rfl⟩ := List.mem_map.1 hgk
      exact hprimary k hk
    · obtain ⟨ep, hep, hgk⟩ := List.mem_flatMap.1 hgk
      obtain ⟨k, hk, rfl⟩ := List.mem_map.1 hgk
      exact hothers ep hep k hk
  · rintro ⟨hkeys, hclients, hfloor⟩
    refine ⟨(), fun k hk => ?_, (), fun ep hep k hk => ?_, (), hclients, hfloor⟩
    · exact hkeys _ (List.mem_append_left _ (List.mem_map_of_mem hk))
    · exact hkeys (ep.name, k) (List.mem_append_right _ (List.mem_flatMap.2 ⟨ep, hep, List.mem_map_of_mem hk⟩))

/-- Every part of the rulebook. -/
theorem validate_iff {sc : StoredConfig} :
    sc.validate = .ok () ↔
      sc.validateServer = .ok () ∧ sc.validateUpstreams = .ok () ∧ validateDisabledModels sc.disabledModels = .ok () ∧
      sc.validateUsers = .ok () ∧ (∃ out, checkEach checkKey [] sc.groupKeys = .ok out) ∧
      (∃ out, checkEach checkClient [] sc.clientAuth.keys = .ok out) ∧ sc.validateGovernor = .ok () ∧
      ∀ su, sc.superuser = some su → sc.validateOwners su = .ok () := by
  simp only [StoredConfig.validate, bind_eq_ok]
  constructor
  · rintro ⟨_, hserver, _, hups, _, hdisabled, _, husers, keys, hkeys, clients, hclients, _, hgovernor, howners⟩
    refine ⟨hserver, hups, hdisabled, husers, ⟨keys, hkeys⟩, ⟨clients, hclients⟩, hgovernor, fun su hsu => ?_⟩
    rwa [hsu] at howners
  · rintro ⟨hserver, hups, hdisabled, husers, ⟨keys, hkeys⟩, ⟨clients, hclients⟩, hgovernor, howners⟩
    refine ⟨(), hserver, (), hups, (), hdisabled, (), husers, keys, hkeys, clients, hclients, (), hgovernor, ?_⟩
    cases hsu : sc.superuser with
    | none => rfl
    | some su => exact howners su hsu

/-- A store that passes validation has no key twice. -/
theorem StoredConfig.keysDistinct_of_validate {sc : StoredConfig} (h : sc.validate = .ok ()) :
    PoolWindow.keysDistinct sc.poolSpecs := by
  obtain ⟨-, -, -, -, hkeys, -⟩ := validate_iff.1 h
  rw [PoolWindow.keysDistinct, poolSpecs_keys]
  exact (checkKeys_iff.1 hkeys).2

theorem StoredConfig.rpm_of_validate {sc : StoredConfig} (h : sc.validate = .ok ()) {gk : String × NimKey}
    (hgk : gk ∈ sc.groupKeys) : 1 ≤ gk.2.rpm := by
  obtain ⟨-, -, -, -, hkeys, -⟩ := validate_iff.1 h
  obtain ⟨-, hrpm, -⟩ := (checkKeys_iff.1 hkeys).1 gk hgk
  exact hrpm

end OpenProxy
