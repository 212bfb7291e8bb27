import OpenProxy.Authority

/-!
# What `GET /api/config` shows (`api_config` and `upstream_rows` of `settings.rs`, `lane_stats` of `pool.rs`)

The response is filtered by role before it is serialised. `Own` is what a caller of the user role may see: their
record, their keys, the groups these are in, and the settings that carry no ownership. On a valid store the handler
answers such a caller with a function of it (`apiConfig_own`), so nothing else in the store can show. What is not
obvious is the padlock, which is computed from the superuser's keys: it never falls on a key of somebody else because
a key string is in the store once.
-/

namespace OpenProxy

open Text Transition Settings

structure LaneStat where
  key : String
  rpm : Nat
  inWindow : Nat
  cooldownMs : Nat
  deriving DecidableEq, Repr

/-- The enabled lanes as they are at `now`. -/
def Pool.laneStats (p : Pool) (now : Nat) : List LaneStat :=
  (p.lanes.take p.active).map fun l =>
    { key := l.key, rpm := l.rpm
      inWindow := (l.sent.filter fun t => decide (now - t < window)).length
      cooldownMs := (l.cooldownUntil - now) / 1000000 % 2 ^ 64 }

namespace ConfigView

/-! ### The response -/

structure ClientKeyRow where
  last4 : String
  name : String
  owner : String
  deriving DecidableEq, Repr

/-- A stored key and its live lane state, which a disabled key has none of. -/
structure NimKeyRow where
  cooldownMs : Option Nat
  enabled : Bool
  fingerprint : String
  /-- The superuser's only enabled key. -/
  guarded : Bool
  inWindow : Option Nat
  lane : Option Nat
  last4 : String
  owner : String
  rpm : Nat
  upstream : String
  deriving DecidableEq, Repr

structure UpstreamRow where
  baseUrl : String
  enabled : Bool
  keys : Nat
  models : List String
  name : String
  supportsStreamOptions : Bool
  deriving DecidableEq, Repr

structure PoolSummary where
  capacityRpm : Nat
  enabled : Nat
  deriving DecidableEq, Repr

/-- What `history.status()` answers. -/
structure HistoryStatus where
  availableFrom : Option Nat
  compactionPending : Bool
  fileBytes : Nat
  persistence : String
  deriving DecidableEq, Repr

structure HistorySettings extends HistoryStatus where
  days : Nat
  deriving DecidableEq, Repr

structure ServerSettings where
  baseUrl : String
  dashboard : DashboardCfg
  defaultLocale : String
  governor : GovernorCfg
  history : HistorySettings
  limits : Limits
  deriving DecidableEq

structure UserRow where
  clientKeys : Nat
  nimKeys : Nat
  role : Role
  username : String
  deriving DecidableEq, Repr

structure ConfigResponse where
  clientKeys : List ClientKeyRow
  disabledModels : List String
  locale : Option String
  mode : Mode
  nimKeys : List NimKeyRow
  pool : PoolSummary
  role : Role
  server : Option ServerSettings
  upstreams : List UpstreamRow
  username : String
  users : Option (List UserRow)
  deriving DecidableEq

/-! ### The handler -/

/-- What the handler reads, and when: the store under its lock, then the pool and the history without it. -/
structure Snapshot where
  store : StoredConfig
  pool : Pool
  now : Nat
  history : HistoryStatus

/-- Lane number, requests in the window and cooldown by key; a later lane of the same key would win. -/
def Snapshot.stats (s : Snapshot) : Std.ExtTreeMap String (Nat × Nat × Nat) :=
  .ofList ((s.pool.laneStats s.now).zipIdx.map fun (stat, lane) => (stat.key, lane, stat.inWindow, stat.cooldownMs))

/-- The superuser's enabled keys on enabled groups. -/
def suEnabled (sc : StoredConfig) : List String :=
  let su := (sc.superuser.map (·.username)).getD ""
  (sc.upstream.nimKeys.filter fun k => sc.upstream.enabled && k.enabled && k.owner == su).map (·.key) ++
    sc.upstreams.flatMap fun ep => (ep.keys.filter fun k => ep.enabled && k.enabled && k.owner == su).map (·.key)

def guardedKey (sc : StoredConfig) : Option String :=
  if (suEnabled sc).length = 1 then (suEnabled sc)[0]? else none

section
variable (sha256Hex : String → String)

def nimKeyRow (guarded : Bool) (lane : Option (Nat × Nat × Nat)) (group : String) (k : NimKey) : NimKeyRow where
  cooldownMs := lane.map fun (_, _, c) => c
  enabled := k.enabled
  fingerprint := fingerprint sha256Hex k.key
  guarded := guarded
  inWindow := lane.map fun (_, w, _) => w
  lane := lane.map fun (i, _, _) => i
  last4 := last4 k.key
  owner := k.owner
  rpm := k.rpm
  upstream := group

def pushKeys (s : Snapshot) (adminView : Bool) (username group : String) (keys : List NimKey) : List NimKeyRow :=
  (keys.filter fun k => adminView || k.owner == username).map fun k =>
    nimKeyRow sha256Hex (guardedKey s.store == some k.key) s.stats[k.key]? group k

end

def clientKeyRow (c : ClientKey) : ClientKeyRow := ⟨c.last4, c.name, c.owner⟩

def serverSettings (sc : StoredConfig) (history : HistoryStatus) : ServerSettings where
  baseUrl := sc.upstream.baseUrl
  dashboard := sc.dashboard
  defaultLocale := sc.defaultLocale
  governor := sc.governor
  history := { history with days := sc.historyDays }
  limits := sc.limits

def userRow (sc : StoredConfig) (u : User) : UserRow where
  clientKeys := (sc.clientAuth.keys.filter (·.owner == u.username)).length
  nimKeys := (sc.upstream.nimKeys.filter (·.owner == u.username)).length +
    ((sc.upstreams.flatMap (·.keys)).filter (·.owner == u.username)).length
  role := u.role
  username := u.username

/-- An admin gets every group, anybody else the groups with keys of theirs, and the number of these. -/
def upstreamRows (sc : StoredConfig) (username : String) (adminView : Bool) : List UpstreamRow :=
  let push (name baseUrl : String) (enabled : Bool) (models : List String) (keys : List NimKey)
      (supportsStreamOptions : Bool) : List UpstreamRow :=
    let mine := (keys.filter (·.owner == username)).length
    if adminView || decide (0 < mine) then
      [{ baseUrl := baseUrl, enabled := enabled, keys := if adminView then keys.length else mine
         models := models, name := name, supportsStreamOptions := supportsStreamOptions }]
    else []
  push primaryUpstream sc.upstream.baseUrl sc.upstream.enabled sc.upstream.models sc.upstream.nimKeys
      sc.upstream.supportsStreamOptions ++
    sc.upstreams.flatMap fun ep => push ep.name ep.baseUrl ep.enabled ep.models ep.keys ep.supportsStreamOptions

/-- `GET /api/config` of the principal `username`. -/
def apiConfig (sha256Hex : String → String) (s : Snapshot) (username : String) : Except ApiError ConfigResponse :=
  let sc := s.store
  match roleOf sc username with
  | none => .error staleSession
  | some role =>
    let adminView := role.isAdmin
    .ok {
      clientKeys := (sc.clientAuth.keys.filter fun c => adminView || c.owner == username).map clientKeyRow
      disabledModels := sc.disabledModels
      locale := (sc.user username).bind (·.locale)
      mode := sc.clientAuth.mode
      nimKeys := pushKeys sha256Hex s adminView username primaryUpstream sc.upstream.nimKeys ++
        sc.upstreams.flatMap fun ep => pushKeys sha256Hex s adminView username ep.name ep.keys
      pool := ⟨s.pool.capacityRpm, s.pool.len⟩
      role := role
      server := if adminView then some (serverSettings sc s.history) else none
      upstreams := upstreamRows sc username adminView
      username := username
      users := if adminView then some (sc.users.map (userRow sc)) else none }

/-! ### What is the caller's own -/

/-- The groups as the loops visit them: the primary one, then the others. -/
def groups (sc : StoredConfig) : List UpstreamEndpoint :=
  { name := primaryUpstream, baseUrl := sc.upstream.baseUrl, enabled := sc.upstream.enabled
    keys := sc.upstream.nimKeys, models := sc.upstream.models
    supportsStreamOptions := sc.upstream.supportsStreamOptions } :: sc.upstreams

/-- The groups with keys of the caller, with these keys only. -/
def ownGroups (sc : StoredConfig) (username : String) : List UpstreamEndpoint :=
  ((groups sc).map fun g => { g with keys := g.keys.filter (·.owner == username) }).filter (!·.keys.isEmpty)

def ownClientKeys (sc : StoredConfig) (username : String) : List ClientKey :=
  sc.clientAuth.keys.filter (·.owner == username)

/-- All that a caller of the user role may see. -/
structure Own where
  user : User
  clientKeys : List ClientKey
  groups : List UpstreamEndpoint
  /-- The caller's keys, each with its group and its lane. -/
  keys : List (String × NimKey × Option (Nat × Nat × Nat))
  disabledModels : List String
  mode : Mode
  pool : PoolSummary

def own (s : Snapshot) (u : User) : Own where
  user := u
  clientKeys := ownClientKeys s.store u.username
  groups := ownGroups s.store u.username
  keys := (ownGroups s.store u.username).flatMap fun g => g.keys.map fun k => (g.name, k, s.stats[k.key]?)
  disabledModels := s.store.disabledModels
  mode := s.store.clientAuth.mode
  pool := ⟨s.pool.capacityRpm, s.pool.len⟩

def upstreamRow (g : UpstreamEndpoint) : UpstreamRow :=
  ⟨g.baseUrl, g.enabled, g.keys.length, g.models, g.name, g.supportsStreamOptions⟩

/-- The response to somebody who may see no more than `o`. -/
def Own.response (sha256Hex : String → String) (o : Own) : ConfigResponse where
  clientKeys := o.clientKeys.map clientKeyRow
  disabledModels := o.disabledModels
  locale := o.user.locale
  mode := o.mode
  nimKeys := o.keys.map fun (group, k, lane) => nimKeyRow sha256Hex false lane group k
  pool := o.pool
  role := o.user.role
  server := none
  upstreams := o.groups.map upstreamRow
  username := o.user.username
  users := none

/-- Two servers that agree on what is the caller's own. -/
structure Agree (username : String) (s s' : Snapshot) : Prop where
  user : s.store.user username = s'.store.user username
  clientKeys : ownClientKeys s.store username = ownClientKeys s'.store username
  groups : ownGroups s.store username = ownGroups s'.store username
  lanes : ∀ g ∈ ownGroups s.store username, ∀ k ∈ g.keys, s.stats[k.key]? = s'.stats[k.key]?
  disabledModels : s.store.disabledModels = s'.store.disabledModels
  mode : s.store.clientAuth.mode = s'.store.clientAuth.mode
  len : s.pool.len = s'.pool.len
  capacityRpm : s.pool.capacityRpm = s'.pool.capacityRpm

theorem Agree.own {username : String} {s s' : Snapshot} (h : Agree username s s') {u : User}
    (hu : s.store.user username = some u) : own s u = own s' u := by
  obtain rfl := user_username hu
  have hkeys : (ConfigView.own s u).keys = (ConfigView.own s' u).keys := by
    show (ownGroups s.store u.username).flatMap _ = (ownGroups s'.store u.username).flatMap _
    rw [← h.groups]
    refine List.flatMap_congr fun g hg => List.map_congr_left fun k hk => ?_
    rw [h.lanes g hg k hk]
  simp only [ConfigView.own] at hkeys ⊢
  rw [hkeys, h.clientKeys, h.groups, h.disabledModels, h.mode, h.len, h.capacityRpm]

/-! ### The padlock -/

theorem mem_suEnabled {sc : StoredConfig} {key : String} (h : key ∈ suEnabled sc) :
    ∃ gk ∈ sc.groupKeys, gk.2.key = key ∧ gk.2.owner = (sc.superuser.map (·.username)).getD "" := by
  unfold suEnabled at h
  rcases List.mem_append.1 h with h | h
  · obtain ⟨k, hk, rfl⟩ := List.mem_map.1 h
    obtain ⟨hk, howner⟩ := List.mem_filter.1 hk
    refine ⟨(primaryUpstream, k), List.mem_append_left _ (List.mem_map_of_mem hk), rfl, ?_⟩
    exact beq_iff_eq.1 (Bool.and_eq_true_iff.1 howner).2
  · obtain ⟨ep, hep, h⟩ := List.mem_flatMap.1 h
    obtain ⟨k, hk, rfl⟩ := List.mem_map.1 h
    obtain ⟨hk, howner⟩ := List.mem_filter.1 hk
    refine ⟨(ep.name, k), List.mem_append_right _ (List.mem_flatMap.2 ⟨ep, hep, List.mem_map_of_mem hk⟩), rfl, ?_⟩
    exact beq_iff_eq.1 (Bool.and_eq_true_iff.1 howner).2

theorem guardedKey_mem {sc : StoredConfig} {key : String} (h : guardedKey sc = some key) : key ∈ suEnabled sc := by
  unfold guardedKey at h
  split at h
  · exact List.mem_of_getElem? h
  · cases h

theorem checkUser_label {names out : List String} {u : User} (h : checkUser names u = .ok out) :
    labelOk u.username 32 = true := by
  simp only [checkUser, bind_eq_ok, ensure_eq_ok] at h
  obtain ⟨-, hlabel, -⟩ := h
  exact hlabel

/-- A user has a name. -/
theorem user_ne_empty {sc : StoredConfig} (hv : sc.validate = .ok ()) {username : String} {u : User}
    (hu : sc.user username = some u) : username ≠ "" := by
  unfold StoredConfig.validate at hv
  obtain ⟨_, -, hv⟩ := bind_eq_ok.1 hv
  obtain ⟨_, -, hv⟩ := bind_eq_ok.1 hv
  obtain ⟨_, -, hv⟩ := bind_eq_ok.1 hv
  obtain ⟨_, husers, -⟩ := bind_eq_ok.1 hv
  obtain ⟨names, hnames, -⟩ := bind_eq_ok.1 husers
  obtain ⟨_, _, hcheck⟩ := checkEach_mem hnames (List.mem_of_find?_eq_some hu)
  have hlabel := checkUser_label hcheck
  rw [user_username hu] at hlabel
  rintro rfl
  revert hlabel
  decide

/-- The padlock is on no key of a user who is not the superuser. -/
theorem not_guarded {sc : StoredConfig} (hv : sc.validate = .ok ()) {username : String} {u : User}
    (hu : sc.user username = some u) (hrole : u.role ≠ .superuser) {gk : String × NimKey}
    (hgk : gk ∈ sc.groupKeys) (hown : gk.2.owner = username) : guardedKey sc ≠ some gk.2.key := by
  intro hguarded
  obtain ⟨gk', hgk', hkey, howner⟩ := mem_suEnabled (guardedKey_mem hguarded)
  have hdistinct : (sc.groupKeys.map (·.2.key)).Nodup := by
    rw [← StoredConfig.poolSpecs_keys]
    exact StoredConfig.keysDistinct_of_validate hv
  obtain rfl := List.inj_on_of_nodup_map hdistinct hgk' hgk hkey
  rw [hown] at howner
  cases hsu : sc.superuser with
  | none =>
    rw [hsu] at howner
    exact user_ne_empty hv hu howner
  | some su =>
    rw [hsu] at howner
    exact (usersValid_of_validate hv).superuser_ne hsu hu hrole howner.symm

/-! ### A caller of the user role -/

section
variable {sc : StoredConfig} {username : String}

theorem mem_groupKeys_of_groups {g : UpstreamEndpoint} {k : NimKey} (hg : g ∈ groups sc) (hk : k ∈ g.keys) :
    (g.name, k) ∈ sc.groupKeys := by
  rcases List.mem_cons.1 hg with rfl | hg
  · exact List.mem_append_left _ (List.mem_map_of_mem hk)
  · exact List.mem_append_right _ (List.mem_flatMap.2 ⟨g, hg, List.mem_map_of_mem hk⟩)

/-- A loop over the groups that says nothing about a group without keys of the caller is one over the caller's. -/
theorem flatMap_ownGroups {α : Type} (f : UpstreamEndpoint → List α) (hf : ∀ g, g.keys = [] → f g = []) :
    (ownGroups sc username).flatMap f =
      (groups sc).flatMap fun g => f { g with keys := g.keys.filter (·.owner == username) } := by
  unfold ownGroups
  induction groups sc with
  | nil => rfl
  | cons g gs ih =>
    rw [List.map_cons, List.flatMap_cons, List.filter_cons]
    split
    · rw [List.flatMap_cons, ih]
    · rename_i hempty
      rw [ih, hf _ (by simpa using hempty), List.nil_append]

theorem mem_ownGroups {g : UpstreamEndpoint} (hg : g ∈ ownGroups sc username) : g.keys ≠ [] := by
  have h := (List.mem_filter.1 hg).2
  rintro hkeys
  rw [hkeys] at h
  cases h

theorem upstreamRows_own : upstreamRows sc username false = (ownGroups sc username).map upstreamRow := by
  have hrow : (ownGroups sc username).map upstreamRow =
      (ownGroups sc username).flatMap fun g => if 0 < g.keys.length then [upstreamRow g] else [] := by
    rw [← List.flatMap_pure_eq_map]
    refine List.flatMap_congr fun g hg => ?_
    rw [if_pos (List.length_pos_of_ne_nil (mem_ownGroups hg))]
    rfl
  rw [hrow, flatMap_ownGroups _ fun g hg => by rw [hg]; rfl]
  simp only [upstreamRows, groups, List.flatMap_cons, Bool.false_or, decide_eq_true_eq, Bool.false_eq_true, if_false,
    upstreamRow]

variable {sha256Hex : String → String}

theorem pushKeys_own {s : Snapshot} (hv : s.store.validate = .ok ()) {u : User}
    (hu : s.store.user username = some u) (hrole : u.role ≠ .superuser) {g : UpstreamEndpoint}
    (hg : g ∈ groups s.store) : pushKeys sha256Hex s false username g.name g.keys =
      (g.keys.filter (·.owner == username)).map fun k => nimKeyRow sha256Hex false s.stats[k.key]? g.name k := by
  refine List.map_congr_left fun k hk => ?_
  obtain ⟨hk, howner⟩ := List.mem_filter.1 hk
  rw [beq_eq_false_iff_ne.2 (not_guarded hv hu hrole (mem_groupKeys_of_groups hg hk) (by simpa using howner))]

theorem nimKeys_own {s : Snapshot} (hv : s.store.validate = .ok ()) {u : User}
    (hu : s.store.user username = some u) (hrole : u.role ≠ .superuser) :
    pushKeys sha256Hex s false username primaryUpstream s.store.upstream.nimKeys ++
        s.store.upstreams.flatMap (fun ep => pushKeys sha256Hex s false username ep.name ep.keys) =
      (ownGroups s.store username).flatMap fun g =>
        g.keys.map fun k => nimKeyRow sha256Hex false s.stats[k.key]? g.name k := by
  rw [flatMap_ownGroups _ fun g hg => by rw [hg]; rfl]
  show (groups s.store).flatMap (fun g => pushKeys sha256Hex s false username g.name g.keys) = _
  exact List.flatMap_congr fun g hg => pushKeys_own hv hu hrole hg

/-- What the handler answers a caller of the user role is a function of what is theirs. -/
theorem apiConfig_own {s : Snapshot} (hv : s.store.validate = .ok ()) {u : User}
    (hu : s.store.user username = some u) (hrole : u.role = .user) :
    apiConfig sha256Hex s username = .ok ((own s u).response sha256Hex) := by
  obtain rfl := user_username hu
  have hroleOf : roleOf s.store u.username = some .user := by rw [roleOf, hu, ← hrole]; rfl
  have hnot : u.role ≠ .superuser := by rw [hrole]; exact Role.noConfusion
  rw [apiConfig, hroleOf]
  simp only [Role.isAdmin, Bool.false_or, Bool.false_eq_true, if_false, nimKeys_own hv hu hnot, upstreamRows_own, hu]
  simp only [Own.response, own, ownClientKeys, hrole, List.map_flatMap, List.map_map, Function.comp_def, Option.bind_some]

/-- Two servers with valid stores that agree on what is the caller's own answer the caller the same. -/
theorem config_contained {s s' : Snapshot} (hv : s.store.validate = .ok ()) (hv' : s'.store.validate = .ok ())
    {u : User} (hu : s.store.user username = some u) (hrole : u.role = .user) (h : Agree username s s') :
    apiConfig sha256Hex s username = apiConfig sha256Hex s' username := by
  have hu' : s'.store.user username = some u := by rw [← h.user, hu]
  rw [apiConfig_own hv hu hrole, apiConfig_own hv' hu' hrole, h.own hu]

end

/-- The household's neighbours: bob and his key are the same, nothing else is. -/
def neighbours : StoredConfig where
  defaultLocale := "en-US"
  upstream := { nimKeys := [⟨"nvapi-7", "chief", true, 30⟩, ⟨"nvapi-8", "carl", false, 90⟩, ⟨"nvapi-9", "chief", true, 50⟩,
    ⟨"nvapi-3", "bob", true, 40⟩] }
  upstreams := [{ name := "lab", baseUrl := "http://10.0.0.4", keys := [⟨"lab-1", "carl", false, 10⟩] }]
  clientAuth := { keys := [⟨"laptop", String.ofList (List.replicate 64 'a'), "beef", "carl"⟩] }
  limits := { maxInflight := 7 }
  users := [⟨"chief", "hash-chief", .superuser, none⟩, ⟨"carl", "hash-carl", .admin, none⟩,
    ⟨"bob", "hash-bob", .user, none⟩]

/-- A pool just built, and a history that keeps nothing. -/
def fresh (sc : StoredConfig) : Snapshot := ⟨sc, .new sc.poolSpecs 0, 0, ⟨none, false, 0, "memory"⟩⟩

theorem config_contained_neighbours :
    apiConfig id (fresh AppState.household) "bob" = apiConfig id (fresh neighbours) "bob" :=
  config_contained AppState.validate_household (toOption_eq_some (by decide +kernel)) rfl rfl
    { user := rfl
      clientKeys := rfl
      groups := by decide +kernel
      lanes := by decide +kernel
      disabledModels := rfl
      mode := rfl
      len := by decide +kernel
      capacityRpm := by decide +kernel }

end ConfigView

end OpenProxy
