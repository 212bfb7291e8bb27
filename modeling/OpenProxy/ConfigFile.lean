import OpenProxy.Persist
import OpenProxy.Lib.Serde

/-!
# The text of the configuration (`StoredConfig` and its parts in `config.rs`)

The parts are read and written by derived code. A file that an older build wrote lacks fields that this one has, and
one that a newer build wrote has fields that this one does not know. The text of a float may parse as another float:
`reparse` is what the text of a number parses as.
-/

namespace OpenProxy.ConfigFile

open Json Serde

/-! ### Readers and writers -/

section
variable (reparse : ℚ → ℚ) (v : Value)

def writeKey (k : NimKey) : Value :=
  .object [("key", .string k.key), ("owner", .string k.owner), ("enabled", .bool k.enabled), ("rpm", ofNat k.rpm)]

def readKey : Option NimKey := do
  let fields ← entries ["key", "owner", "enabled", "rpm"] v
  return {
    key := ← required Value.asStr fields "key"
    owner := ← required Value.asStr fields "owner"
    enabled := ← defaulted Value.asBool true fields "enabled"
    rpm := ← defaulted (unsigned 64) 40 fields "rpm" }

def writeUpstream (u : Upstream) : Value :=
  .object [("base_url", .string u.baseUrl), ("nim_keys", ofList writeKey u.nimKeys), ("enabled", .bool u.enabled),
    ("models", ofList .string u.models), ("supports_stream_options", .bool u.supportsStreamOptions)]

def readUpstream : Option Upstream := do
  let fields ← entries ["base_url", "nim_keys", "enabled", "models", "supports_stream_options"] v
  return {
    baseUrl := ← defaulted Value.asStr "https://integrate.api.nvidia.com" fields "base_url"
    nimKeys := ← defaulted (list readKey) [] fields "nim_keys"
    enabled := ← defaulted Value.asBool true fields "enabled"
    models := ← defaulted (list Value.asStr) [] fields "models"
    supportsStreamOptions := ← defaulted Value.asBool true fields "supports_stream_options" }

def writeEndpoint (ep : UpstreamEndpoint) : Value :=
  .object [("name", .string ep.name), ("base_url", .string ep.baseUrl), ("enabled", .bool ep.enabled),
    ("keys", ofList writeKey ep.keys), ("models", ofList .string ep.models),
    ("supports_stream_options", .bool ep.supportsStreamOptions)]

def readEndpoint : Option UpstreamEndpoint := do
  let fields ← entries ["name", "base_url", "enabled", "keys", "models", "supports_stream_options"] v
  return {
    name := ← required Value.asStr fields "name"
    baseUrl := ← required Value.asStr fields "base_url"
    enabled := ← defaulted Value.asBool true fields "enabled"
    keys := ← defaulted (list readKey) [] fields "keys"
    models := ← defaulted (list Value.asStr) [] fields "models"
    supportsStreamOptions := ← defaulted Value.asBool true fields "supports_stream_options" }

def writeMode : Mode → Value
  | .opened => .string "open"
  | .keyed => .string "keyed"

def readMode : Option Mode :=
  match variant v with
  | some "open" => some .opened
  | some "keyed" => some .keyed
  | _ => none

def writeClient (c : ClientKey) : Value :=
  .object [("name", .string c.name), ("secret_sha256", .string c.secretSha256), ("last4", .string c.last4),
    ("owner", .string c.owner)]

def readClient : Option ClientKey := do
  let fields ← entries ["name", "secret_sha256", "last4", "owner"] v
  return {
    name := ← required Value.asStr fields "name"
    secretSha256 := ← required Value.asStr fields "secret_sha256"
    last4 := ← defaulted Value.asStr "" fields "last4"
    owner := ← required Value.asStr fields "owner" }

def writeClientAuth (a : ClientAuth) : Value :=
  .object [("mode", writeMode a.mode), ("keys", ofList writeClient a.keys)]

def readClientAuth : Option ClientAuth := do
  let fields ← entries ["mode", "keys"] v
  return {
    mode := ← defaulted readMode .keyed fields "mode"
    keys := ← defaulted (list readClient) [] fields "keys" }

def writeLimits (l : Limits) : Value :=
  .object [("heartbeat_secs", ofNat l.heartbeatSecs), ("max_inflight", ofNat l.maxInflight),
    ("max_wait_secs", ofNat l.maxWaitSecs), ("models_ttl_secs", ofNat l.modelsTtlSecs),
    ("request_timeout_secs", ofNat l.requestTimeoutSecs), ("stream_idle_secs", ofNat l.streamIdleSecs),
    ("strict_passthrough", .bool l.strictPassthrough)]

def readLimits : Option Limits := do
  let fields ← entries ["heartbeat_secs", "max_inflight", "max_wait_secs", "models_ttl_secs", "request_timeout_secs",
    "stream_idle_secs", "strict_passthrough"] v
  return {
    heartbeatSecs := ← defaulted (unsigned 64) 10 fields "heartbeat_secs"
    maxInflight := ← defaulted (unsigned 64) 512 fields "max_inflight"
    maxWaitSecs := ← defaulted (unsigned 64) 900 fields "max_wait_secs"
    modelsTtlSecs := ← defaulted (unsigned 64) 600 fields "models_ttl_secs"
    requestTimeoutSecs := ← defaulted (unsigned 64) 300 fields "request_timeout_secs"
    streamIdleSecs := ← defaulted (unsigned 64) 300 fields "stream_idle_secs"
    strictPassthrough := ← defaulted Value.asBool false fields "strict_passthrough" }

/-- `HistoryCfg`. -/
def writeHistory (days : Nat) : Value := .object [("days", ofNat days)]

def readHistory : Option Nat := do
  let fields ← entries ["days"] v
  defaulted (unsigned 64) 30 fields "days"

/-- A float that is not finite is written as `null`, which does not read as a float. -/
def writeFloat : Option ℚ → Value
  | some x => .number (.float x)
  | none => .null

def readFloat : Option (Option ℚ) :=
  match v with
  | .number (.float x) => some (some (reparse x))
  | v => v.asFloat.map some

def writeDashboard (d : DashboardCfg) : Value :=
  .object [("default_window_days", ofNat d.defaultWindowDays), ("slo_target_percent", writeFloat d.sloTargetPercent)]

def readDashboard : Option DashboardCfg := do
  let fields ← entries ["default_window_days", "slo_target_percent"] v
  return {
    defaultWindowDays := ← defaulted (unsigned 64) 30 fields "default_window_days"
    sloTargetPercent := ← defaulted (readFloat reparse) (some (999 / 10)) fields "slo_target_percent" }

def writeGovernor (g : GovernorCfg) : Value :=
  .object [("enabled", .bool g.enabled), ("overrides", ofMap ofNat g.overrides)]

def readGovernor : Option GovernorCfg := do
  let fields ← entries ["enabled", "overrides"] v
  return {
    enabled := ← defaulted Value.asBool true fields "enabled"
    overrides := ← defaulted (map (unsigned 64)) ∅ fields "overrides" }

def writeRole : Role → Value
  | .superuser => .string "superuser"
  | .admin => .string "admin"
  | .user => .string "user"

def readRole : Option Role :=
  match variant v with
  | some "superuser" => some .superuser
  | some "admin" => some .admin
  | some "user" => some .user
  | _ => none

def writeUser (u : User) : Value :=
  .object ([("username", .string u.username), ("password_hash", .string u.passwordHash), ("role", writeRole u.role)] ++
    (u.locale.map fun locale => ("locale", .string locale)).toList)

def readUser : Option User := do
  let fields ← entries ["username", "password_hash", "role", "locale"] v
  return {
    username := ← required Value.asStr fields "username"
    passwordHash := ← required Value.asStr fields "password_hash"
    role := ← required readRole fields "role"
    locale := ← defaulted (option Value.asStr) none fields "locale" }

/-- The names of the fields of `StoredConfig`, in their order. -/
def names : List String :=
  ["version", "default_locale", "upstream", "upstreams", "disabled_models", "client_auth", "limits", "history",
    "dashboard", "governor", "users"]

def writeFields (sc : StoredConfig) : List (String × Value) :=
  [("version", ofNat sc.version), ("default_locale", .string sc.defaultLocale), ("upstream", writeUpstream sc.upstream),
    ("upstreams", ofList writeEndpoint sc.upstreams), ("disabled_models", ofList .string sc.disabledModels),
    ("client_auth", writeClientAuth sc.clientAuth), ("limits", writeLimits sc.limits),
    ("history", writeHistory sc.historyDays), ("dashboard", writeDashboard sc.dashboard),
    ("governor", writeGovernor sc.governor), ("users", ofList writeUser sc.users)]

def write (sc : StoredConfig) : Value := .object (writeFields sc)

def readFields (fields : List (String × Value)) : Option StoredConfig := do
  return {
    version := ← defaulted (unsigned 32) 1 fields "version"
    defaultLocale := ← defaulted Value.asStr OpenProxy.defaultLocale fields "default_locale"
    upstream := ← defaulted readUpstream {} fields "upstream"
    upstreams := ← defaulted (list readEndpoint) [] fields "upstreams"
    disabledModels := ← defaulted (list Value.asStr) [] fields "disabled_models"
    clientAuth := ← defaulted readClientAuth {} fields "client_auth"
    limits := ← defaulted readLimits {} fields "limits"
    historyDays := ← defaulted readHistory 30 fields "history"
    dashboard := ← defaulted (readDashboard reparse) {} fields "dashboard"
    governor := ← defaulted readGovernor {} fields "governor"
    users := ← defaulted (list readUser) [] fields "users" }

def read : Option StoredConfig := (entries names v).bind (readFields reparse)

end

/-- The configuration once the text of its float has been parsed. -/
def reparsed (reparse : ℚ → ℚ) (sc : StoredConfig) : StoredConfig :=
  { sc with dashboard := { sc.dashboard with sloTargetPercent := sc.dashboard.sloTargetPercent.map reparse } }

/-! ### The parts read back -/

/-- The numbers are of the machine's types. -/
structure FitsLimits (l : Limits) : Prop where
  heartbeatSecs : l.heartbeatSecs < 2 ^ 64
  maxInflight : l.maxInflight < 2 ^ 64
  maxWaitSecs : l.maxWaitSecs < 2 ^ 64
  modelsTtlSecs : l.modelsTtlSecs < 2 ^ 64
  requestTimeoutSecs : l.requestTimeoutSecs < 2 ^ 64
  streamIdleSecs : l.streamIdleSecs < 2 ^ 64

structure Fits (sc : StoredConfig) : Prop where
  version : sc.version < 2 ^ 32
  keys : ∀ gk ∈ sc.groupKeys, gk.2.rpm < 2 ^ 64
  limits : FitsLimits sc.limits
  historyDays : sc.historyDays < 2 ^ 64
  defaultWindowDays : sc.dashboard.defaultWindowDays < 2 ^ 64
  overrides : ∀ (model : String) (cap : Nat), sc.governor.overrides[model]? = some cap → cap < 2 ^ 64

theorem list_strings (ss : List String) : list Value.asStr (ofList .string ss) = some ss :=
  list_ofList fun _ _ => rfl

theorem readKey_writeKey {k : NimKey} (h : k.rpm < 2 ^ 64) : readKey (writeKey k) = some k := by
  simp [readKey, writeKey, entries, required, defaulted, field, Value.asStr, Value.asBool, unsigned_ofNat h]

theorem readKeys_writeKeys {ks : List NimKey} (h : ∀ k ∈ ks, k.rpm < 2 ^ 64) :
    list readKey (ofList writeKey ks) = some ks := list_ofList fun k hk => readKey_writeKey (h k hk)

theorem readUpstream_writeUpstream {u : Upstream} (h : ∀ k ∈ u.nimKeys, k.rpm < 2 ^ 64) :
    readUpstream (writeUpstream u) = some u := by
  simp [readUpstream, writeUpstream, entries, defaulted, field, Value.asStr, Value.asBool,
    readKeys_writeKeys h, list_strings]

theorem readEndpoint_writeEndpoint {ep : UpstreamEndpoint} (h : ∀ k ∈ ep.keys, k.rpm < 2 ^ 64) :
    readEndpoint (writeEndpoint ep) = some ep := by
  simp [readEndpoint, writeEndpoint, entries, required, defaulted, field, Value.asStr, Value.asBool,
    readKeys_writeKeys h, list_strings]

theorem readMode_writeMode (m : Mode) : readMode (writeMode m) = some m := by cases m <;> rfl

theorem readRole_writeRole (r : Role) : readRole (writeRole r) = some r := by cases r <;> rfl

theorem readClient_writeClient (c : ClientKey) : readClient (writeClient c) = some c := by
  simp [readClient, writeClient, entries, required, defaulted, field, Value.asStr]

theorem readClientAuth_writeClientAuth (a : ClientAuth) : readClientAuth (writeClientAuth a) = some a := by
  have hkeys : list readClient (ofList writeClient a.keys) = some a.keys :=
    list_ofList fun c _ => readClient_writeClient c
  simp [readClientAuth, writeClientAuth, entries, defaulted, field, readMode_writeMode, hkeys]

theorem readLimits_writeLimits {l : Limits} (h : FitsLimits l) : readLimits (writeLimits l) = some l := by
  simp [readLimits, writeLimits, entries, defaulted, field, Value.asBool, unsigned_ofNat h.heartbeatSecs,
    unsigned_ofNat h.maxInflight, unsigned_ofNat h.maxWaitSecs, unsigned_ofNat h.modelsTtlSecs,
    unsigned_ofNat h.requestTimeoutSecs, unsigned_ofNat h.streamIdleSecs]

theorem readHistory_writeHistory {days : Nat} (h : days < 2 ^ 64) : readHistory (writeHistory days) = some days := by
  simp [readHistory, writeHistory, entries, defaulted, field, unsigned_ofNat h]

theorem readDashboard_writeDashboard {d : DashboardCfg} (h : d.defaultWindowDays < 2 ^ 64)
    (hfinite : d.sloTargetPercent.isSome) (reparse : ℚ → ℚ) :
    readDashboard reparse (writeDashboard d) = some { d with sloTargetPercent := d.sloTargetPercent.map reparse } := by
  obtain ⟨days, slo⟩ := d
  obtain ⟨x, rfl⟩ := Option.isSome_iff_exists.1 hfinite
  simp [readDashboard, writeDashboard, entries, defaulted, field, unsigned_ofNat h, readFloat, writeFloat,
    Value.asFloat]

theorem readGovernor_writeGovernor {g : GovernorCfg}
    (h : ∀ (model : String) (cap : Nat), g.overrides[model]? = some cap → cap < 2 ^ 64) :
    readGovernor (writeGovernor g) = some g := by
  have hoverrides : map (unsigned 64) (ofMap ofNat g.overrides) = some g.overrides :=
    map_ofMap fun model cap hcap => unsigned_ofNat (h model cap hcap)
  simp [readGovernor, writeGovernor, entries, defaulted, field, Value.asBool, hoverrides]

theorem readUser_writeUser (u : User) : readUser (writeUser u) = some u := by
  obtain ⟨username, passwordHash, role, locale⟩ := u
  cases locale <;>
    simp [readUser, writeUser, entries, required, defaulted, field, Value.asStr, readRole_writeRole, option]

/-! ### The whole file -/

/-- A configuration of which only some fields are known: the others have their defaults. -/
def older (keep : String → Bool) (sc : StoredConfig) : StoredConfig where
  version := if keep "version" then sc.version else 1
  defaultLocale := if keep "default_locale" then sc.defaultLocale else OpenProxy.defaultLocale
  upstream := if keep "upstream" then sc.upstream else {}
  upstreams := if keep "upstreams" then sc.upstreams else []
  disabledModels := if keep "disabled_models" then sc.disabledModels else []
  clientAuth := if keep "client_auth" then sc.clientAuth else {}
  limits := if keep "limits" then sc.limits else {}
  historyDays := if keep "history" then sc.historyDays else 30
  dashboard := if keep "dashboard" then sc.dashboard else {}
  governor := if keep "governor" then sc.governor else {}
  users := if keep "users" then sc.users else []

section
variable {reparse : ℚ → ℚ} {sc : StoredConfig} {keep : String → Bool} {extra fields : List (String × Value)}

theorem names_writeFields (sc : StoredConfig) : (writeFields sc).map (·.1) = names := rfl

theorem nodup_names : names.Nodup := by decide

/-- A field of a file of another build. -/
theorem defaulted_kept {α : Type} {read : Value → Option α} {default a : α} {name : String} {v : Value}
    (hperm : fields.Perm ((writeFields sc).filter (keep ·.1) ++ extra)) (hextra : ∀ e ∈ extra, e.1 ∉ names)
    (hmem : (name, v) ∈ writeFields sc) (hread : read v = some a) :
    defaulted read default fields name = some (if keep name then a else default) := by
  have hname : name ∈ names := names_writeFields sc ▸ List.mem_map_of_mem hmem
  have hnodup : ((writeFields sc).map (·.1)).Nodup := names_writeFields sc ▸ nodup_names
  have hother : ∀ e ∈ extra, e.1 ≠ name := fun e he heq => hextra e he (heq ▸ hname)
  rw [defaulted, field_perm hperm, field_append hother, field_filter keep hnodup hmem, hread]
  split <;> rfl

theorem isSome_slo (h : sc.validate = .ok ()) : sc.dashboard.sloTargetPercent.isSome = true := by
  simp only [StoredConfig.validate, StoredConfig.validateServer, bind_eq_ok, ensure_eq_ok] at h
  obtain ⟨_, ⟨_, -, _, -, _, -, _, -, _, -, _, -, _, -, _, -, hslo⟩, -⟩ := h
  obtain ⟨p, hp, -⟩ := (Option.any_eq_true ..).1 hslo
  rw [hp]
  rfl

theorem readFields_older (hfinite : sc.dashboard.sloTargetPercent.isSome = true) (hfits : Fits sc)
    (hperm : fields.Perm ((writeFields sc).filter (keep ·.1) ++ extra)) (hextra : ∀ e ∈ extra, e.1 ∉ names) :
    readFields reparse fields = some (older keep (reparsed reparse sc)) := by
  have hkept {α : Type} {read : Value → Option α} {default a : α} {name : String} {v : Value}
      (hmem : (name, v) ∈ writeFields sc) (hread : read v = some a) :
      defaulted read default fields name = some (if keep name then a else default) :=
    defaulted_kept hperm hextra hmem hread
  have hprimary : ∀ k ∈ sc.upstream.nimKeys, k.rpm < 2 ^ 64 := fun k hk =>
    hfits.keys (primaryUpstream, k) (List.mem_append_left _ (List.mem_map_of_mem hk))
  have hupstreams : list readEndpoint (ofList writeEndpoint sc.upstreams) = some sc.upstreams := by
    refine list_ofList fun ep hep => readEndpoint_writeEndpoint fun k hk => ?_
    exact hfits.keys (ep.name, k) (List.mem_append_right _ (List.mem_flatMap.2 ⟨ep, hep, List.mem_map_of_mem hk⟩))
  have husers : list readUser (ofList writeUser sc.users) = some sc.users := list_ofList fun u _ => readUser_writeUser u
  rw [readFields, hkept (a := sc.version) (v := ofNat sc.version) (by simp [writeFields]) (unsigned_ofNat hfits.version),
    hkept (a := sc.defaultLocale) (v := .string sc.defaultLocale) (by simp [writeFields]) rfl,
    hkept (v := writeUpstream sc.upstream) (by simp [writeFields]) (readUpstream_writeUpstream hprimary),
    hkept (v := ofList writeEndpoint sc.upstreams) (by simp [writeFields]) hupstreams,
    hkept (v := ofList .string sc.disabledModels) (by simp [writeFields]) (list_strings _),
    hkept (v := writeClientAuth sc.clientAuth) (by simp [writeFields]) (readClientAuth_writeClientAuth _),
    hkept (v := writeLimits sc.limits) (by simp [writeFields]) (readLimits_writeLimits hfits.limits),
    hkept (v := writeHistory sc.historyDays) (by simp [writeFields]) (readHistory_writeHistory hfits.historyDays),
    hkept (v := writeDashboard sc.dashboard) (by simp [writeFields])
      (readDashboard_writeDashboard hfits.defaultWindowDays hfinite reparse),
    hkept (v := writeGovernor sc.governor) (by simp [writeFields]) (readGovernor_writeGovernor hfits.overrides),
    hkept (v := ofList writeUser sc.users) (by simp [writeFields]) husers]
  rfl

theorem read_write (hfinite : sc.dashboard.sloTargetPercent.isSome = true) (hfits : Fits sc) :
    read reparse (write sc) = some (reparsed reparse sc) := by
  have hall : (writeFields sc).filter (fun e => (fun _ : String => true) e.1) = writeFields sc :=
    List.filter_eq_self.2 fun _ _ => rfl
  have hperm : (writeFields sc).Perm ((writeFields sc).filter (fun e => (fun _ : String => true) e.1) ++ []) := by
    rw [hall, List.append_nil]
  exact @readFields_older reparse sc (fun _ => true) [] _ hfinite hfits hperm fun e he => absurd he List.not_mem_nil

end

/-! ### What has been read -/

section
variable {reparse : ℚ → ℚ} {v : Value} {sc : StoredConfig}

theorem fits_of_readKey {k : NimKey} (h : readKey v = some k) : k.rpm < 2 ^ 64 := by
  simp only [readKey, Option.bind_eq_bind, Option.bind_eq_some_iff, Option.pure_def, Option.some.injEq] at h
  obtain ⟨_, -, _, -, _, -, _, -, rpm, hrpm, rfl⟩ := h
  exact lt_of_defaulted (by decide) hrpm

theorem fits_of_readKeys {ks : List NimKey} {fields : List (String × Value)} {name : String}
    (h : defaulted (list readKey) [] fields name = some ks) : ∀ k ∈ ks, k.rpm < 2 ^ 64 :=
  of_defaulted (P := fun ks : List NimKey => ∀ k ∈ ks, k.rpm < 2 ^ 64) (fun _ hk => absurd hk List.not_mem_nil)
    (fun _ _ => of_list fun _ _ => fits_of_readKey) h

theorem fits_of_readUpstream {u : Upstream} (h : readUpstream v = some u) : ∀ k ∈ u.nimKeys, k.rpm < 2 ^ 64 := by
  simp only [readUpstream, Option.bind_eq_bind, Option.bind_eq_some_iff, Option.pure_def, Option.some.injEq] at h
  obtain ⟨_, -, _, -, ks, hks, _, -, _, -, _, -, rfl⟩ := h
  exact fits_of_readKeys hks

theorem fits_of_readEndpoint {ep : UpstreamEndpoint} (h : readEndpoint v = some ep) : ∀ k ∈ ep.keys, k.rpm < 2 ^ 64 := by
  simp only [readEndpoint, Option.bind_eq_bind, Option.bind_eq_some_iff, Option.pure_def, Option.some.injEq] at h
  obtain ⟨_, -, _, -, _, -, _, -, ks, hks, _, -, _, -, rfl⟩ := h
  exact fits_of_readKeys hks

theorem fits_of_readLimits {l : Limits} (h : readLimits v = some l) : FitsLimits l := by
  simp only [readLimits, Option.bind_eq_bind, Option.bind_eq_some_iff, Option.pure_def, Option.some.injEq] at h
  obtain ⟨_, -, a, ha, b, hb, c, hc, d, hd, e, he, f, hf, _, -, rfl⟩ := h
  exact ⟨lt_of_defaulted (by decide) ha, lt_of_defaulted (by decide) hb, lt_of_defaulted (by decide) hc,
    lt_of_defaulted (by decide) hd, lt_of_defaulted (by decide) he, lt_of_defaulted (by decide) hf⟩

theorem fits_of_readHistory {days : Nat} (h : readHistory v = some days) : days < 2 ^ 64 := by
  simp only [readHistory, Option.bind_eq_bind, Option.bind_eq_some_iff] at h
  obtain ⟨_, -, h⟩ := h
  exact lt_of_defaulted (by decide) h

theorem fits_of_readDashboard {d : DashboardCfg} (h : readDashboard reparse v = some d) :
    d.defaultWindowDays < 2 ^ 64 ∧ d.sloTargetPercent.isSome = true := by
  simp only [readDashboard, Option.bind_eq_bind, Option.bind_eq_some_iff, Option.pure_def, Option.some.injEq] at h
  obtain ⟨_, -, days, hdays, slo, hslo, rfl⟩ := h
  refine ⟨lt_of_defaulted (by decide) hdays, ?_⟩
  refine of_defaulted (P := fun slo : Option ℚ => slo.isSome = true) rfl (fun v slo hread => ?_) hslo
  unfold readFloat at hread
  split at hread
  · cases hread
    rfl
  · obtain ⟨x, -, rfl⟩ := Option.map_eq_some_iff.1 hread
    rfl

theorem fits_of_readGovernor {g : GovernorCfg} (h : readGovernor v = some g) :
    ∀ (model : String) (cap : Nat), g.overrides[model]? = some cap → cap < 2 ^ 64 := by
  simp only [readGovernor, Option.bind_eq_bind, Option.bind_eq_some_iff, Option.pure_def, Option.some.injEq] at h
  obtain ⟨_, -, _, -, overrides, hoverrides, rfl⟩ := h
  refine of_defaulted (P := fun m : Std.ExtTreeMap String Nat =>
    ∀ (model : String) (cap : Nat), m[model]? = some cap → cap < 2 ^ 64) (fun model cap hcap => ?_)
    (fun _ _ => of_map fun _ _ => lt_of_unsigned) hoverrides
  rw [Std.ExtTreeMap.getElem?_empty] at hcap
  cases hcap

theorem fits_of_read (h : read reparse v = some sc) : Fits sc ∧ sc.dashboard.sloTargetPercent.isSome = true := by
  simp only [read, readFields, Option.bind_eq_bind, Option.bind_eq_some_iff, Option.pure_def, Option.some.injEq] at h
  obtain ⟨fields, -, version, hversion, _, -, upstream, hupstream, upstreams, hupstreams, _, -, _, -, limits, hlimits,
    days, hdays, dashboard, hdashboard, governor, hgovernor, _, -, rfl⟩ := h
  have hprimary : ∀ k ∈ upstream.nimKeys, k.rpm < 2 ^ 64 :=
    of_defaulted (P := fun u : Upstream => ∀ k ∈ u.nimKeys, k.rpm < 2 ^ 64) (fun k hk => absurd hk List.not_mem_nil)
      (fun _ _ => fits_of_readUpstream) hupstream
  have hothers : ∀ ep ∈ upstreams, ∀ k ∈ ep.keys, k.rpm < 2 ^ 64 :=
    of_defaulted (P := fun eps : List UpstreamEndpoint => ∀ ep ∈ eps, ∀ k ∈ ep.keys, k.rpm < 2 ^ 64)
      (fun ep hep => absurd hep List.not_mem_nil) (fun _ _ => of_list fun _ _ => fits_of_readEndpoint) hupstreams
  have hdashboard := of_defaulted
    (P := fun d : DashboardCfg => d.defaultWindowDays < 2 ^ 64 ∧ d.sloTargetPercent.isSome = true) (by decide)
    (fun _ _ => fits_of_readDashboard) hdashboard
  refine ⟨⟨?_, fun gk hgk => ?_, ?_, ?_, hdashboard.1, ?_⟩, hdashboard.2⟩
  · exact lt_of_defaulted (by decide) hversion
  · rcases List.mem_append.1 hgk with hgk | hgk
    · obtain ⟨k, hk, rfl⟩ := List.mem_map.1 hgk
      exact hprimary k hk
    · obtain ⟨ep, hep, hgk⟩ := List.mem_flatMap.1 hgk
      obtain ⟨k, hk, rfl⟩ := List.mem_map.1 hgk
      exact hothers ep hep k hk
  · exact of_defaulted ⟨by decide, by decide, by decide, by decide, by decide, by decide⟩
      (fun _ _ => fits_of_readLimits) hlimits
  · exact of_defaulted (P := (· < 2 ^ 64)) (by decide) (fun _ _ => fits_of_readHistory) hdays
  · refine of_defaulted (P := fun g : GovernorCfg =>
      ∀ (model : String) (cap : Nat), g.overrides[model]? = some cap → cap < 2 ^ 64) (fun model cap hcap => ?_)
      (fun _ _ => fits_of_readGovernor) hgovernor
    rw [Std.ExtTreeMap.getElem?_empty] at hcap
    cases hcap

variable {keep : String → Bool} {extra fields : List (String × Value)}

/-- What has been read once, and what is valid, is read back from what is written of it, the float as its text parses.
Of a file that lacks some of its fields, has others besides and has them in another order, the fields that are there
are read, and the others have their defaults. -/
theorem file_reads_back (h : (∃ v, read reparse v = some sc) ∨ Fits sc ∧ sc.validate = .ok ())
    (hperm : fields.Perm ((writeFields sc).filter (keep ·.1) ++ extra)) (hextra : ∀ e ∈ extra, e.1 ∉ names) :
    read reparse (write sc) = some (reparsed reparse sc) ∧
      read reparse (.object fields) = some (older keep (reparsed reparse sc)) := by
  have hfits : Fits sc ∧ sc.dashboard.sloTargetPercent.isSome = true := by
    rcases h with ⟨v, hread⟩ | ⟨hfits, hvalid⟩
    · exact fits_of_read hread
    · exact ⟨hfits, isSome_slo hvalid⟩
  exact ⟨read_write hfits.2 hfits.1, readFields_older hfits.2 hfits.1 hperm hextra⟩

end

/-- What is left of two groups and a limit when the second group and a later setting are not known. -/
def spareGroup : StoredConfig where
  upstreams := [{ name := "spare", baseUrl := "https://spare.example", keys := [⟨"k", "root", false, 12⟩] }]
  limits := { maxInflight := 8 }

theorem file_reads_back_spareGroup : read id (write spareGroup) = some spareGroup ∧
    read id (.object [("theme", .string "dark"), ("limits", writeLimits spareGroup.limits), ("version", ofNat 1)]) =
      some { limits := { maxInflight := 8 } } := by
  have hread : read id (write spareGroup) = some spareGroup :=
    read_write rfl ⟨by decide, by decide, by constructor <;> decide, by decide, by decide, fun model cap h => by
      rw [spareGroup, Std.ExtTreeMap.getElem?_empty] at h
      cases h⟩
  have hperm : [("theme", .string "dark"), ("limits", writeLimits spareGroup.limits), ("version", ofNat 1)].Perm
      ((writeFields spareGroup).filter (fun e => ["version", "limits"].contains e.1) ++ [("theme", .string "dark")]) := by
    exact (List.reverse_perm [("version", ofNat 1), ("limits", writeLimits spareGroup.limits), ("theme", .string "dark")])
  exact file_reads_back (.inl ⟨_, hread⟩) hperm (by simp [names])

/-! ### The text -/

/-- The text of a JSON value, how text is parsed, what the text of a number parses as, and what is said of a value
that does not read. -/
structure SerdeText where
  fromStr : String → Except String Value
  reparse : ℚ → ℚ
  toVecPretty : Value → List UInt8
  mismatch : Value → String

def SerdeText.ofValue (json : SerdeText) (v : Value) : Except String StoredConfig :=
  match read json.reparse v with
  | some sc => .ok sc
  | none => .error (json.mismatch v)

def SerdeText.config (json : SerdeText) : Persist.SerdeConfig where
  fromStr raw := json.fromStr raw >>= json.ofValue
  toVecPretty sc := json.toVecPretty (write sc)

/-- The text that is written for a value parses as the value. -/
def SerdeText.Reads (json : SerdeText) (v : Value) : Prop :=
  ∃ raw, String.fromUTF8? ⟨(json.toVecPretty v).toArray⟩ = some raw ∧ json.fromStr raw = .ok v

/-- Text that stands for its value stands for the configuration, when its float is what its text parses as. -/
theorem reads_config {json : SerdeText} {sc : StoredConfig} (hfits : Fits sc) (hvalid : sc.validate = .ok ())
    (h : json.Reads (write sc)) (hfloat : reparsed json.reparse sc = sc) : json.config.Reads sc := by
  obtain ⟨raw, hraw, hparse⟩ := h
  refine ⟨raw, hraw, ?_⟩
  show json.fromStr raw >>= json.ofValue = .ok sc
  rw [hparse]
  show json.ofValue (write sc) = .ok sc
  rw [SerdeText.ofValue, read_write (isSome_slo hvalid) hfits, hfloat]

end OpenProxy.ConfigFile
