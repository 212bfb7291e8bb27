import OpenProxy.Handlers

/-!
# Recovery from a lockout (`setup_submit` of `settings.rs`, `validate` of `config.rs`)

An operator who is locked out empties the list of users in the stored configuration; the wizard then claims the store
for a new superuser. Keys whose owners are gone have to become the superuser's, or the claim does not validate. The
claim takes over the keys of the primary group and the client keys, and leaves those of the other groups as they are.
-/

namespace OpenProxy

namespace Recovery

open Settings Text

/-! ### The claim of an emptied store -/

/-- The store with its users emptied by hand. -/
def lockedOut (sc : StoredConfig) : StoredConfig := { sc with users := [] }

/-- What a key of the request has to be: a new key, with an admissible rate. -/
structure NewKey (sc : StoredConfig) (k : SetupKey) : Prop where
  nonblank : trim k.key ≠ ""
  rpm : 1 ≤ k.rpm.getD 40 ∧ k.rpm.getD 40 ≤ 10000
  unused : ∀ gk ∈ sc.groupKeys, gk.2.key ≠ trim k.key

/-- A request that names a superuser and new keys for the primary group, and maybe a first client key. -/
structure Admissible (sc : StoredConfig) (req : SetupReq) : Prop where
  username : labelOk req.username 32 = true
  password : 10 ≤ byteLen req.password
  baseUrl : req.baseUrl = none
  groups : req.groups = []
  client : ∀ name, req.createClientKey = some name →
    labelOk (trim name) 64 = true ∧ ∀ c ∈ sc.clientAuth.keys, c.name ≠ trim name
  someKey : req.nimKeys ≠ []
  keys : ∀ k ∈ req.nimKeys, NewKey sc k
  distinct : (req.nimKeys.map fun k => trim k.key).Nodup

/-- A SHA-256 digest in hexadecimal. -/
def IsDigest (s : String) : Prop := byteLen s = 64 ∧ s.toList.all isAsciiHexdigit = true

instance (s : String) : Decidable (IsDigest s) := inferInstanceAs (Decidable (_ ∧ _))

/-- The claim's candidate validates and has every stored key, whoever owns it now. -/
def Recovers (sha256Hex : String → String) (guard : StoredConfig) (req : SetupReq) (hash secret : String) : Prop :=
  ∃ cand, setupSubmit sha256Hex guard req hash secret = .ok cand ∧ cand.validate = .ok () ∧
    (∀ gk ∈ guard.groupKeys, ∃ owner, (gk.1, { gk.2 with owner := owner }) ∈ cand.groupKeys) ∧
    ∀ c ∈ guard.clientAuth.keys, ∃ owner, { c with owner := owner } ∈ cand.clientAuth.keys

section
variable (sha256Hex : String → String) (sc : StoredConfig) (req : SetupReq) (hash secret : String)

def ownedKeys : List NimKey :=
  sc.upstream.nimKeys.map ({ · with owner := req.username }) ++ req.nimKeys.map (·.nimKey req.username)

def minted : List ClientKey :=
  (req.createClientKey.map fun name => ⟨trim name, sha256Hex secret, last4 secret, req.username⟩).toList

/-- The candidate of a request without a base URL and groups. -/
def claimed : StoredConfig :=
  { sc with
    users := [⟨req.username, hash, .superuser, none⟩]
    upstream := { sc.upstream with nimKeys := ownedKeys sc req }
    clientAuth := { sc.clientAuth with
      keys := sc.clientAuth.keys.map ({ · with owner := req.username }) ++ minted sha256Hex req secret } }

variable {sha256Hex sc req hash secret}

theorem setupSubmit_eq (hreq : Admissible sc req) :
    setupSubmit sha256Hex (lockedOut sc) req hash secret = .ok (claimed sha256Hex sc req hash secret) := by
  unfold setupSubmit SetupReq.populate SetupReq.adopt claimed minted
  rw [if_neg (by simp [lockedOut, StoredConfig.superuser]), hreq.groups, hreq.baseUrl]
  cases req.createClientKey with
  | none => simp [lockedOut, ownedKeys]
  | some name => simp [lockedOut, ownedKeys, mintClientKey]

theorem groupKeys_claimed :
    (claimed sha256Hex sc req hash secret).groupKeys =
      (ownedKeys sc req).map (primaryUpstream, ·) ++ sc.upstreams.flatMap fun ep => ep.keys.map (ep.name, ·) := rfl

theorem names_claimed :
    (claimed sha256Hex sc req hash secret).groupKeys.map (·.2.key) =
      sc.upstream.nimKeys.map (·.key) ++ req.nimKeys.map (fun k => trim k.key) ++
        (sc.upstreams.flatMap fun ep => ep.keys.map (ep.name, ·)).map (·.2.key) := by
  rw [groupKeys_claimed, ownedKeys]
  simp [SetupKey.nimKey, Function.comp_def]

theorem names_groupKeys :
    sc.groupKeys.map (·.2.key) = sc.upstream.nimKeys.map (·.key) ++
      (sc.upstreams.flatMap fun ep => ep.keys.map (ep.name, ·)).map (·.2.key) := by
  simp [StoredConfig.groupKeys, Function.comp_def]

theorem keys_claimed (hkeys : ∃ out, checkEach checkKey [] sc.groupKeys = .ok out) (hreq : Admissible sc req) :
    ∃ out, checkEach checkKey [] (claimed sha256Hex sc req hash secret).groupKeys = .ok out := by
  obtain ⟨hright, hnodup⟩ := checkKeys_iff.1 hkeys
  refine checkKeys_iff.2 ⟨fun gk hgk => ?_, ?_⟩
  · rw [groupKeys_claimed, ownedKeys] at hgk
    rcases List.mem_append.1 hgk with hgk | hgk
    · obtain ⟨k, hk, rfl⟩ := List.mem_map.1 hgk
      rcases List.mem_append.1 hk with hk | hk
      · obtain ⟨k, hold, rfl⟩ := List.mem_map.1 hk
        exact hright (primaryUpstream, k) (List.mem_append_left _ (List.mem_map_of_mem hold))
      · obtain ⟨k, hnew, rfl⟩ := List.mem_map.1 hk
        exact ⟨trim_trim_ne_empty (hreq.keys k hnew).nonblank, (hreq.keys k hnew).rpm⟩
    · exact hright gk (List.mem_append_right _ hgk)
  · rw [names_groupKeys] at hnodup
    rw [names_claimed, List.append_assoc]
    refine (List.perm_append_comm.append_left _).nodup_iff.2 ?_
    rw [← List.append_assoc]
    refine List.nodup_append.2 ⟨hnodup, hreq.distinct, fun a ha b hb hab => ?_⟩
    obtain ⟨k, hk, rfl⟩ := List.mem_map.1 hb
    rw [← names_groupKeys] at ha
    obtain ⟨gk, hgk, rfl⟩ := List.mem_map.1 ha
    exact (hreq.keys k hk).unused gk hgk hab

theorem clients_claimed (hclients : ∃ out, checkEach checkClient [] sc.clientAuth.keys = .ok out)
    (hreq : Admissible sc req) (hdigest : IsDigest (sha256Hex secret)) :
    ∃ out, checkEach checkClient [] (claimed sha256Hex sc req hash secret).clientAuth.keys = .ok out := by
  obtain ⟨hright, hnodup⟩ := checkClients_iff.1 hclients
  refine checkClients_iff.2 ⟨fun c hc => ?_, ?_⟩
  · rcases List.mem_append.1 hc with hc | hc
    · obtain ⟨c, hold, rfl⟩ := List.mem_map.1 hc
      exact hright c hold
    · obtain ⟨name, hname, rfl⟩ := Option.map_eq_some_iff.1 (Option.mem_toList.1 hc)
      exact ⟨(hreq.client name hname).1, hdigest.1, hdigest.2⟩
  · show (List.map _ (_ ++ _)).Nodup
    rw [List.map_append, List.map_map]
    refine List.nodup_append.2 ⟨hnodup, ?_, fun a ha b hb hab => ?_⟩
    · rw [minted]
      cases req.createClientKey <;> simp
    · obtain ⟨c, hc, rfl⟩ := List.mem_map.1 ha
      obtain ⟨c', hc', rfl⟩ := List.mem_map.1 hb
      obtain ⟨name, hname, rfl⟩ := Option.map_eq_some_iff.1 (Option.mem_toList.1 hc')
      exact (hreq.client name hname).2 c hc hab

theorem users_claimed (hreq : Admissible sc req) (hhash : hash ≠ "") :
    (claimed sha256Hex sc req hash secret).validateUsers = .ok () := by
  have hcheck : checkUser [] ⟨req.username, hash, .superuser, none⟩ = .ok [req.username] := by
    simp [checkUser, ensure, hreq.username, hhash, bind, Except.bind, pure, Except.pure]
  rw [StoredConfig.validateUsers, bind_eq_ok]
  refine ⟨[req.username], ?_, rfl⟩
  rw [claimed, checkEach, List.foldlM_cons, hcheck]
  rfl

theorem user_claimed (owner : String) :
    ((claimed sha256Hex sc req hash secret).user owner).isSome = true ↔ owner = req.username := by
  rw [StoredConfig.user, List.find?_isSome]
  simp only [claimed, List.mem_singleton, exists_eq_left, beq_iff_eq]
  exact eq_comm

theorem owners_claimed (henabled : sc.upstream.enabled = true) (hreq : Admissible sc req) :
    (claimed sha256Hex sc req hash secret).validateOwners ⟨req.username, hash, .superuser, none⟩ = .ok () ↔
      ∀ ep ∈ sc.upstreams, ∀ k ∈ ep.keys, k.owner = req.username := by
  rw [validateOwners_iff, groupKeys_claimed]
  simp only [user_claimed]
  constructor
  · rintro ⟨hkeys, -⟩ ep hep k hk
    exact hkeys (ep.name, k) (List.mem_append_right _ (List.mem_flatMap.2 ⟨ep, hep, List.mem_map_of_mem hk⟩))
  · intro howned
    refine ⟨fun gk hgk => ?_, fun c hc => ?_, ?_⟩
    · rcases List.mem_append.1 hgk with hgk | hgk
      · obtain ⟨k, hk, rfl⟩ := List.mem_map.1 hgk
        rcases List.mem_append.1 hk with hk | hk
        · obtain ⟨k, -, rfl⟩ := List.mem_map.1 hk
          rfl
        · obtain ⟨k, -, rfl⟩ := List.mem_map.1 hk
          rfl
      · obtain ⟨ep, hep, hgk⟩ := List.mem_flatMap.1 hgk
        obtain ⟨k, hk, rfl⟩ := List.mem_map.1 hgk
        exact howned ep hep k hk
    · rcases List.mem_append.1 hc with hc | hc
      · obtain ⟨c, -, rfl⟩ := List.mem_map.1 hc
        rfl
      · obtain ⟨name, -, rfl⟩ := Option.map_eq_some_iff.1 (Option.mem_toList.1 hc)
        rfl
    · obtain ⟨k, hk⟩ := List.exists_mem_of_ne_nil _ hreq.someKey
      rw [StoredConfig.poolFloor, Bool.or_eq_true, Bool.and_eq_true, List.any_eq_true]
      refine .inl ⟨henabled, k.nimKey req.username, List.mem_append_right _ (List.mem_map_of_mem hk), ?_⟩
      simp [SetupKey.nimKey]

/-- The recovery of a locked-out store goes through just when the keys of its other groups belong to the name that the
new superuser takes. -/
theorem recovers_iff (hv : sc.validate = .ok ()) (henabled : sc.upstream.enabled = true) (hreq : Admissible sc req)
    (hhash : hash ≠ "") (hdigest : IsDigest (sha256Hex secret)) :
    Recovers sha256Hex (lockedOut sc) req hash secret ↔
      ∀ ep ∈ sc.upstreams, ∀ k ∈ ep.keys, k.owner = req.username := by
  obtain ⟨hserver, hups, hdisabled, -, hkeys, hclients, hgovernor, -⟩ := validate_iff.1 hv
  have hvalid : (claimed sha256Hex sc req hash secret).validate = .ok () ↔
      ∀ ep ∈ sc.upstreams, ∀ k ∈ ep.keys, k.owner = req.username := by
    rw [← @owners_claimed sha256Hex sc req hash secret henabled hreq, validate_iff]
    constructor
    · rintro ⟨-, -, -, -, -, -, -, howners⟩
      exact howners _ rfl
    · intro howners
      refine ⟨hserver, hups, hdisabled, users_claimed hreq hhash, keys_claimed hkeys hreq,
        clients_claimed hclients hreq hdigest, hgovernor, fun su hsu => ?_⟩
      obtain rfl := Option.some.inj (show some _ = some su from hsu)
      exact howners
  rw [Recovers, setupSubmit_eq hreq]
  constructor
  · rintro ⟨cand, hcand, hok, -⟩
    obtain rfl := Except.ok.inj hcand
    exact hvalid.1 hok
  · intro howned
    refine ⟨_, rfl, hvalid.2 howned, fun gk hgk => ?_, fun c hc => ⟨req.username, ?_⟩⟩
    · rcases List.mem_append.1 hgk with hgk | hgk
      · obtain ⟨k, hk, rfl⟩ := List.mem_map.1 hgk
        exact ⟨req.username, List.mem_append_left _
          (List.mem_map_of_mem (List.mem_append_left _ (List.mem_map_of_mem hk)))⟩
      · exact ⟨gk.2.owner, List.mem_append_right _ hgk⟩
    · exact List.mem_append_left _ (List.mem_map_of_mem hc)

end

/-! ### A second group -/

/-- The superuser owned a key of the group "lab", and a friend one of the primary group. -/
def labOwned : StoredConfig where
  upstream := { nimKeys := [⟨"nvapi-1", "root", true, 40⟩, ⟨"nvapi-2", "friend", true, 40⟩] }
  upstreams := [{ name := "lab", baseUrl := "https://lab.example", keys := [⟨"lab-1", "root", true, 40⟩] }]
  clientAuth := { keys := [⟨"laptop", "2a5e354fd725cad8a31c9b8aa01893365801c777d2fab1b23f9428c055958ec7", "cdef", "friend"⟩] }
  users := [⟨"root", "hash", .superuser, none⟩, ⟨"friend", "hash", .user, none⟩]

def claimAs (username : String) : SetupReq where
  username := username
  password := "correct horse"
  nimKeys := [{ key := "nvapi-3" }]

/-- The digest of the one secret that a claim may mint. -/
def digestOf (_secret : String) : String := "2a5e354fd725cad8a31c9b8aa01893365801c777d2fab1b23f9428c055958ec7"

theorem validate_labOwned : labOwned.validate = .ok () := toOption_eq_some (by decide +kernel)

theorem isDigest_digestOf (secret : String) : IsDigest (digestOf secret) :=
  (by decide +kernel : IsDigest (digestOf ""))

theorem admissible_claimAs {username : String} (h : labelOk username 32 = true) :
    Admissible labOwned (claimAs username) where
  username := h
  password := (by decide +kernel : 10 ≤ byteLen "correct horse")
  baseUrl := rfl
  groups := rfl
  client name hname := by cases hname
  someKey := by simp [claimAs]
  keys k hk := by
    obtain rfl := List.mem_singleton.1 hk
    exact ⟨by decide +kernel, by decide, by decide +kernel⟩
  distinct := by simp [claimAs]

theorem recovers_iff_sameName :
    Recovers digestOf (lockedOut labOwned) (claimAs "root") "hash" "npk_0123456789abcdef0123456789abcdef" :=
  (recovers_iff validate_labOwned rfl (admissible_claimAs (by decide +kernel)) (by decide)
    (isDigest_digestOf _)).2 (by decide +kernel)

/-- A new superuser of another name does not adopt the key of the group "lab", and the claim is refused. -/
theorem not_recovers_otherName :
    labOwned.validate = .ok () ∧ labOwned.superuser.isSome = true ∧ labOwned.upstream.enabled = true ∧
      Admissible labOwned (claimAs "admin") ∧ IsDigest (digestOf "npk_0123456789abcdef0123456789abcdef") ∧
      ¬ Recovers digestOf (lockedOut labOwned) (claimAs "admin") "hash" "npk_0123456789abcdef0123456789abcdef" := by
  refine ⟨validate_labOwned, by decide, rfl, admissible_claimAs (by decide +kernel), isDigest_digestOf _, ?_⟩
  rintro ⟨cand, hcand, hvalid, -⟩
  rw [setupSubmit_eq (admissible_claimAs (by decide +kernel))] at hcand
  obtain rfl := Except.ok.inj hcand
  have hfalse : (claimed digestOf labOwned (claimAs "admin") "hash"
      "npk_0123456789abcdef0123456789abcdef").validate.toOption.isSome = false := by decide +kernel
  rw [hvalid] at hfalse
  cases hfalse

end Recovery

end OpenProxy
