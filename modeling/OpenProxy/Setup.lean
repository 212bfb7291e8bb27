import OpenProxy.AppState

/-!
# Provider groups in the first-run claim (`setup_submit` of `settings.rs`)

The wizard sends one group for each provider. The first becomes the primary group, which has its place in the store
already, and the others are appended to the upstream list. What the primary group had before stays where the claim does
not write it, and a group under the primary group's name has no place of its own.
-/

namespace OpenProxy.Setup

open Settings AppState Text

/-- The group's endpoint, keys and flag are the stored ones; a key without a rate has the default one. -/
structure StoredAs (g : SetupGroup) (baseUrl : String) (supportsStreamOptions : Bool) (keys : List NimKey) : Prop where
  baseUrl : baseUrl = normalizeBaseUrl (trim g.baseUrl)
  supportsStreamOptions : supportsStreamOptions = g.supportsStreamOptions
  keys : keys.map (fun k => (k.key, k.rpm)) = g.keys.map fun k => (trim k.key, k.rpm.getD 40)

/-- No group is lost: the first is the primary one, with its keys behind those that were there, and the others follow
the upstreams that were there. -/
structure Lossless (first : SetupGroup) (groups : List SetupGroup) (before after : StoredConfig) : Prop where
  primary : ∃ kept added, after.upstream.nimKeys = kept ++ added ∧
    kept.length = before.upstream.nimKeys.length ∧
    StoredAs first after.upstream.baseUrl after.upstream.supportsStreamOptions added
  others : ∃ added, after.upstreams = before.upstreams ++ added ∧
    List.Forall₂ (fun g ep => StoredAs g ep.baseUrl ep.supportsStreamOptions ep.keys) groups added

section
variable {guard cand : StoredConfig} {req : SetupReq} {first g : SetupGroup} {groups : List SetupGroup}

theorem keys_eq (username : String) (keys : List SetupKey) :
    (keys.map (·.nimKey username)).map (fun k => (k.key, k.rpm)) = keys.map fun k => (trim k.key, k.rpm.getD 40) := by
  rw [List.map_map]
  rfl

theorem storedAs_endpoint (username : String) (g : SetupGroup) :
    StoredAs g (g.endpoint username).baseUrl (g.endpoint username).supportsStreamOptions (g.endpoint username).keys :=
  ⟨rfl, rfl, keys_eq username g.keys⟩

/-- What a claim with groups writes to the groups. -/
theorem setupSubmit_groups {sha256Hex : String → String} {hash secret : String} (hgroups : req.groups = first :: groups)
    (h : setupSubmit sha256Hex guard req hash secret = .ok cand) :
    (first.baseUrl ≠ "" → cand.upstream.baseUrl = normalizeBaseUrl (trim first.baseUrl)) ∧
      cand.upstream.supportsStreamOptions = guard.upstream.supportsStreamOptions ∧
      cand.upstream.nimKeys = guard.upstream.nimKeys.map ({ · with owner := req.username }) ++
        first.keys.map (·.nimKey req.username) ∧
      cand.upstreams = guard.upstreams ++
        (groups.filter fun g => trim g.name != primaryUpstream).map (·.endpoint req.username) := by
  rw [setupSubmit] at h
  split at h
  · cases h
  · have hsame : cand.upstream = (req.populate (req.adopt hash guard)).upstream ∧
        cand.upstreams = (req.populate (req.adopt hash guard)).upstreams := by
      obtain rfl := Except.ok.inj h
      cases req.createClientKey <;> exact ⟨rfl, rfl⟩
    rw [hsame.1, hsame.2, SetupReq.populate, hgroups]
    exact ⟨fun hne => if_neg hne, rfl, rfl, rfl⟩

/-- Groups and endpoints correspond just if no group was left out. -/
theorem forall₂_endpoints (username : String) :
    List.Forall₂ (fun g ep => StoredAs g ep.baseUrl ep.supportsStreamOptions ep.keys) groups
        ((groups.filter fun g => trim g.name != primaryUpstream).map (·.endpoint username)) ↔
      ∀ g ∈ groups, trim g.name ≠ primaryUpstream := by
  constructor
  · intro h
    have hlen := h.length_eq
    rw [List.length_map] at hlen
    have hall := List.length_filter_eq_length_iff.1 hlen.symm
    exact fun g hg => by simpa using hall g hg
  · intro h
    rw [List.filter_eq_self.2 fun g hg => by simpa using h g hg, List.forall₂_map_right_iff]
    exact List.forall₂_same.2 fun g _ => storedAs_endpoint username g

theorem baseUrl_ne_empty {sc : StoredConfig} (h : sc.validate = .ok ()) : sc.upstream.baseUrl ≠ "" := by
  intro hempty
  obtain ⟨-, hups, -⟩ := validate_iff.1 h
  rw [StoredConfig.validateUpstreams, hempty] at hups
  cases hups

end

section
variable {sha256Hex : String → String} {s : State} {req : SetupReq} {hash secret : String} {since : Nat} {env : Env}
  {first : SetupGroup} {groups : List SetupGroup}

/-- A claim that went through has stored all its groups just if the first one has a URL and the flag that the primary
group had, and no other one has the primary group's name. -/
theorem lossless_iff (hgroups : req.groups = first :: groups)
    (h : (s.save sha256Hex (.setup req hash secret) since env).2 = some (.ok ())) :
    Lossless first groups s.store (s.save sha256Hex (.setup req hash secret) since env).1.store ↔
      first.baseUrl ≠ "" ∧ s.store.upstream.supportsStreamOptions = first.supportsStreamOptions ∧
        ∀ g ∈ groups, trim g.name ≠ primaryUpstream := by
  rcases hs : s.save sha256Hex (.setup req hash secret) since env with ⟨s', r⟩
  rw [hs] at h
  rcases save_cases hs with ⟨e, rfl, -⟩ | ⟨cand, -, hcand, hvalid, rfl⟩
  · cases h
  obtain ⟨hurl, hflag, hkeys, hothers⟩ := setupSubmit_groups hgroups hcand
  show Lossless first groups s.store cand ↔ _
  constructor
  · rintro ⟨⟨kept, added, -, -, hprimary⟩, added', happended, hforall⟩
    refine ⟨?_, hflag.symm.trans hprimary.supportsStreamOptions, ?_⟩
    · intro hempty
      have hbase := hprimary.baseUrl
      rw [hempty] at hbase
      exact baseUrl_ne_empty hvalid hbase
    · rw [hothers] at happended
      rw [← List.append_cancel_left happended] at hforall
      exact (forall₂_endpoints req.username).1 hforall
  · rintro ⟨hne, hsame, hnames⟩
    refine ⟨⟨_, _, hkeys, by rw [List.length_map], hurl hne, hflag.trans hsame, keys_eq _ _⟩, ?_⟩
    exact ⟨_, hothers, (forall₂_endpoints req.username).2 hnames⟩

end

/-! ### Two providers -/

def openRouter (supportsStreamOptions : Bool) : SetupGroup where
  name := "main"
  baseUrl := "https://openrouter.ai/api/v1"
  keys := [{ key := "or-1" }]
  supportsStreamOptions := supportsStreamOptions

def zai : SetupGroup where
  name := "z.ai"
  baseUrl := "https://api.z.ai/v1"
  keys := [{ key := " zai-1", rpm := some 20 }]
  supportsStreamOptions := false

def claim (supportsStreamOptions : Bool) : SetupReq where
  username := "root"
  password := "correct horse"
  groups := [openRouter supportsStreamOptions, zai]

/-- The claim of an empty store. -/
def claimed (supportsStreamOptions : Bool) : State × Answer :=
  (boot {} 0).save id (.setup (claim supportsStreamOptions) "hash" "secret") 0 ⟨none, 0⟩

theorem lossless_claim : Lossless (openRouter true) [zai] {} (claimed true).1.store := by
  have hok : (claimed true).2 = some (.ok ()) := by decide +kernel
  exact (lossless_iff rfl hok).2 (by decide +kernel)

/-- The claim succeeds, and the first provider will be sent the option it does not know. -/
theorem not_lossless_claim :
    (claimed false).2 = some (.ok ()) ∧ ¬ Lossless (openRouter false) [zai] {} (claimed false).1.store := by
  refine ⟨by decide +kernel, ?_⟩
  rintro ⟨⟨kept, added, -, -, hprimary⟩, -⟩
  have hflag : (claimed false).1.store.upstream.supportsStreamOptions = true := by decide +kernel
  have hlost := hflag.symm.trans hprimary.supportsStreamOptions
  cases hlost

end OpenProxy.Setup
