import OpenProxy.Merging
import OpenProxy.Routable

/-!
# The model listing and routing (`handle`, `catalog_body` of `proxy.rs`, `route_model` of `lib.rs`)

The listing is made of what the groups' upstreams answer, without the disabled models; routing goes by the groups'
model lists. `Carries` is what routing takes for a group that has a model. A request for the listing passes through
routing as well, with the placeholder `none` for its model.
-/

namespace OpenProxy

namespace Config

/-- A group carries what it lists, and without a list everything that no enabled group lists. -/
def Carries (cfg : Config) (ep : EndpointRuntime) (model : String) : Prop :=
  model ∈ ep.models ∨ ep.models = [] ∧ ∀ ep' ∈ cfg.endpoints, ep'.enabled = true → model ∉ ep'.models

theorem routeModel_eq_none_iff {cfg : Config} {model : String} :
    cfg.routeModel model = none ↔ model ∈ cfg.disabledModels := by
  unfold routeModel
  split
  · rename_i hdis
    exact iff_of_true rfl (List.contains_iff_mem.1 hdis)
  · rename_i hdis
    refine iff_of_false ?_ fun hmem => hdis (List.contains_iff_mem.2 hmem)
    dsimp only
    split <;> simp

theorem mem_specific {cfg : Config} {model : String} {i : Nat} :
    i ∈ cfg.positions (fun models => models != [] && models.contains model) ↔
      ∃ ep, cfg.endpoints[i]? = some ep ∧ ep.enabled = true ∧ model ∈ ep.models := by
  rw [mem_positions]
  refine exists_congr fun ep => and_congr_right fun _ => ?_
  simp only [Bool.and_eq_true, bne_iff_ne, List.contains_iff_mem]
  exact and_congr_right fun _ => ⟨And.right, fun hmem => ⟨List.ne_nil_of_mem hmem, hmem⟩⟩

theorem mem_catchAll {cfg : Config} {i : Nat} :
    i ∈ cfg.positions (· == []) ↔ ∃ ep, cfg.endpoints[i]? = some ep ∧ ep.enabled = true ∧ ep.models = [] := by
  rw [mem_positions]
  simp

/-- No enabled group lists the model. -/
theorem specific_eq_nil_iff {cfg : Config} {model : String} :
    cfg.positions (fun models => models != [] && models.contains model) = [] ↔
      ∀ ep ∈ cfg.endpoints, ep.enabled = true → model ∉ ep.models := by
  rw [List.eq_nil_iff_forall_not_mem]
  constructor
  · intro h ep hep hen hmem
    obtain ⟨i, hi⟩ := List.mem_iff_getElem?.1 hep
    exact h i (mem_specific.2 ⟨ep, hi, hen, hmem⟩)
  · intro h i hi
    obtain ⟨ep, hget, hen, hmem⟩ := mem_specific.1 hi
    exact h ep (List.mem_of_getElem? hget) hen hmem

/-- A model is routed to the enabled groups that carry it. -/
theorem mem_routeModel_iff {cfg : Config} {model : String} {route : List Nat} {i : Nat}
    (h : cfg.routeModel model = some route) :
    i ∈ route ↔ ∃ ep, cfg.endpoints[i]? = some ep ∧ ep.enabled = true ∧ cfg.Carries ep model := by
  unfold routeModel at h
  split at h
  · cases h
  dsimp only at h
  split at h
  · rename_i hnil
    obtain rfl := Option.some.inj h
    rw [specific_eq_nil_iff] at hnil
    rw [mem_catchAll]
    refine exists_congr fun ep => and_congr_right fun hget => and_congr_right fun hen => ?_
    exact ⟨fun hall => .inr ⟨hall, hnil⟩, fun hc =>
      hc.elim (fun hmem => absurd hmem (hnil ep (List.mem_of_getElem? hget) hen)) And.left⟩
  · rename_i hne
    obtain rfl := Option.some.inj h
    rw [specific_eq_nil_iff] at hne
    rw [mem_specific]
    refine exists_congr fun ep => and_congr_right fun _ => and_congr_right fun _ => ?_
    exact ⟨.inl, fun hc => hc.elim id fun hall => absurd hall.2 hne⟩

end Config

namespace Listing

open Text Catalog
open Json (Value)

/-! ### The request for the listing -/

/-- What routing reads of a request; the body is what it parses to. -/
structure Call where
  get : Bool
  path : String
  body : Option Value

def perModelPathId (decode : String → String) (path : String) : Option String :=
  (stripPrefix path "/v1/models/").bind fun raw => if raw = "" then none else some (decode raw)

/-- The model of the body, else that of the path. `decode` undoes the percent encoding. -/
def rawModel (decode : String → String) (c : Call) : String :=
  ((c.body.bind fun v => (v.get "model").bind Value.asStr).or (perModelPathId decode c.path)).getD "none"

def modelDisabled (model : String) : ApiError := ⟨404, "model_disabled", s!"model {model} is disabled on this proxy"⟩

def modelNotFound (model : String) : ApiError :=
  ⟨404, "model_not_found", s!"no enabled upstream serves model {model}"⟩

/-- The error of a model that is routed nowhere. -/
def routingError (cfg : Config) (model : String) : Option ApiError :=
  match cfg.routeModel model with
  | none => some (modelDisabled model)
  | some [] => some (modelNotFound model)
  | some (_ :: _) => none

/-- What `handle` sees of the call when it arrives. -/
structure Arrives (cfg : Config) (decode : String → String) (c : Call) (a : Handle.Arrival) : Prop where
  get : a.get = c.get
  path : a.path = c.path
  route : a.route = cfg.routeModel (rawModel decode c)

/-- The routing error that `handle` answers an arrival with. -/
def answeredError (cfg : Config) (decode : String → String) (c : Call) (a : Handle.Arrival) : Option ApiError :=
  match Handle.handle a with
  | .unroutable => routingError cfg (rawModel decode c)
  | _ => none

def catalogProbe : Call := ⟨true, "/v1/models", none⟩

@[simp] theorem rawModel_catalogProbe (decode : String → String) : rawModel decode catalogProbe = "none" := by
  have hpath : stripPrefix "/v1/models" "/v1/models/" = none := by decide +kernel
  simp [rawModel, catalogProbe, perModelPathId, hpath]

/-- A request for the listing is never answered with a routing error. -/
def Lists (cfg : Config) : Prop :=
  ∀ (decode : String → String) (a : Handle.Arrival), Arrives cfg decode catalogProbe a →
    answeredError cfg decode catalogProbe a = none

/-- The request for the listing, alone and with nothing that would refuse it. -/
def probeArrival (cfg : Config) : Handle.Arrival where
  setupRequired := false
  inflight := 1
  maxInflight := 1
  client := some "local"
  requestDeadline := some none
  route := cfg.routeModel "none"
  get := true
  path := "/v1/models"
  wantsStream := false
  injectable := false

/-- Some group takes requests that name no model. -/
def TakesUnnamed (cfg : Config) : Prop :=
  "none" ∉ cfg.disabledModels ∧ ∃ ep ∈ cfg.endpoints, ep.enabled = true ∧ (ep.models = [] ∨ "none" ∈ ep.models)

theorem routingError_eq_none_iff {cfg : Config} {model : String} :
    routingError cfg model = none ↔
      model ∉ cfg.disabledModels ∧ ∃ ep ∈ cfg.endpoints, ep.enabled = true ∧ (ep.models = [] ∨ model ∈ ep.models) := by
  unfold routingError
  cases hroute : cfg.routeModel model with
  | none => simp [Config.routeModel_eq_none_iff.1 hroute]
  | some route =>
    have hdis : model ∉ cfg.disabledModels := by
      rw [← Config.routeModel_eq_none_iff, hroute]
      simp
    have hmem : ∀ i, i ∈ route ↔ _ := fun i => Config.mem_routeModel_iff hroute
    cases route with
    | nil =>
      refine iff_of_false (by simp) ?_
      rintro ⟨-, ep, hep, hen, hserves⟩
      obtain ⟨i, hi⟩ := List.mem_iff_getElem?.1 hep
      have hnone : ∀ ep' ∈ cfg.endpoints, ep'.enabled = true → model ∉ ep'.models := by
        intro ep' hep' hen' hlists
        obtain ⟨j, hj⟩ := List.mem_iff_getElem?.1 hep'
        exact absurd ((hmem j).2 ⟨ep', hj, hen', .inl hlists⟩) List.not_mem_nil
      rcases hserves with hall | hlists
      · exact absurd ((hmem i).2 ⟨ep, hi, hen, .inr ⟨hall, hnone⟩⟩) List.not_mem_nil
      · exact hnone ep hep hen hlists
    | cons i route =>
      obtain ⟨ep, hget, hen, hcarries⟩ := (hmem i).1 (List.mem_cons_self ..)
      exact iff_of_true rfl ⟨hdis, ep, List.mem_of_getElem? hget, hen, hcarries.symm.imp_left And.left⟩

/-- The listing is answered without a routing error, whatever the request meets on arrival, if and only if some
group takes requests that name no model. -/
theorem lists_iff (cfg : Config) : Lists cfg ↔ TakesUnnamed cfg := by
  constructor
  · intro h
    have hopen := h id (probeArrival cfg) ⟨rfl, rfl, by rw [rawModel_catalogProbe]; rfl⟩
    by_contra hnot
    rw [TakesUnnamed, ← routingError_eq_none_iff] at hnot
    unfold answeredError at hopen
    rw [rawModel_catalogProbe] at hopen
    unfold routingError at hnot
    cases hroute : cfg.routeModel "none" with
    | none => simp [Handle.handle, probeArrival, hroute, routingError] at hopen
    | some route =>
      cases route with
      | nil => simp [Handle.handle, probeArrival, hroute, routingError] at hopen
      | cons i route => simp [hroute] at hnot
  · intro h decode a ha
    unfold answeredError
    rw [rawModel_catalogProbe, routingError_eq_none_iff.2 h]
    split <;> rfl

/-- The only group has a list, as a setup for a single model has. -/
def pinned : StoredConfig where
  upstream := { nimKeys := [⟨"k0", "root", true, 40⟩], models := ["m"] }
  users := [⟨"root", "hash", .superuser, none⟩]

theorem validate_pinned : pinned.validate = .ok () := toOption_eq_some (by decide +kernel)

/-- A group that has a list and an enabled key: the listing is answered with `model_not_found`, for the model
`none`. -/
theorem not_lists_pinned : ¬ ∀ sc : StoredConfig, sc.validate = .ok () →
    (∃ g ∈ sc.groups, g.enabled = true ∧ ∃ k ∈ g.keys, k.enabled = true) → Lists sc.runtime := by
  intro h
  have hlists := h pinned validate_pinned ⟨_, List.mem_cons_self .., rfl, _, List.mem_cons_self .., rfl⟩ id
    (probeArrival pinned.runtime) ⟨rfl, rfl, by rw [rawModel_catalogProbe]; rfl⟩
  have herror : answeredError pinned.runtime id catalogProbe (probeArrival pinned.runtime) =
      some (modelNotFound "none") := by
    have hroute : pinned.runtime.routeModel "none" = some [] := by decide +kernel
    simp [answeredError, Handle.handle, probeArrival, routingError, hroute]
  rw [hlists] at herror
  cases herror

/-! ### What is listed and where it is routed -/

section
variable {B : Type} (json : SerdeValue B) (cfg : Config) (pool : Pool) (outcome : Nat → Outcome B)

/-- The group was asked for its catalog, which lists the model. -/
def Lister (model : String) (t : Nat) : Prop :=
  t ∈ targets cfg pool ∧ ∃ body, (outcome t).received json = some body ∧ model ∈ json.models body

/-- Every model of the listing is routed to a group whose own catalog lists it. -/
def RoutesListed (cache : Cache B) (poolLen now : Nat) : Prop :=
  ∀ body, (refresh json cfg pool cache outcome poolLen now).1 = .ok body → ∀ model ∈ json.models body,
    ∃ route, cfg.routeModel model = some route ∧ ∃ t ∈ route, Lister json cfg pool outcome model t

/-- Of the groups whose catalogs list a model that is not disabled, one carries it. -/
def ListersCarry : Prop :=
  ∀ model ∉ cfg.disabledModels, (∃ t, Lister json cfg pool outcome model t) →
    ∃ t ep, Lister json cfg pool outcome model t ∧ cfg.endpoints[t]? = some ep ∧ cfg.Carries ep model

variable {json cfg pool outcome} {cache : Cache B} {poolLen now : Nat}

theorem mem_targets {t : Nat} (h : t ∈ targets cfg pool) :
    ∃ ep, cfg.endpoints[t]? = some ep ∧ ep.enabled = true := by
  obtain ⟨⟨ep, i⟩, hmem, rfl⟩ := List.mem_map.1 h
  obtain ⟨hzip, hok⟩ := List.mem_filter.1 hmem
  exact ⟨ep, List.mk_mem_zipIdx_iff_getElem?.1 hzip, (Bool.and_eq_true_iff.1 hok).1⟩

theorem exists_lister_iff {model : String} :
    (∃ t, Lister json cfg pool outcome model t) ↔
      ∃ body ∈ ((targets cfg pool).map outcome).filterMap (Outcome.received json), model ∈ json.models body := by
  simp only [Lister, List.mem_filterMap, List.mem_map]
  constructor
  · rintro ⟨t, ht, body, hreceived, hlisted⟩
    exact ⟨body, ⟨_, ⟨t, ht, rfl⟩, hreceived⟩, hlisted⟩
  · rintro ⟨body, ⟨_, ⟨t, ht, rfl⟩, hreceived⟩, hlisted⟩
    exact ⟨t, ht, body, hreceived, hlisted⟩

/-- The listing has the models of the groups' catalogs that are not disabled. -/
theorem mem_listing_iff (hjson : json.Reads) {body : B}
    (h : (refresh json cfg pool cache outcome poolLen now).1 = .ok body) {model : String} :
    model ∈ json.models body ↔ model ∉ cfg.disabledModels ∧ ∃ t, Lister json cfg pool outcome model t := by
  rw [exists_lister_iff]
  rcases @refresh_cases B json cfg pool cache outcome poolLen now with ⟨-, e, hr⟩ | ⟨hits, -, hreceived, hr⟩
  · rw [hr] at h
    cases h
  · rw [hr] at h
    obtain rfl : assemble json cfg hits = body := Except.ok.inj h
    rw [hreceived, mem_models_assemble hjson]

/-- A group's catalog that lists something is answered with a listing. -/
theorem refresh_ok_of_lister {model : String} (h : ∃ t, Lister json cfg pool outcome model t) :
    ∃ body, (refresh json cfg pool cache outcome poolLen now).1 = .ok body := by
  obtain ⟨body, hbody, -⟩ := exists_lister_iff.1 h
  rcases @refresh_cases B json cfg pool cache outcome poolLen now with ⟨hreceived, -⟩ | ⟨hits, -, -, hr⟩
  · rw [hreceived] at hbody
    exact absurd hbody List.not_mem_nil
  · exact ⟨_, by rw [hr]⟩

/-- The listing has only models that are routed to a group whose catalog lists them, if and only if each model that
a catalog lists is carried by a group whose catalog lists it. -/
theorem routesListed_iff (hjson : json.Reads) (cfg : Config) (pool : Pool) (outcome : Nat → Outcome B)
    (cache : Cache B) (poolLen now : Nat) :
    RoutesListed json cfg pool outcome cache poolLen now ↔ ListersCarry json cfg pool outcome := by
  constructor
  · intro h model hdis hlister
    obtain ⟨body, hbody⟩ := @refresh_ok_of_lister B json cfg pool outcome cache poolLen now model hlister
    obtain ⟨route, hroute, t, ht, hlists⟩ := h body hbody model ((mem_listing_iff hjson hbody).2 ⟨hdis, hlister⟩)
    obtain ⟨ep, hget, -, hcarries⟩ := (Config.mem_routeModel_iff hroute).1 ht
    exact ⟨t, ep, hlists, hget, hcarries⟩
  · intro h body hbody model hlisted
    obtain ⟨hdis, hlister⟩ := (mem_listing_iff hjson hbody).1 hlisted
    obtain ⟨t, ep, hlists, hget, hcarries⟩ := h model hdis hlister
    obtain ⟨ep', hget', hen⟩ := mem_targets hlists.1
    obtain rfl : ep' = ep := Option.some.inj (hget'.symm.trans hget)
    cases hroute : cfg.routeModel model with
    | none => exact absurd (Config.routeModel_eq_none_iff.1 hroute) hdis
    | some route => exact ⟨route, rfl, t, (Config.mem_routeModel_iff hroute).2 ⟨ep', hget, hen, hcarries⟩, hlists⟩

end

/-- Two catch-all groups with different catalogs. -/
theorem routesListed_iff_twoGroups : RoutesListed parsedBodies twoGroups.runtime (.new twoGroups.poolSpecs 0)
    (fun t => .responded 200 (some (some (Catalog.listing (if t = 0 then ["a", "b"] else ["b", "c"]))))) none 2 7 := by
  refine (routesListed_iff parsedBodies_reads twoGroups.runtime (.new twoGroups.poolSpecs 0) _ none 2 7).2 ?_
  rintro model - ⟨t, hlists⟩
  have hall : ∀ ep ∈ twoGroups.runtime.endpoints, ep.models = [] := by decide +kernel
  obtain ⟨ep, hget, -⟩ := mem_targets hlists.1
  refine ⟨t, ep, hlists, hget, .inr ⟨hall ep (List.mem_of_getElem? hget), fun ep' hep' _ => ?_⟩⟩
  rw [hall ep' hep']
  exact List.not_mem_nil

/-- The only group lists `m`, its upstream's catalog has another model as well: the listing shows it, and a request
for it is answered with `model_not_found`. -/
theorem not_routesListed_pinned : ¬ ∀ (sc : StoredConfig) (outcome : Nat → Outcome (Option Value)) (now : Nat),
    sc.validate = .ok () →
      RoutesListed parsedBodies sc.runtime (.new sc.poolSpecs 0) outcome none sc.poolSpecs.length now := by
  intro h
  have hroutes := h pinned (fun _ => .responded 200 (some (some (Catalog.listing ["m", "other"])))) 7 validate_pinned
  have hlister : ∃ t, Lister parsedBodies pinned.runtime (.new pinned.poolSpecs 0)
      (fun _ => .responded 200 (some (some (Catalog.listing ["m", "other"])))) "other" t :=
    ⟨0, by decide +kernel, _, rfl, by decide +kernel⟩
  obtain ⟨body, hbody⟩ := @refresh_ok_of_lister _ parsedBodies pinned.runtime (.new pinned.poolSpecs 0) _ none
    pinned.poolSpecs.length 7 _ hlister
  have hlisted := (mem_listing_iff parsedBodies_reads hbody).2 ⟨by decide +kernel, hlister⟩
  obtain ⟨route, hroute, t, ht, -⟩ := hroutes body hbody "other" hlisted
  have hnone : pinned.runtime.routeModel "other" = some [] := by decide +kernel
  rw [hnone] at hroute
  obtain rfl := Option.some.inj hroute
  exact absurd ht List.not_mem_nil

end Listing

end OpenProxy
