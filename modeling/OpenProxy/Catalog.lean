import OpenProxy.Handlers
import OpenProxy.Handle
import OpenProxy.Json

/-!
# The model catalog (`catalog_body`, `merge_catalogs` of `proxy.rs`)

The catalog is fetched once from every enabled group that has a live key and merged by model id. A body is opaque
bytes: `SerdeValue` is what the merge uses of the JSON library. The slots that a fetch takes and the cooldowns that
it sets are the pool's own steps.
-/

namespace OpenProxy

open Json (Value)

namespace Json.Value

def data (v : Value) : Option (List Value) := (v.get "data").bind asArray

def id (v : Value) : String := ((v.get "id").bind asStr).getD ""

/-- The models that a catalog lists. -/
def models (v : Value) : List String := ((v.data.getD []).map id).filter (· ≠ "")

end Json.Value

/-- What the catalog uses of the JSON library, over opaque bodies. -/
structure SerdeValue (B : Type) where
  empty : B
  fromSlice : B → Option Value
  toVec : Value → B

namespace SerdeValue

variable {B : Type} (json : SerdeValue B)

def catalog (body : B) : Option (List Value) := (json.fromSlice body).bind Value.data

def models (body : B) : List String := ((json.fromSlice body).map Value.models).getD []

/-- The empty body is no JSON text, and what is written reads back. -/
structure Reads : Prop where
  empty : json.fromSlice json.empty = none
  models : ∀ v, json.models (json.toVec v) = v.models

end SerdeValue

namespace Pool

def activeEndpoints (p : Pool) : List Nat :=
  (p.lanes.take p.active).foldl (fun out l => if l.endpoint ∈ out then out else out ++ [l.endpoint]) []

end Pool

namespace Catalog

open Text

/-! ### Merging -/

structure Merge where
  ids : List String := []
  data : List Value := []
  objectType : Value := .string "list"
  parsed : Bool := false

section
variable {B : Type} (json : SerdeValue B) (disabled : List String)

def Merge.entry (m : Merge) (entry : Value) : Merge :=
  if entry.id = "" ∨ entry.id ∈ disabled then m
  else if entry.id ∈ m.ids then m
  else { m with ids := m.ids ++ [entry.id], data := m.data ++ [entry] }

def Merge.setObject (m : Merge) (v : Value) : Merge :=
  if m.data.isEmpty then { m with objectType := (v.get "object").getD m.objectType } else m

def Merge.body (m : Merge) (body : B) : Merge :=
  match json.fromSlice body with
  | none => m
  | some v =>
    match v.data with
    | none => m
    | some arr => arr.foldl (Merge.entry disabled) ({ m with parsed := true }.setObject v)

def mergeCatalogs (bodies : List B) : B :=
  let m := bodies.foldl (Merge.body json disabled) {}
  if !m.parsed then bodies.head?.getD json.empty
  else json.toVec (.object [("data", .array m.data), ("object", m.objectType)])

end

/-! ### Fetching -/

/-- What one group's fetch comes to. -/
inductive Outcome (B : Type) where
  | noSlot
  /-- The connection fails; with the size of the pool. -/
  | unreachable (poolLen : Nat)
  /-- A response; `none` is a body that could not be read to its end. -/
  | responded (code : Nat) (body : Option B)

inductive Failure (B : Type) where
  | gatewayTimeout (e : ApiError)
  /-- The response of an upstream, passed on. -/
  | relayed (code : Nat) (body : B)

def gatewayTimeout {B : Type} (cfg : Config) (poolLen : Nat) : Failure B :=
  .gatewayTimeout ⟨504, "rate_limited",
    s!"no upstream slot became available within {cfg.maxWait}s (all {poolLen} keys saturated)"⟩

def targets (cfg : Config) (pool : Pool) : List Nat :=
  (cfg.endpoints.zipIdx.filter fun (ep, i) => ep.enabled && pool.activeEndpoints.contains i).map (·.2)

structure Fetch (B : Type) where
  hits : List B := []
  error : Option (Failure B) := none

section
variable {B : Type} (json : SerdeValue B) (cfg : Config)

def Fetch.fail (f : Fetch B) (e : Failure B) : Fetch B := { f with error := f.error.or (some e) }

def Fetch.visit (f : Fetch B) : Outcome B → Fetch B
  | .noSlot => f
  | .unreachable poolLen => f.fail (gatewayTimeout cfg poolLen)
  | .responded code body =>
    if Handle.isSuccess code then { f with hits := f.hits ++ [body.getD json.empty] }
    else f.fail (.relayed code (body.getD json.empty))

/-- The catalog made of the bodies that were received. -/
def assemble (hits : List B) : B :=
  match hits, cfg.disabledModels with
  | [body], [] => body
  | hits, disabled => mergeCatalogs json disabled hits

/-- The cached catalog and when it was fetched. -/
abbrev Cache (B : Type) := Option (Nat × B)

def lookup (cache : Cache B) (now : Nat) : Option B :=
  match cache with
  | some (since, body) => if now - since < ofSecs cfg.modelsTtl then some body else none
  | none => none

/-- `catalog_body` past the cache: what it answers and what it leaves in the cache. -/
def refresh (pool : Pool) (cache : Cache B) (outcome : Nat → Outcome B) (poolLen now : Nat) :
    Except (Failure B) B × Cache B :=
  match targets cfg pool with
  | [] => (.error (gatewayTimeout cfg pool.len), cache)
  | t :: ts =>
    let f := ((t :: ts).map outcome).foldl (Fetch.visit json cfg) {}
    if f.hits.isEmpty then (.error (f.error.getD (gatewayTimeout cfg poolLen)), cache)
    else (.ok (assemble json cfg f.hits), some (now, assemble json cfg f.hits))

end

/-! ### What a merge lists -/

section
variable {B : Type} {json : SerdeValue B} {disabled : List String}

/-- Everything merged so far has an id that is not disabled. -/
def Merge.Enabled (disabled : List String) (m : Merge) : Prop := ∀ e ∈ m.data, e.id ∉ disabled

theorem Merge.Enabled.entry {m : Merge} (h : m.Enabled disabled) (e : Value) :
    (m.entry disabled e).Enabled disabled := by
  unfold Merge.entry
  split
  · exact h
  · rename_i he
    split
    · exact h
    · intro e' he'
      rcases List.mem_append.1 he' with he' | he'
      · exact h e' he'
      · rw [List.mem_singleton.1 he']
        exact fun hd => he (.inr hd)

theorem Merge.Enabled.foldl_entry {m : Merge} (h : m.Enabled disabled) (arr : List Value) :
    (arr.foldl (Merge.entry disabled) m).Enabled disabled := by
  induction arr generalizing m with
  | nil => exact h
  | cons e arr ih => exact ih (h.entry e)

theorem Merge.setObject_data (m : Merge) (v : Value) : (m.setObject v).data = m.data := by
  unfold Merge.setObject
  split <;> rfl

theorem Merge.Enabled.body {m : Merge} (h : m.Enabled disabled) (body : B) :
    (m.body json disabled body).Enabled disabled := by
  unfold Merge.body
  split
  · exact h
  · split
    · exact h
    · refine Merge.Enabled.foldl_entry (fun e he => ?_) _
      rw [Merge.setObject_data] at he
      exact h e he

theorem Merge.Enabled.foldl_body {m : Merge} (h : m.Enabled disabled) (bodies : List B) :
    (bodies.foldl (Merge.body json disabled) m).Enabled disabled := by
  induction bodies generalizing m with
  | nil => exact h
  | cons body bodies ih => exact ih (h.body body)

/-- A body that is no catalog leaves the merge alone. -/
theorem Merge.body_of_catalog_none {m : Merge} {body : B} (h : json.catalog body = none) :
    m.body json disabled body = m := by
  unfold Merge.body
  unfold SerdeValue.catalog at h
  split
  · rfl
  · rename_i v hv
    rw [hv] at h
    split
    · rfl
    · rename_i arr harr
      exact absurd (harr.symm.trans h) (by simp)

theorem Merge.entry_parsed (m : Merge) (e : Value) : (m.entry disabled e).parsed = m.parsed := by
  unfold Merge.entry
  split
  · rfl
  · split <;> rfl

theorem Merge.foldl_entry_parsed (m : Merge) (arr : List Value) :
    (arr.foldl (Merge.entry disabled) m).parsed = m.parsed := by
  induction arr generalizing m with
  | nil => rfl
  | cons e arr ih => rw [List.foldl_cons, ih, Merge.entry_parsed]

theorem Merge.setObject_parsed (m : Merge) (v : Value) : (m.setObject v).parsed = m.parsed := by
  unfold Merge.setObject
  split <;> rfl

theorem Merge.body_parsed (m : Merge) (body : B) :
    (m.body json disabled body).parsed = (m.parsed || (json.catalog body).isSome) := by
  cases h : json.catalog body with
  | none => rw [Merge.body_of_catalog_none h]; simp
  | some arr =>
    obtain ⟨v, hv, harr⟩ := Option.bind_eq_some_iff.1 h
    unfold Merge.body
    rw [hv]
    simp only [harr, Merge.foldl_entry_parsed, Merge.setObject_parsed]
    simp

theorem Merge.foldl_body_parsed (m : Merge) (bodies : List B) :
    (bodies.foldl (Merge.body json disabled) m).parsed =
      (m.parsed || bodies.any fun b => (json.catalog b).isSome) := by
  induction bodies generalizing m with
  | nil => simp
  | cons body bodies ih => rw [List.foldl_cons, ih, Merge.body_parsed, List.any_cons, Bool.or_assoc]

theorem Merge.foldl_body_filter (m : Merge) (bodies : List B) :
    bodies.foldl (Merge.body json disabled) m =
      (bodies.filter fun b => (json.catalog b).isSome).foldl (Merge.body json disabled) m := by
  induction bodies generalizing m with
  | nil => rfl
  | cons body bodies ih =>
    cases h : json.catalog body with
    | none => rw [List.foldl_cons, Merge.body_of_catalog_none h, ih, List.filter_cons_of_neg (by simp [h])]
    | some arr => rw [List.foldl_cons, ih, List.filter_cons_of_pos (by simp [h]), List.foldl_cons]

/-- Bodies that are no catalog make a difference only if nothing else was received. -/
theorem mergeCatalogs_congr {bodies bodies' : List B}
    (h : (bodies.filter fun b => (json.catalog b).isSome) = bodies'.filter fun b => (json.catalog b).isSome)
    (hany : bodies.any fun b => (json.catalog b).isSome) :
    mergeCatalogs json disabled bodies = mergeCatalogs json disabled bodies' := by
  have hfold : bodies.foldl (Merge.body json disabled) {} = bodies'.foldl (Merge.body json disabled) {} := by
    rw [Merge.foldl_body_filter, h, ← Merge.foldl_body_filter]
  have hparsed : (bodies'.foldl (Merge.body json disabled) {}).parsed = true := by
    rw [← hfold, Merge.foldl_body_parsed, hany]
    rfl
  unfold mergeCatalogs
  rw [hfold]
  simp only [hparsed, Bool.not_true, Bool.false_eq_true, if_false]

theorem mergeCatalogs_of_none {bodies : List B} (h : ∀ b ∈ bodies, json.catalog b = none) :
    mergeCatalogs json disabled bodies = bodies.head?.getD json.empty := by
  have hparsed : (bodies.foldl (Merge.body json disabled) {}).parsed = false := by
    rw [Merge.foldl_body_parsed]
    simpa using h
  unfold mergeCatalogs
  simp only [hparsed, Bool.not_false, if_true]

theorem models_of_catalog_none {body : B} (h : json.catalog body = none) : json.models body = [] := by
  unfold SerdeValue.catalog at h
  unfold SerdeValue.models
  cases hv : json.fromSlice body with
  | none => rfl
  | some v =>
    rw [hv] at h
    have hdata : v.data = none := h
    simp [Value.models, hdata]

/-- Where nothing parses, nothing is listed. -/
theorem models_mergeCatalogs_of_none (hjson : json.Reads) {bodies : List B} (h : ∀ b ∈ bodies, json.catalog b = none) :
    json.models (mergeCatalogs json disabled bodies) = [] := by
  have hhead : json.catalog (bodies.head?.getD json.empty) = none := by
    cases bodies with
    | nil => simp [SerdeValue.catalog, hjson.empty]
    | cons b bodies => exact h b (List.mem_cons_self ..)
  rw [mergeCatalogs_of_none h, models_of_catalog_none hhead]

/-- A merged catalog lists no disabled model. -/
theorem notMem_models_mergeCatalogs (hjson : json.Reads) (bodies : List B) {m : String} (hm : m ∈ disabled) :
    m ∉ json.models (mergeCatalogs json disabled bodies) := by
  by_cases hany : ∃ b ∈ bodies, (json.catalog b).isSome
  · have hparsed : (bodies.foldl (Merge.body json disabled) {}).parsed = true := by
      rw [Merge.foldl_body_parsed]
      simpa using hany
    have henabled : (bodies.foldl (Merge.body json disabled) {}).Enabled disabled :=
      Merge.Enabled.foldl_body (fun e he => absurd he (List.not_mem_nil)) bodies
    unfold mergeCatalogs
    simp only [hparsed, Bool.not_true, Bool.false_eq_true, if_false, hjson.models]
    intro hlisted
    obtain ⟨e, he, rfl⟩ := List.mem_map.1 (List.mem_filter.1 hlisted).1
    exact henabled e he hm
  · rw [models_mergeCatalogs_of_none hjson (by simpa using hany)]
    exact List.not_mem_nil

theorem notMem_models_assemble (hjson : json.Reads) {cfg : Config} (hits : List B) {m : String}
    (hm : m ∈ cfg.disabledModels) : m ∉ json.models (assemble json cfg hits) := by
  unfold assemble
  split
  · rename_i hdisabled
    rw [hdisabled] at hm
    exact absurd hm (List.not_mem_nil)
  · exact notMem_models_mergeCatalogs hjson _ hm

end

/-! ### What a fetch comes to -/

section
variable {B : Type} (json : SerdeValue B)

/-- The body of a success that was read to its end. -/
def Outcome.complete : Outcome B → Option B
  | .responded code body => if Handle.isSuccess code then body else none
  | .noSlot | .unreachable _ => none

/-- The body of a success as `catalog_body` takes it. -/
def Outcome.received : Outcome B → Option B
  | .responded code body => if Handle.isSuccess code then some (body.getD json.empty) else none
  | .noSlot | .unreachable _ => none

/-- The answer and the cached catalog are made of exactly the bodies that are complete: the only one as it is, or
their merge. Without one, the answer is an error and the cache is left alone. -/
def MadeOf (cfg : Config) (cache : Cache B) (now : Nat) (complete : List B)
    (r : Except (Failure B) B × Cache B) : Prop :=
  match complete with
  | [] => (∃ e, r.1 = .error e) ∧ r.2 = cache
  | complete =>
    ∃ body, r = (.ok body, some (now, body)) ∧
      (body = assemble json cfg complete ∨ body = mergeCatalogs json cfg.disabledModels complete)

/-- A complete body is a catalog, or the first success is the first complete body. -/
def Usable (outcomes : List (Outcome B)) : Prop :=
  (∃ body ∈ outcomes.filterMap Outcome.complete, (json.catalog body).isSome) ∨
    (outcomes.filterMap (Outcome.received json)).head? = (outcomes.filterMap Outcome.complete).head?

variable {json} {cfg : Config}

@[simp] theorem Fetch.hits_fail (f : Fetch B) (e : Failure B) : (f.fail e).hits = f.hits := rfl

theorem Fetch.hits_visit (f : Fetch B) (o : Outcome B) :
    (f.visit json cfg o).hits = f.hits ++ (o.received json).toList := by
  unfold Fetch.visit Outcome.received
  split
  · simp
  · simp
  · split
    · rename_i hok
      simp [hok]
    · rename_i hok
      simp [hok]

theorem Fetch.hits_foldl (f : Fetch B) (outcomes : List (Outcome B)) :
    (outcomes.foldl (Fetch.visit json cfg) f).hits = f.hits ++ outcomes.filterMap (Outcome.received json) := by
  induction outcomes generalizing f with
  | nil => simp
  | cons o outcomes ih =>
    rw [List.foldl_cons, ih, Fetch.hits_visit, List.append_assoc]
    cases ho : o.received json <;> simp [ho]

/-- A fetch fails without a success, and else caches what it answers. -/
theorem refresh_cases (pool : Pool) (cache : Cache B) (outcome : Nat → Outcome B) (poolLen now : Nat) :
    (((targets cfg pool).map outcome).filterMap (Outcome.received json) = [] ∧
        ∃ e, refresh json cfg pool cache outcome poolLen now = (.error e, cache)) ∨
      ∃ hits, hits ≠ [] ∧ ((targets cfg pool).map outcome).filterMap (Outcome.received json) = hits ∧
        refresh json cfg pool cache outcome poolLen now =
          (.ok (assemble json cfg hits), some (now, assemble json cfg hits)) := by
  unfold refresh
  split
  · rename_i hnone
    rw [hnone]
    exact .inl ⟨rfl, _, rfl⟩
  · rename_i t ts hts
    rw [hts]
    have hhits := @Fetch.hits_foldl B json cfg {} ((t :: ts).map outcome)
    simp only [List.nil_append] at hhits
    simp only [hhits]
    split
    · rename_i hempty
      exact .inl ⟨List.isEmpty_iff.1 hempty, _, rfl⟩
    · rename_i hne
      exact .inr ⟨_, fun h => hne (List.isEmpty_iff.2 h), rfl, rfl⟩

theorem Outcome.received_of_complete {o : Outcome B} {body : B} (h : o.complete = some body) :
    o.received json = some body := by
  cases o with
  | noSlot => cases h
  | unreachable poolLen => cases h
  | responded code b =>
    simp only [Outcome.complete] at h
    split at h
    · rename_i hok
      rw [h]
      simp [Outcome.received, hok]
    · cases h

/-- What is taken for a body without having been read is empty. -/
theorem Outcome.received_of_complete_none {o : Outcome B} {body : B} (h : o.complete = none)
    (hbody : o.received json = some body) : body = json.empty := by
  cases o with
  | noSlot => cases hbody
  | unreachable poolLen => cases hbody
  | responded code b =>
    simp only [Outcome.complete, Outcome.received] at h hbody
    split at hbody
    · rename_i hok
      rw [if_pos hok] at h
      rw [h] at hbody
      exact (Option.some.inj hbody).symm
    · cases hbody

theorem complete_sublist (outcomes : List (Outcome B)) :
    (outcomes.filterMap Outcome.complete).Sublist (outcomes.filterMap (Outcome.received json)) := by
  induction outcomes with
  | nil => exact .slnil
  | cons o outcomes ih =>
    cases ho : o.complete with
    | none =>
      rw [List.filterMap_cons_none ho]
      cases hr : o.received json with
      | none => rwa [List.filterMap_cons_none hr]
      | some body =>
        rw [List.filterMap_cons_some hr]
        exact ih.cons body
    | some body =>
      rw [List.filterMap_cons_some ho, List.filterMap_cons_some (Outcome.received_of_complete ho)]
      exact ih.cons_cons body

/-- Bodies that were not read are no catalogs. -/
theorem filter_received (hempty : json.fromSlice json.empty = none) (outcomes : List (Outcome B)) :
    ((outcomes.filterMap (Outcome.received json)).filter fun b => (json.catalog b).isSome) =
      (outcomes.filterMap Outcome.complete).filter fun b => (json.catalog b).isSome := by
  induction outcomes with
  | nil => rfl
  | cons o outcomes ih =>
    cases ho : o.complete with
    | none =>
      rw [List.filterMap_cons_none ho, ← ih]
      cases hr : o.received json with
      | none => rw [List.filterMap_cons_none hr]
      | some body =>
        have hnone : json.catalog body = none := by
          rw [Outcome.received_of_complete_none ho hr]
          simp [SerdeValue.catalog, hempty]
        rw [List.filterMap_cons_some hr, List.filter_cons_of_neg (by simp [hnone])]
    | some body =>
      rw [List.filterMap_cons_some ho, List.filterMap_cons_some (Outcome.received_of_complete ho), List.filter_cons,
        List.filter_cons, ih]

/-- Where nothing parses, the first body is the catalog. -/
theorem assemble_of_none {bodies : List B} (h : ∀ b ∈ bodies, json.catalog b = none) :
    assemble json cfg bodies = bodies.head?.getD json.empty := by
  unfold assemble
  split
  · rfl
  · exact mergeCatalogs_of_none h

/-- A fetch answers and caches what was received completely, and fails without changing the cache if nothing was,
if and only if what was received is usable. -/
theorem madeOf_iff_usable (hempty : json.fromSlice json.empty = none) (cfg : Config) (pool : Pool) (cache : Cache B)
    (outcome : Nat → Outcome B) (poolLen now : Nat) :
    MadeOf json cfg cache now (((targets cfg pool).map outcome).filterMap Outcome.complete)
        (refresh json cfg pool cache outcome poolLen now) ↔
      Usable json ((targets cfg pool).map outcome) := by
  have hsub := @complete_sublist B json ((targets cfg pool).map outcome)
  have hfilter := filter_received hempty ((targets cfg pool).map outcome)
  unfold Usable
  generalize ((targets cfg pool).map outcome).filterMap Outcome.complete = complete at *
  rcases @refresh_cases B json cfg pool cache outcome poolLen now with
    ⟨hreceived, e, hr⟩ | ⟨hits, hne, hreceived, hr⟩
  · rw [hreceived] at hsub ⊢
    rw [List.sublist_nil.1 hsub, hr]
    exact ⟨fun _ => .inr rfl, fun _ => ⟨⟨e, rfl⟩, rfl⟩⟩
  rw [hreceived] at hsub hfilter ⊢
  rw [hr]
  cases hcomplete : complete with
  | nil =>
    constructor
    · rintro ⟨⟨e, he⟩, -⟩
      cases he
    · rintro (⟨body, hbody, -⟩ | hhead)
      · exact absurd hbody (List.not_mem_nil)
      · exact absurd (List.head?_eq_none_iff.1 hhead) hne
  | cons c cs =>
    rw [← hcomplete]
    have hmade : MadeOf json cfg cache now complete
        (.ok (assemble json cfg hits), some (now, assemble json cfg hits)) ↔
        assemble json cfg hits = assemble json cfg complete ∨
          assemble json cfg hits = mergeCatalogs json cfg.disabledModels complete := by
      rw [hcomplete]
      constructor
      · rintro ⟨body, hbody, hor⟩
        obtain ⟨hok, -⟩ := Prod.mk.inj hbody
        rw [Except.ok.inj hok]
        exact hor
      · exact fun hor => ⟨_, rfl, hor⟩
    rw [hmade]
    by_cases hany : ∃ b ∈ complete, (json.catalog b).isSome
    · refine ⟨fun _ => .inl hany, fun _ => ?_⟩
      by_cases hone : ∃ b, hits = [b]
      · obtain ⟨b, rfl⟩ := hone
        rcases List.sublist_singleton.1 hsub with hnil | hsingle
        · rw [hnil] at hcomplete
          cases hcomplete
        · exact .inl (by rw [hsingle])
      · have hmerge : assemble json cfg hits = mergeCatalogs json cfg.disabledModels hits := by
          unfold assemble
          split
          · exact absurd ⟨_, rfl⟩ hone
          · rfl
        refine .inr (hmerge.trans (mergeCatalogs_congr hfilter ?_))
        obtain ⟨b, hb, hcat⟩ := hany
        exact List.any_eq_true.2 ⟨b, hsub.subset hb, hcat⟩
    · have hnone : ∀ b ∈ complete, json.catalog b = none := by simpa using hany
      have hnone' : ∀ b ∈ hits, json.catalog b = none := by
        intro b hb
        by_contra hcat
        have hmem : b ∈ hits.filter fun b => (json.catalog b).isSome :=
          List.mem_filter.2 ⟨hb, Option.isSome_iff_ne_none.2 hcat⟩
        rw [hfilter] at hmem
        exact hcat (hnone b (List.mem_filter.1 hmem).1)
      rw [assemble_of_none hnone', assemble_of_none hnone, mergeCatalogs_of_none hnone, or_self]
      obtain ⟨b, bs, rfl⟩ := List.exists_cons_of_ne_nil hne
      rw [hcomplete]
      simp only [List.head?_cons, Option.getD_some, Option.some.injEq]
      exact ⟨fun h => .inr h, fun h => h.resolve_left (hcomplete ▸ hany)⟩

end

/-- A body is what its text parses to. -/
def parsedBodies : SerdeValue (Option Value) := ⟨none, fun body => body, some⟩

theorem parsedBodies_reads : parsedBodies.Reads := ⟨rfl, fun _ => rfl⟩

/-- A catalog of the given models. -/
def listing (models : List String) : Value :=
  .object [("data", .array (models.map fun m => .object [("id", .string m)])), ("object", .string "list")]

def twoGroups : StoredConfig where
  upstream := { nimKeys := [⟨"k0", "root", true, 40⟩] }
  upstreams := [⟨"spare", "https://spare", true, [⟨"k1", "root", true, 40⟩], [], true⟩]
  users := [⟨"root", "hash", .superuser, none⟩]

theorem targets_twoGroups : targets twoGroups.runtime (.new twoGroups.poolSpecs 0) = [0, 1] := by decide +kernel

/-- One of two groups breaks off; the other one's catalog is what is answered and cached. -/
theorem madeOf_iff_usable_oneBroken :
    MadeOf parsedBodies twoGroups.runtime none 7 [some (listing ["m"])]
      (refresh parsedBodies twoGroups.runtime (.new twoGroups.poolSpecs 0) none
        (fun t => if t = 0 then .responded 200 none else .responded 200 (some (some (listing ["m"])))) 2 7) := by
  have h := (@madeOf_iff_usable _ parsedBodies rfl twoGroups.runtime (.new twoGroups.poolSpecs 0) none
    (fun t => if t = 0 then .responded 200 none else .responded 200 (some (some (listing ["m"])))) 2 7).2
  rw [targets_twoGroups] at h
  exact h (.inl ⟨some (listing ["m"]), by simp [Outcome.complete, Handle.isSuccess], rfl⟩)

/-- Both groups break off: an empty catalog is answered and cached. -/
theorem not_madeOf_bothBroken : ¬ ∀ (cfg : Config) (pool : Pool) (cache : Cache (Option Value))
    (outcome : Nat → Outcome (Option Value)) (poolLen now : Nat),
    MadeOf parsedBodies cfg cache now (((targets cfg pool).map outcome).filterMap Outcome.complete)
      (refresh parsedBodies cfg pool cache outcome poolLen now) := by
  intro h
  have hmade := h twoGroups.runtime (.new twoGroups.poolSpecs 0) none (fun _ => .responded 200 none) 2 7
  rw [targets_twoGroups] at hmade
  obtain ⟨⟨e, he⟩, -⟩ := hmade
  have hok : (refresh parsedBodies twoGroups.runtime (.new twoGroups.poolSpecs 0) none
      (fun _ => .responded 200 none) 2 7).1.toOption.isSome = true := by decide +kernel
  rw [he] at hok
  cases hok

end Catalog

end OpenProxy
