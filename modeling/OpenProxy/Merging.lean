import OpenProxy.Lib.FirstBy
import OpenProxy.Catalog

/-!
# What `merge_catalogs` keeps (`proxy.rs`)

Of the entries of all bodies that are catalogs, in the order of the bodies, the first with each id that is neither
empty nor disabled.
-/

namespace OpenProxy.Catalog

open Json (Value)

variable {B : Type} {json : SerdeValue B} {disabled : List String}

def Kept (disabled : List String) (id : String) : Prop := id ≠ "" ∧ id ∉ disabled

/-- The entries of the catalogs among the bodies. -/
def entries (json : SerdeValue B) (bodies : List B) : List Value := bodies.flatMap fun b => (json.catalog b).getD []

/-- What was merged so far, of the entries seen so far. -/
structure Merge.Of (disabled : List String) (seen : List Value) (m : Merge) : Prop where
  ids : m.ids = m.data.map Value.id
  data : FirstBy Value.id (Kept disabled) seen m.data

namespace Merge.Of
variable {seen : List Value} {m : Merge}

theorem entry (h : Of disabled seen m) (e : Value) : Of disabled (seen ++ [e]) (m.entry disabled e) := by
  unfold Merge.entry
  split
  · rename_i hnot
    refine ⟨h.ids, h.data.skip fun hkept => ?_⟩
    rcases hnot with hempty | hdis
    · exact absurd hempty hkept.1
    · exact absurd hdis hkept.2
  · rename_i hkept
    rw [not_or] at hkept
    split
    · rename_i hmem
      exact ⟨h.ids, h.data.skip fun _ => h.ids ▸ hmem⟩
    · rename_i hnew
      rw [h.ids] at hnew
      refine ⟨?_, h.data.keep hkept hnew⟩
      rw [h.ids, List.map_append, List.map_singleton]

theorem foldl_entry (h : Of disabled seen m) (arr : List Value) :
    Of disabled (seen ++ arr) (arr.foldl (Merge.entry disabled) m) := by
  induction arr generalizing m seen with
  | nil => rwa [List.append_nil]
  | cons e arr ih =>
    rw [List.foldl_cons, List.append_cons]
    exact ih (h.entry e)

theorem setObject (h : Of disabled seen m) (v : Value) : Of disabled seen (m.setObject v) := by
  unfold Merge.setObject
  split
  · exact ⟨h.ids, h.data⟩
  · exact h

theorem body (h : Of disabled seen m) (body : B) :
    Of disabled (seen ++ (json.catalog body).getD []) (m.body json disabled body) := by
  cases hcat : json.catalog body with
  | none =>
    rw [Merge.body_of_catalog_none hcat, Option.getD_none, List.append_nil]
    exact h
  | some arr =>
    obtain ⟨v, hv, harr⟩ := Option.bind_eq_some_iff.1 hcat
    unfold Merge.body
    rw [hv]
    simp only [harr, Option.getD_some]
    have hparsed : Of disabled seen { m with parsed := true } := ⟨h.ids, h.data⟩
    exact (hparsed.setObject v).foldl_entry arr

theorem foldl_body (h : Of disabled seen m) (bodies : List B) :
    Of disabled (seen ++ entries json bodies) (bodies.foldl (Merge.body json disabled) m) := by
  induction bodies generalizing m seen with
  | nil => simpa [entries] using h
  | cons body bodies ih =>
    rw [List.foldl_cons, entries, List.flatMap_cons, ← List.append_assoc]
    exact ih (h.body body)

end Merge.Of

/-- With a catalog among the bodies, what is written is made of their entries. -/
theorem mergeCatalogs_of_some {bodies : List B} (h : ∃ b ∈ bodies, (json.catalog b).isSome) :
    ∃ data object, mergeCatalogs json disabled bodies =
        json.toVec (.object [("data", .array data), ("object", object)]) ∧
      FirstBy Value.id (Kept disabled) (entries json bodies) data := by
  have hof : Merge.Of disabled ([] ++ entries json bodies) (bodies.foldl (Merge.body json disabled) {}) :=
    Merge.Of.foldl_body ⟨rfl, .nil⟩ bodies
  have hparsed : (bodies.foldl (Merge.body json disabled) {}).parsed = true := by
    rw [Merge.foldl_body_parsed]
    simpa using h
  refine ⟨(bodies.foldl (Merge.body json disabled) {}).data, (bodies.foldl (Merge.body json disabled) {}).objectType,
    ?_, hof.data⟩
  unfold mergeCatalogs
  simp only [hparsed, Bool.not_true, Bool.false_eq_true, if_false]

/-- Where no body is a catalog, the first one is passed on, and else the entries are merged: no id twice, in order
of first occurrence, each entry the first with its id, the ids those of the catalogs that are kept. -/
theorem mergeCatalogs_keeps (json : SerdeValue B) (disabled : List String) (bodies : List B) :
    ((∀ b ∈ bodies, json.catalog b = none) ∧ mergeCatalogs json disabled bodies = bodies.head?.getD json.empty) ∨
      (∃ b ∈ bodies, (json.catalog b).isSome) ∧ ∃ data object,
        mergeCatalogs json disabled bodies = json.toVec (.object [("data", .array data), ("object", object)]) ∧
          (data.map Value.id).Nodup ∧ FirstBy Value.id (Kept disabled) (entries json bodies) data := by
  by_cases hany : ∃ b ∈ bodies, (json.catalog b).isSome
  · obtain ⟨data, object, heq, hfirst⟩ := @mergeCatalogs_of_some B json disabled bodies hany
    exact .inr ⟨hany, data, object, heq, hfirst.nodup, hfirst⟩
  · have hnone : ∀ b ∈ bodies, json.catalog b = none := by simpa using hany
    exact .inl ⟨hnone, mergeCatalogs_of_none hnone⟩

/-! ### The models of a merged catalog -/

theorem mem_models {body : B} {id : String} :
    id ∈ json.models body ↔ id ≠ "" ∧ id ∈ ((json.catalog body).getD []).map Value.id := by
  unfold SerdeValue.models SerdeValue.catalog
  cases json.fromSlice body with
  | none => simp
  | some v => simp [Value.models, and_comm]

theorem mem_models_mergeCatalogs (hjson : json.Reads) {bodies : List B} {id : String} :
    id ∈ json.models (mergeCatalogs json disabled bodies) ↔ id ∉ disabled ∧ ∃ b ∈ bodies, id ∈ json.models b := by
  by_cases hany : ∃ b ∈ bodies, (json.catalog b).isSome
  · obtain ⟨data, object, heq, hfirst⟩ := @mergeCatalogs_of_some B json disabled bodies hany
    have hkeys := hfirst.keys id
    have hlisted : id ∈ json.models (mergeCatalogs json disabled bodies) ↔ id ≠ "" ∧ id ∈ data.map Value.id := by
      rw [heq, hjson.models]
      simp [Value.models, Value.data, Value.get, Value.asArray, and_comm]
    have hentries : id ∈ (entries json bodies).map Value.id ↔
        ∃ b ∈ bodies, id ∈ ((json.catalog b).getD []).map Value.id := by
      rw [entries, List.map_flatMap, List.mem_flatMap]
    rw [hlisted, hkeys, hentries]
    constructor
    · rintro ⟨hne, ⟨-, hdis⟩, b, hb, hid⟩
      exact ⟨hdis, b, hb, mem_models.2 ⟨hne, hid⟩⟩
    · rintro ⟨hdis, b, hb, hid⟩
      obtain ⟨hne, hid⟩ := mem_models.1 hid
      exact ⟨hne, ⟨hne, hdis⟩, b, hb, hid⟩
  · have hnone : ∀ b ∈ bodies, json.catalog b = none := by simpa using hany
    rw [models_mergeCatalogs_of_none hjson hnone]
    constructor
    · exact fun h => absurd h List.not_mem_nil
    · rintro ⟨-, b, hb, hid⟩
      rw [models_of_catalog_none (hnone b hb)] at hid
      exact absurd hid List.not_mem_nil

/-- The catalog lists what the received bodies list, without what is disabled. -/
theorem mem_models_assemble (hjson : json.Reads) {cfg : Config} {hits : List B} {id : String} :
    id ∈ json.models (assemble json cfg hits) ↔ id ∉ cfg.disabledModels ∧ ∃ b ∈ hits, id ∈ json.models b := by
  unfold assemble
  split
  · rename_i body hdisabled
    rw [hdisabled]
    simp
  · exact mem_models_mergeCatalogs hjson

end OpenProxy.Catalog
