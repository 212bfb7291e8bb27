import OpenProxy.Json

/-!
# Derived readers of JSON records

A record is an object with a field for each of its names. A derived reader takes the fields in any order: it skips
those that it does not know, fails on one that is repeated, and fills in a missing one that has a default. It takes an
array for the fields in their order.
-/

namespace Serde

open OpenProxy.Json

section
variable {α : Type}

/-! ### Fields -/

/-- The fields of a record with these names. -/
def entries (names : List String) : Value → Option (List (String × Value))
  | .object fields => some fields
  | .array vs => if vs.length ≤ names.length then some (names.zip vs) else none
  | _ => none

/-- A field, if it is there; `none` when it is repeated or cannot be read. -/
def field (read : Value → Option α) (fields : List (String × Value)) (name : String) : Option (Option α) :=
  match fields.filter (·.1 = name) with
  | [] => some none
  | [e] => (read e.2).map some
  | _ => none

def required (read : Value → Option α) (fields : List (String × Value)) (name : String) : Option α :=
  (field read fields name).join

def defaulted (read : Value → Option α) (default : α) (fields : List (String × Value)) (name : String) : Option α :=
  (field read fields name).map (·.getD default)

/-! ### Values -/

def unsigned (bits : Nat) (v : Value) : Option Nat := v.asU64.filter (· < 2 ^ bits)

def list (read : Value → Option α) (v : Value) : Option (List α) := v.asArray.bind (·.mapM read)

def option (read : Value → Option α) : Value → Option (Option α)
  | .null => some none
  | v => (read v).map some

/-- The name of a variant that has no data. -/
def variant : Value → Option String
  | .string s => some s
  | .object [(s, .null)] => some s
  | _ => none

/-- The last one of repeated keys stands. -/
def map (read : Value → Option α) : Value → Option (Std.ExtTreeMap String α)
  | .object fields => fields.foldlM (fun m e => (read e.2).map (m.insert e.1)) ∅
  | _ => none

def ofNat (n : Nat) : Value := .number (.posInt n)

def ofList (write : α → Value) (as : List α) : Value := .array (as.map write)

def ofMap (write : α → Value) (m : Std.ExtTreeMap String α) : Value :=
  .object (m.toList.map fun e => (e.1, write e.2))

end

/-! ### Reading back -/

section
variable {α : Type} {read : Value → Option α} {write : α → Value} {fields fields' : List (String × Value)}
  {name : String} {v : Value}

theorem unsigned_ofNat {bits n : Nat} (h : n < 2 ^ bits) : unsigned bits (ofNat n) = some n := by
  rw [unsigned, ofNat, Value.asU64, Option.filter_some, if_pos (decide_eq_true h)]

theorem list_ofList {as : List α} (h : ∀ a ∈ as, read (write a) = some a) : list read (ofList write as) = some as := by
  rw [list, ofList, Value.asArray, Option.bind_some]
  induction as with
  | nil => rfl
  | cons a as ih =>
    rw [List.forall_mem_cons] at h
    rw [List.map_cons, List.mapM_cons, h.1, ih h.2]
    rfl

theorem map_ofMap {m : Std.ExtTreeMap String α} (h : ∀ (k : String) (a : α), m[k]? = some a → read (write a) = some a) :
    map read (ofMap write m) = some m := by
  have hfold : ∀ (es : List (String × α)) (acc : Std.ExtTreeMap String α), (∀ e ∈ es, read (write e.2) = some e.2) →
      (es.map fun e => (e.1, write e.2)).foldlM (fun m e => (read e.2).map (m.insert e.1)) acc =
        some (acc.insertMany es) := by
    intro es
    induction es with
    | nil => exact fun _ _ => rfl
    | cons e es ih =>
      intro acc he
      rw [List.forall_mem_cons] at he
      rw [List.map_cons, List.foldlM_cons, he.1, Std.ExtTreeMap.insertMany_cons]
      exact ih _ he.2
  show (m.toList.map fun e => (e.1, write e.2)).foldlM (fun m e => (read e.2).map (m.insert e.1)) ∅ = some m
  rw [hfold m.toList ∅ fun e he => h e.1 e.2 (Std.ExtTreeMap.mem_toList_iff_getElem?_eq_some.1 he)]
  congr 1
  refine Std.ExtTreeMap.ext_getElem? fun key => ?_
  rw [← Std.ExtTreeMap.ofList_eq_insertMany_empty]
  cases hkey : m[key]? with
  | none =>
    rw [Std.ExtTreeMap.getElem?_ofList_of_contains_eq_false]
    rw [Std.ExtTreeMap.map_fst_toList_eq_keys, Std.ExtTreeMap.contains_keys, Std.ExtTreeMap.contains_eq_isSome_getElem?,
      hkey]
    rfl
  | some a =>
    exact Std.ExtTreeMap.getElem?_ofList_of_mem Std.ReflCmp.compare_self Std.ExtTreeMap.distinct_keys_toList
      (Std.ExtTreeMap.mem_toList_iff_getElem?_eq_some.2 hkey)

theorem field_of_mem (hnodup : (fields.map (·.1)).Nodup) (h : (name, v) ∈ fields) :
    field read fields name = (read v).map some := by
  have hone : fields.filter (·.1 = name) = [(name, v)] := by
    induction fields with
    | nil => cases h
    | cons e fields ih =>
      rw [List.map_cons, List.nodup_cons] at hnodup
      rcases List.mem_cons.1 h with rfl | h
      · have hrest : fields.filter (·.1 = name) = [] := by
          rw [List.filter_eq_nil_iff]
          intro e he heq
          have hmem : e.1 ∈ fields.map (·.1) := List.mem_map_of_mem he
          rw [of_decide_eq_true heq] at hmem
          exact hnodup.1 hmem
        rw [List.filter_cons, if_pos (decide_eq_true rfl), hrest]
      · have hne : ¬ e.1 = name := fun heq => hnodup.1 (heq ▸ List.mem_map_of_mem h)
        rw [List.filter_cons, if_neg (by simpa using hne), ih hnodup.2 h]
  rw [field, hone]

theorem field_of_not_mem (h : name ∉ fields.map (·.1)) : field read fields name = some none := by
  have hnone : fields.filter (·.1 = name) = [] := by
    rw [List.filter_eq_nil_iff]
    intro e he heq
    exact h (of_decide_eq_true heq ▸ List.mem_map_of_mem he)
  rw [field, hnone]

/-- The order of the fields does not matter. -/
theorem field_perm (h : fields.Perm fields') : field read fields name = field read fields' name := by
  have hfilter := h.filter (·.1 = name)
  unfold field
  generalize fields.filter (·.1 = name) = l at hfilter
  generalize fields'.filter (·.1 = name) = l' at hfilter
  match l with
  | [] => rw [hfilter.nil_eq]
  | [e] => rw [List.singleton_perm.1 hfilter]
  | e :: e' :: l =>
    match l' with
    | [] => cases hfilter.length_eq
    | [_] => cases hfilter.length_eq
    | _ :: _ :: _ => rfl

/-- Fields of other names do not matter. -/
theorem field_append (h : ∀ e ∈ fields', e.1 ≠ name) : field read (fields ++ fields') name = field read fields name := by
  have hnone : fields'.filter (·.1 = name) = [] := by
    rw [List.filter_eq_nil_iff]
    exact fun e he heq => h e he (of_decide_eq_true heq)
  rw [field, field, List.filter_append, hnone, List.append_nil]

/-- A field of a record of which some fields are left out. -/
theorem field_filter (keep : String → Bool) (hnodup : (fields.map (·.1)).Nodup) (h : (name, v) ∈ fields) :
    field read (fields.filter (keep ·.1)) name = if keep name then (read v).map some else some none := by
  split
  · rename_i hkeep
    refine field_of_mem (hnodup.sublist (List.filter_sublist.map _)) ?_
    exact List.mem_filter.2 ⟨h, hkeep⟩
  · rename_i hkeep
    refine field_of_not_mem fun hmem => ?_
    obtain ⟨e, he, rfl⟩ := List.mem_map.1 hmem
    exact hkeep (List.mem_filter.1 he).2

/-! ### What has been read -/

variable {P : α → Prop} {default a : α}

theorem of_defaulted (hdefault : P default) (hread : ∀ v a, read v = some a → P a)
    (h : defaulted read default fields name = some a) : P a := by
  rw [defaulted, field] at h
  split at h
  · obtain rfl := Option.some.inj h
    exact hdefault
  · rename_i e _
    cases he : read e.2 with
    | none =>
      rw [he] at h
      cases h
    | some a' =>
      rw [he] at h
      obtain rfl := Option.some.inj h
      exact hread e.2 a' he
  · cases h

theorem of_list {as : List α} (hread : ∀ v a, read v = some a → P a) (h : list read v = some as) : ∀ a ∈ as, P a := by
  obtain ⟨vs, -, hvs⟩ := Option.bind_eq_some_iff.1 h
  clear h
  induction vs generalizing as with
  | nil =>
    obtain rfl := Option.some.inj hvs
    exact fun a ha => absurd ha List.not_mem_nil
  | cons v vs ih =>
    rw [List.mapM_cons] at hvs
    obtain ⟨a, ha, hvs⟩ := Option.bind_eq_some_iff.1 hvs
    obtain ⟨rest, hrest, hvs⟩ := Option.bind_eq_some_iff.1 hvs
    obtain rfl := Option.some.inj hvs
    exact List.forall_mem_cons.2 ⟨hread v a ha, ih hrest⟩

theorem of_map {m : Std.ExtTreeMap String α} (hread : ∀ v a, read v = some a → P a) (h : map read v = some m) :
    ∀ (k : String) (a : α), m[k]? = some a → P a := by
  have hfold : ∀ (es : List (String × Value)) (acc : Std.ExtTreeMap String α),
      (∀ (k : String) (a : α), acc[k]? = some a → P a) →
      es.foldlM (fun m e => (read e.2).map (m.insert e.1)) acc = some m → ∀ (k : String) (a : α), m[k]? = some a → P a := by
    intro es
    induction es with
    | nil =>
      intro acc hacc h
      obtain rfl := Option.some.inj h
      exact hacc
    | cons e es ih =>
      intro acc hacc h
      rw [List.foldlM_cons] at h
      obtain ⟨acc', hacc', h⟩ := Option.bind_eq_some_iff.1 h
      obtain ⟨a, ha, rfl⟩ := Option.map_eq_some_iff.1 hacc'
      refine ih _ (fun k b hb => ?_) h
      rw [Std.ExtTreeMap.getElem?_insert] at hb
      split at hb
      · obtain rfl := Option.some.inj hb
        exact hread e.2 _ ha
      · exact hacc k b hb
  cases v with
  | object fields =>
    refine hfold fields ∅ (fun k a ha => ?_) h
    rw [Std.ExtTreeMap.getElem?_empty] at ha
    cases ha
  | null | bool _ | number _ | string _ | array _ => cases h

theorem lt_of_unsigned {bits n : Nat} (h : unsigned bits v = some n) : n < 2 ^ bits :=
  of_decide_eq_true (Option.filter_eq_some_iff.1 h).2

theorem lt_of_defaulted {bits default n : Nat} (hdefault : default < 2 ^ bits)
    (h : defaulted (unsigned bits) default fields name = some n) : n < 2 ^ bits :=
  of_defaulted (P := (· < 2 ^ bits)) hdefault (fun _ _ => lt_of_unsigned) h

end

end Serde
