import Mathlib.Data.List.Basic
import Mathlib.Data.List.Nodup

/-!
# First elements by key

What remains of a list when of all elements with one key the first is kept, and none if the key is not wanted.
-/

/-- `out` has the first element of `l` with each wanted key, in order of first occurrence. -/
structure FirstBy {α κ : Type*} [DecidableEq κ] (key : α → κ) (wanted : κ → Prop) (l out : List α) : Prop where
  order : out.Pairwise fun a b => (l.map key).idxOf (key a) < (l.map key).idxOf (key b)
  first : ∀ a ∈ out, l.find? (fun b => key b = key a) = some a
  keys : ∀ k, k ∈ out.map key ↔ wanted k ∧ k ∈ l.map key

namespace FirstBy
variable {α κ : Type*} [DecidableEq κ] {key : α → κ} {wanted : κ → Prop} {l out : List α} {a : α}

theorem nil : FirstBy key wanted [] [] :=
  ⟨.nil, fun _ h => absurd h List.not_mem_nil, fun _ => by simp⟩

theorem nodup (h : FirstBy key wanted l out) : (out.map key).Nodup := by
  rw [List.Nodup, List.pairwise_map]
  exact h.order.imp fun hlt heq => absurd (heq ▸ hlt) (Nat.lt_irrefl _)

theorem mem (h : FirstBy key wanted l out) (ha : a ∈ out) : a ∈ l := List.mem_of_find?_eq_some (h.first a ha)

theorem order_append (h : FirstBy key wanted l out) (l' : List α) :
    out.Pairwise fun a b => ((l ++ l').map key).idxOf (key a) < ((l ++ l').map key).idxOf (key b) := by
  refine h.order.imp_of_mem fun ha hb hlt => ?_
  rw [List.map_append, List.idxOf_append_of_mem (List.mem_map_of_mem (h.mem ha)),
    List.idxOf_append_of_mem (List.mem_map_of_mem (h.mem hb))]
  exact hlt

theorem first_append (h : FirstBy key wanted l out) (l' : List α) :
    ∀ a ∈ out, (l ++ l').find? (fun b => key b = key a) = some a := by
  intro a ha
  rw [List.find?_append, h.first a ha]
  rfl

/-- An element is passed over if its key is not wanted or was seen. -/
theorem skip (h : FirstBy key wanted l out) (ha : wanted (key a) → key a ∈ out.map key) :
    FirstBy key wanted (l ++ [a]) out where
  order := h.order_append [a]
  first := h.first_append [a]
  keys k := by
    rw [h.keys, List.map_append, List.mem_append, List.map_singleton, List.mem_singleton]
    constructor
    · exact fun ⟨hk, hmem⟩ => ⟨hk, .inl hmem⟩
    · rintro ⟨hk, hmem | rfl⟩
      · exact ⟨hk, hmem⟩
      · exact (h.keys _).1 (ha hk)

/-- An element with a new key that is wanted is kept. -/
theorem keep (h : FirstBy key wanted l out) (hwanted : wanted (key a)) (hnew : key a ∉ out.map key) :
    FirstBy key wanted (l ++ [a]) (out ++ [a]) := by
  have hnot : key a ∉ l.map key := fun hmem => hnew ((h.keys _).2 ⟨hwanted, hmem⟩)
  refine ⟨?_, ?_, fun k => ?_⟩
  · rw [List.pairwise_append]
    refine ⟨h.order_append [a], List.pairwise_singleton _ _, fun b hb c hc => ?_⟩
    obtain rfl := List.mem_singleton.1 hc
    have hmem : key b ∈ l.map key := List.mem_map_of_mem (h.mem hb)
    rw [List.map_append, List.idxOf_append_of_mem hmem, List.idxOf_append_of_notMem hnot]
    exact Nat.lt_of_lt_of_le (List.idxOf_lt_length_of_mem hmem) (Nat.le_add_right _ _)
  · intro b hb
    rcases List.mem_append.1 hb with hb | hb
    · exact h.first_append [a] b hb
    · obtain rfl := List.mem_singleton.1 hb
      have hnone : l.find? (fun c => key c = key b) = none := by
        rw [List.find?_eq_none]
        exact fun c hc heq => hnot (of_decide_eq_true heq ▸ List.mem_map_of_mem hc)
      simp [List.find?_append, hnone]
  · rw [List.map_append, List.mem_append, h.keys, List.map_append, List.mem_append, List.map_singleton,
      List.mem_singleton]
    constructor
    · rintro (⟨hk, hmem⟩ | rfl)
      · exact ⟨hk, .inl hmem⟩
      · exact ⟨hwanted, .inr rfl⟩
    · rintro ⟨hk, hmem | rfl⟩
      · exact .inl ⟨hk, hmem⟩
      · exact .inr rfl

end FirstBy
