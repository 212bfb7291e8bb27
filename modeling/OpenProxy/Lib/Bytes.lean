import Mathlib

/-!
# Numbers and byte strings as bytes

Big-endian numbers of a fixed width, and lists of byte strings each written behind its length. Both are read back from
their bytes in only one way.
-/

namespace Bytes

/-- The last `k` bytes of `n`, the highest first. -/
def bigEndian : ℕ → ℕ → List UInt8
  | 0, _ => []
  | k + 1, n => bigEndian k (n / 256) ++ [UInt8.ofNat n]

theorem length_bigEndian (k n : ℕ) : (bigEndian k n).length = k := by
  induction k generalizing n with
  | zero => rfl
  | succ k ih => rw [bigEndian, List.length_append, ih, List.length_singleton]

theorem bigEndian_inj {k n m : ℕ} (hn : n < 256 ^ k) (hm : m < 256 ^ k) (h : bigEndian k n = bigEndian k m) :
    n = m := by
  induction k generalizing n m with
  | zero => omega
  | succ k ih =>
    rw [bigEndian, bigEndian] at h
    obtain ⟨hhigh, hlow⟩ := List.append_inj' h rfl
    have hdiv : n / 256 = m / 256 :=
      ih (Nat.div_lt_of_lt_mul (by omega)) (Nat.div_lt_of_lt_mul (by omega)) hhigh
    have hmod : n % 256 = m % 256 := by
      have := congrArg UInt8.toNat (List.singleton_inj.1 hlow)
      simpa using this
    omega

/-- Each part behind its length in eight bytes. -/
def framed (parts : List (List UInt8)) : List UInt8 := parts.flatMap fun part => bigEndian 8 part.length ++ part

theorem framed_inj {parts parts' : List (List UInt8)} (hlen : ∀ part ∈ parts, part.length < 2 ^ 64)
    (hlen' : ∀ part ∈ parts', part.length < 2 ^ 64) (h : framed parts = framed parts') : parts = parts' := by
  have hsize (part : List UInt8) (rest : List UInt8) : (bigEndian 8 part.length ++ part ++ rest).length ≠ 0 := by
    rw [List.length_append, List.length_append, length_bigEndian]
    omega
  induction parts generalizing parts' with
  | nil =>
    cases parts' with
    | nil => rfl
    | cons part' parts' => exact absurd (congrArg List.length h).symm (hsize _ _)
  | cons part parts ih =>
    cases parts' with
    | nil => exact absurd (congrArg List.length h) (hsize _ _)
    | cons part' parts' =>
      rw [List.forall_mem_cons] at hlen hlen'
      rw [framed, List.flatMap_cons, framed, List.flatMap_cons, List.append_assoc, List.append_assoc] at h
      obtain ⟨hhead, hrest⟩ := List.append_inj h (by rw [length_bigEndian, length_bigEndian])
      have hlength : part.length = part'.length :=
        bigEndian_inj (by have := hlen.1; omega) (by have := hlen'.1; omega) hhead
      obtain ⟨hpart, htail⟩ := List.append_inj hrest hlength
      rw [hpart, ih hlen.2 hlen'.2 htail]

end Bytes
