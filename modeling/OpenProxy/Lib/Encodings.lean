import OpenProxy.Lib.Uri

/-!
# Bytes and texts in transit

Base64 as RFC 4648 has it, and the percent-encoding of `application/x-www-form-urlencoded`. Base64 has one encoding of
each byte string, up to padding. A form may encode the same fields in many ways, so that encoding is a relation.
-/

/-! ### Base64 -/

namespace Base64

/-- The digit for a value below 64. -/
def digit (n : ℕ) : UInt8 :=
  .ofNat (if n < 26 then n + 65 else if n < 52 then n + 71 else if n < 62 then n - 4 else if n = 62 then 43 else 47)

def pad : UInt8 := 61

/-- The encoding without padding: four digits for three bytes, three for a last two, two for a last one. -/
def digits : List UInt8 → List UInt8
  | [] => []
  | [a] => [digit (a.toNat / 4), digit (a.toNat % 4 * 16)]
  | [a, b] => [digit (a.toNat / 4), digit (a.toNat % 4 * 16 + b.toNat / 16), digit (b.toNat % 16 * 4)]
  | a :: b :: c :: bytes =>
    digit (a.toNat / 4) :: digit (a.toNat % 4 * 16 + b.toNat / 16) :: digit (b.toNat % 16 * 4 + c.toNat / 64) ::
      digit (c.toNat % 64) :: digits bytes

/-- Pads fill up the last group of four. -/
def encode (bytes : List UInt8) : List UInt8 := digits bytes ++ .replicate ((3 - bytes.length % 3) % 3) pad

theorem digit_ne_pad {n : ℕ} (h : n < 64) : digit n ≠ pad := by
  interval_cases n <;> decide

theorem exists_digit {bytes : List UInt8} {c : UInt8} (h : c ∈ digits bytes) : ∃ n < 64, c = digit n := by
  induction bytes using digits.induct with
  | case1 => cases h
  | case2 a =>
    have ha := a.toNat_lt
    simp only [digits, List.mem_cons, List.not_mem_nil, or_false] at h
    rcases h with rfl | rfl
    · exact ⟨_, by omega, rfl⟩
    · exact ⟨_, by omega, rfl⟩
  | case3 a b =>
    have ha := a.toNat_lt
    have hb := b.toNat_lt
    simp only [digits, List.mem_cons, List.not_mem_nil, or_false] at h
    rcases h with rfl | rfl | rfl
    · exact ⟨_, by omega, rfl⟩
    · exact ⟨_, by omega, rfl⟩
    · exact ⟨_, by omega, rfl⟩
  | case4 a b c' bytes ih =>
    have ha := a.toNat_lt
    have hb := b.toNat_lt
    have hc := c'.toNat_lt
    simp only [digits, List.mem_cons] at h
    rcases h with rfl | rfl | rfl | rfl | h
    · exact ⟨_, by omega, rfl⟩
    · exact ⟨_, by omega, rfl⟩
    · exact ⟨_, by omega, rfl⟩
    · exact ⟨_, by omega, rfl⟩
    · exact ih h

theorem filter_digits (bytes : List UInt8) : (digits bytes).filter (· != pad) = digits bytes := by
  refine List.filter_eq_self.2 fun c hc => ?_
  obtain ⟨n, hn, rfl⟩ := exists_digit hc
  simpa using digit_ne_pad hn

theorem filter_encode (bytes : List UInt8) : (encode bytes).filter (· != pad) = digits bytes := by
  rw [encode, List.filter_append, List.filter_replicate_of_neg (by simp), List.append_nil, filter_digits]

end Base64

/-! ### Forms -/

namespace Form

open Uri

/-- Delimiters of URIs, and the character that starts an escape. -/
def isReserved (c : Char) : Bool := c ∈ [':', '/', '?', '#', '[', ']', '@'] || isSubDelim c || c == '%'

/-- Each byte as a `%` and two hexadecimal digits of either case. -/
inductive Escaped : List UInt8 → List Char → Prop where
  | nil : Escaped [] []
  | cons {b : UInt8} {bytes : List UInt8} {high low : Char} {text : List Char}
      (hhigh : hexDigit high = some (b.toNat / 16)) (hlow : hexDigit low = some (b.toNat % 16))
      (h : Escaped bytes text) : Escaped (b :: bytes) ('%' :: high :: low :: text)

inductive EncodesChar : Char → List Char → Prop where
  | space : EncodesChar ' ' ['+']
  | verbatim {c : Char} (hspace : c ≠ ' ') (hreserved : isReserved c = false) : EncodesChar c [c]
  | escaped {c : Char} {text : List Char} (h : Escaped (String.utf8EncodeChar c) text) : EncodesChar c text

/-- The text encodes the characters one by one. -/
inductive Encodes : List Char → List Char → Prop where
  | nil : Encodes [] []
  | cons {c : Char} {cs piece text : List Char} (hc : EncodesChar c piece) (h : Encodes cs text) :
      Encodes (c :: cs) (piece ++ text)

/-- A name and a value around an equals sign. -/
inductive EncodesPair (name value : List Char) : List Char → Prop where
  | mk {n v : List Char} (hname : Encodes name n) (hvalue : Encodes value v) : EncodesPair name value (n ++ '=' :: v)

/-! What an encoding is written with. -/

section
variable {c d : Char} {bytes : List UInt8} {cs piece text : List Char}

theorem Escaped.mem (h : Escaped bytes text) (hd : d ∈ text) : d = '%' ∨ (hexDigit d).isSome = true := by
  induction h with
  | nil => cases hd
  | cons hhigh hlow _ ih =>
    simp only [List.mem_cons] at hd
    rcases hd with rfl | rfl | rfl | hd
    · exact .inl rfl
    · exact .inr (by rw [hhigh]; rfl)
    · exact .inr (by rw [hlow]; rfl)
    · exact ih hd

/-- A character is written as itself, as a plus sign, or with digits only. -/
theorem EncodesChar.mem (h : EncodesChar c piece) (hd : d ∈ piece) :
    d = '%' ∨ (hexDigit d).isSome = true ∨ (d = '+' ∧ c = ' ') ∨ (d = c ∧ isReserved d = false) := by
  cases h with
  | space => exact .inr (.inr (.inl ⟨List.mem_singleton.1 hd, rfl⟩))
  | verbatim _ hreserved =>
    obtain rfl := List.mem_singleton.1 hd
    exact .inr (.inr (.inr ⟨rfl, hreserved⟩))
  | escaped h => exact (h.mem hd).imp_right .inl

theorem Encodes.mem (h : Encodes cs text) (hd : d ∈ text) :
    d = '%' ∨ (hexDigit d).isSome = true ∨ (d = '+' ∧ ' ' ∈ cs) ∨ isReserved d = false := by
  induction h with
  | nil => cases hd
  | cons hc _ ih =>
    rcases List.mem_append.1 hd with hd | hd
    · rcases hc.mem hd with h | h | ⟨h, rfl⟩ | ⟨-, h⟩
      · exact .inl h
      · exact .inr (.inl h)
      · exact .inr (.inr (.inl ⟨h, List.mem_cons_self⟩))
      · exact .inr (.inr (.inr h))
    · exact (ih hd).imp_right (.imp_right (.imp_left (.imp_right (List.mem_cons_of_mem _))))

theorem Encodes.notMem_amp (h : Encodes cs text) : '&' ∉ text := by
  intro hd
  rcases h.mem hd with h | h | ⟨h, -⟩ | h <;> exact absurd h (by decide)

theorem Encodes.notMem_eq (h : Encodes cs text) : '=' ∉ text := by
  intro hd
  rcases h.mem hd with h | h | ⟨h, -⟩ | h <;> exact absurd h (by decide)

theorem Encodes.notMem_plus (h : Encodes cs text) (hspace : ' ' ∉ cs) : '+' ∉ text := by
  intro hd
  rcases h.mem hd with h | h | ⟨-, h⟩ | h
  · exact absurd h (by decide)
  · exact absurd h (by decide)
  · exact hspace h
  · exact absurd h (by decide)

theorem EncodesChar.eq_of_plain (h : EncodesChar c piece) (hpercent : '%' ∉ piece) (hplus : '+' ∉ piece) :
    piece = [c] := by
  cases h with
  | space => exact absurd List.mem_cons_self hplus
  | verbatim => rfl
  | escaped h =>
    cases hbytes : String.utf8EncodeChar c with
    | nil => exact absurd hbytes String.utf8EncodeChar_ne_nil
    | cons b bytes =>
      rw [hbytes] at h
      cases h
      exact absurd List.mem_cons_self hpercent

/-- Where nothing is escaped the text stands for itself. -/
theorem Encodes.eq_of_plain (h : Encodes cs text) (hpercent : '%' ∉ text) (hplus : '+' ∉ text) : text = cs := by
  induction h with
  | nil => rfl
  | cons hc _ ih =>
    rw [List.mem_append, not_or] at hpercent hplus
    rw [hc.eq_of_plain hpercent.1 hplus.1, ih hpercent.2 hplus.2]
    rfl

theorem Encodes.verbatim (h : ∀ c ∈ cs, c ≠ ' ' ∧ isReserved c = false) : Encodes cs cs := by
  induction cs with
  | nil => exact .nil
  | cons c cs ih =>
    rw [List.forall_mem_cons] at h
    exact .cons (.verbatim h.1.1 h.1.2) (ih h.2)

end

end Form
