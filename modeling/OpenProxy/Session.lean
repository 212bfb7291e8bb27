import OpenProxy.Config
import OpenProxy.Lib.Bytes

/-!
# Session tokens (`sign_session`, `verify_session` of `auth.rs`)

A token is an expiry, a user name, a piece of the hash of the user's password and a tag over the three, in hexadecimal
and joined by dots. The same expiry and the same name have several spellings; the tag is over what they mean.
-/

namespace OpenProxy.Session

open Bytes Text

/-! ### Hexadecimal -/

def hex (bytes : List UInt8) : List Char :=
  bytes.flatMap fun b => [Nat.digitChar (b.toNat / 16), Nat.digitChar (b.toNat % 16)]

def hexVal (c : Char) : Option Nat :=
  if '0' ≤ c ∧ c ≤ '9' then some (c.toNat - '0'.toNat)
  else if 'a' ≤ c ∧ c ≤ 'f' then some (c.toNat - 'a'.toNat + 10)
  else if 'A' ≤ c ∧ c ≤ 'F' then some (c.toNat - 'A'.toNat + 10)
  else none

/-- The source takes the bytes two by two; no byte of a character outside ASCII is a digit. -/
def unhex : List Char → Option (List UInt8)
  | [] => some []
  | [_] => none
  | a :: b :: cs => do
    let high ← hexVal a
    let low ← hexVal b
    let bytes ← unhex cs
    return UInt8.ofNat (16 * high + low) :: bytes

/-- One more digit of a number of 64 bits. -/
def pushDigit (n : Nat) (c : Char) : Option Nat :=
  (hexVal c).bind fun d => if 16 * n + d < 2 ^ 64 then some (16 * n + d) else none

/-- `u64::from_str_radix(_, 16)`: one plus sign may stand in front, and there has to be a digit. -/
def fromStrRadix (cs : List Char) : Option UInt64 :=
  let digits := if cs.head? = some '+' then cs.tail else cs
  if digits.isEmpty then none else (digits.foldlM pushDigit 0).map UInt64.ofNat

/-! ### Signing and verifying -/

/-- The hash functions the tokens rest on. -/
structure Primitives where
  hmac : List UInt8 → List UInt8 → List UInt8
  sha256 : List UInt8 → List UInt8

section
variable (p : Primitives) (signingKey : List UInt8)

def mac (parts : List (List UInt8)) : List UInt8 := p.hmac signingKey (framed parts)

def pwFragment (passwordHash : String) : List Char := (hex (p.sha256 (asBytes passwordHash))).take 8

/-- The parts of a session that its tag is over. -/
def macParts (expiry : UInt64) (username : String) (frag : List Char) : List (List UInt8) :=
  [bigEndian 8 expiry.toNat, asBytes username, asBytes (.ofList frag)]

def signSession (expiry : UInt64) (username passwordHash : String) : String :=
  let frag := pwFragment p passwordHash
  let tag := mac p signingKey (macParts expiry username frag)
  .ofList (Nat.toDigits 16 expiry.toNat ++ '.' :: (hex (asBytes username) ++ '.' :: (frag ++ '.' :: hex tag)))

def verifySession (now : UInt64) (token : String) (sc : StoredConfig) : Option String :=
  match splitOn '.' token.toList with
  | [expHex, userHex, frag, tagHex] => do
    let expiry ← fromStrRadix expHex
    if expiry < now then none
    else
      let bytes ← unhex userHex
      let username ← String.fromUTF8? ⟨bytes.toArray⟩
      if tagHex ≠ hex (mac p signingKey (macParts expiry username frag)) then none
      else
        let user ← sc.user username
        if frag = pwFragment p user.passwordHash then some username else none
  | _ => none

end

/-! ### Reading back what was written -/

theorem hexVal_digitChar {d : Nat} (h : d < 16) : hexVal (Nat.digitChar d) = some d := by
  interval_cases d <;> rfl

theorem unhex_hex (bytes : List UInt8) : unhex (hex bytes) = some bytes := by
  induction bytes with
  | nil => rfl
  | cons b bytes ih =>
    have hb := b.toNat_lt
    show unhex (_ :: _ :: hex bytes) = _
    rw [unhex, hexVal_digitChar (by omega), hexVal_digitChar (Nat.mod_lt _ (by omega)), ih]
    show some (UInt8.ofNat (16 * (b.toNat / 16) + b.toNat % 16) :: bytes) = _
    rw [Nat.div_add_mod, UInt8.ofNat_toNat]

theorem foldlM_toDigits {n : Nat} (h : n < 2 ^ 64) : (Nat.toDigits 16 n).foldlM pushDigit 0 = some n := by
  induction n using Nat.strong_induction_on with
  | _ n ih =>
    rw [Nat.toDigits_eq_if (by omega)]
    split
    · rename_i hlt
      simp only [List.foldlM_cons, List.foldlM_nil, pushDigit, hexVal_digitChar hlt, Option.bind_some, Nat.mul_zero,
        Nat.zero_add, if_pos h]
      rfl
    · rw [List.foldlM_append, ih (n / 16) (by omega) (by omega)]
      simp only [Option.bind_eq_bind, Option.bind_some, List.foldlM_cons, List.foldlM_nil, pushDigit,
        hexVal_digitChar (Nat.mod_lt n (by omega)), Nat.div_add_mod, if_pos h]
      rfl

theorem exists_digitChar {n : Nat} {c : Char} (h : c ∈ Nat.toDigits 16 n) : ∃ d < 16, c = Nat.digitChar d := by
  induction n using Nat.strong_induction_on with
  | _ n ih =>
    rw [Nat.toDigits_eq_if (by omega)] at h
    split at h
    · rename_i hlt
      exact ⟨n, hlt, List.mem_singleton.1 h⟩
    · rcases List.mem_append.1 h with h | h
      · exact ih (n / 16) (by omega) h
      · exact ⟨n % 16, Nat.mod_lt n (by omega), List.mem_singleton.1 h⟩

theorem digitChar_ne {d : Nat} (h : d < 16) : Nat.digitChar d ≠ '.' ∧ Nat.digitChar d ≠ '+' := by
  interval_cases d <;> decide

theorem dot_notMem_toDigits (n : Nat) : '.' ∉ Nat.toDigits 16 n := by
  intro h
  obtain ⟨d, hd, hc⟩ := exists_digitChar h
  exact (digitChar_ne hd).1 hc.symm

theorem dot_notMem_hex (bytes : List UInt8) : '.' ∉ hex bytes := by
  intro h
  obtain ⟨b, -, hc⟩ := List.mem_flatMap.1 h
  have hb := b.toNat_lt
  simp only [List.mem_cons, List.not_mem_nil, or_false] at hc
  rcases hc with hc | hc
  · exact (digitChar_ne (by omega)).1 hc.symm
  · exact (digitChar_ne (Nat.mod_lt _ (by omega))).1 hc.symm

theorem fromStrRadix_toDigits (expiry : UInt64) : fromStrRadix (Nat.toDigits 16 expiry.toNat) = some expiry := by
  have hhead : (Nat.toDigits 16 expiry.toNat).head? ≠ some '+' := by
    intro h
    obtain ⟨d, hd, hc⟩ := exists_digitChar (List.mem_of_head? h)
    exact (digitChar_ne hd).2 hc.symm
  have hempty : (Nat.toDigits 16 expiry.toNat).isEmpty = false := by simp
  rw [fromStrRadix, if_neg hhead, hempty, foldlM_toDigits expiry.toNat_lt]
  simp

example : fromStrRadix ['+', '0', 'A'] = some 10 := by decide

/-! ### What a token binds -/

section
variable (p : Primitives) (signingKey : List UInt8)

theorem dot_notMem_pwFragment (passwordHash : String) : '.' ∉ pwFragment p passwordHash :=
  fun h => dot_notMem_hex _ (List.mem_of_mem_take h)

theorem splitOn_signSession (expiry : UInt64) (username passwordHash : String) :
    splitOn '.' (signSession p signingKey expiry username passwordHash).toList =
      [Nat.toDigits 16 expiry.toNat, hex (asBytes username), pwFragment p passwordHash,
        hex (mac p signingKey (macParts expiry username (pwFragment p passwordHash)))] := by
  rw [signSession, String.toList_ofList, splitOn_append (dot_notMem_toDigits _), splitOn_append (dot_notMem_hex _),
    splitOn_append (dot_notMem_pwFragment p _), splitOn_of_notMem (dot_notMem_hex _)]

/-- The token's parts mean an expiry, the user and a fragment, and its tag is over these. -/
def Binds (now : UInt64) (token : String) (sc : StoredConfig) (username : String) : Prop :=
  ∃ expHex userHex frag tagHex, splitOn '.' token.toList = [expHex, userHex, frag, tagHex] ∧
    unhex userHex = some (asBytes username) ∧
    (∃ user, sc.user username = some user ∧ frag = pwFragment p user.passwordHash) ∧
    ∃ expiry, fromStrRadix expHex = some expiry ∧ now ≤ expiry ∧
      tagHex = hex (mac p signingKey (macParts expiry username frag))

theorem verifySession_iff {now : UInt64} {token : String} {sc : StoredConfig} {username : String} :
    verifySession p signingKey now token sc = some username ↔ Binds p signingKey now token sc username := by
  unfold verifySession Binds
  constructor
  · intro h
    split at h
    · rename_i expHex userHex frag tagHex hparts
      obtain ⟨expiry, hexpiry, h⟩ := Option.bind_eq_some_iff.1 h
      split at h
      · cases h
      rename_i hnow
      obtain ⟨bytes, hbytes, h⟩ := Option.bind_eq_some_iff.1 h
      obtain ⟨name, hname, h⟩ := Option.bind_eq_some_iff.1 h
      split at h
      · cases h
      rename_i htag
      obtain ⟨user, huser, h⟩ := Option.bind_eq_some_iff.1 h
      split at h
      · rename_i hfrag
        obtain rfl := Option.some.inj h
        exact ⟨expHex, userHex, frag, tagHex, hparts, by rw [hbytes, fromUTF8_eq_some hname], ⟨user, huser, hfrag⟩,
          expiry, hexpiry, UInt64.not_lt.1 hnow, not_not.1 htag⟩
      · cases h
    · cases h
  · rintro ⟨expHex, userHex, frag, tagHex, hparts, huserHex, ⟨user, huser, hfrag⟩, expiry, hexpiry, hnow, htag⟩
    rw [hparts]
    simp only [hexpiry, huserHex, fromUTF8_asBytes, huser, Option.bind_eq_bind, Option.bind_some, ne_eq,
      if_neg (UInt64.not_lt.2 hnow), htag, not_true, if_false, if_pos hfrag]

/-- What the tag of a session is over says which session it is. -/
theorem macParts_inj {expiry expiry' : UInt64} {username username' : String} {frag frag' : List Char}
    (hlen : ∀ part ∈ macParts expiry username frag, part.length < 2 ^ 64)
    (hlen' : ∀ part ∈ macParts expiry' username' frag', part.length < 2 ^ 64)
    (h : framed (macParts expiry username frag) = framed (macParts expiry' username' frag')) :
    expiry = expiry' ∧ username = username' ∧ frag = frag' := by
  have hparts := framed_inj hlen hlen' h
  simp only [macParts, List.cons.injEq, and_true] at hparts
  obtain ⟨hexpiry, husername, hfrag⟩ := hparts
  have hinj {s s' : String} (h : asBytes s = asBytes s') : s = s' :=
    Option.some.inj (by rw [← fromUTF8_asBytes s, h, fromUTF8_asBytes])
  refine ⟨UInt64.toNat_inj.1 (bigEndian_inj ?_ ?_ hexpiry), hinj husername, String.ofList_injective (hinj hfrag)⟩
  · exact expiry.toNat_lt
  · exact expiry'.toNat_lt

/-- A signed token is accepted while the user has the password it was signed for, and whatever token is accepted for a
user is tagged for just that user, the user's password and an expiry that has not passed. -/
theorem session_bound (now : UInt64) (sc : StoredConfig) :
    (∀ expiry username passwordHash user, sc.user username = some user → user.passwordHash = passwordHash →
      now ≤ expiry →
      verifySession p signingKey now (signSession p signingKey expiry username passwordHash) sc = some username) ∧
    (∀ token username, verifySession p signingKey now token sc = some username ↔
      Binds p signingKey now token sc username) ∧
    ∀ expiry username frag expiry' username' frag',
      (∀ part ∈ macParts expiry username frag, part.length < 2 ^ 64) →
      (∀ part ∈ macParts expiry' username' frag', part.length < 2 ^ 64) →
      framed (macParts expiry username frag) = framed (macParts expiry' username' frag') →
        expiry = expiry' ∧ username = username' ∧ frag = frag' := by
  refine ⟨?_, fun token username => verifySession_iff p signingKey, ?_⟩
  · rintro expiry username passwordHash user huser rfl hnow
    rw [verifySession_iff]
    exact ⟨_, _, _, _, splitOn_signSession p signingKey expiry username user.passwordHash, unhex_hex _,
      ⟨user, huser, rfl⟩, expiry, fromStrRadix_toDigits expiry, hnow, rfl⟩
  · intro expiry username frag expiry' username' frag' hlen hlen' h
    exact macParts_inj hlen hlen' h

end

/-! ### Two uses of one key -/

/-- The bytes of a Rust slice, counted by a number of 64 bits. -/
abbrev Slice := { bytes : List UInt8 // bytes.length < 2 ^ 64 }

/-- A Rust `str`. -/
abbrev Str := { s : String // (asBytes s).length < 2 ^ 64 }

def Str.slice (s : Str) : Slice := ⟨asBytes s.val, s.property⟩

/-- What `mac` feeds to the keyed hash. -/
def macInput (parts : List Slice) : List UInt8 := framed (parts.map (·.val))

/-- What `memo_hit` and `memoize` take the tag of. -/
def memoParts (cred : Str) : List Slice := [cred.slice]

def sessionParts (expiry : UInt64) (username frag : Str) : List Slice :=
  [⟨bigEndian 8 expiry.toNat, by rw [length_bigEndian]; omega⟩, username.slice, frag.slice]

theorem sessionParts_val (expiry : UInt64) (username frag : Str) :
    (sessionParts expiry username frag).map (·.val) = macParts expiry username.val frag.val.toList := by
  simp [sessionParts, macParts, Str.slice]

theorem macInput_injective : Function.Injective macInput := by
  intro parts parts' h
  have hlen (l : List Slice) : ∀ part ∈ l.map (·.val), part.length < 2 ^ 64 := by
    intro part hpart
    obtain ⟨slice, -, rfl⟩ := List.mem_map.1 hpart
    exact slice.property
  exact Subtype.val_injective.list_map (framed_inj (hlen parts) (hlen parts') h)

/-- The keyed hash sees different bytes for different lists of parts, so a credential is never tagged as a session. -/
theorem tags_apart (p : Primitives) (signingKey : List UInt8) :
    (∀ parts : List Slice, mac p signingKey (parts.map (·.val)) = p.hmac signingKey (macInput parts)) ∧
      (∀ parts parts' : List Slice, macInput parts = macInput parts' → parts = parts') ∧
      ∀ (cred : Str) (expiry : UInt64) (username frag : Str),
        macInput (memoParts cred) ≠ framed (macParts expiry username.val frag.val.toList) := by
  refine ⟨fun parts => rfl, fun parts parts' h => macInput_injective h, ?_⟩
  intro cred expiry username frag h
  rw [← sessionParts_val] at h
  -- one part against three
  have hparts := congrArg List.length (macInput_injective h)
  simp [memoParts, sessionParts] at hparts

end OpenProxy.Session
