import OpenProxy.Session
import OpenProxy.Throttle

/-!
# Password hashes (`pbkdf2_sha256`, `hash_password`, `verify_password` of `auth.rs`)

A stored hash says how it was made: the scheme, the number of rounds, the salt and the block that came out. The keyed
hash is a parameter.
-/

namespace OpenProxy.Password

open Bytes Text Session

/-! ### The block -/

def xorBlock (out u : List UInt8) : List UInt8 := List.zipWith (· ^^^ ·) out u

/-- The loop of `pbkdf2_sha256`, with its rounds to go. -/
def rounds (prf : List UInt8 → List UInt8) : Nat → List UInt8 → List UInt8 → List UInt8
  | 0, _, out => out
  | n + 1, u, out => rounds prf n (prf u) (xorBlock out (prf u))

section
variable (p : Primitives)

def pbkdf2Sha256 (password salt : List UInt8) (iters : Nat) : List UInt8 :=
  let prf := p.hmac password
  let u := prf (salt ++ bigEndian 4 1)
  rounds prf (iters - 1) u u

/-! ### Hashing and verifying -/

def pbkdf2Iters : Nat := 600000

def scheme : List Char := "pbkdf2-sha256".toList

def encode (iters : Nat) (salt dk : List UInt8) : String :=
  .ofList (scheme ++ '$' :: (Nat.toDigits 10 iters ++ '$' :: (hex salt ++ '$' :: hex dk)))

def hashPassword (salt : List UInt8) (password : String) : String :=
  encode pbkdf2Iters salt (pbkdf2Sha256 p (asBytes password) salt pbkdf2Iters)

/-- `str::parse::<u32>`: one plus sign may stand in front, and there has to be a digit. -/
def parseU32 (cs : List Char) : Option Nat :=
  let digits := if cs.head? = some '+' then cs.tail else cs
  if digits ≠ [] ∧ digits.all Char.isDigit ∧ Nat.ofDigitChars 10 digits 0 < 2 ^ 32 then
    some (Nat.ofDigitChars 10 digits 0)
  else none

/-- The rounds, the salt and the block of a stored hash. -/
def parse (stored : String) : Option (Nat × List UInt8 × List Char) :=
  match splitOn '$' stored.toList with
  | [head, iters, salt, hash] => do
    if head ≠ scheme then none
    else
      let iters ← parseU32 iters
      if iters = 0 then none
      else
        let salt ← unhex salt
        return (iters, salt, hash)
  | _ => none

def verifyPassword (password stored : String) : Bool :=
  match parse stored with
  | some (iters, salt, hash) => hex (pbkdf2Sha256 p (asBytes password) salt iters) == hash
  | none => false

end

/-! ### What the loop computes -/

section
variable {prf : List UInt8 → List UInt8} {u out : List UInt8}

theorem rounds_eq (n : Nat) : rounds prf n u out = (List.range n).foldl (fun out i => xorBlock out (prf^[i + 1] u)) out := by
  induction n generalizing u out with
  | zero => rfl
  | succ n ih =>
    rw [rounds, ih, List.range_succ_eq_map, List.foldl_cons, List.foldl_map]
    rfl

theorem length_xorBlock {k : Nat} (hout : out.length = k) (hu : u.length = k) : (xorBlock out u).length = k := by
  rw [xorBlock, List.length_zipWith, hout, hu, Nat.min_self]

theorem getD_xorBlock (h : out.length = u.length) (j : Nat) :
    (xorBlock out u).getD j 0 = out.getD j 0 ^^^ u.getD j 0 := by
  simp only [xorBlock, List.getD_eq_getElem?_getD, List.getElem?_zipWith]
  by_cases hj : j < out.length
  · rw [List.getElem?_eq_getElem hj, List.getElem?_eq_getElem (h ▸ hj)]
    rfl
  · rw [List.getElem?_eq_none (by omega), List.getElem?_eq_none (by omega)]
    simp

/-- Blocks of one length are added up byte by byte. -/
theorem foldl_xorBlock {k j : Nat} {blocks : List (List UInt8)} (hout : out.length = k)
    (hblocks : ∀ b ∈ blocks, b.length = k) :
    (blocks.foldl xorBlock out).length = k ∧
      (blocks.foldl xorBlock out).getD j 0 = (blocks.map (·.getD j 0)).foldl (· ^^^ ·) (out.getD j 0) := by
  induction blocks generalizing out with
  | nil => exact ⟨hout, rfl⟩
  | cons b blocks ih =>
    obtain ⟨hb, hblocks⟩ := List.forall_mem_cons.1 hblocks
    have hlength := length_xorBlock hout hb
    rw [List.foldl_cons, List.map_cons, List.foldl_cons, ← getD_xorBlock (hout.trans hb.symm)]
    exact ih hlength hblocks

end

section
variable {p : Primitives} {password salt : List UInt8} {iters : Nat}

/-- The `i`-th of the blocks that PBKDF2 adds up. -/
def block (p : Primitives) (password salt : List UInt8) (i : Nat) : List UInt8 :=
  (p.hmac password)^[i] (p.hmac password (salt ++ bigEndian 4 1))

theorem pbkdf2Sha256_eq (iters : Nat) :
    pbkdf2Sha256 p password salt iters =
      ((List.range (iters - 1)).map fun i => block p password salt (i + 1)).foldl xorBlock (block p password salt 0) := by
  rw [pbkdf2Sha256, rounds_eq, List.foldl_map]
  rfl

/-- The block is the exclusive or of all `iters` of them. -/
theorem getD_pbkdf2Sha256 (hhmac : ∀ key message, (p.hmac key message).length = 32) (h : 1 ≤ iters) (j : Nat) :
    (pbkdf2Sha256 p password salt iters).length = 32 ∧
      (pbkdf2Sha256 p password salt iters).getD j 0 =
        ((List.range iters).map fun i => (block p password salt i).getD j 0).foldl (· ^^^ ·) 0 := by
  have hblock (i : Nat) : (block p password salt i).length = 32 := by
    cases i with
    | zero => exact hhmac _ _
    | succ i =>
      rw [block, Function.iterate_succ_apply']
      exact hhmac _ _
  obtain ⟨n, rfl⟩ : ∃ n, iters = n + 1 := ⟨iters - 1, by omega⟩
  rw [pbkdf2Sha256_eq]
  obtain ⟨hlength, hbyte⟩ := @foldl_xorBlock (block p password salt 0) 32 j
    ((List.range n).map fun i => block p password salt (i + 1)) (hblock 0) (by simp [hblock])
  refine ⟨hlength, hbyte.trans ?_⟩
  rw [List.range_succ_eq_map, List.map_cons, List.foldl_cons, List.map_map, List.map_map]
  simp [Function.comp_def]

end

/-! ### What a stored hash says -/

theorem hexVal_dollar : hexVal '$' = none := by decide

theorem dollar_notMem_of_unhex {cs : List Char} {bytes : List UInt8} (h : unhex cs = some bytes) : '$' ∉ cs := by
  induction cs using unhex.induct generalizing bytes with
  | case1 => exact List.not_mem_nil
  | case2 c => cases h
  | case3 a b cs ih =>
    obtain ⟨high, hhigh, h⟩ := Option.bind_eq_some_iff.1 h
    obtain ⟨low, hlow, h⟩ := Option.bind_eq_some_iff.1 h
    obtain ⟨rest, hrest, -⟩ := Option.bind_eq_some_iff.1 h
    have ha : a ≠ '$' := fun ha => by simp [ha, hexVal_dollar] at hhigh
    have hb : b ≠ '$' := fun hb => by simp [hb, hexVal_dollar] at hlow
    simp [ha.symm, hb.symm, ih hrest]

theorem dollar_notMem_hex (bytes : List UInt8) : '$' ∉ hex bytes := dollar_notMem_of_unhex (unhex_hex bytes)

theorem parseU32_eq_some {cs : List Char} {n : Nat} (h : parseU32 cs = some n) : n < 2 ^ 32 ∧ '$' ∉ cs := by
  simp only [parseU32, Option.ite_none_right_eq_some, Option.some.injEq] at h
  obtain ⟨⟨-, hall, hlt⟩, rfl⟩ := h
  refine ⟨hlt, fun hmem => ?_⟩
  have hall := List.all_eq_true.1 hall
  cases cs with
  | nil => cases hmem
  | cons c cs =>
    by_cases hc : c = '+'
    · subst hc
      rcases List.mem_cons.1 hmem with h | h
      · cases h
      · exact absurd (hall '$' (by simpa using h)) (by decide)
    · exact absurd (hall '$' (by simpa [hc] using hmem)) (by decide)

theorem parseU32_toDigits {n : Nat} (h : n < 2 ^ 32) : parseU32 (Nat.toDigits 10 n) = some n := by
  have hdigit : ∀ c ∈ Nat.toDigits 10 n, c.isDigit = true := fun c hc => Nat.isDigit_of_mem_toDigits (by omega) le_rfl hc
  have hhead : (Nat.toDigits 10 n).head? ≠ some '+' := by
    intro hplus
    exact absurd (hdigit '+' (List.mem_of_head? hplus)) (by decide)
  simp only [parseU32, if_neg hhead, Nat.ofDigitChars_ten_toDigits]
  exact if_pos ⟨by simp, List.all_eq_true.2 hdigit, h⟩

theorem dollar_notMem_scheme : '$' ∉ scheme := by decide

theorem splitOn_parts {itersText saltText hash : List Char} (hiters : '$' ∉ itersText) (hsalt : '$' ∉ saltText)
    (hhash : '$' ∉ hash) :
    splitOn '$' (scheme ++ '$' :: (itersText ++ '$' :: (saltText ++ '$' :: hash))) = [scheme, itersText, saltText, hash] := by
  rw [splitOn_append dollar_notMem_scheme, splitOn_append hiters, splitOn_append hsalt, splitOn_of_notMem hhash]

theorem parse_eq_some {stored : String} {iters : Nat} {salt : List UInt8} {hash : List Char}
    (h : parse stored = some (iters, salt, hash)) :
    ∃ itersText saltText, parseU32 itersText = some iters ∧ 1 ≤ iters ∧ unhex saltText = some salt ∧
      stored.toList = scheme ++ '$' :: (itersText ++ '$' :: (saltText ++ '$' :: hash)) := by
  unfold parse at h
  split at h
  · rename_i head itersText saltText hash' hparts
    split at h
    · cases h
    rename_i hhead
    obtain ⟨n, hiters, h⟩ := Option.bind_eq_some_iff.1 h
    split at h
    · cases h
    rename_i hpos
    obtain ⟨bytes, hsalt, h⟩ := Option.bind_eq_some_iff.1 h
    cases h
    have hjoin := intercalate_splitOn '$' stored.toList
    rw [hparts, not_not.1 hhead] at hjoin
    refine ⟨itersText, saltText, hiters, by omega, hsalt, hjoin.symm.trans ?_⟩
    simp [List.intercalate]
  · cases h

theorem parse_parts {stored : String} {itersText saltText hash : List Char} {iters : Nat} {salt : List UInt8}
    (hiters : parseU32 itersText = some iters) (hpos : 1 ≤ iters) (hsalt : unhex saltText = some salt)
    (hhash : '$' ∉ hash) (h : stored.toList = scheme ++ '$' :: (itersText ++ '$' :: (saltText ++ '$' :: hash))) :
    parse stored = some (iters, salt, hash) := by
  rw [parse, h, splitOn_parts (parseU32_eq_some hiters).2 (dollar_notMem_of_unhex hsalt) hhash]
  simp [hiters, hsalt, Nat.one_le_iff_ne_zero.1 hpos]

theorem parse_encode {iters : Nat} (hpos : 1 ≤ iters) (hlt : iters < 2 ^ 32) (salt dk : List UInt8) :
    parse (encode iters salt dk) = some (iters, salt, hex dk) :=
  parse_parts (parseU32_toDigits hlt) hpos (unhex_hex salt) (dollar_notMem_hex dk) (String.toList_ofList)

section
variable {p : Primitives}

theorem verifyPassword_iff {password stored : String} :
    verifyPassword p password stored = true ↔ ∃ itersText saltText iters salt,
      parseU32 itersText = some iters ∧ 1 ≤ iters ∧ unhex saltText = some salt ∧ stored.toList =
        scheme ++ '$' :: (itersText ++ '$' :: (saltText ++ '$' :: hex (pbkdf2Sha256 p (asBytes password) salt iters))) := by
  constructor
  · intro h
    unfold verifyPassword at h
    split at h
    · rename_i iters salt hash hparse
      obtain rfl := beq_iff_eq.1 h
      obtain ⟨itersText, saltText, hiters, hpos, hsalt, hstored⟩ := parse_eq_some hparse
      exact ⟨itersText, saltText, iters, salt, hiters, hpos, hsalt, hstored⟩
    · cases h
  · rintro ⟨itersText, saltText, iters, salt, hiters, hpos, hsalt, hstored⟩
    rw [verifyPassword, parse_parts hiters hpos hsalt (dollar_notMem_hex _) hstored]
    exact beq_self_eq_true _

theorem verifyPassword_encode {iters : Nat} (hpos : 1 ≤ iters) (hlt : iters < 2 ^ 32) (password : String)
    (salt dk : List UInt8) :
    verifyPassword p password (encode iters salt dk) = true ↔ pbkdf2Sha256 p (asBytes password) salt iters = dk := by
  rw [verifyPassword, parse_encode hpos hlt]
  refine beq_iff_eq.trans ⟨fun h => ?_, fun h => by rw [h]⟩
  have hunhex := congrArg unhex h
  rwa [unhex_hex, unhex_hex, Option.some.injEq] at hunhex

end

/-- What verifying a password against a stored hash costs: the rounds, and the length of the salt. -/
def work (stored : String) : Option (Nat × Nat) := (parse stored).map fun h => (h.1, h.2.1.length)

theorem work_burnerHash : work Login.burnerHash = some (pbkdf2Iters, 16) := by decide +kernel

/-- For a user who does not exist `login_submit` goes on to verify the burner hash. -/
theorem loginStep_unknown {Tag : Type} {verify : String → String → Bool} {s s' : Login.State Tag} {n now : Nat}
    {l : Login.Attempt} (hpc : l.pc = .readHash) (hunknown : s.store.user l.username = none)
    (h : Login.loginStep verify s n now l = some s') :
    s'.logins = s.logins.set n { l with pc := .verify Login.burnerHash false } := by
  unfold Login.loginStep at h
  rw [hpc, hunknown] at h
  obtain rfl := Option.some.inj h
  rfl

/-- Just the strings of the one form with the password's own block are verified, whatever the number of rounds; the
block is the one of PBKDF2; and for a user who does not exist a login does the work of a user who does. -/
theorem password_hashes (p : Primitives) {Tag : Type} :
    (∀ password stored, verifyPassword p password stored = true ↔ ∃ itersText saltText iters salt,
      parseU32 itersText = some iters ∧ 1 ≤ iters ∧ unhex saltText = some salt ∧ stored.toList =
        scheme ++ '$' :: (itersText ++ '$' :: (saltText ++ '$' :: hex (pbkdf2Sha256 p (asBytes password) salt iters)))) ∧
    (∀ iters, 1 ≤ iters → iters < 2 ^ 32 → ∀ password other salt,
      verifyPassword p other (encode iters salt (pbkdf2Sha256 p (asBytes password) salt iters)) = true ↔
        pbkdf2Sha256 p (asBytes other) salt iters = pbkdf2Sha256 p (asBytes password) salt iters) ∧
    ((∀ key message, (p.hmac key message).length = 32) → ∀ password salt iters, 1 ≤ iters →
      (pbkdf2Sha256 p password salt iters).length = 32 ∧ ∀ j, (pbkdf2Sha256 p password salt iters).getD j 0 =
        ((List.range iters).map fun i => (block p password salt i).getD j 0).foldl (· ^^^ ·) 0) ∧
    ∀ (s s' : Login.State Tag) (n now : Nat) (l : Login.Attempt), l.pc = .readHash →
      s.store.user l.username = none → Login.loginStep (verifyPassword p) s n now l = some s' →
      ∃ hash, s'.logins = s.logins.set n { l with pc := .verify hash false } ∧
        ∀ salt password, salt.length = 16 → work hash = work (hashPassword p salt password) := by
  refine ⟨fun password stored => verifyPassword_iff, fun iters hpos hlt password other salt =>
    verifyPassword_encode hpos hlt other salt _, fun hhmac password salt iters hpos =>
    ⟨(getD_pbkdf2Sha256 hhmac hpos 0).1, fun j => (getD_pbkdf2Sha256 hhmac hpos j).2⟩, ?_⟩
  intro s s' n now l hpc hunknown h
  refine ⟨Login.burnerHash, loginStep_unknown hpc hunknown h, fun salt password hsalt => ?_⟩
  rw [work_burnerHash, work, hashPassword, parse_encode (by decide) (by decide), Option.map_some, hsalt]

/-- The keyed hash at one key and message; elsewhere it is left at zeros. -/
def oneRound : Primitives where
  hmac key message :=
    if key = asBytes "password" ∧ message = asBytes "salt" ++ [0, 0, 0, 1] then
      [0x12, 0x0f, 0xb6, 0xcf, 0xfc, 0xf8, 0xb3, 0x2c, 0x43, 0xe7, 0x22, 0x52, 0x56, 0xc4, 0xf8, 0x37,
        0xa8, 0x65, 0x48, 0xc9, 0x2c, 0xcc, 0x35, 0x48, 0x08, 0x05, 0x98, 0x7c, 0xb7, 0x0b, 0xe1, 0x7b]
    else List.replicate 32 0
  sha256 _ := List.replicate 32 0

theorem length_oneRound (key message : List UInt8) : (oneRound.hmac key message).length = 32 := by
  simp only [oneRound]
  split
  · rfl
  · exact List.length_replicate

/-- The form of somebody who is not a user, between its look at the throttle and the hash. -/
def unknownLogin : Login.State String :=
  { Login.start String Login.root 0 with logins := [{ username := "nobody", password := "salt", pc := .readHash }] }

theorem password_hashes_oneRound :
    verifyPassword oneRound "password"
        (encode 1 (asBytes "salt") (pbkdf2Sha256 oneRound (asBytes "password") (asBytes "salt") 1)) = true ∧
      (pbkdf2Sha256 oneRound (asBytes "password") (asBytes "salt") 1).length = 32 ∧
      ∃ s' hash, Login.loginStep (verifyPassword oneRound) unknownLogin 0 5
          { username := "nobody", password := "salt", pc := .readHash } = some s' ∧
        s'.logins = [{ username := "nobody", password := "salt", pc := .verify hash false }] ∧
        work hash = work (hashPassword oneRound (List.replicate 16 0) "secret") := by
  obtain ⟨-, hrounds, hblock, hlogin⟩ := @password_hashes oneRound String
  obtain ⟨hash, hlogins, hwork⟩ := hlogin unknownLogin _ 0 5 { username := "nobody", password := "salt", pc := .readHash }
    rfl (by decide) rfl
  exact ⟨(hrounds 1 le_rfl (by decide) "password" "password" _).2 rfl,
    (hblock length_oneRound _ _ 1 le_rfl).1, _, hash, rfl, hlogins, hwork _ _ List.length_replicate⟩

/-- A sign in front of the rounds, and no salt. -/
example : parse "pbkdf2-sha256$+1$$6a" = some (1, [], ['6', 'a']) := by decide +kernel

end OpenProxy.Password
