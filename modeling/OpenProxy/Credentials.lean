import OpenProxy.Text
import OpenProxy.Lib.Encodings

/-!
# Credentials in transit (`base64_decode`, `form_field` of `auth.rs`)

A user name and a password come in Base64 with a request, or in the body of the login form. Both decoders are written
by hand: the one for Base64 lets line breaks and missing pads pass, the one for forms looks for a field by its name.
-/

namespace OpenProxy.Credentials

open Text Uri Form

/-! ### Basic credentials -/

/-- `val` of `base64_decode`. -/
def val (c : UInt8) : Option Nat :=
  let n := c.toNat
  if 65 ≤ n ∧ n ≤ 90 then some (n - 65)
  else if 97 ≤ n ∧ n ≤ 122 then some (n - 97 + 26)
  else if 48 ≤ n ∧ n ≤ 57 then some (n - 48 + 52)
  else if n = 43 then some 62
  else if n = 47 then some 63
  else none

/-- At most four digits: the accumulator stays far below 32 bits. -/
def decodeChunk (chunk : List UInt8) : Option (List UInt8) := do
  let acc ← chunk.foldlM (fun acc c => (val c).map fun v => acc <<< 6 ||| v) 0
  let acc := acc <<< (6 * (4 - chunk.length))
  let bytes ← match chunk.length with
    | 4 => some 3
    | 3 => some 2
    | 2 => some 1
    | _ => none
  return (List.range bytes).map fun i => UInt8.ofNat (acc >>> (16 - i * 8))

def decodeChunks : List UInt8 → Option (List UInt8)
  | [] => some []
  | a :: b :: c :: d :: rest => do
    let out ← decodeChunk [a, b, c, d]
    return out ++ (← decodeChunks rest)
  | chunk => decodeChunk chunk

def base64Decode (s : String) : Option (List UInt8) :=
  decodeChunks ((asBytes s).filter fun c => c != 61 && !isAsciiWhitespace c)

theorem val_digit {n : Nat} (h : n < 64) : val (Base64.digit n) = some n := by
  interval_cases n <;> decide

theorem foldlM_digits {ns : List Nat} (h : ∀ n ∈ ns, n < 64) (acc : Nat) :
    (ns.map Base64.digit).foldlM (fun acc c => (val c).map fun v => acc <<< 6 ||| v) acc =
      some (ns.foldl (fun acc n => 64 * acc + n) acc) := by
  induction ns generalizing acc with
  | nil => rfl
  | cons n ns ih =>
    rw [List.forall_mem_cons] at h
    have hpush : acc <<< 6 ||| n = 64 * acc + n := by
      rw [← Nat.shiftLeft_add_eq_or_of_lt (by omega), Nat.shiftLeft_eq]
      omega
    rw [List.map_cons, List.foldlM_cons, val_digit h.1, Option.map_some, hpush]
    exact ih h.2 _

/-- One to three bytes are read back from the group they fill. -/
theorem decodeChunk_digits {bytes : List UInt8} (hne : bytes ≠ []) (hlen : bytes.length ≤ 3) :
    decodeChunk (Base64.digits bytes) = some bytes := by
  have hread {ns : List Nat} (h : ∀ n ∈ ns, n < 64) := foldlM_digits h 0
  have hbyte {b : UInt8} {n : Nat} (h : n % 256 = b.toNat) : UInt8.ofNat n = b :=
    UInt8.toNat_inj.1 (by simpa using h)
  match bytes with
  | [] => exact absurd rfl hne
  | [a] =>
    have ha := a.toNat_lt
    have hacc := @hread [a.toNat / 4, a.toNat % 4 * 16] (by simp; omega)
    rw [List.map_cons, List.map_cons, List.map_nil] at hacc
    rw [Base64.digits, decodeChunk, hacc]
    show some [UInt8.ofNat _] = _
    rw [hbyte]
    simp only [List.foldl_cons, List.foldl_nil, List.length_cons, List.length_nil, Nat.shiftLeft_eq, Nat.shiftRight_eq_div_pow]
    omega
  | [a, b] =>
    have ha := a.toNat_lt
    have hb := b.toNat_lt
    have hacc := @hread [a.toNat / 4, a.toNat % 4 * 16 + b.toNat / 16, b.toNat % 16 * 4] (by simp; omega)
    rw [List.map_cons, List.map_cons, List.map_cons, List.map_nil] at hacc
    rw [Base64.digits, decodeChunk, hacc]
    show some [UInt8.ofNat _, UInt8.ofNat _] = _
    simp only [List.foldl_cons, List.foldl_nil, List.length_cons, List.length_nil, Nat.shiftLeft_eq,
      Nat.shiftRight_eq_div_pow]
    rw [hbyte (b := a) (by omega), hbyte (b := b) (by omega)]
  | [a, b, c] =>
    have ha := a.toNat_lt
    have hb := b.toNat_lt
    have hc := c.toNat_lt
    have hacc := @hread [a.toNat / 4, a.toNat % 4 * 16 + b.toNat / 16, b.toNat % 16 * 4 + c.toNat / 64, c.toNat % 64]
      (by simp; omega)
    simp only [List.map_cons, List.map_nil] at hacc
    rw [Base64.digits, Base64.digits, decodeChunk, hacc]
    show some [UInt8.ofNat _, UInt8.ofNat _, UInt8.ofNat _] = _
    simp only [List.foldl_cons, List.foldl_nil, List.length_cons, List.length_nil, Nat.shiftLeft_eq,
      Nat.shiftRight_eq_div_pow]
    rw [hbyte (b := a) (by omega), hbyte (b := b) (by omega), hbyte (b := c) (by omega)]
  | _ :: _ :: _ :: _ :: _ =>
    simp only [List.length_cons] at hlen
    omega

theorem decodeChunks_digits (bytes : List UInt8) : decodeChunks (Base64.digits bytes) = some bytes := by
  induction bytes using Base64.digits.induct with
  | case1 => rfl
  | case2 a => exact @decodeChunk_digits [a] (by simp) (by simp)
  | case3 a b => exact @decodeChunk_digits [a, b] (by simp) (by simp)
  | case4 a b c bytes ih =>
    have hchunk := @decodeChunk_digits [a, b, c] (by simp) (by simp)
    rw [Base64.digits, decodeChunks, ih]
    rw [Base64.digits, Base64.digits] at hchunk
    rw [hchunk]
    rfl

/-- Blanks may stand anywhere in the encoding, and the pads may be missing. -/
theorem base64Decode_encode {bytes : List UInt8} {s : String}
    (h : (asBytes s).filter (!isAsciiWhitespace ·) = Base64.encode bytes ∨
      (asBytes s).filter (!isAsciiWhitespace ·) = Base64.digits bytes) : base64Decode s = some bytes := by
  have hdigits : ((asBytes s).filter (!isAsciiWhitespace ·)).filter (· != Base64.pad) = Base64.digits bytes := by
    rcases h with h | h
    · rw [h, Base64.filter_encode]
    · rw [h, Base64.filter_digits]
  rw [List.filter_filter] at hdigits
  rw [base64Decode, ← decodeChunks_digits bytes, ← hdigits]
  rfl

theorem base64Decode_foob : base64Decode " Zm9v\r\n\tYg= =" = some (asBytes "foob") :=
  base64Decode_encode (.inl (by decide +kernel))

/-! ### Form fields -/

def hexVal (b : UInt8) : Option UInt8 :=
  if 48 ≤ b ∧ b ≤ 57 then some (b - 48)
  else if 97 ≤ b ∧ b ≤ 102 then some (b - 97 + 10)
  else if 65 ≤ b ∧ b ≤ 70 then some (b - 65 + 10)
  else none

/-- The loop of `url_decode`. -/
def unescape : List UInt8 → List UInt8
  | b :: high :: low :: rest =>
    if b = 37 then
      match hexVal high, hexVal low with
      | some h, some l => (h <<< 4 ||| l) :: unescape rest
      | _, _ => b :: unescape (high :: low :: rest)
    else b :: unescape (high :: low :: rest)
  | bytes => bytes

/-- Whether a character of three or four bytes may begin with the two. -/
def mayFollow (b c : UInt8) : Bool :=
  (b == 0xE0 && 0xA0 ≤ c && c ≤ 0xBF) || (0xE1 ≤ b && b ≤ 0xEC && 0x80 ≤ c && c ≤ 0xBF) ||
    (b == 0xED && 0x80 ≤ c && c ≤ 0x9F) || (0xEE ≤ b && b ≤ 0xEF && 0x80 ≤ c && c ≤ 0xBF) ||
    (b == 0xF0 && 0x90 ≤ c && c ≤ 0xBF) || (0xF1 ≤ b && b ≤ 0xF3 && 0x80 ≤ c && c ≤ 0xBF) ||
    (b == 0xF4 && 0x80 ≤ c && c ≤ 0x8F)

/-- How many bytes of an incomplete or impossible character are replaced together. -/
def brokenLen : List UInt8 → Nat
  | b :: c :: rest =>
    if mayFollow b c then
      if 0xF0 ≤ b && rest.head?.any fun d => 0x80 ≤ d && d ≤ 0xBF then 3 else 2
    else 1
  | _ => 1

/-- Every round reads at least one byte. -/
def lossyChars : Nat → List UInt8 → List Char
  | 0, _ | _, [] => []
  | fuel + 1, b :: bytes =>
    match ByteArray.utf8DecodeChar? ⟨(b :: bytes).toArray⟩ 0 with
    | some c => c :: lossyChars fuel ((b :: bytes).drop c.utf8Size)
    | none => '\uFFFD' :: lossyChars fuel ((b :: bytes).drop (brokenLen (b :: bytes)))

/-- `String::from_utf8_lossy`. -/
def fromUtf8Lossy (bytes : List UInt8) : String := .ofList (lossyChars bytes.length bytes)

def plusToSpace (c : Char) : Char := if c = '+' then ' ' else c

def urlDecode (s : List Char) : String := fromUtf8Lossy (unescape (asBytes (.ofList (s.map plusToSpace))))

/-- The value in a pair with the name that is looked for. -/
def pairValue (field : String) (pair : List Char) : Option String := do
  let (k, v) ← splitOnce '=' pair
  if String.ofList k = field then some (urlDecode v) else none

def formField (body field : String) : Option String := (splitOn '&' body.toList).findSome? (pairValue field)

/-! ### Characters and bytes -/

theorem asBytes_ofList (cs : List Char) : asBytes (.ofList cs) = cs.flatMap String.utf8EncodeChar := by
  rw [asBytes, String.toByteArray_ofList, List.utf8Encode]
  simp

theorem utf8DecodeChar?_encoded (c : Char) (bytes : List UInt8) :
    ByteArray.utf8DecodeChar? ⟨(String.utf8EncodeChar c ++ bytes).toArray⟩ 0 = some c := by
  have hbytes (l : List UInt8) : (⟨l.toArray⟩ : ByteArray) = l.toByteArray := ByteArray.ext List.data_toByteArray.symm
  rw [hbytes, List.toByteArray_append, ByteArray.utf8DecodeChar?_utf8EncodeChar_append]

theorem lossyChars_encoded {fuel : Nat} {cs : List Char} (h : (cs.flatMap String.utf8EncodeChar).length ≤ fuel) :
    lossyChars fuel (cs.flatMap String.utf8EncodeChar) = cs := by
  induction cs generalizing fuel with
  | nil =>
    cases fuel <;> rfl
  | cons c cs ih =>
    rw [List.flatMap_cons] at h ⊢
    cases hbytes : String.utf8EncodeChar c with
    | nil => exact absurd hbytes String.utf8EncodeChar_ne_nil
    | cons b bytes =>
      have hlen := String.length_utf8EncodeChar c
      rw [hbytes, List.length_append] at h
      rw [hbytes] at hlen
      obtain _ | fuel := fuel
      · simp at h
      have hdecode := utf8DecodeChar?_encoded c (cs.flatMap String.utf8EncodeChar)
      rw [hbytes] at hdecode
      rw [List.cons_append, lossyChars]
      rw [List.cons_append] at hdecode
      rw [hdecode]
      show c :: lossyChars fuel (((b :: bytes) ++ cs.flatMap String.utf8EncodeChar).drop c.utf8Size) = c :: cs
      rw [← hlen, List.drop_left, ih (by simp only [List.length_cons] at h; omega)]

theorem fromUtf8Lossy_asBytes (s : String) : fromUtf8Lossy (s.toList.flatMap String.utf8EncodeChar) = s := by
  rw [fromUtf8Lossy, lossyChars_encoded (Nat.le_refl _), String.ofList_toList]

theorem ne_percent {c : Char} (hc : c ≠ '%') {b : UInt8} (hb : b ∈ String.utf8EncodeChar c) : b ≠ 37 := by
  have hval : c.val.toNat ≠ 37 := fun h => hc (Char.ext (UInt32.toNat_inj.1 h))
  have hne {n : Nat} (hn : n % 256 ≠ 37) : UInt8.ofNat n ≠ 37 := fun h => hn (by simpa using congrArg UInt8.toNat h)
  rw [String.utf8EncodeChar] at hb
  split at hb
  · obtain rfl := List.mem_singleton.1 hb
    exact hne (by omega)
  split at hb
  · simp only [List.mem_cons, List.not_mem_nil, or_false] at hb
    rcases hb with rfl | rfl <;> exact hne (by omega)
  split at hb
  · simp only [List.mem_cons, List.not_mem_nil, or_false] at hb
    rcases hb with rfl | rfl | rfl <;> exact hne (by omega)
  · simp only [List.mem_cons, List.not_mem_nil, or_false] at hb
    rcases hb with rfl | rfl | rfl | rfl <;> exact hne (by omega)

theorem nibbles (b : UInt8) : UInt8.ofNat (b.toNat / 16) <<< 4 ||| UInt8.ofNat (b.toNat % 16) = b := by
  revert b
  decide +kernel

theorem hexVal_of_hexDigit {c : Char} {n : Nat} (h : hexDigit c = some n) :
    ∃ b, String.utf8EncodeChar c = [b] ∧ hexVal b = some (UInt8.ofNat n) ∧ c ≠ '+' := by
  obtain ⟨k, rfl, ⟨hlow, hhigh, rfl⟩ | ⟨hlow, hhigh, rfl⟩ | ⟨hlow, hhigh, rfl⟩⟩ := hexDigit_ranges h
  · interval_cases k <;> exact ⟨_, rfl, by decide, by decide⟩
  · interval_cases k <;> exact ⟨_, rfl, by decide, by decide⟩
  · interval_cases k <;> exact ⟨_, rfl, by decide, by decide⟩

/-! ### One value -/

theorem unescape_cons {b : UInt8} (hb : b ≠ 37) (rest : List UInt8) : unescape (b :: rest) = b :: unescape rest := by
  match rest with
  | [] => rfl
  | [_] => rfl
  | high :: low :: rest => rw [unescape, if_neg hb]

theorem unescape_append {bytes : List UInt8} (h : ∀ b ∈ bytes, b ≠ 37) (rest : List UInt8) :
    unescape (bytes ++ rest) = bytes ++ unescape rest := by
  induction bytes with
  | nil => rfl
  | cons b bytes ih =>
    rw [List.forall_mem_cons] at h
    rw [List.cons_append, unescape_cons h.1, ih h.2, List.cons_append]

/-- What goes into `url_decode` after plus signs have become blanks. -/
def source (text : List Char) : List UInt8 := (text.map plusToSpace).flatMap String.utf8EncodeChar

theorem source_append (text text' : List Char) : source (text ++ text') = source text ++ source text' := by
  rw [source, List.map_append, List.flatMap_append]
  rfl

theorem unescape_escaped {bytes : List UInt8} {text : List Char} (h : Escaped bytes text) (rest : List UInt8) :
    unescape (source text ++ rest) = bytes ++ unescape rest := by
  induction h with
  | nil => rfl
  | @cons b bytes high low text hhigh hlow _ ih =>
    obtain ⟨high', hbytes, hval, hplus⟩ := hexVal_of_hexDigit hhigh
    obtain ⟨low', hbytes', hval', hplus'⟩ := hexVal_of_hexDigit hlow
    have hsource : source ('%' :: high :: low :: text) = 37 :: high' :: low' :: source text := by
      show String.utf8EncodeChar _ ++ (String.utf8EncodeChar _ ++ (String.utf8EncodeChar _ ++ source text)) = _
      rw [plusToSpace, if_neg (by decide), plusToSpace, if_neg hplus, hbytes, plusToSpace, if_neg hplus', hbytes']
      rfl
    rw [hsource, List.cons_append, List.cons_append, List.cons_append, unescape, if_pos rfl, hval, hval']
    show (_ :: unescape (source text ++ rest)) = _
    rw [ih, nibbles, List.cons_append]

theorem unescape_encodesChar {c : Char} {piece : List Char} (h : EncodesChar c piece) (rest : List UInt8) :
    unescape (source piece ++ rest) = String.utf8EncodeChar c ++ unescape rest := by
  cases h with
  | space => exact unescape_cons (by decide) rest
  | verbatim hspace hreserved =>
    have hplus : c ≠ '+' := by
      rintro rfl
      exact absurd hreserved (by decide)
    have hpercent : c ≠ '%' := by
      rintro rfl
      exact absurd hreserved (by decide)
    have hsource : source [c] = String.utf8EncodeChar c := by simp [source, plusToSpace, hplus]
    rw [hsource, unescape_append fun b hb => ne_percent hpercent hb]
  | escaped h => exact unescape_escaped h rest

theorem unescape_encodes {cs text : List Char} (h : Encodes cs text) (rest : List UInt8) :
    unescape (source text ++ rest) = cs.flatMap String.utf8EncodeChar ++ unescape rest := by
  induction h with
  | nil => rfl
  | cons hc _ ih => rw [source_append, List.append_assoc, unescape_encodesChar hc, ih, List.flatMap_cons, List.append_assoc]

/-- Every encoding of a text is read as that text. -/
theorem urlDecode_of_encodes {s : String} {text : List Char} (h : Encodes s.toList text) : urlDecode text = s := by
  have hbytes : unescape (source text) = s.toList.flatMap String.utf8EncodeChar := by
    have hrest := unescape_encodes h []
    rwa [List.append_nil, show unescape [] = [] from rfl, List.append_nil] at hrest
  rw [urlDecode, asBytes_ofList]
  show fromUtf8Lossy (unescape (source text)) = s
  rw [hbytes, fromUtf8Lossy_asBytes]

/-! ### Whole bodies -/

/-- The body encodes the fields, each as a name and a value. -/
def EncodesForm (fields : List (String × String)) (body : String) : Prop :=
  ∃ pairs, List.Forall₂ (fun field pair => EncodesPair field.1.toList field.2.toList pair) fields pairs ∧
    body.toList = ['&'].intercalate pairs

/-- What stands for a name in a pair. -/
def nameText (pair : List Char) : List Char := pair.takeWhile (· != '=')

section
variable {field : String × String} {pair : List Char}

theorem encodes_nameText (h : EncodesPair field.1.toList field.2.toList pair) :
    Encodes field.1.toList (nameText pair) := by
  obtain ⟨hname, -⟩ := h
  rwa [nameText, (splitOnce_append hname.notMem_eq _).1]

/-- Values are decoded, names are compared as they are written. -/
theorem pairValue_eq (h : EncodesPair field.1.toList field.2.toList pair) (name : String) :
    pairValue name pair = if String.ofList (nameText pair) = name then some field.2 else none := by
  obtain ⟨hname, hvalue⟩ := h
  obtain ⟨htext, hsplit⟩ := splitOnce_append hname.notMem_eq _
  rw [pairValue, hsplit, nameText, htext, ← urlDecode_of_encodes hvalue]
  rfl

theorem amp_notMem (h : EncodesPair field.1.toList field.2.toList pair) : '&' ∉ pair := by
  obtain ⟨hname, hvalue⟩ := h
  simp [hname.notMem_amp, hvalue.notMem_amp]

end

section
variable {fields : List (String × String)} {pairs : List (List Char)}

theorem splitOn_form (h : List.Forall₂ (fun field pair => EncodesPair field.1.toList field.2.toList pair) fields pairs)
    (hne : pairs ≠ []) : splitOn '&' (['&'].intercalate pairs) = pairs := by
  refine splitOn_intercalate hne fun pair hpair => ?_
  obtain ⟨i, hi, rfl⟩ := List.getElem_of_mem hpair
  exact amp_notMem (h.get (h.length_eq ▸ hi) hi)

/-- Fields whose names are written as they are. -/
theorem findSome?_of_verbatim
    (h : List.Forall₂ (fun field pair => EncodesPair field.1.toList field.2.toList pair) fields pairs)
    (hnames : (fields.map (·.1)).Nodup) (hverbatim : ∀ pair ∈ pairs, '%' ∉ nameText pair)
    (hspace : ∀ field ∈ fields, ' ' ∉ field.1.toList) {field : String × String} (hfield : field ∈ fields) :
    pairs.findSome? (pairValue field.1) = some field.2 := by
  induction h with
  | nil => cases hfield
  | @cons first pair fields pairs hpair _ ih =>
    rw [List.map_cons, List.nodup_cons] at hnames
    rw [List.forall_mem_cons] at hverbatim hspace
    have hname := encodes_nameText hpair
    have htext : String.ofList (nameText pair) = first.1 := by
      rw [hname.eq_of_plain hverbatim.1 (hname.notMem_plus hspace.1), String.ofList_toList]
    rw [List.findSome?_cons, pairValue_eq hpair, htext]
    rcases List.mem_cons.1 hfield with rfl | hfield
    · rw [if_pos rfl]
    · have hne : first.1 ≠ field.1 := fun heq => hnames.1 (heq ▸ List.mem_map_of_mem hfield)
      rw [if_neg hne]
      exact ih hnames.2 hverbatim.2 hspace.2 hfield

/-- A field that is found has its name written as it is. -/
theorem verbatim_of_found
    (h : List.Forall₂ (fun field pair => EncodesPair field.1.toList field.2.toList pair) fields pairs)
    (hnames : (fields.map (·.1)).Nodup) (hplain : ∀ field ∈ fields, '%' ∉ field.1.toList ∧ ' ' ∉ field.1.toList)
    (hfound : ∀ field ∈ fields, ∃ value, pairs.findSome? (pairValue field.1) = some value) :
    ∀ pair ∈ pairs, '%' ∉ nameText pair := by
  intro pair hpair
  obtain ⟨i, hi, rfl⟩ := List.getElem_of_mem hpair
  have hlen := h.length_eq
  have hi' : i < fields.length := by omega
  obtain ⟨value, hvalue⟩ := hfound fields[i] (List.getElem_mem hi')
  obtain ⟨pair, hmem, hsome⟩ := List.exists_of_findSome?_eq_some hvalue
  obtain ⟨j, hj, rfl⟩ := List.getElem_of_mem hmem
  have hj' : j < fields.length := by omega
  have hpairj := h.get hj' hj
  rw [List.get_eq_getElem, List.get_eq_getElem] at hpairj
  rw [pairValue_eq hpairj] at hsome
  split at hsome
  · rename_i htext
    have htext : nameText pairs[j] = fields[i].1.toList := by rw [← htext, String.toList_ofList]
    -- the pair's own name has no escape either, so it is the name looked for
    have hname := encodes_nameText hpairj
    have hpercent : '%' ∉ nameText pairs[j] := htext ▸ (hplain _ (List.getElem_mem hi')).1
    have hown := hname.eq_of_plain hpercent (hname.notMem_plus (hplain _ (List.getElem_mem hj')).2)
    have hij : j = i := by
      have hj : j < (fields.map (·.1)).length := by simpa using hj'
      have hi : i < (fields.map (·.1)).length := by simpa using hi'
      have heq : (fields.map (·.1))[j] = (fields.map (·.1))[i] := by
        rw [List.getElem_map, List.getElem_map]
        exact String.toList_inj.1 (hown.symm.trans htext)
      exact (hnames.getElem_inj_iff).1 heq
    subst hij
    exact hpercent
  · cases hsome

end

/-- A field of the form is found, with its value, just if its name is written without escapes. -/
theorem formField_iff {fields : List (String × String)} {body : String} (hnames : (fields.map (·.1)).Nodup)
    (hunreserved : ∀ field ∈ fields, ∀ c ∈ field.1.toList, isUnreserved c = true) (hbody : EncodesForm fields body) :
    (∀ field ∈ fields, formField body field.1 = some field.2) ↔
      ∀ pair ∈ splitOn '&' body.toList, '%' ∉ nameText pair := by
  obtain ⟨pairs, h, hbody⟩ := hbody
  have hplain : ∀ field ∈ fields, '%' ∉ field.1.toList ∧ ' ' ∉ field.1.toList := fun field hfield =>
    ⟨fun hc => absurd (hunreserved field hfield _ hc) (by decide),
      fun hc => absurd (hunreserved field hfield _ hc) (by decide)⟩
  by_cases hne : pairs = []
  · subst hne
    cases h
    simp [hbody, splitOn, nameText]
  · simp only [formField, hbody, splitOn_form h hne]
    exact ⟨fun hfound => verbatim_of_found h hnames hplain fun field hfield => ⟨_, hfound field hfield⟩,
      fun hverbatim field => findSome?_of_verbatim h hnames hverbatim fun field hfield => (hplain field hfield).2⟩

theorem formField_login :
    formField "username=a+b&password=%26%3d%C3%bc%25" "username" = some "a b" ∧
      formField "username=a+b&password=%26%3d%C3%bc%25" "password" = some "&=ü%" := by
  have husername : Encodes "username".toList "username".toList := .verbatim (by simp [isReserved, isSubDelim])
  have hpassword : Encodes "password".toList "password".toList := .verbatim (by simp [isReserved, isSubDelim])
  have hab : Encodes "a b".toList "a+b".toList :=
    .cons (.verbatim (by decide) (by decide)) (.cons .space (.cons (.verbatim (by decide) (by decide)) .nil))
  have hamp : EncodesChar '&' ['%', '2', '6'] := .escaped (show Escaped [0x26] _ from .cons rfl rfl .nil)
  have heq : EncodesChar '=' ['%', '3', 'd'] := .escaped (show Escaped [0x3D] _ from .cons rfl rfl .nil)
  have hue : EncodesChar 'ü' ['%', 'C', '3', '%', 'b', 'c'] :=
    .escaped (show Escaped [0xC3, 0xBC] _ from .cons rfl rfl (.cons rfl rfl .nil))
  have hpercent : EncodesChar '%' ['%', '2', '5'] := .escaped (show Escaped [0x25] _ from .cons rfl rfl .nil)
  have hsecret : Encodes "&=ü%".toList "%26%3d%C3%bc%25".toList :=
    .cons hamp (.cons heq (.cons hue (.cons hpercent .nil)))
  have h := (@formField_iff [("username", "a b"), ("password", "&=ü%")]
    "username=a+b&password=%26%3d%C3%bc%25" (by decide)
    (by simp [isUnreserved]) ⟨["username=a+b".toList, "password=%26%3d%C3%bc%25".toList],
      .cons (.mk husername hab) (.cons (.mk hpassword hsecret) .nil), rfl⟩).2 (by decide +kernel)
  exact ⟨h _ List.mem_cons_self, h _ (List.mem_cons_of_mem _ List.mem_cons_self)⟩

/-- A name with an escape in it. -/
theorem formField_escaped_name :
    EncodesForm [("password", "secret")] "p%61ssword=secret" ∧ formField "p%61ssword=secret" "password" = none := by
  have ha : EncodesChar 'a' ['%', '6', '1'] := .escaped (show Escaped [0x61] _ from .cons rfl rfl .nil)
  have hrest : Encodes "ssword".toList "ssword".toList := .verbatim (by simp [isReserved, isSubDelim])
  have hname : Encodes "password".toList "p%61ssword".toList :=
    .cons (.verbatim (by decide) (by decide)) (.cons ha hrest)
  have hvalue : Encodes "secret".toList "secret".toList := .verbatim (by simp [isReserved, isSubDelim])
  exact ⟨⟨["p%61ssword=secret".toList], .cons (.mk hname hvalue) .nil, rfl⟩, by decide +kernel⟩

end OpenProxy.Credentials
