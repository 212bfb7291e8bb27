import Mathlib

/-!
# Strings and fallible steps

The source works on UTF-8 strings; these are the operations of it the model uses, on the characters of a
Lean string. Lengths that the source compares are byte lengths.
-/

namespace OpenProxy

/-- A chain of fallible steps succeeds step by step. -/
theorem bind_eq_ok {ε α β : Type} {x : Except ε α} {f : α → Except ε β} {b : β} :
    (x >>= f) = .ok b ↔ ∃ a, x = .ok a ∧ f a = .ok b := by
  cases x <;> simp [bind, Except.bind]

theorem toOption_eq_some {ε α : Type} {x : Except ε α} {a : α} (h : x.toOption = some a) : x = .ok a := by
  cases x <;> cases h
  rfl

namespace Text

/-- `str::len`: bytes of the UTF-8 encoding. -/
def byteLen (s : String) : Nat := (s.toList.map Char.utf8Size).sum

/-- The UTF-8 bytes of a string. -/
def asBytes (s : String) : List UInt8 := s.toByteArray.data.toList

theorem fromUTF8_asBytes (s : String) : String.fromUTF8? ⟨(asBytes s).toArray⟩ = some s := by
  show String.fromUTF8? s.toByteArray = some s
  rw [String.fromUTF8?, dif_pos s.isValidUTF8]
  rfl

theorem fromUTF8_eq_some {bytes : List UInt8} {s : String} (h : String.fromUTF8? ⟨bytes.toArray⟩ = some s) :
    bytes = asBytes s := by
  rw [String.fromUTF8?] at h
  split at h
  · rw [← Option.some.inj h]
    rfl
  · cases h

theorem validateUTF8_of_ascii {bytes : List UInt8} (h : bytes.all (·.toNat.blt 128) = true) :
    (ByteArray.mk bytes.toArray).validateUTF8 = true := by
  rw [ByteArray.validateUTF8_eq_true_iff]
  induction bytes using List.reverseRecOn with
  | nil => exact ByteArray.isValidUTF8_utf8Encode (l := [])
  | append_singleton bytes b ih =>
    rw [List.all_append, Bool.and_eq_true] at h
    obtain ⟨hbytes, hb⟩ := h
    have hsize : b.toChar.utf8Size = 1 := by
      have hlt : b.toNat < 128 := by simpa using hb
      exact if_pos (UInt32.le_iff_toNat_le.2 (by simpa [UInt8.toChar] using Nat.le_of_lt_succ hlt))
    have := (ih hbytes).push hsize
    rw [← List.push_toArray]
    simpa [ByteArray.push, UInt8.toChar, Char.toUInt8] using this

/-- `validateUTF8` is slow to evaluate, so ASCII is looked for first. -/
instance decidableValidateUTF8 (bytes : List UInt8) : Decidable ((ByteArray.mk bytes.toArray).validateUTF8 = true) :=
  if h : bytes.all (·.toNat.blt 128) then isTrue (validateUTF8_of_ascii h) else instDecidableEqBool _ _

/-- `u8::is_ascii_whitespace`. -/
def isAsciiWhitespace (b : UInt8) : Bool := b == 32 || b == 9 || b == 10 || b == 12 || b == 13

/-- `char::is_whitespace` (the Unicode property White_Space). -/
def isWhitespace (c : Char) : Bool :=
  let n := c.toNat
  (9 ≤ n && n ≤ 13) || n == 0x20 || n == 0x85 || n == 0xA0 || n == 0x1680 || (0x2000 ≤ n && n ≤ 0x200A) ||
    n == 0x2028 || n == 0x2029 || n == 0x202F || n == 0x205F || n == 0x3000

theorem isWhitespace_of_bounds {c : Char} (hlow : 33 ≤ c.toNat) (hhigh : c.toNat ≤ 126) : isWhitespace c = false := by
  simp only [isWhitespace, Bool.or_eq_false_iff, Bool.and_eq_false_iff, decide_eq_false_iff_not, beq_eq_false_iff_ne]
  omega

theorem isAlphanum_bounds {c : Char} (h : c.isAlphanum = true) : 48 ≤ c.toNat ∧ c.toNat ≤ 122 := by
  simp only [Char.isAlphanum, Char.isAlpha, Char.isUpper, Char.isLower, Char.isDigit, Bool.or_eq_true,
    Bool.and_eq_true, decide_eq_true_eq, UInt32.le_iff_toNat_le, ge_iff_le] at h
  have hval : c.val.toNat = c.toNat := rfl
  simp at h
  omega

/-- `str::trim`. -/
def trim (s : String) : String :=
  .ofList ((s.toList.dropWhile isWhitespace).reverse.dropWhile isWhitespace).reverse

theorem mem_dropWhile {p : Char → Bool} {cs : List Char} {c : Char} (hc : c ∈ cs) (hp : p c = false) :
    c ∈ cs.dropWhile p := by
  induction cs with
  | nil => cases hc
  | cons a cs ih =>
    rw [List.dropWhile_cons]
    split
    · rename_i ha
      rcases List.mem_cons.1 hc with rfl | hc
      · rw [hp] at ha
        cases ha
      · exact ih hc
    · exact hc

theorem mem_trim {s : String} {c : Char} (hc : c ∈ s.toList) (hp : isWhitespace c = false) : c ∈ (trim s).toList := by
  rw [trim, String.toList_ofList, List.mem_reverse]
  exact mem_dropWhile (List.mem_reverse.2 (mem_dropWhile hc hp)) hp

theorem trim_ne_empty_iff {s : String} : trim s ≠ "" ↔ ∃ c ∈ s.toList, isWhitespace c = false := by
  constructor
  · intro h
    by_contra hall
    simp only [not_exists, not_and, Bool.not_eq_false] at hall
    apply h
    rw [trim, List.dropWhile_eq_nil_iff.2 hall]
    rfl
  · rintro ⟨c, hc, hp⟩ h
    have := mem_trim hc hp
    rw [h] at this
    cases this

theorem trim_trim_ne_empty {s : String} (h : trim s ≠ "") : trim (trim s) ≠ "" := by
  obtain ⟨c, hc, hp⟩ := trim_ne_empty_iff.1 h
  exact trim_ne_empty_iff.2 ⟨c, mem_trim hc hp, hp⟩

theorem trim_of_forall {s : String} (h : ∀ c ∈ s.toList, isWhitespace c = false) : trim s = s := by
  have hdrop {cs : List Char} (h : ∀ c ∈ cs, isWhitespace c = false) : cs.dropWhile isWhitespace = cs := by
    cases cs with
    | nil => rfl
    | cons c cs => rw [List.dropWhile_cons_of_neg (by simp [h c List.mem_cons_self])]
  rw [trim, hdrop h, hdrop fun c hc => h c (List.mem_reverse.1 hc), List.reverse_reverse, String.ofList_toList]

/-- Drop `pat` from the front as often as it is there; `fuel` bounds the rounds. -/
def dropPrefixes (pat : List Char) : Nat → List Char → List Char
  | 0, cs => cs
  | fuel + 1, cs => if pat.isPrefixOf cs then dropPrefixes pat fuel (cs.drop pat.length) else cs

/-- `str::trim_end_matches` with a nonempty string pattern. -/
def trimEndMatches (s pat : String) : String :=
  .ofList (dropPrefixes pat.toList.reverse s.toList.length s.toList.reverse).reverse

/-- `str::strip_prefix`. -/
def stripPrefix (s pat : String) : Option String :=
  if pat.toList.isPrefixOf s.toList then some (.ofList (s.toList.drop pat.toList.length)) else none

def startsWith (s pat : String) : Bool := pat.toList.isPrefixOf s.toList

/-- `s.split(c).next().unwrap_or("")`: what comes before the first `c`. -/
def before (s : String) (c : Char) : String := .ofList (s.toList.takeWhile (· != c))

/-- `str::split(c)`. -/
def splitOn (c : Char) : List Char → List (List Char)
  | [] => [[]]
  | a :: cs =>
    if a = c then [] :: splitOn c cs
    else
      match splitOn c cs with
      | [] => [[a]]
      | part :: parts => (a :: part) :: parts

theorem splitOn_of_notMem {c : Char} {cs : List Char} (h : c ∉ cs) : splitOn c cs = [cs] := by
  induction cs with
  | nil => rfl
  | cons a cs ih =>
    rw [List.mem_cons, not_or] at h
    rw [splitOn, if_neg (Ne.symm h.1), ih h.2]

theorem splitOn_append {c : Char} {cs : List Char} (h : c ∉ cs) (rest : List Char) :
    splitOn c (cs ++ c :: rest) = cs :: splitOn c rest := by
  induction cs with
  | nil => rw [List.nil_append, splitOn, if_pos rfl]
  | cons a cs ih =>
    rw [List.mem_cons, not_or] at h
    rw [List.cons_append, splitOn, if_neg (Ne.symm h.1), ih h.2]

theorem splitOn_ne_nil (c : Char) (cs : List Char) : splitOn c cs ≠ [] := by
  cases cs with
  | nil => exact List.cons_ne_nil _ _
  | cons a cs =>
    rw [splitOn]
    split
    · exact List.cons_ne_nil _ _
    · split <;> exact List.cons_ne_nil _ _

theorem intercalate_splitOn (c : Char) (cs : List Char) : [c].intercalate (splitOn c cs) = cs := by
  induction cs with
  | nil => rfl
  | cons a cs ih =>
    rw [splitOn]
    split
    · rename_i ha
      rw [List.intercalate_cons_of_ne_nil (splitOn_ne_nil c cs), ih, ha]
      rfl
    · split
      · rename_i hnil
        exact absurd hnil (splitOn_ne_nil c cs)
      · rename_i part parts hparts
        rw [hparts] at ih
        conv_rhs => rw [← ih]
        cases parts with
        | nil => simp
        | cons part' parts => simp [List.intercalate_cons_cons]

theorem mem_intercalate {c d : Char} {parts : List (List Char)} (h : d ∈ [c].intercalate parts) :
    d = c ∨ ∃ part ∈ parts, d ∈ part := by
  induction parts with
  | nil => cases h
  | cons part parts ih =>
    cases parts with
    | nil => exact .inr ⟨part, List.mem_cons_self, by rwa [List.intercalate_singleton] at h⟩
    | cons part' parts =>
      rw [List.intercalate_cons_cons, List.append_assoc] at h
      rcases List.mem_append.1 h with h | h
      · exact .inr ⟨part, List.mem_cons_self, h⟩
      rcases List.mem_append.1 h with h | h
      · exact .inl (List.mem_singleton.1 h)
      · rcases ih h with h | ⟨p, hp, hd⟩
        · exact .inl h
        · exact .inr ⟨p, List.mem_cons_of_mem _ hp, hd⟩

theorem splitOn_intercalate {c : Char} {parts : List (List Char)} (hne : parts ≠ []) (h : ∀ part ∈ parts, c ∉ part) :
    splitOn c ([c].intercalate parts) = parts := by
  induction parts with
  | nil => exact absurd rfl hne
  | cons part parts ih =>
    rw [List.forall_mem_cons] at h
    cases parts with
    | nil => rw [List.intercalate_singleton, splitOn_of_notMem h.1]
    | cons part' parts =>
      rw [List.intercalate_cons_cons, List.append_assoc, List.singleton_append, splitOn_append h.1,
        ih (List.cons_ne_nil _ _) h.2]

/-- `str::split_once(c)`. -/
def splitOnce (c : Char) (cs : List Char) : Option (List Char × List Char) :=
  match cs.dropWhile (· != c) with
  | [] => none
  | _ :: rest => some (cs.takeWhile (· != c), rest)

theorem splitOnce_append {c : Char} {cs : List Char} (h : c ∉ cs) (rest : List Char) :
    (cs ++ c :: rest).takeWhile (· != c) = cs ∧ splitOnce c (cs ++ c :: rest) = some (cs, rest) := by
  have hne : ∀ a ∈ cs, (a != c) = true := by
    intro a ha
    rw [bne_iff_ne]
    rintro rfl
    exact h ha
  rw [splitOnce, List.dropWhile_append_of_pos hne, List.takeWhile_append_of_pos hne]
  simp

/-- `str::split_whitespace`. -/
def splitWhitespace : List Char → List (List Char)
  | [] => []
  | c :: cs =>
    if isWhitespace c then splitWhitespace cs
    else
      match cs, splitWhitespace cs with
      | d :: _, part :: parts => if isWhitespace d then [c] :: part :: parts else (c :: part) :: parts
      | _, parts => [c] :: parts

theorem splitWhitespace_cons {c : Char} (hc : isWhitespace c = false) (cs : List Char) :
    splitWhitespace (c :: cs) =
      match cs, splitWhitespace cs with
      | d :: _, part :: parts => if isWhitespace d then [c] :: part :: parts else (c :: part) :: parts
      | _, parts => [c] :: parts := by
  rw [splitWhitespace.eq_def]
  dsimp only
  rw [hc, if_neg Bool.false_ne_true]

theorem splitWhitespace_word {word : List Char} (h : ∀ c ∈ word, isWhitespace c = false) (hne : word ≠ []) :
    splitWhitespace word = [word] ∧
      ∀ rest, splitWhitespace (word ++ ' ' :: rest) = word :: splitWhitespace rest := by
  induction word with
  | nil => exact absurd rfl hne
  | cons c word ih =>
    rw [List.forall_mem_cons] at h
    cases word with
    | nil =>
      refine ⟨splitWhitespace_cons h.1 [], fun rest => ?_⟩
      have hspace : splitWhitespace (' ' :: rest) = splitWhitespace rest := by
        rw [splitWhitespace.eq_def]
        exact if_pos rfl
      rw [List.singleton_append, splitWhitespace_cons h.1, hspace]
      cases splitWhitespace rest with
      | nil => rfl
      | cons part parts => exact if_pos rfl
    | cons d word =>
      obtain ⟨hword, happend⟩ := ih h.2 (List.cons_ne_nil _ _)
      have hd : ¬ isWhitespace d = true := by rw [h.2 d List.mem_cons_self]; exact Bool.false_ne_true
      constructor
      · rw [splitWhitespace_cons h.1, hword]
        exact if_neg hd
      · intro rest
        rw [List.cons_append, splitWhitespace_cons h.1, happend]
        exact if_neg hd

/-- `str::lines`: a line ending is a LF or a CRLF, and the text after the last one is a line unless it is
empty. -/
def lines (s : String) : List String :=
  let parts := splitOn '\n' s.toList
  let chomp := fun line : List Char => if line.getLast? == some '\r' then line.dropLast else line
  (parts.dropLast.map chomp ++ (parts.getLast?.toList.filter (!·.isEmpty))).map String.ofList

def stripSuffix (s suffix : String) : Option String :=
  if suffix.toList.isSuffixOf s.toList then some (.ofList (s.toList.take (s.toList.length - suffix.toList.length)))
  else none

def endsWith (s suffix : String) : Bool := suffix.toList.isSuffixOf s.toList

theorem stripSuffix_append (name suffix : String) : stripSuffix (name ++ suffix) suffix = some name := by
  rw [stripSuffix, String.toList_append, if_pos (List.isSuffixOf_iff_suffix.2 (List.suffix_append _ _)),
    List.length_append, Nat.add_sub_cancel, List.take_left, String.ofList_toList]

theorem endsWith_append (name suffix : String) : endsWith (name ++ suffix) suffix = true := by
  rw [endsWith, String.toList_append, List.isSuffixOf_iff_suffix]
  exact List.suffix_append _ _

def toAsciiLowercase (s : String) : String := .ofList (s.toList.map Char.toLower)

theorem toLower_eq_iff {c d : Char} (hd : d.isAlpha = false) : c.toLower = d ↔ c = d := by
  constructor
  · rintro rfl
    rw [Char.isAlpha_toLower_eq_isAlpha] at hd
    refine (Char.toLower_eq_of_not_isUpper fun hupper => ?_).symm
    rw [Char.isAlpha, hupper, Bool.true_or] at hd
    cases hd
  · rintro rfl
    refine Char.toLower_eq_of_not_isUpper fun hupper => ?_
    rw [Char.isAlpha, hupper, Bool.true_or] at hd
    cases hd

def isAscii (s : String) : Bool := s.toList.all fun c => c.toNat < 128

def isAsciiHexdigit (c : Char) : Bool := c.isDigit || ('a' ≤ c && c ≤ 'f') || ('A' ≤ c && c ≤ 'F')

/-- One character of the `Debug` form of a string. -/
def debugChar (c : Char) : List Char :=
  match c with
  | '"' => ['\\', '"']
  | '\\' => ['\\', '\\']
  | '\n' => ['\\', 'n']
  | '\r' => ['\\', 'r']
  | '\t' => ['\\', 't']
  | '\x00' => ['\\', '0']
  | c =>
    if c.toNat < 32 || c.toNat = 127 then
      ['\\', 'u', '\x7b'] ++ Nat.toDigits 16 c.toNat ++ ['\x7d']
    else [c]

/-- The `Debug` form of a string: quoted, with quotes, backslashes and ASCII control characters escaped. Rust escapes
other characters too, those that do not print and those that extend a grapheme: messages that name a string with one
are left out. -/
def debug (s : String) : String := .ofList ('"' :: s.toList.flatMap debugChar ++ ['"'])

end Text

end OpenProxy
