import OpenProxy.Config

/-!
# The grammar of locales (`canonical_locale` of `presentation.rs`)

A locale is a language, maybe a script and maybe a region. Its parts are told apart by their lengths alone, so a
spelling has one reading, and all spellings of a locale that differ in case have the same canonical one.
-/

namespace OpenProxy.Locale

open Text

def Letters (n : Nat) (subtag : List Char) : Prop := subtag.length = n ∧ ∀ c ∈ subtag, c.isAlpha = true

def Digits (n : Nat) (subtag : List Char) : Prop := subtag.length = n ∧ ∀ c ∈ subtag, c.isDigit = true

/-- The two are equal but for the case of ASCII letters. -/
def SameLetters (cs cs' : List Char) : Prop := cs.map Char.toLower = cs'.map Char.toLower

structure LanguageTag where
  language : List Char
  script : Option (List Char) := none
  region : Option (List Char) := none
  languageOk : Letters 2 language ∨ Letters 3 language
  scriptOk : ∀ subtag ∈ script, Letters 4 subtag := by simp
  regionOk : ∀ subtag ∈ region, Letters 2 subtag ∨ Digits 3 subtag := by simp

namespace LanguageTag

def subtags (tag : LanguageTag) : List (List Char) := tag.language :: (tag.script.toList ++ tag.region.toList)

def spelling (tag : LanguageTag) : String := .ofList (['-'].intercalate tag.subtags)

/-- As in `zh-Hant-TW`. -/
structure Cased (tag : LanguageTag) : Prop where
  language : ∀ c ∈ tag.language, c.isLower = true
  script : ∀ subtag ∈ tag.script, ∃ c cs, subtag = c :: cs ∧ c.isUpper = true ∧ ∀ c ∈ cs, c.isLower = true
  region : ∀ subtag ∈ tag.region, ∀ c ∈ subtag, c.isUpper = true ∨ c.isDigit = true

end LanguageTag

/-! ### Letters and their case -/

section
variable {n : Nat} {subtag subtag' : List Char}

theorem letters_iff : (subtag.length == n && subtag.all Char.isAlpha) = true ↔ Letters n subtag := by
  simp [Letters, List.all_eq_true]

theorem digits_iff : (subtag.length == n && subtag.all Char.isDigit) = true ↔ Digits n subtag := by
  simp [Digits, List.all_eq_true]

theorem SameLetters.length_eq (h : SameLetters subtag subtag') : subtag.length = subtag'.length := by
  simpa using congrArg List.length h

theorem SameLetters.letters (h : SameLetters subtag subtag') (hletters : Letters n subtag) : Letters n subtag' := by
  refine ⟨by rw [← h.length_eq, hletters.1], fun c hc => ?_⟩
  have hlower : c.toLower ∈ subtag.map Char.toLower := h ▸ List.mem_map_of_mem hc
  obtain ⟨c', hc', heq⟩ := List.mem_map.1 hlower
  rw [← Char.isAlpha_toLower_eq_isAlpha, ← heq, Char.isAlpha_toLower_eq_isAlpha, hletters.2 c' hc']

theorem isAlpha_of_isDigit {c : Char} (h : c.isDigit = true) : c.isAlpha = false := by
  simp only [Char.isDigit, Bool.and_eq_true, decide_eq_true_eq, UInt32.le_iff_toNat_le] at h
  simp only [Char.isAlpha, Char.isUpper, Char.isLower, Bool.or_eq_false_iff, Bool.and_eq_false_iff,
    decide_eq_false_iff_not, UInt32.le_iff_toNat_le, ge_iff_le] at h ⊢
  simp at h ⊢
  omega

theorem map_eq_self {f : Char → Char} {cs : List Char} (h : ∀ c ∈ cs, f c = c) : cs.map f = cs :=
  (List.map_congr_left h).trans (List.map_id' cs)

/-- Digits have no case. -/
theorem SameLetters.digits (h : SameLetters subtag subtag') (hdigits : Digits n subtag) : subtag' = subtag := by
  have hlower : subtag.map Char.toLower = subtag :=
    map_eq_self fun c hc => (toLower_eq_iff (isAlpha_of_isDigit (hdigits.2 c hc))).2 rfl
  rw [SameLetters, hlower] at h
  rw [h]
  refine (map_eq_self fun c hc => ?_).symm
  have hdigit : c.toLower.isDigit = true := hdigits.2 _ (h ▸ List.mem_map_of_mem hc)
  exact ((toLower_eq_iff (isAlpha_of_isDigit hdigit)).1 rfl).symm

theorem Digits.map_toUpper (h : Digits n subtag) : subtag.map Char.toUpper = subtag := by
  refine map_eq_self fun c hc => Char.toUpper_eq_of_not_isLower fun hlower => ?_
  have halpha := isAlpha_of_isDigit (h.2 c hc)
  rw [Char.isAlpha, hlower, Bool.or_true] at halpha
  cases halpha

theorem Letters.map_toLower (h : Letters n subtag) : Letters n (subtag.map Char.toLower) :=
  SameLetters.letters (by simp [SameLetters]) h

theorem Letters.map_toUpper (h : Letters n subtag) : Letters n (subtag.map Char.toUpper) :=
  SameLetters.letters (by simp [SameLetters]) h

theorem sameLetters_titleCase (subtag : List Char) : SameLetters (titleCase subtag) subtag := by
  cases subtag with
  | nil => rfl
  | cons c subtag => simp [SameLetters, titleCase]

theorem Letters.titleCase (h : Letters n subtag) : Letters n (titleCase subtag) :=
  SameLetters.letters (sameLetters_titleCase subtag).symm h

/-! ### What a tag is spelled like -/

namespace LanguageTag
variable (tag : LanguageTag)

def canonical : LanguageTag where
  language := tag.language.map Char.toLower
  script := tag.script.map titleCase
  region := tag.region.map (·.map Char.toUpper)
  languageOk := tag.languageOk.imp Letters.map_toLower Letters.map_toLower
  scriptOk := by
    intro subtag h
    obtain ⟨script, hscript, rfl⟩ := Option.map_eq_some_iff.1 h
    exact (tag.scriptOk script hscript).titleCase
  regionOk := by
    intro subtag h
    obtain ⟨region, hregion, rfl⟩ := Option.map_eq_some_iff.1 h
    exact (tag.regionOk region hregion).imp Letters.map_toUpper fun h => by rwa [h.map_toUpper]

theorem isAlphanum_of_mem {subtag : List Char} (h : subtag ∈ tag.subtags) {c : Char} (hc : c ∈ subtag) :
    c.isAlphanum = true := by
  rw [Char.isAlphanum, Bool.or_eq_true]
  rcases List.mem_cons.1 h with rfl | h
  · exact .inl (tag.languageOk.elim (fun h => h.2 c hc) fun h => h.2 c hc)
  rcases List.mem_append.1 h with h | h
  · exact .inl ((tag.scriptOk subtag (by simpa using h)).2 c hc)
  · exact (tag.regionOk subtag (by simpa using h)).imp (fun h => h.2 c hc) fun h => h.2 c hc

theorem splitOn_spelling : splitOn '-' tag.spelling.toList = tag.subtags := by
  rw [spelling, String.toList_ofList]
  refine splitOn_intercalate (List.cons_ne_nil _ _) fun subtag h hc => ?_
  exact absurd (tag.isAlphanum_of_mem h hc) (by decide)

theorem spelling_eq {s : String} (h : splitOn '-' s.toList = tag.subtags) : tag.spelling = s := by
  rw [spelling, ← h, intercalate_splitOn, String.ofList_toList]

theorem mem_spelling {c : Char} (h : c ∈ tag.spelling.toList) : c.isAlphanum = true ∨ c = '-' := by
  rw [spelling, String.toList_ofList] at h
  rcases mem_intercalate h with rfl | ⟨subtag, hsubtag, hc⟩
  · exact .inr rfl
  · exact .inl (tag.isAlphanum_of_mem hsubtag hc)

theorem plain_of_mem {c : Char} (h : c ∈ tag.spelling.toList) : 45 ≤ c.toNat ∧ c.toNat ≤ 122 := by
  rcases tag.mem_spelling h with h | rfl
  · have := isAlphanum_bounds h
    omega
  · decide

/-- The source's own checks before it looks at the parts. -/
theorem spelling_admissible :
    (tag.spelling.toList = [] || trim tag.spelling ≠ tag.spelling || !isAscii tag.spelling) = false := by
  have hne : tag.spelling.toList ≠ [] := by
    intro h
    have hsplit := tag.splitOn_spelling
    rw [h] at hsplit
    have hlanguage := (List.cons.inj hsplit).1
    rcases tag.languageOk with ⟨hlen, -⟩ | ⟨hlen, -⟩ <;> simp [← hlanguage] at hlen
  have htrim : trim tag.spelling = tag.spelling :=
    trim_of_forall fun c hc => isWhitespace_of_bounds (by have := tag.plain_of_mem hc; omega)
      (by have := tag.plain_of_mem hc; omega)
  have hascii : isAscii tag.spelling = true := by
    rw [isAscii, List.all_eq_true]
    intro c hc
    have := tag.plain_of_mem hc
    simp only [decide_eq_true_eq]
    omega
  simp [hne, htrim, hascii]

end LanguageTag

end

/-! ### What is accepted -/

/-- The second part of a locale, if it is a script. -/
def readScript (canonical : List Char) : List (List Char) → List Char × List (List Char)
  | script :: rest =>
    if script.length == 4 && script.all Char.isAlpha then (canonical ++ '-' :: titleCase script, rest)
    else (canonical, script :: rest)
  | [] => (canonical, [])

/-- The part that is left has to be a region. -/
def readRegion (canonical : List Char) : List (List Char) → Except LocaleError String
  | [] => .ok (.ofList canonical)
  | [region] =>
    if region.length == 2 && region.all Char.isAlpha then
      .ok (.ofList (canonical ++ '-' :: region.map Char.toUpper))
    else if region.length == 3 && region.all Char.isDigit then .ok (.ofList (canonical ++ '-' :: region))
    else .error .invalid
  | _ => .error .invalid

theorem canonicalLocale_eq {s : String} {language : List Char} {rest : List (List Char)}
    (hadmissible : (s.toList = [] || trim s ≠ s || !isAscii s) = false)
    (hparts : splitOn '-' s.toList = language :: rest) (hlanguage : Letters 2 language ∨ Letters 3 language) :
    canonicalLocale s =
      readRegion (readScript (language.map Char.toLower) rest).1 (readScript (language.map Char.toLower) rest).2 := by
  have hok : ((language.length == 2 || language.length == 3) && language.all Char.isAlpha) = true := by
    simp only [Bool.and_or_distrib_right, Bool.or_eq_true, letters_iff]
    exact hlanguage
  rw [canonicalLocale, hadmissible, hparts]
  simp only [hok, Bool.not_true, Bool.false_eq_true, if_false]
  cases rest <;> rfl

theorem readRegion_of_letters {canonical region : List Char} (h : Letters 2 region) :
    readRegion canonical [region] = .ok (.ofList (canonical ++ '-' :: region.map Char.toUpper)) := by
  rw [readRegion, if_pos (letters_iff.2 h)]

theorem readRegion_of_digits {canonical region : List Char} (h : Digits 3 region) :
    readRegion canonical [region] = .ok (.ofList (canonical ++ '-' :: region.map Char.toUpper)) := by
  have hlen : ¬ Letters 2 region := fun h' => by
    have := h.1
    have := h'.1
    omega
  rw [readRegion, if_neg (letters_iff.not.2 hlen), if_pos (digits_iff.2 h), h.map_toUpper]

theorem readRegion_eq_ok {canonical : List Char} {rest : List (List Char)} {c : String}
    (h : readRegion canonical rest = .ok c) : ∃ region : Option (List Char),
      rest = region.toList ∧ ∀ subtag ∈ region, Letters 2 subtag ∨ Digits 3 subtag := by
  match rest with
  | [] => exact ⟨none, rfl, by simp⟩
  | [region] =>
    refine ⟨some region, rfl, ?_⟩
    intro subtag hsubtag
    obtain rfl := Option.some.inj hsubtag
    rw [readRegion] at h
    split at h
    · rename_i hletters
      exact .inl (letters_iff.1 hletters)
    split at h
    · rename_i hdigits
      exact .inr (digits_iff.1 hdigits)
    · cases h
  | _ :: _ :: _ => cases h

theorem readScript_of_letters {canonical script : List Char} {rest : List (List Char)} (h : Letters 4 script) :
    readScript canonical (script :: rest) = (canonical ++ '-' :: titleCase script, rest) := by
  rw [readScript, if_pos (letters_iff.2 h)]

theorem readScript_of_not_letters {canonical : List Char} {rest : List (List Char)}
    (h : ∀ script ∈ rest.head?, ¬ Letters 4 script) : readScript canonical rest = (canonical, rest) := by
  cases rest with
  | nil => rfl
  | cons script rest => rw [readScript, if_neg (letters_iff.not.2 (h script rfl))]

theorem canonicalLocale_spelling (tag : LanguageTag) : canonicalLocale tag.spelling = .ok tag.canonical.spelling := by
  rw [canonicalLocale_eq tag.spelling_admissible tag.splitOn_spelling tag.languageOk]
  obtain ⟨language, script, region, -, hscript, hregion⟩ := tag
  have hread (canonical : List Char) : readRegion canonical region.toList =
      .ok (.ofList (canonical ++ (region.map fun region => '-' :: region.map Char.toUpper).getD [])) := by
    cases region with
    | none => rw [Option.map_none, Option.getD_none, List.append_nil]; rfl
    | some region => exact (hregion region rfl).elim readRegion_of_letters readRegion_of_digits
  cases script with
  | none =>
    have hnone : ∀ script ∈ region.toList.head?, ¬ Letters 4 script := by
      intro script hmem hletters
      have hlen := hletters.1
      rcases hregion script (by simpa using hmem) with h | h <;> have := h.1 <;> omega
    simp only [Option.toList_none, List.nil_append, readScript_of_not_letters hnone, hread]
    cases region <;> simp [LanguageTag.canonical, LanguageTag.spelling, LanguageTag.subtags]
  | some script =>
    simp only [Option.toList_some, List.singleton_append, readScript_of_letters (hscript script rfl), hread]
    cases region <;> simp [LanguageTag.canonical, LanguageTag.spelling, LanguageTag.subtags]

theorem canonicalLocale_cases (s : String) :
    canonicalLocale s = .error .invalid ∨
      ∃ language rest, splitOn '-' s.toList = language :: rest ∧ (Letters 2 language ∨ Letters 3 language) ∧
        canonicalLocale s =
          readRegion (readScript (language.map Char.toLower) rest).1 (readScript (language.map Char.toLower) rest).2 := by
  cases hadmissible : (s.toList = [] || trim s ≠ s || !isAscii s) with
  | true =>
    left
    rw [canonicalLocale, hadmissible]
    rfl
  | false =>
    cases hparts : splitOn '-' s.toList with
    | nil => exact absurd hparts (splitOn_ne_nil _ _)
    | cons language rest =>
      by_cases hlanguage : Letters 2 language ∨ Letters 3 language
      · exact .inr ⟨language, rest, rfl, hlanguage, canonicalLocale_eq hadmissible hparts hlanguage⟩
      · left
        have hok : ((language.length == 2 || language.length == 3) && language.all Char.isAlpha) = false := by
          rw [← Bool.not_eq_true]
          simpa only [Bool.and_or_distrib_right, Bool.or_eq_true, letters_iff] using hlanguage
        rw [canonicalLocale, hadmissible, hparts]
        simp only [hok, Bool.not_false, if_true, Bool.false_eq_true, if_false]

theorem subtags_of_ok {canonical : List Char} {rest : List (List Char)} {c : String}
    (h : readRegion (readScript canonical rest).1 (readScript canonical rest).2 = .ok c) :
    ∃ script region : Option (List Char), rest = script.toList ++ region.toList ∧
      (∀ subtag ∈ script, Letters 4 subtag) ∧ ∀ subtag ∈ region, Letters 2 subtag ∨ Digits 3 subtag := by
  by_cases hscript : ∃ script ∈ rest.head?, Letters 4 script
  · obtain ⟨script, hhead, hletters⟩ := hscript
    obtain ⟨rest, rfl⟩ := List.head?_eq_some_iff.1 hhead
    rw [readScript_of_letters hletters] at h
    obtain ⟨region, hrest, hregion⟩ := readRegion_eq_ok h
    exact ⟨some script, region, congrArg (script :: ·) hrest, by simpa using hletters, hregion⟩
  · have hnone : ∀ script ∈ rest.head?, ¬ Letters 4 script := fun script hhead hletters =>
      hscript ⟨script, hhead, hletters⟩
    rw [readScript_of_not_letters hnone] at h
    obtain ⟨region, hrest, hregion⟩ := readRegion_eq_ok h
    exact ⟨none, region, hrest, by simp, hregion⟩

theorem exists_tag {s c : String} (h : canonicalLocale s = .ok c) : ∃ tag : LanguageTag, tag.spelling = s := by
  rcases canonicalLocale_cases s with herror | ⟨language, rest, hparts, hlanguage, heq⟩
  · rw [h] at herror
    cases herror
  · obtain ⟨script, region, rfl, hscript, hregion⟩ := subtags_of_ok (heq.symm.trans h)
    exact ⟨⟨language, script, region, hlanguage, hscript, hregion⟩, LanguageTag.spelling_eq _ hparts⟩

/-- There is one way to refuse a spelling. -/
theorem eq_invalid {s : String} {e : LocaleError} (h : canonicalLocale s = .error e) : e = .invalid := by
  rcases canonicalLocale_cases s with herror | ⟨language, rest, -, -, heq⟩
  · rw [h] at herror
    exact Except.error.inj herror
  · rw [h] at heq
    unfold readRegion at heq
    repeat' split at heq
    all_goals cases heq
    all_goals rfl

theorem canonicalLocale_eq_ok_iff {s c : String} :
    canonicalLocale s = .ok c ↔ ∃ tag : LanguageTag, tag.spelling = s ∧ tag.canonical.spelling = c := by
  constructor
  · intro h
    obtain ⟨tag, rfl⟩ := exists_tag h
    rw [canonicalLocale_spelling] at h
    exact ⟨tag, rfl, Except.ok.inj h⟩
  · rintro ⟨tag, rfl, rfl⟩
    exact canonicalLocale_spelling tag

/-! ### Case -/

section
variable {cs cs' : List Char}

theorem SameLetters.map_toUpper (h : SameLetters cs cs') : cs.map Char.toUpper = cs'.map Char.toUpper := by
  have hupper (cs : List Char) : cs.map Char.toUpper = (cs.map Char.toLower).map Char.toUpper := by simp
  rw [hupper cs, h, ← hupper]

theorem SameLetters.titleCase (h : SameLetters cs cs') : titleCase cs = titleCase cs' := by
  have htitle (cs : List Char) : OpenProxy.titleCase cs = OpenProxy.titleCase (cs.map Char.toLower) := by
    cases cs <;> simp [OpenProxy.titleCase]
  rw [htitle cs, h, ← htitle]

/-- Texts of the same letters are separated at the same places. -/
theorem map_splitOn (cs : List Char) :
    (splitOn '-' cs).map (·.map Char.toLower) = splitOn '-' (cs.map Char.toLower) := by
  induction cs with
  | nil => rfl
  | cons c cs ih =>
    rw [List.map_cons, splitOn, splitOn, ← ih]
    by_cases hc : c = '-'
    · rw [if_pos hc, if_pos ((toLower_eq_iff (by decide)).2 hc), List.map_cons, List.map_nil]
    · rw [if_neg hc, if_neg ((toLower_eq_iff (by decide)).not.2 hc)]
      cases splitOn '-' cs <;> rfl

theorem exists_option {subtags : List (List Char)} {o : Option (List Char)}
    (h : subtags.map (·.map Char.toLower) = o.toList.map (·.map Char.toLower)) :
    ∃ o' : Option (List Char), subtags = o'.toList ∧ Option.Rel SameLetters o o' := by
  match subtags, o with
  | [], none => exact ⟨none, rfl, .none⟩
  | [], some _ => cases h
  | [subtag'], some subtag => exact ⟨some subtag', rfl, .some (List.cons.inj h).1.symm⟩
  | _ :: _, none => cases h
  | _ :: _ :: _, some _ => simp at h

theorem exists_of_rel {o o' : Option (List Char)} (h : Option.Rel SameLetters o o') {subtag' : List Char}
    (h' : subtag' ∈ o') : ∃ subtag ∈ o, SameLetters subtag subtag' := by
  cases h with
  | none => cases h'
  | some hsame =>
    obtain rfl := Option.some.inj h'
    exact ⟨_, rfl, hsame⟩

theorem map_eq_of_rel {o o' : Option (List Char)} {f : List Char → List Char} (h : Option.Rel SameLetters o o')
    (hf : ∀ cs cs', SameLetters cs cs' → f cs = f cs') : o.map f = o'.map f := by
  cases h with
  | none => rfl
  | some hsame => exact congrArg some (hf _ _ hsame)

end

namespace LanguageTag

/-- Whatever has the letters of a locale is one. -/
theorem exists_of_sameLetters {tag : LanguageTag} {s : String} (h : SameLetters tag.spelling.toList s.toList) :
    ∃ tag' : LanguageTag, tag'.spelling = s ∧ tag'.canonical = tag.canonical := by
  have hparts : (splitOn '-' s.toList).map (·.map Char.toLower) = tag.subtags.map (·.map Char.toLower) := by
    rw [map_splitOn, ← h, ← map_splitOn, splitOn_spelling]
  obtain ⟨language, rest, hsplit, hlanguage, hrest⟩ := List.map_eq_cons_iff.1 hparts
  rw [List.map_append] at hrest
  obtain ⟨scripts, regions, rfl, hscripts, hregions⟩ := List.map_eq_append_iff.1 hrest
  obtain ⟨script, rfl, hscript⟩ := exists_option hscripts
  obtain ⟨region, rfl, hregion⟩ := exists_option hregions
  have hsame : SameLetters tag.language language := hlanguage.symm
  let tag' : LanguageTag := {
    language, script, region
    languageOk := tag.languageOk.imp hsame.letters hsame.letters
    scriptOk := fun subtag h => by
      obtain ⟨subtag', h', hsame⟩ := exists_of_rel hscript h
      exact hsame.letters (tag.scriptOk subtag' h')
    regionOk := fun subtag h => by
      obtain ⟨subtag', h', hsame⟩ := exists_of_rel hregion h
      refine (tag.regionOk subtag' h').imp hsame.letters fun hdigits => ?_
      rwa [hsame.digits hdigits] }
  refine ⟨tag', tag'.spelling_eq hsplit, ?_⟩
  simp only [canonical, LanguageTag.mk.injEq]
  exact ⟨hlanguage, (map_eq_of_rel hscript fun _ _ h => h.titleCase).symm,
    (map_eq_of_rel hregion fun _ _ h => h.map_toUpper).symm⟩

theorem canonical_canonical (tag : LanguageTag) : tag.canonical.canonical = tag.canonical := by
  have htitle (cs : List Char) : titleCase (titleCase cs) = titleCase cs := (sameLetters_titleCase cs).titleCase
  simp [canonical, Function.comp_def, htitle]

theorem cased_canonical (tag : LanguageTag) : tag.canonical.Cased where
  language c hc := by
    obtain ⟨c, halpha, rfl⟩ := List.mem_map.1 hc
    rw [Char.isLower_toLower_eq_isAlpha]
    exact tag.languageOk.elim (fun h => h.2 c halpha) fun h => h.2 c halpha
  script subtag h := by
    obtain ⟨script, hscript, rfl⟩ := Option.map_eq_some_iff.1 h
    obtain ⟨hlen, halpha⟩ := tag.scriptOk script hscript
    cases script with
    | nil => cases hlen
    | cons c script =>
      rw [List.forall_mem_cons] at halpha
      refine ⟨c.toUpper, script.map Char.toLower, rfl, ?_, fun c' hc' => ?_⟩
      · rw [Char.isUpper_toUpper_eq_isAlpha, halpha.1]
      · obtain ⟨c', hmem, rfl⟩ := List.mem_map.1 hc'
        rw [Char.isLower_toLower_eq_isAlpha, halpha.2 c' hmem]
  region subtag h c hc := by
    obtain ⟨region, hregion, rfl⟩ := Option.map_eq_some_iff.1 h
    rcases tag.regionOk region hregion with hletters | hdigits
    · obtain ⟨c, hmem, rfl⟩ := List.mem_map.1 hc
      exact .inl (by rw [Char.isUpper_toUpper_eq_isAlpha, hletters.2 c hmem])
    · rw [hdigits.map_toUpper] at hc
      exact .inr (hdigits.2 c hc)

theorem sameLetters_canonical (tag : LanguageTag) : SameLetters tag.canonical.spelling.toList tag.spelling.toList := by
  have hlower (tag : LanguageTag) :
      tag.spelling.toList.map Char.toLower = ['-'].intercalate (tag.subtags.map (·.map Char.toLower)) := by
    rw [← splitOn_spelling, map_splitOn, intercalate_splitOn]
  have hoption (o : Option (List Char)) {f : List Char → List Char} (hf : ∀ cs, SameLetters (f cs) cs) :
      (o.map f).toList.map (·.map Char.toLower) = o.toList.map (·.map Char.toLower) := by
    cases o with
    | none => rfl
    | some cs => exact congrArg ([·]) (hf cs)
  have hlanguage : SameLetters (tag.language.map Char.toLower) tag.language := by simp [SameLetters]
  rw [SameLetters, hlower, hlower]
  simp only [subtags, canonical, List.map_cons, List.map_append]
  rw [hlanguage, hoption tag.script sameLetters_titleCase, hoption tag.region fun cs => by simp [SameLetters]]

end LanguageTag

/-- Just the spellings of the grammar are locales, each has one canonical spelling, which is a matter of case only, and
that is its own. -/
theorem canonicalLocale_grammar (s : String) :
    ((∃ c, canonicalLocale s = .ok c) ↔ ∃ tag : LanguageTag, tag.spelling = s) ∧
      (∀ c, canonicalLocale s = .ok c →
        toAsciiLowercase c = toAsciiLowercase s ∧ (∃ tag : LanguageTag, tag.spelling = c ∧ tag.Cased) ∧
          canonicalLocale c = .ok c) ∧
      ∀ s', toAsciiLowercase s = toAsciiLowercase s' → canonicalLocale s = canonicalLocale s' := by
  refine ⟨⟨fun ⟨c, h⟩ => exists_tag h, fun ⟨tag, h⟩ => ⟨_, h ▸ canonicalLocale_spelling tag⟩⟩, ?_, ?_⟩
  · intro c h
    obtain ⟨tag, rfl, rfl⟩ := canonicalLocale_eq_ok_iff.1 h
    refine ⟨congrArg String.ofList tag.sameLetters_canonical, ⟨tag.canonical, rfl, tag.cased_canonical⟩, ?_⟩
    rw [canonicalLocale_spelling, tag.canonical_canonical]
  · intro s' h
    have hok {s s' c : String} (hsame : SameLetters s.toList s'.toList) (hs : canonicalLocale s = .ok c) :
        canonicalLocale s' = .ok c := by
      obtain ⟨tag, rfl, rfl⟩ := canonicalLocale_eq_ok_iff.1 hs
      obtain ⟨tag', rfl, hcanonical⟩ := LanguageTag.exists_of_sameLetters hsame
      rw [canonicalLocale_spelling, hcanonical]
    have hsame : SameLetters s.toList s'.toList := String.ofList_injective h
    cases hs : canonicalLocale s with
    | ok c => exact (hok hsame hs).symm
    | error e =>
      cases hs' : canonicalLocale s' with
      | ok c =>
        rw [hok hsame.symm hs'] at hs
        cases hs
      | error e' => rw [eq_invalid hs, eq_invalid hs']

end OpenProxy.Locale
