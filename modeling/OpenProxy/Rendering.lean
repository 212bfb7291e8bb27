import OpenProxy.Exposition
import OpenProxy.Lib.Lines

/-!
# The text that the parser inverts (`parse_exposition`, `parse_labels` of `history.rs`)

The exporter writes each family of series after its `# TYPE` line. Some values of labels come from clients: whatever
they are, the quotes around them and the escapes inside tell them apart from what is around.
-/

namespace OpenProxy.Rendering

open Text

/-- One character of a label value. -/
def escapeChar (c : Char) : List Char :=
  if c = '\\' then ['\\', '\\'] else if c = '"' then ['\\', '"'] else if c = '\n' then ['\\', 'n'] else [c]

def labelText (l : String × String) : List Char :=
  l.1.toList ++ '=' :: '"' :: (l.2.toList.flatMap escapeChar ++ ['"'])

def labelsText (labels : List (String × String)) : List Char := [','].intercalate (labels.map labelText)

def seriesText (metric : String) (labels : List (String × String)) : List Char :=
  if labels = [] then metric.toList else metric.toList ++ '\x7b' :: (labelsText labels ++ ['\x7d'])

/-- What follows the name of the family in the names of its series. -/
def suffixes : PrometheusType → List String
  | .counter | .gauge => [""]
  | .histogram => ["_bucket", "_sum", "_count"]

def kindText : PrometheusType → String
  | .counter => "counter"
  | .gauge => "gauge"
  | .histogram => "histogram"

structure Sample (V : Type) where
  suffix : String
  labels : List (String × String)
  value : V
  names : ∀ l ∈ labels, validLabelName l.1.toList = true
  distinct : (labels.map (·.1)).Nodup

/-- A line that says nothing, such as the help for a family. -/
structure Remark where
  text : String
  silent : text = "" ∨ startsWith text "#" = true ∧ startsWith text "# TYPE " = false
  line : '\n' ∉ text.toList ∧ text.toList.getLast? ≠ some '\r'

structure Family (V : Type) where
  remarks : List Remark
  name : String
  kind : PrometheusType
  samples : List (Sample V)
  valid : validMetricName name = true
  parts : ∀ s ∈ samples, s.suffix ∈ suffixes kind
  nonempty : samples ≠ []

section
variable {V : Type}

def Sample.labelMap (s : Sample V) : Labels := .ofList s.labels

namespace Family
variable (f : Family V)

def metric (s : Sample V) : String := f.name ++ s.suffix

def key (s : Sample V) : MetricKey := ⟨f.metric s, s.labelMap⟩

def entries : List (MetricKey × V) := f.samples.map fun s => (f.key s, s.value)

variable (display : V → String)

def typeLine : String := "# TYPE " ++ f.name ++ " " ++ kindText f.kind

def sampleLine (s : Sample V) : String :=
  .ofList (seriesText (f.metric s) s.labels ++ ' ' :: (display s.value).toList)

def lines : List String := f.remarks.map (·.text) ++ f.typeLine :: f.samples.map (f.sampleLine display)

end Family

def render (display : V → String) (families : List (Family V)) : String :=
  .ofList (Lines.joinLines '\n' ((families.flatMap (·.lines display)).map String.toList))

/-- The numeral of a finite value reads as the value. -/
structure Written [F64 V] (parseF64 : String → Option V) (display : V → String) (v : V) : Prop where
  finite : F64.isFinite v = true
  reads : parseF64 (display v) = some v
  nonempty : display v ≠ ""
  numeral : ∀ c ∈ (display v).toList, isWhitespace c = false ∧ c ≠ '\x7d'

/-- Series of their own, in lines and in a number that the parser admits. -/
structure Renderable [F64 V] (parseF64 : String → Option V) (display : V → String) (families : List (Family V)) :
    Prop where
  written : ∀ f ∈ families, ∀ s ∈ f.samples, Written parseF64 display s.value
  distinct : (families.flatMap (·.entries)).map (·.1) |>.Nodup
  apart : ∀ f ∈ families, ∀ g ∈ families, g.kind = .histogram → ∀ suffix ∈ suffixes .histogram,
    f.name ≠ g.name ++ suffix
  short : ∀ f ∈ families, ∀ line ∈ f.lines display, byteLen line ≤ maxExpositionLineBytes
  few : (families.flatMap (·.samples)).length ≤ maxExpositionSeries

end

/-! ### Names -/

theorem isWhitespace_of_name {c : Char} (h : c.isAlphanum = true ∨ c = '_' ∨ c = ':') : isWhitespace c = false := by
  rcases h with h | rfl | rfl
  · have := isAlphanum_bounds h
    exact isWhitespace_of_bounds (by omega) (by omega)
  · rfl
  · rfl

theorem isAlphanum_of_isAlpha {c : Char} (h : c.isAlpha = true) : c.isAlphanum = true := by
  rw [Char.isAlphanum, h, Bool.true_or]

/-- A valid name starts with one of the characters that it has. -/
theorem validName_cons {first rest : Char → Bool} {name : List Char} (h : validName first rest name = true)
    (hfirst : ∀ c, first c = true → rest c = true) : ∃ c cs, name = c :: cs ∧ ∀ a ∈ name, rest a = true := by
  cases name with
  | nil => cases h
  | cons c cs =>
    rw [validName, Bool.and_eq_true, List.all_eq_true] at h
    exact ⟨c, cs, rfl, List.forall_mem_cons.2 ⟨hfirst c h.1, h.2⟩⟩

theorem validLabelName_cons {name : List Char} (h : validLabelName name = true) :
    ∃ c cs, name = c :: cs ∧ ∀ a ∈ name, (a.isAlphanum || a == '_') = true := by
  refine validName_cons h fun c hc => ?_
  rw [Bool.or_eq_true] at hc ⊢
  exact hc.imp_left isAlphanum_of_isAlpha

theorem validMetricName_cons {name : String} (h : validMetricName name = true) :
    ∃ c cs, name.toList = c :: cs ∧ ∀ a ∈ name.toList, a.isAlphanum = true ∨ a = '_' ∨ a = ':' := by
  obtain ⟨c, cs, hname, hall⟩ := validName_cons h fun c hc => by
    rw [Bool.or_eq_true, Bool.or_eq_true] at hc ⊢
    exact hc.imp_left (Or.imp_left isAlphanum_of_isAlpha)
  refine ⟨c, cs, hname, fun a ha => ?_⟩
  have := hall a ha
  rwa [Bool.or_eq_true, Bool.or_eq_true, beq_iff_eq, beq_iff_eq, or_assoc] at this

/-- The name of a part is as valid as the name of its family. -/
theorem validMetricName_append {name suffix : String} (h : validMetricName name = true)
    (hsuffix : ∀ c ∈ suffix.toList, c.isAlphanum = true ∨ c = '_' ∨ c = ':') :
    validMetricName (name ++ suffix) = true := by
  rw [validMetricName, String.toList_append]
  rw [validMetricName] at h
  cases hname : name.toList with
  | nil =>
    rw [hname] at h
    cases h
  | cons c cs =>
    rw [hname, validName, Bool.and_eq_true, List.all_eq_true] at h
    rw [List.cons_append, validName, Bool.and_eq_true, List.all_append, Bool.and_eq_true, List.all_eq_true,
      List.all_eq_true]
    refine ⟨h.1, h.2, fun a ha => ?_⟩
    have := hsuffix a ha
    rwa [Bool.or_eq_true, Bool.or_eq_true, beq_iff_eq, beq_iff_eq, or_assoc]

theorem skipWhitespace_cons {c : Char} {cs : List Char} (h : isWhitespace c = false) :
    skipWhitespace (c :: cs) = c :: cs := List.dropWhile_cons_of_neg (by simp [h])

/-! ### Labels -/

/-- The escapes bring every text back, and the closing quote is the first one that is not escaped. -/
theorem labelValue_escaped (value rest : List Char) :
    labelValue (value.flatMap escapeChar ++ '"' :: rest) = some (value, rest) := by
  induction value with
  | nil => rfl
  | cons c value ih =>
    rw [List.flatMap_cons, List.append_assoc, escapeChar]
    by_cases hbackslash : c = '\\'
    · subst hbackslash
      simp [labelValue, ih]
    by_cases hquote : c = '"'
    · subst hquote
      simp [labelValue, ih]
    by_cases hnewline : c = '\n'
    · subst hnewline
      simp [labelValue, ih]
    simp [hbackslash, hquote, hnewline, labelValue, ih]

/-- The loop after a label: a comma and the next one, or the end. -/
def afterLabel (fuel : Nat) (labels : Labels) (rest : List Char) : Option Labels :=
  match skipWhitespace rest with
  | ',' :: cs => parseLabelsLoop fuel labels cs
  | [] => some labels
  | _ => none

/-- One round of the loop. -/
theorem parseLabelsLoop_label {l : String × String} (hname : validLabelName l.1.toList = true) (fuel : Nat)
    {labels : Labels} (hlabels : labels.contains l.1 = false) (rest : List Char) :
    parseLabelsLoop (fuel + 1) labels (labelText l ++ rest) = afterLabel fuel (labels.insert l.1 l.2) rest := by
  obtain ⟨c, cs, hcons, hall⟩ := validLabelName_cons hname
  have htext : labelText l ++ rest = l.1.toList ++ '=' :: '"' :: (l.2.toList.flatMap escapeChar ++ '"' :: rest) := by
    simp [labelText]
  have hskip : skipWhitespace (labelText l ++ rest) = labelText l ++ rest := by
    have hc := hall c (hcons ▸ List.mem_cons_self)
    rw [Bool.or_eq_true, beq_iff_eq] at hc
    rw [htext, hcons, List.cons_append]
    exact skipWhitespace_cons (isWhitespace_of_name (hc.imp_right .inl))
  have htake : (labelText l ++ rest).takeWhile (fun c => c.isAlphanum || c == '_') = l.1.toList := by
    rw [htext, List.takeWhile_append_of_pos hall, List.takeWhile_cons_of_neg (by decide), List.append_nil]
  have hdrop : (labelText l ++ rest).drop l.1.toList.length =
      '=' :: '"' :: (l.2.toList.flatMap escapeChar ++ '"' :: rest) := by
    rw [htext, List.drop_left]
  have hne : labelText l ++ rest ≠ [] := by
    rw [htext, hcons]
    exact List.cons_ne_nil _ _
  rw [parseLabelsLoop, hskip]
  split
  · rename_i hnil
    exact absurd hnil hne
  dsimp only
  rw [htake, if_pos hname, hdrop]
  simp only [skipWhitespace_cons (show isWhitespace '=' = false by rfl),
    skipWhitespace_cons (show isWhitespace '"' = false by rfl), labelValue_escaped, Option.bind_eq_bind,
    Option.bind_some, String.ofList_toList, hlabels, Bool.false_eq_true, if_false]
  rfl

theorem parseLabelsLoop_labels {labels : List (String × String)} (hne : labels ≠ [])
    (hnames : ∀ l ∈ labels, validLabelName l.1.toList = true) (hdistinct : (labels.map (·.1)).Nodup) {fuel : Nat}
    (hfuel : labels.length ≤ fuel) {before : Labels} (hbefore : ∀ l ∈ labels, before.contains l.1 = false) :
    parseLabelsLoop fuel before (labelsText labels) = some (before.insertMany labels) := by
  induction labels generalizing before fuel with
  | nil => exact absurd rfl hne
  | cons l labels ih =>
    obtain ⟨fuel, rfl⟩ : ∃ n, fuel = n + 1 := ⟨fuel - 1, by rw [List.length_cons] at hfuel; omega⟩
    rw [List.forall_mem_cons] at hnames hbefore
    rw [List.map_cons, List.nodup_cons] at hdistinct
    rw [labelsText, Std.ExtTreeMap.insertMany_cons]
    cases labels with
    | nil =>
      rw [List.map_singleton, List.intercalate_singleton, ← List.append_nil (labelText l),
        parseLabelsLoop_label hnames.1 fuel hbefore.1]
      rfl
    | cons l' labels =>
      rw [List.map_cons, List.map_cons, List.intercalate_cons_cons, List.append_assoc,
        parseLabelsLoop_label hnames.1 fuel hbefore.1]
      refine ih (List.cons_ne_nil _ _) hnames.2 hdistinct.2 (Nat.le_of_succ_le_succ hfuel) fun a ha => ?_
      rw [Std.ExtTreeMap.contains_insert, hbefore.2 a ha, Bool.or_false, beq_eq_false_iff_ne]
      intro heq
      refine hdistinct.1 ?_
      rw [Std.LawfulEqOrd.eq_of_compare heq]
      exact List.mem_map_of_mem ha

theorem length_le_labelsText (labels : List (String × String)) : labels.length ≤ (labelsText labels).length + 1 := by
  induction labels with
  | nil => exact Nat.zero_le _
  | cons l labels ih =>
    cases labels with
    | nil => simp
    | cons l' labels =>
      rw [labelsText] at ih
      rw [labelsText, List.map_cons, List.map_cons, List.intercalate_cons_cons]
      rw [List.map_cons] at ih
      simp only [List.length_append, List.length_cons, List.length_nil] at ih ⊢
      omega

/-- The braces are told from those in the values: the first one opens, the last one closes. -/
theorem parseMetricKey_seriesText {metric : String} (hmetric : validMetricName metric = true)
    {labels : List (String × String)} (hnames : ∀ l ∈ labels, validLabelName l.1.toList = true)
    (hdistinct : (labels.map (·.1)).Nodup) :
    parseMetricKey (seriesText metric labels) = some ⟨metric, .ofList labels⟩ := by
  obtain ⟨c, cs, -, hall⟩ := validMetricName_cons hmetric
  have hbrace : ∀ a ∈ metric.toList, (a != '\x7b') = true := by
    intro a ha
    rw [bne_iff_ne]
    rintro rfl
    rcases hall _ ha with h | h | h <;> cases h
  rw [parseMetricKey]
  by_cases hnil : labels = []
  · have htake : metric.toList.takeWhile (· != '\x7b') = metric.toList := List.takeWhile_eq_self_iff.2 hbrace
    have hdrop : metric.toList.dropWhile (· != '\x7b') = [] := List.dropWhile_eq_nil_iff.2 hbrace
    rw [seriesText, if_pos hnil, htake, hdrop, String.ofList_toList, hnil]
    exact if_pos hmetric
  · have hloop : parseLabels (labelsText labels) = some (.ofList labels) := by
      rw [parseLabels, Std.ExtTreeMap.ofList_eq_insertMany_empty]
      exact parseLabelsLoop_labels hnil hnames hdistinct (length_le_labelsText labels) fun _ _ => rfl
    have hlast : (metric.toList ++ '\x7b' :: (labelsText labels ++ ['\x7d'])).getLast? = some '\x7d' := by
      rw [← List.cons_append, ← List.append_assoc]
      exact List.getLast?_concat
    rw [seriesText, if_neg hnil, List.takeWhile_append_of_pos hbrace, List.dropWhile_append_of_pos hbrace,
      List.takeWhile_cons_of_neg (by decide), List.dropWhile_cons_of_neg (by decide), List.append_nil,
      String.ofList_toList]
    dsimp only
    rw [hlast, List.dropLast_concat, hmetric, hloop]
    rfl

/-! ### Lines -/

theorem splitOnceWhitespace_append {cs : List Char} (h : ∀ c ∈ cs, isWhitespace c = false) (rest : List Char) :
    splitOnceWhitespace (cs ++ ' ' :: rest) = some (cs, rest) := by
  have hcs : ∀ c ∈ cs, (!isWhitespace c) = true := fun c hc => by rw [h c hc]; rfl
  have hspace : (!isWhitespace ' ') = false := rfl
  rw [splitOnceWhitespace, List.takeWhile_append_of_pos hcs, List.dropWhile_append_of_pos hcs,
    List.takeWhile_cons_of_neg (by rw [hspace]; exact Bool.false_ne_true),
    List.dropWhile_cons_of_neg (by rw [hspace]; exact Bool.false_ne_true), List.append_nil]

/-- The numeral has no brace, so that the last one is that of the labels. -/
theorem splitSample_seriesText {metric : String} (hmetric : validMetricName metric = true)
    (labels : List (String × String)) {numeral : List Char} (hbrace : '\x7d' ∉ numeral) :
    splitSample (seriesText metric labels ++ ' ' :: numeral) = some (seriesText metric labels, numeral) := by
  have hnumeral : ∀ c ∈ numeral.reverse ++ [' '], (c != '\x7d') = true := by
    intro c hc
    rw [bne_iff_ne]
    rintro rfl
    simp [hbrace] at hc
  rw [splitSample, seriesText]
  split
  · obtain ⟨-, -, -, hall⟩ := validMetricName_cons hmetric
    have hname : ∀ c ∈ metric.toList.reverse, (c != '\x7d') = true := by
      intro c hc
      rw [bne_iff_ne]
      rintro rfl
      rcases hall _ (List.mem_reverse.1 hc) with h | h | h <;> cases h
    have htake : (metric.toList ++ ' ' :: numeral).reverse.takeWhile (· != '\x7d') =
        (metric.toList ++ ' ' :: numeral).reverse := by
      refine List.takeWhile_eq_self_iff.2 fun c hc => ?_
      rw [List.reverse_append, List.reverse_cons] at hc
      rcases List.mem_append.1 hc with hc | hc
      · exact hnumeral c hc
      · exact hname c hc
    dsimp only
    rw [htake, List.reverse_reverse, if_pos rfl]
    exact splitOnceWhitespace_append (fun c hc => isWhitespace_of_name (hall c hc)) numeral
  · generalize hopen : metric.toList ++ '\x7b' :: labelsText labels = opened
    have hline : metric.toList ++ '\x7b' :: (labelsText labels ++ ['\x7d']) = opened ++ ['\x7d'] := by
      rw [← hopen, List.append_assoc, List.cons_append]
    have htake : (opened ++ ['\x7d'] ++ ' ' :: numeral).reverse.takeWhile (· != '\x7d') =
        numeral.reverse ++ [' '] := by
      rw [List.reverse_append, List.reverse_cons, List.reverse_append, List.takeWhile_append_of_pos hnumeral]
      simp
    have htail : (numeral.reverse ++ [' ']).reverse = ' ' :: numeral := by simp
    rw [hline]
    dsimp only
    have hne : (' ' :: numeral).length ≠ (opened ++ ['\x7d'] ++ ' ' :: numeral).length := by
      simp only [List.length_append, List.length_cons, List.length_nil]
      omega
    have hsplit : splitOnceWhitespace (' ' :: numeral) = some ([], numeral) := rfl
    rw [htake, htail, if_neg hne, hsplit, Option.map_some, List.length_append, Nat.add_sub_cancel, List.take_left]

theorem splitOn_joinLines {c : Char} {ls : List (List Char)} (h : ∀ l ∈ ls, c ∉ l) :
    splitOn c (Lines.joinLines c ls) = ls ++ [[]] := by
  induction ls with
  | nil => rfl
  | cons l ls ih =>
    rw [List.forall_mem_cons] at h
    rw [Lines.joinLines_cons, splitOn_append h.1, ih h.2, List.cons_append]

/-- A text of terminated lines has these lines. -/
theorem lines_joinLines {ls : List String} (h : ∀ l ∈ ls, '\n' ∉ l.toList ∧ l.toList.getLast? ≠ some '\r') :
    Text.lines (.ofList (Lines.joinLines '\n' (ls.map String.toList))) = ls := by
  have hsplit : splitOn '\n' (Lines.joinLines '\n' (ls.map String.toList)) = ls.map String.toList ++ [[]] := by
    refine splitOn_joinLines fun l hl => ?_
    obtain ⟨line, hline, rfl⟩ := List.mem_map.1 hl
    exact (h line hline).1
  rw [Text.lines, String.toList_ofList, hsplit, List.dropLast_concat, List.getLast?_concat, List.map_map,
    List.map_append, List.map_map]
  have hchomp : ∀ l ∈ ls, (String.ofList ∘ (fun line : List Char =>
      if line.getLast? == some '\r' then line.dropLast else line) ∘ String.toList) l = l := by
    intro l hl
    have hlast : ¬ (l.toList.getLast? == some '\r') = true := by
      rw [beq_iff_eq]
      exact (h l hl).2
    show String.ofList (if l.toList.getLast? == some '\r' then l.toList.dropLast else l.toList) = l
    rw [if_neg hlast, String.ofList_toList]
  rw [List.map_congr_left hchomp, List.map_id']
  exact List.append_nil ls

/-- A line that ends with a word does not end with a carriage return. -/
theorem getLast?_ne_of_word {cs word : List Char} (h : ∀ c ∈ word, isWhitespace c = false) (hne : word ≠ []) :
    (cs ++ word).getLast? ≠ some '\r' := by
  rw [List.getLast?_append_of_ne_nil cs hne]
  intro hlast
  cases h _ (List.mem_of_getLast? hlast)

theorem newline_notMem_seriesText {metric : String} (hmetric : validMetricName metric = true)
    {labels : List (String × String)} (hnames : ∀ l ∈ labels, validLabelName l.1.toList = true) :
    '\n' ∉ seriesText metric labels := by
  obtain ⟨-, -, -, hall⟩ := validMetricName_cons hmetric
  have hname : '\n' ∉ metric.toList := by
    intro h
    rcases hall _ h with h | h | h <;> cases h
  have hescape : ∀ c, '\n' ∉ escapeChar c := by
    intro c h
    rw [escapeChar] at h
    split at h
    · simp at h
    split at h
    · simp at h
    split at h
    · simp at h
    · rename_i hne
      exact hne (List.mem_singleton.1 h).symm
  have hlabel : ∀ l ∈ labels, '\n' ∉ labelText l := by
    intro l hl h
    obtain ⟨-, -, -, hall⟩ := validLabelName_cons (hnames l hl)
    rw [labelText] at h
    simp only [List.mem_append, List.mem_cons, List.mem_flatMap, List.not_mem_nil, or_false] at h
    rcases h with h | h | h | ⟨c, -, h⟩ | h
    · cases hall _ h
    · cases h
    · cases h
    · exact hescape c h
    · cases h
  rw [seriesText]
  split
  · exact hname
  · intro h
    simp only [List.mem_append, List.mem_cons, List.not_mem_nil, or_false] at h
    rcases h with h | h | h | h
    · exact hname h
    · cases h
    · rcases mem_intercalate h with h | ⟨part, hpart, h⟩
      · cases h
      · obtain ⟨l, hl, rfl⟩ := List.mem_map.1 hpart
        exact hlabel l hl h
    · cases h

/-! ### Reading a family -/

section
variable {V : Type} {parseF64 : String → Option V} {display : V → String} {f : Family V} {s : Sample V}

namespace Family

theorem suffix_chars (hs : s ∈ f.samples) :
    ∀ c ∈ s.suffix.toList, c.isAlphanum = true ∨ c = '_' ∨ c = ':' := by
  have hall : ∀ suffix ∈ suffixes f.kind, ∀ c ∈ suffix.toList, c.isAlphanum = true ∨ c = '_' ∨ c = ':' := by
    cases f.kind <;> simp [suffixes]
  exact hall _ (f.parts s hs)

theorem validMetricName_metric (hs : s ∈ f.samples) : validMetricName (f.metric s) = true :=
  validMetricName_append f.valid (suffix_chars hs)

/-- A line of a sample starts with the name of its metric. -/
theorem sampleLine_cons (display : V → String) (hs : s ∈ f.samples) :
    ∃ c cs, (f.sampleLine display s).toList = c :: cs ∧ c ≠ '#' := by
  obtain ⟨c, cs, hcons, hall⟩ := validMetricName_cons (validMetricName_metric hs)
  have hne : c ≠ '#' := by
    rintro rfl
    rcases hall '#' (hcons ▸ List.mem_cons_self) with h | h | h <;> cases h
  rw [sampleLine, String.toList_ofList, seriesText]
  split
  · exact ⟨c, _, by rw [hcons]; rfl, hne⟩
  · exact ⟨c, _, by rw [hcons]; rfl, hne⟩

variable [F64 V]

theorem parseSample_sampleLine (hs : s ∈ f.samples) (hwritten : Written parseF64 display s.value) :
    parseSample parseF64 (f.sampleLine display s).toList = some (f.key s, s.value) := by
  have hmetric := validMetricName_metric hs
  have hbrace : '\x7d' ∉ (display s.value).toList := fun h => (hwritten.numeral _ h).2 rfl
  obtain ⟨c, cs, hcons⟩ := List.exists_cons_of_ne_nil (mt String.toList_eq_nil_iff.1 hwritten.nonempty)
  have hskip : skipWhitespace (display s.value).toList = (display s.value).toList := by
    rw [hcons]
    exact skipWhitespace_cons (hwritten.numeral c (hcons ▸ List.mem_cons_self)).1
  have hempty : (display s.value).toList.isEmpty = false := by rw [hcons]; rfl
  have hany : (display s.value).toList.any isWhitespace = false := by
    rw [List.any_eq_false]
    intro a ha
    rw [(hwritten.numeral a ha).1]
    exact Bool.false_ne_true
  rw [parseSample, sampleLine, String.toList_ofList, splitSample_seriesText hmetric s.labels hbrace]
  simp only [Option.bind_eq_bind, Option.bind_some, hskip, hempty, hany, Bool.or_self, Bool.false_eq_true, if_false,
    String.ofList_toList, hwritten.reads, hwritten.finite, if_true,
    parseMetricKey_seriesText hmetric s.names s.distinct]
  rfl

theorem readLine_sampleLine (hs : s ∈ f.samples) (hwritten : Written parseF64 display s.value)
    (hshort : byteLen (f.sampleLine display s) ≤ maxExpositionLineBytes) :
    readLine parseF64 (f.sampleLine display s) = .sample (some (f.key s, s.value)) := by
  obtain ⟨c, cs, hcons, hne⟩ := sampleLine_cons display hs
  have hprefix : ∀ rest, ('#' :: rest).isPrefixOf (f.sampleLine display s).toList = false := by
    intro rest
    rw [hcons, List.isPrefixOf_cons_cons, beq_eq_false_iff_ne.2 hne.symm, Bool.false_and]
  have hstrip : stripPrefix (f.sampleLine display s) "# TYPE " = none := by
    rw [stripPrefix]
    exact if_neg (by rw [show "# TYPE ".toList = '#' :: " TYPE ".toList from rfl, hprefix]; exact Bool.false_ne_true)
  have hcomment : startsWith (f.sampleLine display s) "#" = false := hprefix []
  rw [readLine, if_neg (Nat.not_lt.2 hshort), if_neg (by rw [hcons]; exact Bool.false_ne_true), hstrip]
  dsimp only
  rw [hcomment, parseSample_sampleLine hs hwritten]
  rfl

omit [F64 V] in
theorem parseType_name (f : Family V) :
    parseType (f.name.toList ++ ' ' :: (kindText f.kind).toList) = some (f.name, f.kind) := by
  obtain ⟨c, cs, hcons, hall⟩ := validMetricName_cons f.valid
  have hname := (splitWhitespace_word (fun c hc => isWhitespace_of_name (hall c hc))
    (hcons ▸ List.cons_ne_nil c cs)).2
  have hkind : splitWhitespace (kindText f.kind).toList = [(kindText f.kind).toList] := by
    cases f.kind <;> rfl
  rw [parseType, hname, hkind]
  dsimp only
  rw [String.ofList_toList, String.ofList_toList]
  cases f.kind <;> simp [kindText, f.valid]

theorem readLine_typeLine (hshort : byteLen f.typeLine ≤ maxExpositionLineBytes) :
    readLine parseF64 f.typeLine = .type f.name f.kind := by
  have htext : f.typeLine.toList = "# TYPE ".toList ++ (f.name.toList ++ ' ' :: (kindText f.kind).toList) := by
    simp [typeLine]
  have hstrip : stripPrefix f.typeLine "# TYPE " =
      some (.ofList (f.name.toList ++ ' ' :: (kindText f.kind).toList)) := by
    rw [stripPrefix, htext, if_pos (List.isPrefixOf_iff_prefix.2 (List.prefix_append _ _)), List.drop_left]
  rw [readLine, if_neg (Nat.not_lt.2 hshort), if_neg (by rw [htext]; exact Bool.false_ne_true), hstrip]
  dsimp only
  rw [String.toList_ofList, parseType_name]

end Family

theorem readLine_remark [F64 V] (r : Remark) (hshort : byteLen r.text ≤ maxExpositionLineBytes) :
    readLine parseF64 r.text = .other := by
  rw [readLine, if_neg (Nat.not_lt.2 hshort)]
  rcases r.silent with hempty | ⟨hcomment, htype⟩
  · rw [hempty]
    rfl
  · split
    · rfl
    · have hstrip : stripPrefix r.text "# TYPE " = none := if_neg (by
        rw [startsWith] at htype
        rw [htype]
        exact Bool.false_ne_true)
      rw [hstrip]

/-! ### Reading the families -/

/-- What a family adds to the snapshot. -/
def addFamily (parsed : ParsedSnapshot V) (kind : PrometheusType) (entries : List (MetricKey × V)) :
    ParsedSnapshot V :=
  if kind = .gauge then { parsed with gauges := parsed.gauges.insertMany entries }
  else { parsed with counters := parsed.counters.insertMany entries }

theorem addFamily_append (parsed : ParsedSnapshot V) (kind : PrometheusType) (entries more : List (MetricKey × V)) :
    addFamily (addFamily parsed kind entries) kind more = addFamily parsed kind (entries ++ more) := by
  simp only [addFamily]
  split <;> rw [Std.ExtTreeMap.insertMany_append]

/-- The types tell the counters from the gauges, unless a family is named like the part. -/
theorem isCounterLike_metric {types : Types} (hs : s ∈ f.samples) (htype : types[f.name]? = some f.kind)
    (hapart : f.kind = .histogram → types[f.metric s]? = none) :
    isCounterLike (f.metric s) types = true ↔ f.kind ≠ .gauge := by
  have hpart := f.parts s hs
  have hplain (hsuffix : s.suffix ∈ [""]) : types[f.metric s]? = some f.kind := by
    rw [Family.metric, List.mem_singleton.1 hsuffix, String.append_empty, htype]
  rw [isCounterLike]
  cases hkind : f.kind with
  | counter | gauge =>
    rw [hkind] at hpart
    rw [hplain hpart, hkind]
    simp
  | histogram =>
    rw [hkind] at hpart htype
    have hany : (["_bucket", "_count", "_sum"].any fun suffix =>
        (stripSuffix (f.metric s) suffix).any fun base => types[base]? == some .histogram) = true := by
      rw [List.any_eq_true]
      refine ⟨s.suffix, ?_, ?_⟩
      · simp only [suffixes, List.mem_cons, List.not_mem_nil, or_false] at hpart ⊢
        tauto
      · rw [Family.metric, stripSuffix_append, Option.any_some, htype]
        rfl
    rw [hapart hkind]
    simp [hany]

theorem foldl_samples [F64 V] {samples : List (Sample V)} (hsamples : ∀ s ∈ samples, s ∈ f.samples) {p : Parse V}
    (htype : p.types[f.name]? = some f.kind)
    (hapart : ∀ s ∈ samples, f.kind = .histogram → p.types[f.metric s]? = none)
    (hroom : p.series + samples.length ≤ maxExpositionSeries) :
    (samples.map fun s => Line.sample (some (f.key s, s.value))).foldl Parse.line p =
      { p with
        parsed := addFamily p.parsed f.kind (samples.map fun s => (f.key s, s.value))
        series := p.series + samples.length } := by
  induction samples generalizing p with
  | nil =>
    rw [addFamily]
    split <;> rfl
  | cons s samples ih =>
    rw [List.forall_mem_cons] at hsamples hapart
    rw [List.length_cons] at hroom ⊢
    have hcounter : isCounterLike (f.key s).metric p.types = true ↔ f.kind ≠ .gauge :=
      isCounterLike_metric hsamples.1 htype hapart.1
    have hline : p.line (.sample (some (f.key s, s.value))) =
        { p with parsed := addFamily p.parsed f.kind [(f.key s, s.value)], series := p.series + 1 } := by
      rw [Parse.line, if_neg (by omega), ParsedSnapshot.insert, addFamily]
      by_cases hgauge : f.kind = .gauge
      · rw [if_neg (fun h => hcounter.1 h hgauge), if_pos hgauge]
        rfl
      · rw [if_pos (hcounter.2 hgauge), if_neg hgauge]
        rfl
    have hrest : p.series + 1 + samples.length ≤ maxExpositionSeries := by omega
    rw [List.map_cons, List.foldl_cons, hline]
    refine (ih (p := { p with parsed := addFamily p.parsed f.kind [(f.key s, s.value)], series := p.series + 1 })
      hsamples.2 htype hapart.2 hrest).trans ?_
    rw [addFamily_append, Nat.add_assoc, Nat.add_comm 1]
    rfl

theorem foldl_remarks [F64 V] (remarks : List Remark) (p : Parse V) :
    (remarks.map fun _ => Line.other).foldl Parse.line p = p := by
  induction remarks with
  | nil => rfl
  | cons r remarks ih => exact ih

theorem readLine_lines [F64 V] (hwritten : ∀ s ∈ f.samples, Written parseF64 display s.value)
    (hshort : ∀ line ∈ f.lines display, byteLen line ≤ maxExpositionLineBytes) :
    (f.lines display).map (readLine parseF64) = f.remarks.map (fun _ => .other) ++
      .type f.name f.kind :: f.samples.map fun s => .sample (some (f.key s, s.value)) := by
  rw [Family.lines, List.map_append, List.map_cons, List.map_map, List.map_map]
  have hmem {line : String} (h : line ∈ f.remarks.map (·.text) ++ f.typeLine :: f.samples.map (f.sampleLine display)) :
      byteLen line ≤ maxExpositionLineBytes := hshort line h
  congr 1
  · exact List.map_congr_left fun r hr =>
      readLine_remark r (hmem (List.mem_append_left _ (List.mem_map_of_mem hr)))
  congr 1
  · exact f.readLine_typeLine (hmem (List.mem_append_right _ List.mem_cons_self))
  · exact List.map_congr_left fun s hs => Family.readLine_sampleLine hs (hwritten s hs)
      (hmem (List.mem_append_right _ (List.mem_cons_of_mem _ (List.mem_map_of_mem hs))))

/-- The entries of the families whose kind is wanted. -/
def entriesOf (wanted : PrometheusType → Bool) (families : List (Family V)) : List (MetricKey × V) :=
  (families.filter fun f => wanted f.kind).flatMap (·.entries)

theorem entriesOf_concat (wanted : PrometheusType → Bool) (families : List (Family V)) (f : Family V) :
    entriesOf wanted (families ++ [f]) = entriesOf wanted families ++ if wanted f.kind then f.entries else [] := by
  rw [entriesOf, List.filter_append, List.flatMap_append, List.filter_singleton]
  congr 1
  split <;> simp_all

/-- What the parser has of the families that it has read. -/
structure Has (families : List (Family V)) (p : Parse V) : Prop where
  counters : p.parsed.counters = .ofList (entriesOf (· != .gauge) families)
  gauges : p.parsed.gauges = .ofList (entriesOf (· == .gauge) families)
  skipped : p.parsed.skippedLines = 0
  series : p.series = (families.flatMap (·.samples)).length
  types : ∀ name ∈ p.types, ∃ f ∈ families, f.name = name
  size : p.types.size ≤ families.length

theorem has_nil : Has [] ({} : Parse V) where
  counters := rfl
  gauges := rfl
  skipped := rfl
  series := rfl
  types _ h := absurd h Std.ExtTreeMap.not_mem_empty
  size := Nat.le_refl _

theorem length_le_samples (families : List (Family V)) : families.length ≤ (families.flatMap (·.samples)).length := by
  induction families with
  | nil => exact Nat.le_refl _
  | cons f families ih =>
    have := List.length_pos_of_ne_nil f.nonempty
    rw [List.flatMap_cons, List.length_append, List.length_cons]
    omega

/-- One family more. -/
theorem Has.family [F64 V] {families : List (Family V)} {p : Parse V} (h : Has families p)
    (hlines : (f.lines display).map (readLine parseF64) = f.remarks.map (fun _ => .other) ++
      .type f.name f.kind :: f.samples.map fun s => .sample (some (f.key s, s.value)))
    (hapart : ∀ g ∈ families ++ [f], f.kind = .histogram → ∀ s ∈ f.samples, g.name ≠ f.metric s)
    (hfew : ((families ++ [f]).flatMap (·.samples)).length ≤ maxExpositionSeries) :
    Has (families ++ [f]) (((f.lines display).map (readLine parseF64)).foldl Parse.line p) := by
  have hseries : p.series + f.samples.length ≤ maxExpositionSeries := by
    rw [h.series]
    simpa using hfew
  have htypes : p.types.size < maxExpositionSeries := by
    have := length_le_samples families
    have := List.length_pos_of_ne_nil f.nonempty
    have := h.size
    have := h.series
    omega
  have hmem : ∀ name ∈ p.types.insert f.name f.kind, ∃ g ∈ families ++ [f], g.name = name := by
    intro name hname
    rcases Std.ExtTreeMap.mem_insert.1 hname with heq | hname
    · exact ⟨f, List.mem_append_right _ (List.mem_singleton_self f), Std.LawfulEqOrd.eq_of_compare heq⟩
    · obtain ⟨g, hg, hgname⟩ := h.types name hname
      exact ⟨g, List.mem_append_left _ hg, hgname⟩
  have hnone : ∀ s ∈ f.samples, f.kind = .histogram → (p.types.insert f.name f.kind)[f.metric s]? = none := by
    intro s hs hkind
    refine Std.ExtTreeMap.getElem?_eq_none fun hin => ?_
    obtain ⟨g, hg, hname⟩ := hmem _ hin
    exact hapart g hg hkind s hs hname
  have hline : p.line (.type f.name f.kind) = { p with types := p.types.insert f.name f.kind } := by
    rw [Parse.line, if_pos (by rw [decide_eq_true htypes, Bool.true_or])]
  rw [hlines, List.foldl_append, foldl_remarks, List.foldl_cons, hline,
    foldl_samples (p := { p with types := p.types.insert f.name f.kind }) (fun _ hs => hs)
      Std.ExtTreeMap.getElem?_insert_self hnone hseries]
  constructor
  · show (addFamily p.parsed f.kind f.entries).counters = _
    rw [entriesOf_concat, Std.ExtTreeMap.ofList_eq_insertMany_empty, Std.ExtTreeMap.insertMany_append,
      ← Std.ExtTreeMap.ofList_eq_insertMany_empty, ← h.counters, addFamily]
    by_cases hgauge : f.kind = .gauge <;> simp [hgauge]
  · show (addFamily p.parsed f.kind f.entries).gauges = _
    rw [entriesOf_concat, Std.ExtTreeMap.ofList_eq_insertMany_empty, Std.ExtTreeMap.insertMany_append,
      ← Std.ExtTreeMap.ofList_eq_insertMany_empty, ← h.gauges, addFamily]
    by_cases hgauge : f.kind = .gauge <;> simp [hgauge]
  · show (addFamily p.parsed f.kind f.entries).skippedLines = 0
    rw [addFamily]
    split <;> exact h.skipped
  · show p.series + f.samples.length = _
    rw [h.series]
    simp
  · exact hmem
  · have := Std.ExtTreeMap.size_insert_le (t := p.types) (k := f.name) (v := f.kind)
    have := h.size
    rw [List.length_append, List.length_singleton]
    show (p.types.insert f.name f.kind).size ≤ _
    omega

/-- Nothing in a line ends it. -/
theorem lines_ended (hwritten : ∀ s ∈ f.samples, ∀ c ∈ (display s.value).toList, isWhitespace c = false)
    (hnonempty : ∀ s ∈ f.samples, display s.value ≠ "") :
    ∀ line ∈ f.lines display, '\n' ∉ line.toList ∧ line.toList.getLast? ≠ some '\r' := by
  intro line hline
  rcases List.mem_append.1 hline with hline | hline
  · obtain ⟨r, -, rfl⟩ := List.mem_map.1 hline
    exact r.line
  rcases List.mem_cons.1 hline with rfl | hline
  · obtain ⟨-, -, -, hall⟩ := validMetricName_cons f.valid
    have hname : '\n' ∉ f.name.toList := by
      intro h
      rcases hall _ h with h | h | h <;> cases h
    have htext : f.typeLine.toList = ("# TYPE " ++ f.name ++ " ").toList ++ (kindText f.kind).toList := by
      rw [Family.typeLine, String.toList_append]
    rw [htext]
    refine ⟨?_, getLast?_ne_of_word ?_ ?_⟩
    · cases f.kind <;> simp [kindText, hname]
    · cases f.kind <;> simp [kindText, isWhitespace]
    · cases f.kind <;> simp [kindText]
  · obtain ⟨s, hs, rfl⟩ := List.mem_map.1 hline
    have hseries := newline_notMem_seriesText (Family.validMetricName_metric hs) s.names
    have htext : (f.sampleLine display s).toList =
        seriesText (f.metric s) s.labels ++ [' '] ++ (display s.value).toList := by
      rw [Family.sampleLine, String.toList_ofList, List.append_assoc]
      rfl
    rw [htext]
    refine ⟨fun h => ?_, getLast?_ne_of_word (hwritten s hs) (mt String.toList_eq_nil_iff.1 (hnonempty s hs))⟩
    simp only [List.mem_append, List.mem_singleton] at h
    rcases h with (h | h) | h
    · exact hseries h
    · cases h
    · cases hwritten s hs _ h

namespace Renderable
variable [F64 V] {families : List (Family V)} (h : Renderable parseF64 display families)
include h

theorem has_families {processed rest : List (Family V)} (hall : processed ++ rest = families) {p : Parse V}
    (hp : Has processed p) :
    Has families (((rest.flatMap (·.lines display)).map (readLine parseF64)).foldl Parse.line p) := by
  induction rest generalizing processed p with
  | nil =>
    rw [← hall, List.append_nil]
    exact hp
  | cons f rest ih =>
    have hf : f ∈ families := hall ▸ List.mem_append_right _ List.mem_cons_self
    have hsplit : (processed ++ [f]) ++ rest = families := by
      rw [← hall, List.append_assoc]
      rfl
    have hapart : ∀ g ∈ processed ++ [f], f.kind = .histogram → ∀ s ∈ f.samples, g.name ≠ f.metric s := by
      intro g hg hkind s hs
      exact h.apart g (hsplit ▸ List.mem_append_left _ hg) f hf hkind s.suffix (hkind ▸ f.parts s hs)
    have hfew : ((processed ++ [f]).flatMap (·.samples)).length ≤ maxExpositionSeries := by
      have happend : families.flatMap (·.samples) =
          (processed ++ [f]).flatMap (·.samples) ++ rest.flatMap (·.samples) := by
        rw [← hsplit]
        exact List.flatMap_append
      have hall := h.few
      rw [happend, List.length_append] at hall
      exact le_trans (Nat.le_add_right _ _) hall
    rw [List.flatMap_cons, List.map_append, List.foldl_append]
    exact ih hsplit (hp.family (readLine_lines (h.written f hf) (h.short f hf)) hapart hfew)

theorem lines_render : Text.lines (render display families) = families.flatMap (·.lines display) := by
  refine lines_joinLines fun line hline => ?_
  obtain ⟨f, hf, hline⟩ := List.mem_flatMap.1 hline
  exact lines_ended (fun s hs c hc => ((h.written f hf s hs).numeral c hc).1)
    (fun s hs => (h.written f hf s hs).nonempty) line hline

theorem nodup_entriesOf (wanted : PrometheusType → Bool) : ((entriesOf wanted families).map (·.1)).Nodup :=
  h.distinct.sublist ((List.filter_sublist.flatMap _).map _)

end Renderable

theorem getElem?_ofList_iff {entries : List (MetricKey × V)} (h : (entries.map (·.1)).Nodup) {key : MetricKey}
    {value : V} : (Std.ExtTreeMap.ofList entries)[key]? = some value ↔ (key, value) ∈ entries := by
  have hpairwise : entries.Pairwise fun a b => ¬ compare a.1 b.1 = .eq :=
    (List.pairwise_map.1 h).imp fun hne heq => hne (Std.LawfulEqOrd.eq_of_compare heq)
  have hget {value : V} (hmem : (key, value) ∈ entries) : (Std.ExtTreeMap.ofList entries)[key]? = some value :=
    Std.ExtTreeMap.getElem?_ofList_of_mem Std.ReflCmp.compare_self hpairwise hmem
  refine ⟨fun hvalue => ?_, hget⟩
  by_cases hkey : key ∈ entries.map (·.1)
  · obtain ⟨⟨k, v⟩, hmem, rfl⟩ := List.mem_map.1 hkey
    rwa [← Option.some.inj ((hget hmem).symm.trans hvalue)]
  · rw [Std.ExtTreeMap.getElem?_ofList_of_contains_eq_false (by simpa using hkey)] at hvalue
    cases hvalue

theorem mem_entriesOf {wanted : PrometheusType → Bool} {families : List (Family V)} {key : MetricKey} {value : V} :
    (key, value) ∈ entriesOf wanted families ↔
      ∃ f ∈ families, wanted f.kind = true ∧ ∃ s ∈ f.samples, f.key s = key ∧ s.value = value := by
  simp only [entriesOf, Family.entries, List.mem_flatMap, List.mem_filter, List.mem_map, Prod.mk.injEq, and_assoc]

/-- The parser gives back the series of the text, the parts of histograms among the counters. -/
theorem parseExposition_render [F64 V] (parseF64 : String → Option V) (display : V → String)
    (families : List (Family V)) (h : Renderable parseF64 display families) :
    (parseExposition parseF64 (render display families)).skippedLines = 0 ∧
      (∀ (key : MetricKey) (value : V),
        (parseExposition parseF64 (render display families)).counters[key]? = some value ↔
          ∃ f ∈ families, f.kind ≠ .gauge ∧ ∃ s ∈ f.samples, f.key s = key ∧ s.value = value) ∧
      ∀ (key : MetricKey) (value : V),
        (parseExposition parseF64 (render display families)).gauges[key]? = some value ↔
          ∃ f ∈ families, f.kind = .gauge ∧ ∃ s ∈ f.samples, f.key s = key ∧ s.value = value := by
  have hhas : Has families (((Text.lines (render display families)).map (readLine parseF64)).foldl Parse.line {}) := by
    rw [h.lines_render]
    exact h.has_families (List.nil_append families) has_nil
  rw [parseExposition, parseLines]
  refine ⟨hhas.skipped, fun key value => ?_, fun key value => ?_⟩
  · rw [hhas.counters, getElem?_ofList_iff (h.nodup_entriesOf _), mem_entriesOf]
    simp only [bne_iff_ne]
  · rw [hhas.gauges, getElem?_ofList_iff (h.nodup_entriesOf _), mem_entriesOf]
    simp only [beq_iff_eq]

end

/-- A label that a client made up, and the parts of a histogram. -/
def someFamilies : List (Family ℚ) :=
  [{  remarks := [⟨"# HELP requests_total Requests.", by decide, by decide⟩]
      name := "requests_total"
      kind := .counter
      samples := [⟨"", [("model", "a\"\x7d 1\n\\\r,\x7b="), ("status", "200")], 7, by decide, by decide⟩]
      valid := by decide
      parts := by simp [suffixes]
      nonempty := by simp },
    {  remarks := [⟨"", by decide, by decide⟩]
       name := "active"
       kind := .gauge
       samples := [⟨"", [], 12, by decide, by decide⟩]
       valid := by decide
       parts := by simp [suffixes]
       nonempty := by simp },
    {  remarks := []
       name := "seconds"
       kind := .histogram
       samples := [⟨"_bucket", [("le", "+Inf")], 7, by decide, by decide⟩, ⟨"_sum", [], 12, by decide, by decide⟩,
         ⟨"_count", [], 7, by decide, by decide⟩]
       valid := by decide
       parts := by simp [suffixes]
       nonempty := by simp }]

def displaySome (v : ℚ) : String := if v = 7 then "7" else "12"

def parseSome (text : String) : Option ℚ := if text = "7" then some 7 else if text = "12" then some 12 else none

theorem someFamilies_renderable : Renderable parseSome displaySome someFamilies where
  written := by
    have h : Written parseSome displaySome 7 := ⟨rfl, by decide +kernel, by decide +kernel, by simp [displaySome, isWhitespace]⟩
    have h' : Written parseSome displaySome 12 := ⟨rfl, by decide +kernel, by decide +kernel, by simp [displaySome, isWhitespace]⟩
    simp [someFamilies, h, h']
  distinct := by decide +kernel
  apart := by decide +kernel
  short := by decide +kernel
  few := by decide +kernel

theorem parseExposition_render_some :
    (parseExposition parseSome (render displaySome someFamilies)).skippedLines = 0 ∧
      (parseExposition parseSome (render displaySome someFamilies)).gauges[(⟨"active", ∅⟩ : MetricKey)]? = some 12 :=
  have h := parseExposition_render parseSome displaySome someFamilies someFamilies_renderable
  ⟨h.1, (h.2.2 _ _).2 ⟨_, List.mem_cons_of_mem _ List.mem_cons_self, rfl, _, List.mem_cons_self, rfl, rfl⟩⟩

end OpenProxy.Rendering
