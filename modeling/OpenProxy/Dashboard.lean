import OpenProxy.RangeTail
import OpenProxy.Lib.OrderedMap

/-!
# The series that the dashboard draws (`rangeSamples`, `windowed` of `shared.js`)

The server sends the increments of the counters for each bucket of a range, their exact totals and the newest gauges;
what was counted since the last recorded sample comes apart, as a tail. The dashboard makes cumulative rows of these
again. A series is told apart by a text made of its name and its labels, which is ambiguous for labels with the
separators in them.
-/

namespace OpenProxy.Dashboard

open RangeTail Text

abbrev Row := MetricValue ℚ

def identity (r : Row) : MetricKey := ⟨r.metric, r.labels⟩

/-- How the browser sorts labels by their names. -/
structure Locale where
  sort : List (String × String) → List (String × String)
  perm : ∀ entries, (sort entries).Perm entries

/-- What the dashboard has got for a range. -/
structure RangeResponse extends RevisedRollup ℚ where
  requestedFrom : Nat
  /-- The server serializes a map. -/
  totalsOnce : (totals.map identity).Nodup

structure Sample where
  /-- In milliseconds. -/
  t : Nat
  rows : List Row

def rowsIn (rows : List Row) (key : MetricKey) : List Row := rows.filter fun r => identity r = key

/-- `sum` of the rows of one series. -/
def valueIn (rows : List Row) (key : MetricKey) : ℚ := ((rowsIn rows key).map (·.value)).sum

section
variable (locale : Locale)

def entryText (e : String × String) : List Char := e.1.toList ++ '=' :: e.2.toList

def keyText (key : MetricKey) : String :=
  .ofList (key.metric.toList ++ '\x00' :: ['\x00'].intercalate ((locale.sort key.labels.toList).map entryText))

def rowKey (r : Row) : String := keyText locale (identity r)

abbrev RowMap := OrderedMap String Row

/-- The two maps that `rangeSamples` goes on changing. -/
structure Maps where
  counters : RowMap := .empty
  gauges : RowMap := .empty

def Maps.rows (m : Maps) : List Row := m.counters.values ++ m.gauges.values

def seedCounter (gaugeKeys : List String) (counters : RowMap) (r : Row) : RowMap :=
  if !gaugeKeys.contains (rowKey locale r) && !counters.contains (rowKey locale r) then
    counters.set (rowKey locale r) { r with value := 0 }
  else counters

def addCounter (counters : RowMap) (r : Row) : RowMap :=
  let current := (counters.get? (rowKey locale r)).getD { r with value := 0 }
  counters.set (rowKey locale r) { current with value := current.value + r.value }

def setRow (rows : RowMap) (r : Row) : RowMap := rows.set (rowKey locale r) r

def Maps.add (gaugeKeys : List String) (m : Maps) (r : Row) : Maps :=
  if gaugeKeys.contains (rowKey locale r) then { m with gauges := setRow locale m.gauges r }
  else { m with counters := addCounter locale m.counters r }

def Maps.addPoint (gaugeKeys : List String) (m : Maps) (point : RollupPoint ℚ) : Maps :=
  point.values.foldl (Maps.add locale gaugeKeys) m

/-- A sample for each bucket, and the maps after the last one. -/
def bucketSamples (gaugeKeys : List String) (m : Maps) : List (RollupPoint ℚ) → List Sample × Maps
  | [] => ([], m)
  | point :: points =>
    let m := m.addPoint locale gaugeKeys point
    let (samples, last) := bucketSamples gaugeKeys m points
    (⟨point.to * 1000, m.rows⟩ :: samples, last)

/-- The last of the historical samples gets the exact totals, unless it is the baseline. -/
def overwriteLast (rows : List Row) (out : List Sample) : List Sample :=
  if 1 < out.length then out.dropLast ++ (out.getLast?.map ({ · with rows := rows })).toList else out

namespace RangeResponse
variable (range : RangeResponse)

def gaugeKeys : List String := range.latest.map (rowKey locale)

/-- Every counter of the range, at zero. -/
def seeded : Maps where
  counters := (range.totals ++ range.points.flatMap (·.values)).foldl (seedCounter locale (range.gaugeKeys locale)) .empty

def sorted : List (RollupPoint ℚ) := range.points.mergeSort fun a b => a.to ≤ b.to

/-- The exact totals, and the newest gauges over those of the buckets. -/
def final (last : Maps) : Maps where
  counters := range.totals.foldl (setRow locale) .empty
  gauges := range.latest.foldl (setRow locale) last.gauges

end RangeResponse

def rangeSamples (range : RangeResponse) (tail : Option (Tail ℚ)) : List Sample :=
  let baseline := range.effectiveFrom.getD range.requestedFrom
  let (samples, last) := bucketSamples locale (range.gaugeKeys locale) (range.seeded locale) range.sorted
  let final := range.final locale last
  let out := overwriteLast final.rows (⟨baseline * 1000, (range.seeded locale).rows⟩ :: samples)
  match tail with
  | some tail =>
    if tail.baseHistoryRevision = range.historyRevision then
      out ++ [⟨tail.to * 1000,
        { final with counters := tail.totals.foldl (addCounter locale) final.counters }.rows⟩]
    else out
  | none => out

end

/-- Every selected range begins at zero. -/
def windowed (get : Sample → ℚ) (samples : List Sample) : ℚ :=
  match samples.head?, samples.getLast? with
  | some first, some last => if samples.length < 2 then 0 else max 0 (get last - get first)
  | _, _ => 0

/-! ### Series and their texts -/

/-- No separator stands in the texts. The parser admits no such name of a metric. -/
structure Plain (key : MetricKey) : Prop where
  metric : '\x00' ∉ key.metric.toList
  labels : ∀ name value : String, key.labels[name]? = some value →
    '\x00' ∉ name.toList ∧ '=' ∉ name.toList ∧ '\x00' ∉ value.toList

section
variable {locale : Locale} {key key' : MetricKey}

theorem Plain.mem (h : Plain key) {e : String × String} (he : e ∈ locale.sort key.labels.toList) :
    '\x00' ∉ entryText e ∧ '=' ∉ e.1.toList := by
  have hget := Std.ExtTreeMap.mem_toList_iff_getElem?_eq_some.1 ((locale.perm _).mem_iff.1 he)
  obtain ⟨hname, heq, hvalue⟩ := h.labels e.1 e.2 hget
  exact ⟨by simp [entryText, hname, hvalue], heq⟩

theorem splitOn_entries (h : Plain key) :
    splitOn '\x00' (['\x00'].intercalate ((locale.sort key.labels.toList).map entryText)) =
      if locale.sort key.labels.toList = [] then [[]] else (locale.sort key.labels.toList).map entryText := by
  split
  · rename_i hnil
    rw [hnil]
    rfl
  · rename_i hne
    refine splitOn_intercalate (by simpa using hne) fun part hpart => ?_
    obtain ⟨e, he, rfl⟩ := List.mem_map.1 hpart
    exact (h.mem he).1

/-- The entries are read back from their texts; an entry has at least its equals sign. -/
theorem entries_eq (h : Plain key) (h' : Plain key')
    (heq : splitOn '\x00' (['\x00'].intercalate ((locale.sort key.labels.toList).map entryText)) =
      splitOn '\x00' (['\x00'].intercalate ((locale.sort key'.labels.toList).map entryText))) :
    locale.sort key.labels.toList = locale.sort key'.labels.toList := by
  have hread {key : MetricKey} (h : Plain key) :
      ((locale.sort key.labels.toList).map entryText).map (Text.splitOnce '=') =
        (locale.sort key.labels.toList).map fun e => some (e.1.toList, e.2.toList) := by
    rw [List.map_map]
    exact List.map_congr_left fun e he => (Text.splitOnce_append (h.mem he).2 e.2.toList).2
  have hinj : Function.Injective fun e : String × String => some (e.1.toList, e.2.toList) := by
    intro e e' h
    obtain ⟨hname, hvalue⟩ := Prod.mk.inj (Option.some.inj h)
    exact Prod.ext (String.toList_inj.1 hname) (String.toList_inj.1 hvalue)
  have hfirst {entries : List (String × String)} (hne : entries ≠ []) : [[]] ≠ entries.map entryText := by
    cases entries with
    | nil => exact absurd rfl hne
    | cons e entries => simp [entryText]
  rw [splitOn_entries h, splitOn_entries h'] at heq
  split at heq
  · rename_i hnil
    split at heq
    · rename_i hnil'
      rw [hnil, hnil']
    · rename_i hne
      exact absurd heq (hfirst hne)
  · rename_i hne
    split at heq
    · exact absurd heq.symm (hfirst hne)
    · exact hinj.list_map (by rw [← hread h, heq, hread h'])

/-- Plain series have texts of their own. -/
theorem keyText_inj (h : Plain key) (h' : Plain key') (heq : keyText locale key = keyText locale key') : key = key' := by
  have hsplit := congrArg (splitOn '\x00') (String.ofList_injective heq)
  rw [splitOn_append h.metric, splitOn_append h'.metric] at hsplit
  obtain ⟨hmetric, hrest⟩ := List.cons.inj hsplit
  have hentries := entries_eq h h' hrest
  have hlabels : key.labels = key'.labels := by
    refine Std.ExtTreeMap.ext_getElem? fun name => Option.ext fun value => ?_
    rw [← Std.ExtTreeMap.mem_toList_iff_getElem?_eq_some, ← Std.ExtTreeMap.mem_toList_iff_getElem?_eq_some,
      ← (locale.perm _).mem_iff, hentries, (locale.perm _).mem_iff]
  cases key
  cases key'
  congr
  exact String.toList_inj.1 hmetric

end

/-! ### One series in one map -/

theorem valueIn_append (rows rows' : List Row) (key : MetricKey) :
    valueIn (rows ++ rows') key = valueIn rows key + valueIn rows' key := by
  rw [valueIn, rowsIn, List.filter_append, List.map_append, List.sum_append]
  rfl

theorem valueIn_cons (r : Row) (rows : List Row) (key : MetricKey) :
    valueIn (r :: rows) key = (if identity r = key then r.value else 0) + valueIn rows key := by
  rw [valueIn, rowsIn, List.filter_cons]
  by_cases h : identity r = key
  · rw [if_pos (by simpa using h), if_pos h, List.map_cons, List.sum_cons]
    rfl
  · rw [if_neg (by simpa using h), if_neg h, zero_add]
    rfl

section
variable (locale : Locale)

/-- Each row stands under its own text, and its series is one of those that `p` admits. -/
def Keyed (p : MetricKey → Prop) (m : RowMap) : Prop :=
  ∀ k r, m.get? k = some r → k = rowKey locale r ∧ Plain (identity r) ∧ p (identity r)

/-- What the map has counted for a series. -/
def held (m : RowMap) (key : MetricKey) : ℚ := ((m.get? (keyText locale key)).map (·.value)).getD 0

end

section
variable {locale : Locale} {p : MetricKey → Prop} {m : RowMap} {r r' : Row} {key : MetricKey}

theorem keyed_empty : Keyed locale p .empty := by
  intro k r h
  rw [OrderedMap.get?_empty] at h
  cases h

theorem rowKey_congr (h : identity r' = identity r) : rowKey locale r' = rowKey locale r := congrArg (keyText locale) h

theorem rowKey_eq_iff (hr : Plain (identity r)) (hkey : Plain key) :
    keyText locale key = rowKey locale r ↔ identity r = key :=
  ⟨fun h => (keyText_inj hkey hr h).symm, fun h => h ▸ rfl⟩

theorem Keyed.set (hm : Keyed locale p m) (hr : Plain (identity r)) (hp : p (identity r))
    (h : identity r' = identity r) : Keyed locale p (m.set (rowKey locale r) r') := by
  intro k v hv
  rw [OrderedMap.get?_set] at hv
  split at hv
  · rename_i hk
    obtain rfl := Option.some.inj hv
    exact ⟨hk.trans (rowKey_congr h).symm, h ▸ hr, h ▸ hp⟩
  · exact hm k v hv

/-- The series that a plain text stands for. -/
theorem Keyed.identity_eq (hm : Keyed locale p m) (hkey : Plain key) (h : m.get? (keyText locale key) = some r) :
    identity r = key :=
  have hk := hm _ _ h
  (rowKey_eq_iff hk.2.1 hkey).1 hk.1

theorem Keyed.get?_of_not (hm : Keyed locale p m) (hkey : Plain key) (hp : ¬ p key) :
    m.get? (keyText locale key) = none := by
  cases h : m.get? (keyText locale key) with
  | none => rfl
  | some r => exact absurd (hm.identity_eq hkey h ▸ (hm _ _ h).2.2) hp

theorem rowsIn_values (hm : Keyed locale p m) (hkey : Plain key) :
    rowsIn m.values key = (m.get? (keyText locale key)).toList := by
  refine OrderedMap.filter_values fun k r h => ?_
  obtain ⟨rfl, hr, -⟩ := hm k r h
  rw [decide_eq_true_iff, ← rowKey_eq_iff hr hkey, eq_comm]

theorem valueIn_values (hm : Keyed locale p m) (hkey : Plain key) : valueIn m.values key = held locale m key := by
  rw [valueIn, rowsIn_values hm hkey, held]
  cases m.get? (keyText locale key) <;> simp

theorem held_addCounter (hr : Plain (identity r)) (hkey : Plain key) :
    held locale (addCounter locale m r) key = held locale m key + if identity r = key then r.value else 0 := by
  rw [held, addCounter, OrderedMap.get?_set]
  by_cases h : identity r = key
  · have hk : keyText locale key = rowKey locale r := (rowKey_eq_iff hr hkey).2 h
    rw [if_pos hk, if_pos h, ← hk, held]
    cases m.get? (keyText locale key) <;> rfl
  · rw [if_neg ((rowKey_eq_iff hr hkey).not.2 h), if_neg h, add_zero, held]

theorem Keyed.addCounter (hm : Keyed locale p m) (hr : Plain (identity r)) (hp : p (identity r)) :
    Keyed locale p (addCounter locale m r) := by
  refine hm.set hr hp ?_
  cases h : m.get? (rowKey locale r) with
  | none => rfl
  | some current =>
    show identity current = identity r
    exact hm.identity_eq hr h

theorem Keyed.foldl_addCounter {rows : List Row} (hm : Keyed locale p m)
    (hrows : ∀ r ∈ rows, Plain (identity r) ∧ p (identity r)) :
    Keyed locale p (rows.foldl (Dashboard.addCounter locale) m) := by
  induction rows generalizing m with
  | nil => exact hm
  | cons r rows ih =>
    rw [List.forall_mem_cons] at hrows
    exact ih (hm.addCounter hrows.1.1 hrows.1.2) hrows.2

theorem held_foldl_addCounter {rows : List Row} (hrows : ∀ r ∈ rows, Plain (identity r)) (hkey : Plain key) :
    held locale (rows.foldl (addCounter locale) m) key = held locale m key + valueIn rows key := by
  induction rows generalizing m with
  | nil => simp [valueIn, rowsIn]
  | cons r rows ih =>
    rw [List.forall_mem_cons] at hrows
    rw [List.foldl_cons, ih hrows.2, held_addCounter hrows.1 hkey, valueIn_cons, add_assoc]

/-- Seeded counters are at zero. -/
theorem held_seedCounter {gaugeKeys : List String} (hm : ∀ k r, m.get? k = some r → r.value = 0) :
    ∀ k v, (seedCounter locale gaugeKeys m r).get? k = some v → v.value = 0 := by
  intro k v hv
  rw [seedCounter] at hv
  split at hv
  · rw [OrderedMap.get?_set] at hv
    split at hv
    · obtain rfl := Option.some.inj hv
      rfl
    · exact hm k v hv
  · exact hm k v hv

end

/-! ### Counters and gauges -/

/-- The newest row of a series. -/
def newest (rows : List Row) (key : MetricKey) : Option Row := (rowsIn rows key).getLast?

theorem newest_cons (r : Row) (rows : List Row) (key : MetricKey) :
    newest (r :: rows) key = (newest rows key).or (if identity r = key then some r else none) := by
  rw [newest, rowsIn, List.filter_cons, newest, rowsIn]
  by_cases h : identity r = key
  · rw [if_pos (by simpa using h), if_pos h, List.getLast?_cons]
    cases (rows.filter fun r => identity r = key).getLast? <;> rfl
  · rw [if_neg (by simpa using h), if_neg h, Option.or_none]

section
variable {locale : Locale} {p : MetricKey → Prop} {m : RowMap} {r : Row} {rows : List Row} {key : MetricKey}

theorem get?_setRow (hr : Plain (identity r)) (hkey : Plain key) :
    (setRow locale m r).get? (keyText locale key) =
      (if identity r = key then some r else none).or (m.get? (keyText locale key)) := by
  rw [setRow, OrderedMap.get?_set]
  by_cases h : identity r = key
  · rw [if_pos ((rowKey_eq_iff hr hkey).2 h), if_pos h]
    rfl
  · rw [if_neg ((rowKey_eq_iff hr hkey).not.2 h), if_neg h]
    rfl

theorem get?_foldl_setRow (hrows : ∀ r ∈ rows, Plain (identity r)) (hkey : Plain key) :
    (rows.foldl (setRow locale) m).get? (keyText locale key) =
      (newest rows key).or (m.get? (keyText locale key)) := by
  induction rows generalizing m with
  | nil => rfl
  | cons r rows ih =>
    rw [List.forall_mem_cons] at hrows
    rw [List.foldl_cons, ih hrows.2, newest_cons, Option.or_assoc, get?_setRow hrows.1 hkey]

theorem Keyed.foldl_setRow (hm : Keyed locale p m) (hrows : ∀ r ∈ rows, Plain (identity r) ∧ p (identity r)) :
    Keyed locale p (rows.foldl (setRow locale) m) := by
  induction rows generalizing m with
  | nil => exact hm
  | cons r rows ih =>
    rw [List.forall_mem_cons] at hrows
    exact ih (hm.set hrows.1.1 hrows.1.2 rfl) hrows.2

end

section
variable {locale : Locale} {gauge : MetricKey → Prop} {gaugeKeys : List String} {m : Maps} {r : Row}
  {rows : List Row} {key : MetricKey}

variable (locale gauge) in
/-- The maps hold counters and gauges apart. -/
structure Kept (m : Maps) : Prop where
  counters : Keyed locale (¬ gauge ·) m.counters
  gauges : Keyed locale gauge m.gauges

variable (locale gauge gaugeKeys) in
/-- The list of gauges tells what the row is. -/
structure Told (r : Row) : Prop where
  plain : Plain (identity r)
  told : gaugeKeys.contains (rowKey locale r) = true ↔ gauge (identity r)

theorem Kept.add (h : Kept locale gauge m) (hr : Told locale gauge gaugeKeys r) :
    Kept locale gauge (m.add locale gaugeKeys r) := by
  rw [Maps.add]
  split
  · rename_i hgauge
    exact ⟨h.counters, h.gauges.set hr.plain (hr.told.1 hgauge) rfl⟩
  · rename_i hgauge
    exact ⟨h.counters.addCounter hr.plain fun hg => hgauge (hr.told.2 hg), h.gauges⟩

theorem Kept.foldl (h : Kept locale gauge m) (hrows : ∀ r ∈ rows, Told locale gauge gaugeKeys r) :
    Kept locale gauge (rows.foldl (Maps.add locale gaugeKeys) m) := by
  induction rows generalizing m with
  | nil => exact h
  | cons r rows ih =>
    rw [List.forall_mem_cons] at hrows
    exact ih (h.add hrows.1) hrows.2

theorem valueIn_rows (h : Kept locale gauge m) (hkey : Plain key) (hcounter : ¬ gauge key) :
    valueIn m.rows key = held locale m.counters key := by
  rw [Maps.rows, valueIn_append, valueIn_values h.counters hkey, valueIn, rowsIn_values h.gauges hkey,
    h.gauges.get?_of_not hkey hcounter]
  exact add_zero _

theorem rowsIn_rows (h : Kept locale gauge m) (hkey : Plain key) (hgauge : gauge key) :
    rowsIn m.rows key = (m.gauges.get? (keyText locale key)).toList := by
  rw [Maps.rows, rowsIn, List.filter_append]
  show rowsIn m.counters.values key ++ rowsIn m.gauges.values key = _
  rw [rowsIn_values h.counters hkey, rowsIn_values h.gauges hkey, h.counters.get?_of_not hkey (not_not.2 hgauge)]
  rfl

/-- A counter counts what comes in. -/
theorem held_foldl (hrows : ∀ r ∈ rows, Told locale gauge gaugeKeys r) (hkey : Plain key) (hcounter : ¬ gauge key) :
    held locale (rows.foldl (Maps.add locale gaugeKeys) m).counters key =
      held locale m.counters key + valueIn rows key := by
  induction rows generalizing m with
  | nil => simp [valueIn, rowsIn]
  | cons r rows ih =>
    rw [List.forall_mem_cons] at hrows
    rw [List.foldl_cons, ih hrows.2, valueIn_cons, ← add_assoc]
    congr 1
    rw [Maps.add]
    split
    · rename_i hgauge
      have hne : identity r ≠ key := fun heq => hcounter (heq ▸ hrows.1.told.1 hgauge)
      rw [if_neg hne, add_zero]
    · exact held_addCounter hrows.1.plain hkey

/-- A gauge is what came in last. -/
theorem gauge_foldl (hrows : ∀ r ∈ rows, Told locale gauge gaugeKeys r) (hkey : Plain key) (hgauge : gauge key) :
    (rows.foldl (Maps.add locale gaugeKeys) m).gauges.get? (keyText locale key) =
      (newest rows key).or (m.gauges.get? (keyText locale key)) := by
  induction rows generalizing m with
  | nil => rfl
  | cons r rows ih =>
    rw [List.forall_mem_cons] at hrows
    rw [List.foldl_cons, ih hrows.2, newest_cons, Option.or_assoc]
    congr 1
    rw [Maps.add]
    split
    · exact get?_setRow hrows.1.plain hkey
    · rename_i hcounter
      have hne : identity r ≠ key := fun heq => hcounter (hrows.1.told.2 (heq ▸ hgauge))
      rw [if_neg hne]
      rfl

end

/-! ### The baseline -/

section
variable {locale : Locale} {gauge : MetricKey → Prop} {gaugeKeys : List String} {m : RowMap} {rows : List Row}

theorem keyed_seeded (hm : Keyed locale (¬ gauge ·) m) (hrows : ∀ r ∈ rows, Told locale gauge gaugeKeys r) :
    Keyed locale (¬ gauge ·) (rows.foldl (seedCounter locale gaugeKeys) m) := by
  induction rows generalizing m with
  | nil => exact hm
  | cons r rows ih =>
    rw [List.forall_mem_cons] at hrows
    refine ih ?_ hrows.2
    rw [seedCounter]
    split
    · rename_i hseed
      rw [Bool.and_eq_true, Bool.not_eq_true'] at hseed
      have hcounter : ¬ gauge (identity r) := fun hgauge => by
        rw [hrows.1.told.2 hgauge] at hseed
        cases hseed.1
      exact hm.set hrows.1.plain hcounter rfl
    · exact hm

theorem value_seeded (hm : ∀ k r, m.get? k = some r → r.value = 0) :
    ∀ k r, (rows.foldl (seedCounter locale gaugeKeys) m).get? k = some r → r.value = 0 := by
  induction rows generalizing m with
  | nil => exact hm
  | cons r rows ih => exact ih (held_seedCounter hm)

end

/-! ### The samples -/

section
variable {locale : Locale} {gaugeKeys : List String} {m : Maps} {points : List (RollupPoint ℚ)}

theorem bucketSamples_snd :
    (bucketSamples locale gaugeKeys m points).2 =
      (points.flatMap (·.values)).foldl (Maps.add locale gaugeKeys) m := by
  induction points generalizing m with
  | nil => rfl
  | cons point points ih =>
    rw [List.flatMap_cons, List.foldl_append]
    exact ih

theorem bucketSamples_rows :
    (bucketSamples locale gaugeKeys m points).1.map (·.rows) = (List.range points.length).map fun i =>
      (((points.take (i + 1)).flatMap (·.values)).foldl (Maps.add locale gaugeKeys) m).rows := by
  induction points generalizing m with
  | nil => rfl
  | cons point points ih =>
    rw [List.length_cons, List.range_succ_eq_map, List.map_cons, List.map_map]
    show (m.addPoint locale gaugeKeys point).rows :: (bucketSamples locale gaugeKeys _ points).1.map (·.rows) = _
    rw [ih]
    congr 1
    · rw [List.take_succ_cons, List.take_zero, List.flatMap_cons, List.flatMap_nil, List.append_nil]
      rfl
    · refine List.map_congr_left fun i _ => ?_
      show _ = ((List.foldl _ m (((point :: points).take (i + 1 + 1)).flatMap (·.values)))).rows
      rw [List.take_succ_cons, List.flatMap_cons, List.foldl_append]
      rfl

theorem overwriteLast_rows (rows : List Row) (out : List Sample) :
    (overwriteLast rows out).map (·.rows) =
      if 1 < out.length then (out.map (·.rows)).dropLast ++ [rows] else out.map (·.rows) := by
  rw [overwriteLast]
  split
  · rename_i hlen
    have hne : out ≠ [] := List.ne_nil_of_length_pos (by omega)
    rw [List.map_append, List.map_dropLast, List.getLast?_eq_some_getLast hne]
    rfl
  · rfl

end

namespace RangeResponse
variable (locale : Locale) (range : RangeResponse)

/-- The maps after the first buckets. -/
def after (i : Nat) : Maps :=
  ((range.sorted.take i).flatMap (·.values)).foldl (Maps.add locale (range.gaugeKeys locale)) (range.seeded locale)

/-- What the historical samples show. -/
def shown (i : Nat) : Maps :=
  if i = range.points.length ∧ 0 < i then range.final locale (range.after locale i) else range.after locale i

/-- What the sample of the tail shows. -/
def withTail (tail : Tail ℚ) : Maps :=
  let final := range.final locale (range.after locale range.points.length)
  { final with counters := tail.totals.foldl (addCounter locale) final.counters }

/-- The tail, if it goes with the range. -/
def matching (tail : Option (Tail ℚ)) : Option (Tail ℚ) :=
  tail.filter fun tail => tail.baseHistoryRevision = range.historyRevision

/-- What the tail adds to a counter. -/
def added (tail : Option (Tail ℚ)) (key : MetricKey) : ℚ :=
  ((range.matching tail).map fun tail => valueIn tail.totals key).getD 0

theorem length_sorted : range.sorted.length = range.points.length := List.length_mergeSort _

theorem historical_rows :
    ((⟨range.effectiveFrom.getD range.requestedFrom * 1000, (range.seeded locale).rows⟩ :: (bucketSamples locale
      (range.gaugeKeys locale) (range.seeded locale) range.sorted).1 : List Sample).map (·.rows)) =
      (List.range (range.points.length + 1)).map fun i => (range.after locale i).rows := by
  rw [List.map_cons, bucketSamples_rows, List.range_succ_eq_map, List.map_cons, List.map_map, range.length_sorted]
  rfl

theorem overwritten_rows :
    (overwriteLast (range.final locale (range.after locale range.points.length)).rows
      (⟨range.effectiveFrom.getD range.requestedFrom * 1000, (range.seeded locale).rows⟩ :: (bucketSamples locale
        (range.gaugeKeys locale) (range.seeded locale) range.sorted).1)).map (·.rows) =
      (List.range (range.points.length + 1)).map fun i => (range.shown locale i).rows := by
  have hlen := congrArg List.length (historical_rows locale range)
  rw [List.length_map, List.length_map, List.length_range] at hlen
  rw [overwriteLast_rows, historical_rows, hlen]
  have hbefore : ∀ i ∈ List.range range.points.length, (range.shown locale i).rows = (range.after locale i).rows := by
    intro i hi
    rw [shown, if_neg fun h => (List.mem_range.1 hi).ne h.1]
  rw [List.range_succ, List.map_append, List.map_append, List.map_congr_left hbefore]
  split
  · rw [List.map_singleton, List.map_singleton, List.dropLast_concat, shown, if_pos ⟨rfl, by omega⟩]
  · rw [List.map_singleton, List.map_singleton, shown, if_neg (by omega)]

/-- The historical samples, and one for a tail of the same revision. -/
theorem rangeSamples_rows (tail : Option (Tail ℚ)) :
    (rangeSamples locale range tail).map (·.rows) =
      (List.range (range.points.length + 1)).map (fun i => (range.shown locale i).rows) ++
        ((range.matching tail).map fun tail => (range.withTail locale tail).rows).toList := by
  have hlast : (bucketSamples locale (range.gaugeKeys locale) (range.seeded locale) range.sorted).2 =
      range.after locale range.points.length := by
    rw [bucketSamples_snd, after, ← range.length_sorted, List.take_length]
  rw [rangeSamples]
  dsimp only
  rw [hlast, matching]
  cases tail with
  | none => rw [overwritten_rows, Option.filter_none, Option.map_none, Option.toList_none, List.append_nil]
  | some tail =>
    rw [Option.filter_some]
    dsimp only
    by_cases hrev : tail.baseHistoryRevision = range.historyRevision
    · rw [if_pos hrev, if_pos (by simpa using hrev), List.map_append, overwritten_rows]
      rfl
    · rw [if_neg hrev, if_neg (by simpa using hrev), overwritten_rows]
      exact (List.append_nil _).symm

end RangeResponse

/-! ### A consistent range -/

variable (gauge : MetricKey → Prop)

/-- What the server promises of a range, `gauge` being the series that are gauges there: the increments of each counter
add up to its total, and every gauge of a bucket is among the newest ones. -/
structure Consistent (range : RangeResponse) : Prop where
  plain : ∀ r ∈ range.totals ++ range.latest ++ range.points.flatMap (·.values), Plain (identity r)
  gauges : ∀ r ∈ range.latest, gauge (identity r)
  counters : ∀ r ∈ range.totals, ¬ gauge (identity r)
  named : ∀ point ∈ range.points, ∀ r ∈ point.values, gauge (identity r) → identity r ∈ range.latest.map identity
  nonneg : ∀ point ∈ range.points, ∀ r ∈ point.values, ¬ gauge (identity r) → 0 ≤ r.value
  sums : ∀ key, ¬ gauge key → (range.points.map fun point => valueIn point.values key).sum = valueIn range.totals key

/-- A tail has counters only. -/
structure TailOk (tail : Tail ℚ) : Prop where
  plain : ∀ r ∈ tail.totals, Plain (identity r)
  counters : ∀ r ∈ tail.totals, ¬ gauge (identity r)
  nonneg : ∀ r ∈ tail.totals, 0 ≤ r.value

section
variable {gauge} {locale : Locale} {range : RangeResponse} {key : MetricKey} {r : Row}

theorem gaugeKeys_contains_iff (hlatest : ∀ l ∈ range.latest, Plain (identity l)) (hr : Plain (identity r)) :
    (range.gaugeKeys locale).contains (rowKey locale r) = true ↔ identity r ∈ range.latest.map identity := by
  rw [List.contains_iff_mem, RangeResponse.gaugeKeys, List.mem_map, List.mem_map]
  constructor
  · rintro ⟨l, hl, h⟩
    exact ⟨l, hl, keyText_inj (hlatest l hl) hr h⟩
  · rintro ⟨l, hl, h⟩
    exact ⟨l, hl, rowKey_congr h⟩

namespace Consistent
variable (h : Consistent gauge range)
include h

theorem plain_totals : ∀ r ∈ range.totals, Plain (identity r) := fun r hr => h.plain r (by simp [hr])

theorem plain_latest : ∀ r ∈ range.latest, Plain (identity r) := fun r hr => h.plain r (by simp [hr])

theorem told (hr : r ∈ range.totals ++ range.points.flatMap (·.values)) :
    Told locale gauge (range.gaugeKeys locale) r := by
  have hplain : Plain (identity r) := h.plain r (by
    rcases List.mem_append.1 hr with hr | hr
    · simp [hr]
    · exact List.mem_append_right _ hr)
  refine ⟨hplain, ?_⟩
  rw [gaugeKeys_contains_iff h.plain_latest hplain]
  constructor
  · intro hmem
    obtain ⟨l, hl, heq⟩ := List.mem_map.1 hmem
    exact heq ▸ h.gauges l hl
  · intro hgauge
    rcases List.mem_append.1 hr with hr | hr
    · exact absurd hgauge (h.counters r hr)
    · obtain ⟨point, hpoint, hr⟩ := List.mem_flatMap.1 hr
      exact h.named point hpoint r hr hgauge

theorem kept_seeded : Kept locale gauge (range.seeded locale) where
  counters := keyed_seeded keyed_empty fun _ hr => h.told hr
  gauges := keyed_empty

end Consistent

end

/-! ### The columns of a series -/

/-- The counter in each sample, zero where it is not listed. -/
def column (samples : List Sample) (key : MetricKey) : List ℚ := samples.map fun s => valueIn s.rows key

theorem valueIn_nonneg {rows : List Row} {key : MetricKey} (h : ∀ r ∈ rows, identity r = key → 0 ≤ r.value) :
    0 ≤ valueIn rows key := by
  refine List.sum_nonneg fun v hv => ?_
  obtain ⟨r, hr, rfl⟩ := List.mem_map.1 hv
  rw [rowsIn, List.mem_filter, decide_eq_true_iff] at hr
  exact h r hr.1 hr.2

theorem valueIn_flatMap (points : List (RollupPoint ℚ)) (key : MetricKey) :
    valueIn (points.flatMap (·.values)) key = (points.map fun point => valueIn point.values key).sum := by
  induction points with
  | nil => rfl
  | cons point points ih => rw [List.flatMap_cons, valueIn_append, ih, List.map_cons, List.sum_cons]

/-- What the server lists once is the newest that it lists. -/
theorem held_totals {locale : Locale} {rows : List Row} {key : MetricKey} (hplain : ∀ r ∈ rows, Plain (identity r))
    (honce : (rows.map identity).Nodup) (hkey : Plain key) :
    held locale (rows.foldl (setRow locale) .empty) key = valueIn rows key := by
  have hone : rowsIn rows key = ((rows.map fun r => (identity r, r)).find? (·.1 = key)).toList.map Prod.snd := by
    have hnodup : ((rows.map fun r => (identity r, r)).map Prod.fst).Nodup := by
      rw [List.map_map]
      exact honce
    rw [← OrderedMap.filter_key hnodup, List.filter_map, List.map_map]
    exact (List.map_id _).symm
  rw [held, get?_foldl_setRow hplain hkey, OrderedMap.get?_empty, Option.or_none, newest, valueIn, hone]
  cases (rows.map fun r => (identity r, r)).find? (·.1 = key) <;> simp

namespace RangeResponse
variable (range : RangeResponse)

/-- What the first buckets have counted. -/
def counted (key : MetricKey) (i : Nat) : ℚ := valueIn ((range.sorted.take i).flatMap (·.values)) key

/-- The rows that a gauge of the `i`-th sample is taken from. -/
def gaugeRows (i : Nat) : List Row :=
  if i = 0 ∨ i < range.points.length then (range.sorted.take i).flatMap (·.values) else range.latest

theorem bucket_mem {i : Nat} {r : Row} (hr : r ∈ (range.sorted.take i).flatMap (·.values)) :
    ∃ point ∈ range.points, r ∈ point.values := by
  obtain ⟨point, hpoint, hr⟩ := List.mem_flatMap.1 hr
  exact ⟨point, List.mem_mergeSort.1 (List.mem_of_mem_take hpoint), hr⟩

end RangeResponse

namespace Consistent
variable {gauge : MetricKey → Prop} {locale : Locale} {range : RangeResponse} {key : MetricKey}
variable (h : Consistent gauge range)
include h

theorem bucket_told (i : Nat) : ∀ r ∈ (range.sorted.take i).flatMap (·.values),
    Told locale gauge (range.gaugeKeys locale) r := by
  intro r hr
  obtain ⟨point, hpoint, hr⟩ := range.bucket_mem hr
  exact h.told (List.mem_append_right _ (List.mem_flatMap.2 ⟨point, hpoint, hr⟩))

theorem kept_after (i : Nat) : Kept locale gauge (range.after locale i) := h.kept_seeded.foldl (h.bucket_told i)

theorem kept_final (i : Nat) : Kept locale gauge (range.final locale (range.after locale i)) where
  counters := keyed_empty.foldl_setRow fun r hr => ⟨h.plain_totals r hr, h.counters r hr⟩
  gauges := (h.kept_after i).gauges.foldl_setRow fun r hr => ⟨h.plain_latest r hr, h.gauges r hr⟩

theorem kept_shown (i : Nat) : Kept locale gauge (range.shown locale i) := by
  rw [RangeResponse.shown]
  split
  · exact h.kept_final i
  · exact h.kept_after i

theorem counted_mono (hcounter : ¬ gauge key) : Monotone (range.counted key) := by
  intro i j hij
  obtain ⟨more, hmore⟩ := List.take_prefix_take_left (l := range.sorted) hij
  have hrows : ∀ r ∈ more.flatMap (·.values), identity r = key → 0 ≤ r.value := by
    intro r hr hkey
    have hmem : r ∈ (range.sorted.take j).flatMap (·.values) := by
      rw [← hmore, List.flatMap_append]
      exact List.mem_append_right _ hr
    obtain ⟨point, hpoint, hr⟩ := range.bucket_mem hmem
    exact h.nonneg point hpoint r hr (hkey ▸ hcounter)
  rw [RangeResponse.counted, RangeResponse.counted, ← hmore, List.flatMap_append, valueIn_append]
  exact le_add_of_nonneg_right (valueIn_nonneg hrows)

/-- All the buckets have counted the total. -/
theorem counted_all (hcounter : ¬ gauge key) :
    range.counted key range.points.length = valueIn range.totals key := by
  have hperm := (List.mergeSort_perm range.points fun a b => a.to ≤ b.to).map fun point => valueIn point.values key
  rw [RangeResponse.counted, ← range.length_sorted, List.take_length, valueIn_flatMap, ← h.sums key hcounter]
  exact hperm.sum_eq

theorem counted_le (hcounter : ¬ gauge key) {i : Nat} (hi : i ≤ range.points.length) :
    range.counted key i ≤ valueIn range.totals key := by
  rw [← h.counted_all hcounter]
  exact h.counted_mono hcounter hi

theorem value_after (hkey : Plain key) (hcounter : ¬ gauge key) (i : Nat) :
    held locale (range.after locale i).counters key = range.counted key i := by
  have hzero : held locale (range.seeded locale).counters key = 0 := by
    rw [held]
    cases hr : (range.seeded locale).counters.get? (keyText locale key) with
    | none => rfl
    | some r => exact value_seeded (fun k r hr => by cases hr) _ _ hr
  rw [RangeResponse.after, held_foldl (h.bucket_told i) hkey hcounter, hzero, zero_add]
  rfl

theorem value_final (hkey : Plain key) (last : Maps) :
    held locale (range.final locale last).counters key = valueIn range.totals key :=
  held_totals h.plain_totals range.totalsOnce hkey

/-- The exact total is what the last sample had counted. -/
theorem value_shown (hkey : Plain key) (hcounter : ¬ gauge key) (i : Nat) :
    valueIn (range.shown locale i).rows key = range.counted key i := by
  rw [valueIn_rows (h.kept_shown i) hkey hcounter, RangeResponse.shown]
  split
  · rename_i hlast
    rw [h.value_final hkey, hlast.1, h.counted_all hcounter]
  · exact h.value_after hkey hcounter i

variable {tail : Tail ℚ} (htail : TailOk gauge tail)
include htail

theorem kept_withTail : Kept locale gauge (range.withTail locale tail) where
  counters := (h.kept_final _).counters.foldl_addCounter fun r hr => ⟨htail.plain r hr, htail.counters r hr⟩
  gauges := (h.kept_final _).gauges

theorem value_withTail (hkey : Plain key) (hcounter : ¬ gauge key) :
    valueIn (range.withTail locale tail).rows key = valueIn range.totals key + valueIn tail.totals key := by
  have hfinal : held locale (range.final locale (range.after locale range.points.length)).counters key =
      valueIn range.totals key := h.value_final hkey _
  rw [valueIn_rows (h.kept_withTail htail) hkey hcounter, ← hfinal]
  exact held_foldl_addCounter htail.plain hkey

end Consistent

namespace Consistent
variable {gauge : MetricKey → Prop} {locale : Locale} {range : RangeResponse} {key : MetricKey}
variable (h : Consistent gauge range)
include h

theorem gauge_after (hkey : Plain key) (hgauge : gauge key) (i : Nat) :
    (range.after locale i).gauges.get? (keyText locale key) =
      newest ((range.sorted.take i).flatMap (·.values)) key := by
  rw [RangeResponse.after, gauge_foldl (h.bucket_told i) hkey hgauge]
  exact Option.or_none

/-- The newest gauges come over all those of the buckets. -/
theorem gauge_final (hkey : Plain key) (hgauge : gauge key) (i : Nat) :
    (range.final locale (range.after locale i)).gauges.get? (keyText locale key) = newest range.latest key := by
  show (range.latest.foldl (setRow locale) (range.after locale i).gauges).get? (keyText locale key) = _
  rw [get?_foldl_setRow h.plain_latest hkey, h.gauge_after hkey hgauge]
  cases hlatest : newest range.latest key with
  | some r => rfl
  | none =>
    rw [newest, List.getLast?_eq_none_iff, rowsIn, List.filter_eq_nil_iff] at hlatest
    rw [Option.none_or, newest, List.getLast?_eq_none_iff, rowsIn, List.filter_eq_nil_iff]
    intro r hr hid
    obtain ⟨point, hpoint, hr⟩ := range.bucket_mem hr
    have hid : identity r = key := of_decide_eq_true hid
    obtain ⟨l, hl, heq⟩ := List.mem_map.1 (h.named point hpoint r hr (hid ▸ hgauge))
    exact hlatest l hl (decide_eq_true (heq.trans hid))

theorem gauge_shown (hkey : Plain key) (hgauge : gauge key) {i : Nat} (hi : i ≤ range.points.length) :
    rowsIn (range.shown locale i).rows key = (newest (range.gaugeRows i) key).toList := by
  rw [rowsIn_rows (h.kept_shown i) hkey hgauge, RangeResponse.shown, RangeResponse.gaugeRows]
  split
  · rename_i hlast
    rw [if_neg (by omega), h.gauge_final hkey hgauge]
  · rename_i hlast
    rw [if_pos (by omega), h.gauge_after hkey hgauge]

end Consistent

/-! ### The dashboard and the server agree -/

/-- Every selected range has at least its baseline. -/
theorem windowed_eq {get : Sample → ℚ} {samples : List Sample} {first last : Sample} (hfirst : samples.head? = some first)
    (hlast : samples.getLast? = some last) : windowed get samples = max 0 (get last - get first) := by
  rw [windowed, hfirst, hlast]
  dsimp only
  split
  · rename_i hlen
    obtain ⟨s, rfl⟩ : ∃ s, samples = [s] := by
      refine List.length_eq_one_iff.1 ?_
      have := List.length_pos_of_mem (List.mem_of_mem_head? hfirst)
      omega
    obtain rfl : s = first := Option.some.inj hfirst
    obtain rfl : s = last := Option.some.inj hlast
    rw [sub_self, max_self]
  · rfl

/-- A counter of the samples against what the server says of it. -/
structure Agrees (range : RangeResponse) (tail : Option (Tail ℚ)) (samples : List Sample) (key : MetricKey) : Prop where
  start : (column samples key).head? = some 0
  mono : (column samples key).Pairwise (· ≤ ·)
  bounded : ∀ v ∈ column (samples.take (range.points.length + 1)) key, v ≤ valueIn range.totals key
  exact : (column (samples.take (range.points.length + 1)) key).getLast? = some (valueIn range.totals key)
  gained : ∃ first last, samples.head? = some first ∧ samples.getLast? = some last ∧
    valueIn last.rows key - valueIn first.rows key = valueIn range.totals key + range.added tail key
  windowed : windowed (fun s => valueIn s.rows key) samples = valueIn range.totals key + range.added tail key

section
variable {gauge : MetricKey → Prop} {range : RangeResponse} {tail : Option (Tail ℚ)} {key : MetricKey}

theorem mem_matching {t : Tail ℚ} (ht : t ∈ range.matching tail) : t ∈ tail := (Option.mem_filter_iff.1 ht).1

theorem column_rangeSamples (locale : Locale) (h : Consistent gauge range) (htail : ∀ t ∈ tail, TailOk gauge t)
    (hkey : Plain key) (hcounter : ¬ gauge key) :
    column (rangeSamples locale range tail) key = (List.range (range.points.length + 1)).map (range.counted key) ++
      ((range.matching tail).map fun t => valueIn range.totals key + valueIn t.totals key).toList := by
  have hcolumn : column (rangeSamples locale range tail) key =
      ((rangeSamples locale range tail).map (·.rows)).map (valueIn · key) := by
    rw [List.map_map]
    rfl
  rw [hcolumn, range.rangeSamples_rows, List.map_append, List.map_map]
  congr 1
  · exact List.map_congr_left fun i _ => h.value_shown hkey hcounter i
  · cases hmatch : range.matching tail with
    | none => rfl
    | some t => exact congrArg (· :: []) (h.value_withTail (htail t (mem_matching hmatch)) hkey hcounter)

theorem added_nonneg (htail : ∀ t ∈ tail, TailOk gauge t) : 0 ≤ range.added tail key := by
  rw [RangeResponse.added]
  cases hmatch : range.matching tail with
  | none => exact le_rfl
  | some t => exact valueIn_nonneg fun r hr _ => (htail t (mem_matching hmatch)).nonneg r hr

theorem agrees (locale : Locale) (h : Consistent gauge range) (htail : ∀ t ∈ tail, TailOk gauge t)
    (hkey : Plain key) (hcounter : ¬ gauge key) : Agrees range tail (rangeSamples locale range tail) key := by
  have hcolumn := column_rangeSamples locale h htail hkey hcounter
  have hadded : 0 ≤ range.added tail key := added_nonneg htail
  have htotal : 0 ≤ valueIn range.totals key := h.counted_le hcounter (Nat.zero_le _)
  have hhistorical : column ((rangeSamples locale range tail).take (range.points.length + 1)) key =
      (List.range (range.points.length + 1)).map (range.counted key) := by
    rw [column, List.map_take]
    show (column _ key).take _ = _
    rw [hcolumn]
    exact List.take_left' (by rw [List.length_map, List.length_range])
  have hstart : (column (rangeSamples locale range tail) key).head? = some 0 := by
    rw [hcolumn, List.range_succ_eq_map]
    rfl
  have hlast : (column (rangeSamples locale range tail) key).getLast? =
      some (valueIn range.totals key + range.added tail key) := by
    rw [hcolumn, List.range_succ, List.map_append, List.map_singleton, h.counted_all hcounter, RangeResponse.added]
    cases range.matching tail <;> simp
  obtain ⟨first, hfirst, hzero⟩ : ∃ first, (rangeSamples locale range tail).head? = some first ∧
      valueIn first.rows key = 0 := by
    rw [column, List.head?_map] at hstart
    exact Option.map_eq_some_iff.1 hstart
  obtain ⟨last, hlast, hsum⟩ : ∃ last, (rangeSamples locale range tail).getLast? = some last ∧
      valueIn last.rows key = valueIn range.totals key + range.added tail key := by
    rw [column, List.getLast?_map] at hlast
    exact Option.map_eq_some_iff.1 hlast
  refine ⟨hstart, ?_, ?_, ?_, ⟨first, last, hfirst, hlast, ?_⟩, ?_⟩
  · rw [hcolumn, List.pairwise_append]
    refine ⟨?_, ?_, ?_⟩
    · exact List.pairwise_map.2 (List.pairwise_lt_range.imp fun hij => h.counted_mono hcounter hij.le)
    · cases range.matching tail <;> simp
    · intro v hv w hw
      obtain ⟨i, hi, rfl⟩ := List.mem_map.1 hv
      have hle := h.counted_le hcounter (Nat.le_of_lt_succ (List.mem_range.1 hi))
      rw [Option.mem_toList, Option.map_eq_some_iff] at hw
      obtain ⟨t, hmatch, rfl⟩ := hw
      rw [RangeResponse.added, hmatch] at hadded
      exact hle.trans (le_add_of_nonneg_right hadded)
  · rw [hhistorical]
    intro v hv
    obtain ⟨i, hi, rfl⟩ := List.mem_map.1 hv
    exact h.counted_le hcounter (Nat.le_of_lt_succ (List.mem_range.1 hi))
  · rw [hhistorical, List.range_succ, List.map_append, List.map_singleton, h.counted_all hcounter]
    exact List.getLast?_concat
  · rw [hsum, hzero, sub_zero]
  · rw [windowed_eq hfirst hlast, hsum, hzero, sub_zero, max_eq_right (add_nonneg htotal hadded)]

/-- The gauge that a sample shows. -/
theorem gauge_rangeSamples (locale : Locale) (h : Consistent gauge range) (htail : ∀ t ∈ tail, TailOk gauge t)
    (hkey : Plain key) (hgauge : gauge key) {i : Nat} {s : Sample} (hs : (rangeSamples locale range tail)[i]? = some s) :
    rowsIn s.rows key = (newest (range.gaugeRows i) key).toList := by
  have hrows : ((rangeSamples locale range tail).map (·.rows))[i]? = some s.rows := by
    rw [List.getElem?_map, hs]
    rfl
  rw [range.rangeSamples_rows, List.getElem?_append] at hrows
  rw [List.length_map, List.length_range] at hrows
  split at hrows
  · rename_i hi
    rw [List.getElem?_map, List.getElem?_range hi] at hrows
    rw [← Option.some.inj hrows, h.gauge_shown hkey hgauge (by omega)]
  · rename_i hi
    obtain ⟨t, hmatch, hrows⟩ : ∃ t, range.matching tail = some t ∧ (range.withTail locale t).rows = s.rows := by
      have hmem := List.mem_of_getElem? hrows
      rw [Option.mem_toList] at hmem
      exact Option.map_eq_some_iff.1 hmem
    rw [← hrows, rowsIn_rows (h.kept_withTail (htail t (mem_matching hmatch))) hkey hgauge, RangeResponse.gaugeRows,
      if_neg (by omega)]
    exact congrArg Option.toList (h.gauge_final hkey hgauge _)

/-- The counters of the samples add up to what the server says, and the gauges are the newest. -/
theorem rangeSamples_agree (locale : Locale) (gauge : MetricKey → Prop) (range : RangeResponse)
    (tail : Option (Tail ℚ)) (h : Consistent gauge range) (htail : ∀ t ∈ tail, TailOk gauge t) (key : MetricKey)
    (hkey : Plain key) :
    (¬ gauge key → Agrees range tail (rangeSamples locale range tail) key) ∧
      (gauge key → ∀ (i : Nat) (s : Sample), (rangeSamples locale range tail)[i]? = some s →
        rowsIn s.rows key = (newest (range.gaugeRows i) key).toList) :=
  ⟨agrees locale h htail hkey, fun hgauge _ _ => gauge_rangeSamples locale h htail hkey hgauge⟩

end

/-- A counter in two buckets, and a gauge in the first of them. -/
def twoBuckets : RangeResponse where
  requestedFrom := 0
  availableFrom := some 60
  availableTo := some 180
  effectiveFrom := some 60
  effectiveTo := some 180
  totals := [⟨"requests", ∅, 5⟩]
  latest := [⟨"lanes", ∅, 3⟩]
  points := [⟨none, 60, 60, 120, [⟨"requests", ∅, 2⟩, ⟨"lanes", ∅, 4⟩]⟩, ⟨none, 60, 120, 180, [⟨"requests", ∅, 3⟩]⟩]
  historyRevision := 7
  totalsOnce := by simp

theorem plain_unlabelled {metric : String} (h : '\x00' ∉ metric.toList) : Plain ⟨metric, ∅⟩ where
  metric := h
  labels := by simp

theorem twoBuckets_consistent : Consistent (·.metric = "lanes") twoBuckets where
  plain := by
    have hrequests : Plain ⟨"requests", ∅⟩ := plain_unlabelled (by decide)
    have hlanes : Plain ⟨"lanes", ∅⟩ := plain_unlabelled (by decide)
    simp [twoBuckets, identity, hrequests, hlanes]
  gauges := by simp [twoBuckets, identity]
  counters := by simp [twoBuckets, identity]
  named := by simp [twoBuckets, identity]
  nonneg := by simp [twoBuckets, identity]
  sums key hkey := by
    have hlanes : identity (⟨"lanes", ∅, 4⟩ : Row) ≠ key := fun h => hkey (h ▸ rfl)
    simp only [twoBuckets, List.map_cons, List.map_nil, List.sum_cons, List.sum_nil, valueIn_cons, if_neg hlanes]
    by_cases h : (⟨"requests", ∅⟩ : MetricKey) = key
    · simp [identity, h, valueIn, rowsIn]
      norm_num
    · simp [identity, h, valueIn, rowsIn]

theorem rangeSamples_agree_two :
    Agrees twoBuckets (some ⟨7, some 180, 200, [⟨"requests", ∅, 1⟩]⟩)
      (rangeSamples ⟨id, fun _ => .refl _⟩ twoBuckets (some ⟨7, some 180, 200, [⟨"requests", ∅, 1⟩]⟩))
      ⟨"requests", ∅⟩ := by
  refine (rangeSamples_agree _ _ _ _ twoBuckets_consistent ?_ _ (plain_unlabelled (by decide))).1 (by simp)
  intro tail htail
  obtain rfl := Option.some.inj htail
  refine ⟨?_, ?_, ?_⟩
  · have hrequests : Plain ⟨"requests", ∅⟩ := plain_unlabelled (by decide)
    simp [identity, hrequests]
  · simp [identity]
  · simp

end OpenProxy.Dashboard
