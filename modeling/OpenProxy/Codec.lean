import OpenProxy.Record

/-!
# Round trip of the record codec (`history/codec.rs`)

The encoder and the decoder are two mappings between records and JSON objects, each with its own checks. They agree: a
record can be encoded when its state is finite and names each series once, and what can be decoded is such a record.
-/

namespace OpenProxy

section
variable {V : Type} [F64 V]

/-- The state of a sample is finite, and no two of its entries are of one kind, metric and labels. -/
def Record.Encodable : Record V → Prop
  | .sample r => (∀ e ∈ r.state, F64.isFinite e.value = true) ∧ (r.state.map fun e => (e.kind, e.metric, e.labels)).Nodup
  | _ => True

omit [F64 V] in
theorem nodup_identities {state : List (StateEntry V)} :
    (state.map fun e => (e.kind, e.metric, e.labels)).Nodup ↔ (state.map fun e => (e.kind, e.key)).Nodup := by
  have hmap : (state.map fun e => (e.kind, e.metric, e.labels)) =
      (state.map fun e => (e.kind, e.key)).map fun p => (p.1, p.2.metric, p.2.labels) := by
    rw [List.map_map]
    rfl
  rw [hmap, List.nodup_map_iff]
  rintro ⟨kind, key⟩ ⟨kind', key'⟩ h
  simp only [Prod.mk.injEq] at h
  obtain ⟨rfl, hmetric, hlabels⟩ := h
  cases key
  cases key'
  simp_all

/-- A walk over the entries that has not seen the `series` before ends well. -/
structure Distinct (series : List (StateKind × MetricKey)) (state : List (StateEntry V)) : Prop where
  finite : ∀ e ∈ state, F64.isFinite e.value = true
  nodup : (state.map fun e => (e.kind, e.key)).Nodup
  unseen : ∀ e ∈ state, (e.kind, e.key) ∉ series

namespace Distinct
variable {series : List (StateKind × MetricKey)} {state : List (StateEntry V)} {entry : StateEntry V}

theorem nil : Distinct (V := V) series [] := ⟨by simp, by simp, by simp⟩

theorem cons (hfinite : F64.isFinite entry.value = true) (hseries : (entry.kind, entry.key) ∉ series)
    (h : Distinct ((entry.kind, entry.key) :: series) state) : Distinct series (entry :: state) where
  finite := List.forall_mem_cons.2 ⟨hfinite, h.finite⟩
  nodup := by
    rw [List.map_cons, List.nodup_cons]
    refine ⟨fun hmem => ?_, h.nodup⟩
    obtain ⟨e, he, heq⟩ := List.mem_map.1 hmem
    exact h.unseen e he (heq ▸ List.mem_cons_self)
  unseen := List.forall_mem_cons.2 ⟨hseries, fun e he hmem => h.unseen e he (List.mem_cons_of_mem _ hmem)⟩

theorem of_encodeEntries {raw : List (RawStateEntry V)} (h : encodeEntries series state = .ok raw) :
    Distinct series state := by
  induction state generalizing series raw with
  | nil => exact nil
  | cons entry state ih =>
    rw [encodeEntries] at h
    split at h
    · rename_i hfinite
      split at h
      · cases h
      · rename_i hseries
        obtain ⟨rest, hrest, -⟩ := bind_eq_ok.1 h
        exact cons hfinite hseries (ih hrest)
    · cases h

theorem of_decodeEntries {raw : List (RawStateEntry V)} (h : decodeEntries series raw = .ok state) :
    Distinct series state := by
  induction raw generalizing series state with
  | nil =>
    cases h
    exact nil
  | cons entry raw ih =>
    rw [decodeEntries] at h
    split at h
    · cases h
    · split at h
      · rename_i hfinite
        dsimp only at h
        split at h
        · cases h
        · rename_i hseries
          obtain ⟨rest, hrest, h⟩ := bind_eq_ok.1 h
          cases h
          exact cons hfinite hseries (ih hrest)
      · cases h

end Distinct

theorem Record.encodable_iff {record : Record V} : record.Encodable ↔ ∃ raw, encodeRaw record = .ok raw := by
  cases record with
  | boot r => exact iff_of_true trivial ⟨_, rfl⟩
  | checkpoint r => exact iff_of_true trivial ⟨_, rfl⟩
  | sample r =>
    constructor
    · rintro ⟨hfinite, hnodup⟩
      obtain ⟨raw, hraw⟩ := encodeEntries_eq_ok hfinite (nodup_identities.1 hnodup) fun _ _ => List.not_mem_nil
      exact ⟨_, by rw [encodeRaw, encodeState, hraw]; rfl⟩
    · rintro ⟨raw, h⟩
      obtain ⟨state, hstate, -⟩ := bind_eq_ok.1 h
      have hd := Distinct.of_encodeEntries hstate
      exact ⟨hd.finite, nodup_identities.2 hd.nodup⟩

/-- What decodes can be encoded. -/
theorem encodable_of_decodeRaw {raw : RawRecord V} {record : Record V} (h : decodeRaw raw = .ok record) :
    record.Encodable := by
  unfold decodeRaw at h
  split at h
  · cases h
  split at h
  · cases h
  split at h
  · cases h
    trivial
  · cases h
    trivial
  · obtain ⟨state, hstate, h⟩ := bind_eq_ok.1 h
    cases h
    have hd := Distinct.of_decodeEntries hstate
    exact ⟨hd.finite, nodup_identities.2 hd.nodup⟩
  all_goals cases h

theorem exists_raw_of_decodeRecord {json : SerdeJson V} {line : List UInt8} {record : Record V}
    (h : decodeRecord json line = .ok record) : ∃ raw, decodeRaw raw = .ok record := by
  unfold decodeRecord at h
  split at h
  · split at h
    · exact ⟨_, h⟩
    · cases h
    · cases h
  · cases h

/-- The library writes the object as UTF-8 text and reads the text as the object. -/
structure SerdeJson.RoundTrips (json : SerdeJson V) (raw : RawRecord V) : Prop where
  utf8 : (ByteArray.mk (json.toVec raw).toArray).validateUTF8 = true
  read : json.fromSlice (json.toVec raw) = .ok raw

/-- The objects of records hold finite numbers only, and the library is relied on for these. -/
theorem codec_round_trip {json : SerdeJson V} {record : Record V}
    (hjson : ∀ raw, encodeRaw record = .ok raw → json.RoundTrips raw) :
    ((∃ line, encodeRecord json record = .ok line) ↔ record.Encodable) ∧
    (∀ line, encodeRecord json record = .ok line → decodeRecord json line = .ok record) ∧
    ∀ line, decodeRecord json line = .ok record →
      ∃ line', encodeRecord json record = .ok line' ∧ decodeRecord json line' = .ok record := by
  have hencode : record.Encodable → ∃ line, encodeRecord json record = .ok line := by
    intro h
    obtain ⟨raw, hraw⟩ := Record.encodable_iff.1 h
    exact ⟨json.toVec raw, by rw [encodeRecord, hraw]; rfl⟩
  have hdecode (line : List UInt8) (h : encodeRecord json record = .ok line) : decodeRecord json line = .ok record := by
    obtain ⟨raw, hraw, rfl⟩ := encodeRecord_eq_ok h
    rw [decodeRecord, if_pos (hjson raw hraw).utf8, (hjson raw hraw).read]
    exact decodeRaw_of_encodeRaw hraw
  refine ⟨⟨?_, hencode⟩, hdecode, fun line h => ?_⟩
  · rintro ⟨line, h⟩
    obtain ⟨raw, hraw, -⟩ := encodeRecord_eq_ok h
    exact Record.encodable_iff.2 ⟨raw, hraw⟩
  · obtain ⟨raw, hraw⟩ := exists_raw_of_decodeRecord h
    obtain ⟨line', hline'⟩ := hencode (encodable_of_decodeRaw hraw)
    exact ⟨line', hline', hdecode line' hline'⟩

end

/-- A counter and a gauge of one name. -/
def sameName : SampleRecord ℚ :=
  ⟨10, "a", ⟨40, 1, [40]⟩, [⟨.counter, "n", ∅, 5⟩, ⟨.gauge, "n", ∅, 7⟩]⟩

def sameNameRaw : RawRecord ℚ :=
  ⟨format, version, "sample", 10, "a", ⟨40, 1, [40]⟩, .entries [⟨"counter", "n", ∅, 5⟩, ⟨"gauge", "n", ∅, 7⟩]⟩

theorem codec_round_trip_sameName :
    ∃ line, encodeRecord (.table [sameNameRaw]) (.sample sameName) = .ok line ∧
      decodeRecord (.table [sameNameRaw]) line = .ok (.sample sameName) := by
  have hraw : encodeRaw (.sample sameName) = .ok sameNameRaw := by decide +kernel
  have hjson : ∀ raw, encodeRaw (.sample sameName) = .ok raw → (SerdeJson.table [sameNameRaw]).RoundTrips raw := by
    intro raw h
    obtain rfl := Except.ok.inj (hraw.symm.trans h)
    exact ⟨Text.validateUTF8_of_ascii (by decide +kernel), by decide +kernel⟩
  obtain ⟨hiff, hdecode, -⟩ := codec_round_trip hjson
  obtain ⟨line, hline⟩ := hiff.2 ⟨fun _ _ => rfl, by decide +kernel⟩
  exact ⟨line, hline, hdecode line hline⟩

end OpenProxy
