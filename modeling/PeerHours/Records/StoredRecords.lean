import PeerHours.Library.JsonParse
import PeerHours.Records.Encoding
import PeerHours.Records.MemberSigned

/-!
# Records in a store

A replica holds an encoded record as it was created, with a signature added, or read back from the JSON text that a
store keeps. Reading it back changes nothing as long as the objects of its payload list their properties as objects
do, so every form creates the same envelope.
-/

namespace PeerHours.TimebankRecords

open Checked Json KeyedMap Sorting

/-- A property of a well formed object is well formed. -/
theorem wellFormed_of_field {value found : JsonValue} {name : String} (hvalue : WellFormed value)
    (h : value.field name = some found) : WellFormed found := by
  cases value with
  | obj fields =>
      obtain ⟨property, hproperty, rfl⟩ := Option.map_eq_some_iff.mp h
      exact wellFormedFields_iff.mp hvalue.2 property (KeyedMap.lookup_eq_some hproperty).1
  | _ => cases h

/-! ## Normalized payloads -/

/-- Normalizing properties keeps their names in place. -/
theorem map_fst_of_normalizeFields {fields normal : List (String × JsonValue)}
    (h : normalizeFields fields = .ok normal) : normal.map Prod.fst = fields.map Prod.fst := by
  induction fields generalizing normal with
  | nil =>
      obtain rfl := Except.ok.inj h
      rfl
  | cons property rest ih =>
      rw [normalizeFields] at h
      obtain ⟨_, -, h⟩ := bind_eq_ok.mp h
      obtain ⟨value, -, h⟩ := bind_eq_ok.mp h
      obtain ⟨others, hothers, h⟩ := bind_eq_ok.mp h
      obtain rfl := pure_eq_ok.mp h
      rw [List.map_cons, List.map_cons, ih hothers]

mutual

/-- A well formed value stays well formed when it is normalized. -/
theorem wellFormed_normalizeJson {value normal : JsonValue} (hvalue : WellFormed value)
    (h : normalizeJson value = .ok normal) : WellFormed normal := by
  match value with
  | .null | .bool _ | .num _ | .str _ =>
      obtain rfl := Except.ok.inj h
      trivial
  | .arr items =>
      rw [normalizeJson] at h
      obtain ⟨normalItems, hitems, h⟩ := bind_eq_ok.mp h
      obtain rfl := pure_eq_ok.mp h
      exact wellFormed_normalizeItems hvalue hitems
  | .obj fields =>
      rw [normalizeJson] at h
      obtain ⟨normalFields, hfields, h⟩ := bind_eq_ok.mp h
      obtain rfl := pure_eq_ok.mp h
      have hnodup : (normalFields.map Prod.fst).Nodup :=
        map_fst_of_normalizeFields hfields ▸ hvalue.1.nodup
      exact wellFormed_obj_of_mem (wellFormed_normalizeFields hvalue.2 hfields) (.sorted hnodup)
        fun property hproperty ↦ mem_sortBy.mp hproperty

theorem wellFormed_normalizeItems {items normal : List JsonValue} (hitems : WellFormedItems items)
    (h : normalizeItems items = .ok normal) : WellFormedItems normal := by
  match items with
  | [] =>
      obtain rfl := Except.ok.inj h
      trivial
  | item :: rest =>
      rw [normalizeItems] at h
      obtain ⟨normalItem, hitem, h⟩ := bind_eq_ok.mp h
      obtain ⟨normalRest, hrest, h⟩ := bind_eq_ok.mp h
      obtain rfl := pure_eq_ok.mp h
      exact ⟨wellFormed_normalizeJson hitems.1 hitem, wellFormed_normalizeItems hitems.2 hrest⟩

theorem wellFormed_normalizeFields {fields normal : List (String × JsonValue)}
    (hfields : WellFormedFields fields) (h : normalizeFields fields = .ok normal) :
    WellFormedFields normal := by
  match fields with
  | [] =>
      obtain rfl := Except.ok.inj h
      trivial
  | (name, value) :: rest =>
      rw [normalizeFields] at h
      obtain ⟨_, -, h⟩ := bind_eq_ok.mp h
      obtain ⟨normalValue, hvalue, h⟩ := bind_eq_ok.mp h
      obtain ⟨normalRest, hrest, h⟩ := bind_eq_ok.mp h
      obtain rfl := pure_eq_ok.mp h
      exact ⟨wellFormed_normalizeJson hfields.1 hvalue, wellFormed_normalizeFields hfields.2 hrest⟩

end

/-! ## Held forms -/

/-- What a replica may hold of an encoded record: the record, the record with a signature added by
`createMemberSignedRecord`, or either of them read back from its stored text. -/
inductive Held (record : RecordEnvelope) : JsonValue → Prop
  | encoded : Held record record.toJson
  | signed {signingKeyId signature : String} {signedRecord : MemberSignedRecord}
      (h : createMemberSignedRecord (.obj (record.properties ++
        [("signingKeyId", .str signingKeyId), ("signature", .str signature)])) = .ok signedRecord) :
      Held record signedRecord.toJson
  | stored {source read : JsonValue} (hsource : Held record source)
      (hread : parse (stringify source) = some read) : Held record read

theorem wellFormed_record {record : RecordEnvelope} (h : WellFormed record.payload) :
    WellFormed record.toJson :=
  ⟨.of_plainNames (by simp only [RecordEnvelope.properties, List.map_cons, List.map_nil]; rfl),
    trivial, trivial, trivial, trivial, trivial, trivial, trivial, h, trivial⟩

theorem wellFormed_memberSigned {record : MemberSignedRecord} (h : WellFormed record.payload) :
    WellFormed record.toJson :=
  ⟨.of_plainNames (by
      simp only [RecordEnvelope.properties, List.cons_append, List.map_cons, List.map_nil,
        List.nil_append]
      rfl),
    trivial, trivial, trivial, trivial, trivial, trivial, trivial, h, trivial, trivial, trivial⟩

/-- Adding a signature leaves the envelope as it is. -/
theorem toRecordEnvelope_of_signed {record : RecordEnvelope} {rest : List (String × JsonValue)}
    {signedRecord : MemberSignedRecord}
    (h : createMemberSignedRecord (.obj (record.properties ++ rest)) = .ok signedRecord) :
    signedRecord.toRecordEnvelope = record := by
  have hcreated := (createMemberSignedRecord_eq_ok.mp h).1
  rw [createRecordEnvelope_eq_ok.mpr (describesRecord_properties record rest)] at hcreated
  exact (Except.ok.inj hcreated).symm

/-- Every held form is well formed and creates the envelope again. -/
theorem Held.spec {record : RecordEnvelope} (hpayload : WellFormed record.payload)
    {source : JsonValue} (h : Held record source) :
    WellFormed source ∧ createRecordEnvelope source = .ok record := by
  induction h with
  | encoded => exact ⟨wellFormed_record hpayload, createRecordEnvelope_toJson record⟩
  | @signed signingKeyId signature signedRecord h =>
      have hrecord := toRecordEnvelope_of_signed h
      have hcreated := createRecordEnvelope_memberSigned signedRecord
      rw [hrecord] at hcreated
      exact ⟨wellFormed_memberSigned (hrecord ▸ hpayload), hcreated⟩
  | stored hsource hread ih =>
      rw [parse_stringify ih.1] at hread
      exact Option.some.inj hread ▸ ih

/-- A held form can be read back from its stored text. -/
theorem Held.readable {record : RecordEnvelope} (hpayload : WellFormed record.payload)
    {source : JsonValue} (h : Held record source) :
    ∃ read, parse (stringify source) = some read ∧ Held record read :=
  ⟨source, parse_stringify (h.spec hpayload).1, h⟩

end PeerHours.TimebankRecords
