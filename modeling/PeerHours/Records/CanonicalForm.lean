import PeerHours.Identity.Transparent
import PeerHours.Records.PlainRecords

/-!
# The canonical form of an envelope

Normalizing a payload changes the order of its properties alone, and payloads that are the same data up to that order
and the sign of zeros are written alike. So the canonical text of an envelope says exactly which terms it has, and a
record that was stored and read back is signed over the same bytes.
-/

namespace PeerHours.PlainRecords

open Checked CodeUnits Json Json.Plain KeyedMap Sorting
open TimebankIdentity (MemberSigningKeyAuthorization)

variable {crypto : Crypto}

/-! ## Normal forms -/

/-- A normal form is written as the data in sorted order. -/
theorem written_normalizeJson (value : Plain) (hvalue : value.OneOfEach) :
    ∀ normal, normalizeJson value = .ok normal → normal.written = value.orderedBy sortedListing := by
  induction value using induct with
  | null | bool | num | str =>
      intro normal h
      obtain rfl := Except.ok.inj h
      rfl
  | arr items ih =>
      intro normal h
      obtain ⟨kept, rfl, hkept⟩ := normalizeJson_arr_eq_ok.mp h
      rw [OneOfEach, oneOfEachItem_iff] at hvalue
      have hitems : ∀ item ∈ items, ∀ normal, normalizeJson item = .ok normal →
          normal.written = item.orderedBy sortedListing :=
        fun item hitem ↦ ih item hitem (hvalue item hitem)
      rw [written, orderedBy, orderedBy, orderedItemsBy_eq_map, orderedItemsBy_eq_map]
      exact congrArg Tree.arr (map_eq_map_of_forall₂ ((List.forall₂_and_left _ _).mpr ⟨hitems, hkept⟩)
        fun _ kept h ↦ h.1 kept h.2)
  | obj fields ih =>
      intro normal h
      obtain ⟨kept, rfl, hkept⟩ := normalizeJson_obj_eq_ok.mp h
      rw [OneOfEach, oneOfEachField_iff] at hvalue
      have hfields : ∀ property ∈ sortBy compareUnits fields, ∀ normal,
          normalizeJson property.2 = .ok normal →
            normal.written = property.2.orderedBy sortedListing := by
        intro property hproperty
        have hmem := mem_sortBy.mp hproperty
        exact ih property hmem (hvalue.2 property hmem)
      have hsame : orderedFieldsBy listing kept =
          sortBy compareUnits (orderedFieldsBy sortedListing fields) := by
        rw [orderedFieldsBy_eq_map, orderedFieldsBy_eq_map, ← map_sortBy_byName]
        exact map_eq_map_of_forall₂ ((List.forall₂_and_left _ _).mpr ⟨hfields, hkept⟩)
          fun _ property h ↦ Prod.ext h.2.name (h.1 property.2 h.2.value)
      -- an object lists array indices first, whatever order its properties were added in
      rw [written, orderedBy, hsame, sortBy_listing_sortBy (by rw [map_fst_orderedFieldsBy]; exact hvalue.1),
        orderedBy]

/-- A normal form has one property of each name where the data does. -/
theorem oneOfEach_normalizeJson (value : Plain) (hvalue : value.OneOfEach) :
    ∀ normal, normalizeJson value = .ok normal → normal.OneOfEach := by
  induction value using induct with
  | null | bool | num | str =>
      intro normal h
      obtain rfl := Except.ok.inj h
      trivial
  | arr items ih =>
      intro normal h
      obtain ⟨kept, rfl, hkept⟩ := normalizeJson_arr_eq_ok.mp h
      rw [OneOfEach, oneOfEachItem_iff] at hvalue ⊢
      have hitems : ∀ item ∈ items, ∀ normal, normalizeJson item = .ok normal → normal.OneOfEach :=
        fun item hitem ↦ ih item hitem (hvalue item hitem)
      exact forall_right_of_forall₂ ((List.forall₂_and_left _ _).mpr ⟨hitems, hkept⟩)
        fun _ kept h ↦ h.1 kept h.2
  | obj fields ih =>
      intro normal h
      obtain ⟨kept, rfl, hkept⟩ := normalizeJson_obj_eq_ok.mp h
      rw [OneOfEach, oneOfEachField_iff] at hvalue ⊢
      have hfields : ∀ property ∈ sortBy compareUnits fields, ∀ normal,
          normalizeJson property.2 = .ok normal → normal.OneOfEach := by
        intro property hproperty
        have hmem := mem_sortBy.mp hproperty
        exact ih property hmem (hvalue.2 property hmem)
      refine ⟨?_, forall_right_of_forall₂ ((List.forall₂_and_left _ _).mpr ⟨hfields, hkept⟩)
        fun _ kept h ↦ h.1 kept.2 h.2.value⟩
      rw [map_fst_normalized hkept]
      exact (nodup_map_sortBy Prod.fst).mpr hvalue.1

/-- The normal form of data that a program can hold is such data. -/
theorem held_normalizeJson {value normal : Plain} (hvalue : value.Held)
    (h : normalizeJson value = .ok normal) : normal.Held where
  oneOfEach := oneOfEach_normalizeJson value hvalue.oneOfEach normal h
  doubles := by
    have hnumerals : normal.written.Numerals Decimal.IsDouble := by
      rw [written_normalizeJson value hvalue.oneOfEach normal h]
      exact (numerals_orderedBy sortedListing value).mpr hvalue.doubles
    exact (numerals_orderedBy listing normal).mp hnumerals

/-- Normal forms are written alike exactly for the same data. -/
theorem written_eq_iff_same {left right normal normal' : Plain} (hleft : left.OneOfEach)
    (hright : right.OneOfEach) (hnormal : normalizeJson left = .ok normal)
    (hnormal' : normalizeJson right = .ok normal') :
    normal.written = normal'.written ↔ Same left right := by
  rw [written_normalizeJson left hleft normal hnormal, written_normalizeJson right hright normal' hnormal',
    orderedBy_eq_iff hleft hright]

theorem succeeds_normalizeJson_arr {items : List Plain} : Succeeds (normalizeJson (.arr items)) ↔
    ∀ item ∈ items, Succeeds (normalizeJson item) := by
  rw [← succeeds_mapM, ← normalizeItems_eq_mapM]
  simp only [Succeeds, normalizeJson, bind_eq_ok, pure_eq_ok]
  constructor
  · rintro ⟨_, kept, hkept, rfl⟩
    exact ⟨kept, hkept⟩
  · rintro ⟨kept, hkept⟩
    exact ⟨_, kept, hkept, rfl⟩

theorem succeeds_normalizeJson_obj {fields : List (CodeUnits × Plain)} :
    Succeeds (normalizeJson (.obj fields)) ↔
      ∀ property ∈ fields, property.1 ≠ ofString "__proto__" ∧ Succeeds (normalizeJson property.2) := by
  have hassigned : Succeeds (normalizeJson (.obj fields)) ↔
      Succeeds ((sortBy compareUnits (normalizeFields fields)).mapM assignProperty) := by
    simp only [Succeeds, normalizeJson, bind_eq_ok, pure_eq_ok]
    constructor
    · rintro ⟨_, kept, hkept, rfl⟩
      exact ⟨kept, hkept⟩
    · rintro ⟨kept, hkept⟩
      exact ⟨_, kept, hkept, rfl⟩
  rw [hassigned, succeeds_mapM, normalizeFields_eq_map]
  simp only [mem_sortBy, List.forall_mem_map, Succeeds, assignProperty_eq_ok]
  refine forall₂_congr fun property _ ↦ ?_
  constructor
  · rintro ⟨kept, hkept⟩
    exact ⟨hkept.allowed, kept.2, hkept.value⟩
  · rintro ⟨hallowed, value, hvalue⟩
    exact ⟨(property.1, value), rfl, hallowed, hvalue⟩

/-- A payload that is accepted is accepted again when it was stored. -/
theorem succeeds_normalizeJson_stored (value : Plain) (h : Succeeds (normalizeJson value)) :
    Succeeds (normalizeJson value.stored) := by
  induction value using induct with
  | null | bool | num | str => exact ⟨_, rfl⟩
  | arr items ih =>
      rw [succeeds_normalizeJson_arr] at h
      rw [stored, storedItems_eq_map, succeeds_normalizeJson_arr, List.forall_mem_map]
      exact fun item hitem ↦ ih item hitem (h item hitem)
  | obj fields ih =>
      rw [succeeds_normalizeJson_obj] at h
      rw [stored, storedFields_eq_map, succeeds_normalizeJson_obj]
      intro property hproperty
      obtain ⟨given, hgiven, rfl⟩ := List.mem_map.mp (mem_sortBy.mp hproperty)
      exact ⟨(h given hgiven).1, ih given hgiven (h given hgiven).2⟩

/-- The normal form of what is stored of a payload is written as that of the payload. -/
theorem normalizeJson_stored {value normal : Plain} (hvalue : value.OneOfEach)
    (h : normalizeJson value = .ok normal) :
    ∃ again, normalizeJson value.stored = .ok again ∧ again.written = normal.written := by
  obtain ⟨again, hagain⟩ := succeeds_normalizeJson_stored value ⟨normal, h⟩
  refine ⟨again, hagain, ?_⟩
  rw [written_normalizeJson _ (oneOfEach_stored value hvalue) again hagain, orderedBy_stored value hvalue,
    written_normalizeJson value hvalue normal h]

/-! ## Envelopes -/

/-- The terms of an envelope beside its payload. -/
def envelopeFields : List String :=
  ["id", "schema", "version", "kind", "communityId", "occurredAt", "authorId"]

theorem written_toPlain (record : RecordEnvelope) :
    record.toPlain.written =
      .obj (record.properties.map fun field ↦ (ofString field.1, field.2.written)) :=
  written_object (by simp [RecordEnvelope.properties, plainNames, arrayIndex?])

/-- Envelopes are written alike exactly when they agree on every term and their payloads are written alike. -/
theorem written_toPlain_eq_iff {left right : Plain} {record other : RecordEnvelope}
    (hrecord : DescribesRecord left record) (hother : DescribesRecord right other) :
    record.toPlain.written = other.toPlain.written ↔
      (∀ name ∈ envelopeFields, prop left name = prop right name) ∧
        record.payload.written = other.payload.written := by
  have hstr : ∀ units : CodeUnits, (Plain.str units).written = .str units := fun _ ↦ rfl
  have hint : ∀ version other : Int, (int version).written = (int other).written ↔
      int version = int other := fun _ _ ↦
    ⟨fun h ↦ congrArg (fun number ↦ Plain.num (.decimal number)) (Tree.num.inj h), congrArg written⟩
  rw [written_toPlain, written_toPlain]
  simp only [RecordEnvelope.properties, envelopeFields, List.map_cons, List.map_nil, Tree.obj.injEq,
    List.cons.injEq, Prod.mk.injEq, true_and, and_true, List.forall_mem_cons, List.not_mem_nil,
    false_implies, implies_true, hstr, hint, Tree.str.injEq, hrecord.id, hrecord.schema, hrecord.version,
    hrecord.kind, hrecord.communityId, hrecord.occurredAt, hrecord.authorId, hother.id, hother.schema,
    hother.version, hother.kind, hother.communityId, hother.occurredAt, hother.authorId,
    Option.some.injEq, Plain.str.injEq, and_assoc]

theorem canonicalRecordEnvelope_eq_ok {input : Plain} {record : RecordEnvelope}
    (h : createRecordEnvelope input = .ok record) :
    canonicalRecordEnvelope input = .ok record.toPlain.stringify :=
  bind_eq_ok.mpr ⟨record, h, rfl⟩

/-- Canonical texts are equal exactly when every term is, the payloads as data. -/
theorem stringify_toPlain_eq_iff {left right : Plain} {record other : RecordEnvelope}
    (hleft : left.Held) (hright : right.Held) (hrecord : DescribesRecord left record)
    (hother : DescribesRecord right other) :
    record.toPlain.stringify = other.toPlain.stringify ↔
      (∀ name ∈ envelopeFields, prop left name = prop right name) ∧
        Option.Rel Same (prop left "payload") (prop right "payload") := by
  obtain ⟨payload, hpayload, hnormal⟩ := hrecord.payload
  obtain ⟨payload', hpayload', hnormal'⟩ := hother.payload
  rw [stringify_eq_iff, written_toPlain_eq_iff hrecord hother, hpayload, hpayload', Option.rel_some_some,
    written_eq_iff_same (held_of_field hleft hpayload).oneOfEach (held_of_field hright hpayload').oneOfEach
      hnormal hnormal']

/-! ## Storage -/

/-- The terms of an accepted envelope are data that a program can hold. -/
theorem held_properties {input : Plain} {record : RecordEnvelope} (hinput : input.Held)
    (h : DescribesRecord input record) : ∀ field ∈ record.properties, field.2.Held := by
  obtain ⟨payload, hpayload, hnormal⟩ := h.payload
  have hversion := held_of_field hinput h.version
  have hnormalized := held_normalizeJson (held_of_field hinput hpayload) hnormal
  simp only [RecordEnvelope.properties, List.forall_mem_cons, held_str, hversion, hnormalized,
    List.not_mem_nil, false_implies, implies_true, and_self]

theorem held_toPlain {input : Plain} {record : RecordEnvelope} (hinput : input.Held)
    (h : DescribesRecord input record) : record.toPlain.Held :=
  held_object (by simp [RecordEnvelope.properties]) (held_properties hinput h)

/-- A created record is data that a program can hold. -/
theorem held_signed {input : Plain} {record : MemberSignedRecord} (hinput : input.Held)
    (h : createMemberSignedRecord input = .ok record) : record.toPlain.Held := by
  have hdescribes := createRecordEnvelope_eq_ok.mp (createMemberSignedRecord_eq_ok.mp h).1
  refine held_object (by simp [RecordEnvelope.properties]) (List.forall_mem_append.mpr ⟨?_, ?_⟩)
  · exact held_properties hinput hdescribes
  · simp [held_str]

/-- Plain data that a program can hold is stored and read back. -/
theorem storeAndRead_eq_ok {record : Plain} (h : record.Held) :
    storeAndRead record = .ok record.stored := by
  have hfirst : normalizeRecord record = .ok record.stored :=
    present_eq_ok.mpr (Plain.parse_stringify h)
  have hblock : Plain.parse record.stored.stringify = some record.stored := by
    rw [Plain.parse_stringify h.stored, stored_stored]
  exact bind_eq_ok.mpr ⟨_, hfirst, bind_eq_ok.mpr
    ⟨_, present_eq_ok.mpr hblock, present_eq_ok.mpr hblock⟩⟩

/-- An envelope that was stored and read back is accepted, and is written as it was. -/
theorem describesRecord_stored {input : Plain} {record : RecordEnvelope} (hinput : input.Held)
    (h : DescribesRecord input record) : ∃ again : RecordEnvelope,
      DescribesRecord input.stored again ∧ again.communityId = record.communityId ∧
      again.authorId = record.authorId ∧ again.toPlain.written = record.toPlain.written := by
  obtain ⟨payload, hpayload, hnormal⟩ := h.payload
  have hheld := held_of_field hinput hpayload
  obtain ⟨again, hagain, hwritten⟩ := normalizeJson_stored hheld.oneOfEach hnormal
  have hread (name : String) {found : Plain} (hfound : prop input name = some found) :
      prop input.stored name = some found.stored := by
    rw [prop_stored, hfound, Option.map_some]
  refine ⟨{ record with payload := again, normal := normalizeJson_idem _ _ hagain }, ?_, rfl, rfl, ?_⟩
  · exact ⟨hread _ h.id, hread _ h.schema, hread _ h.version, hread _ h.kind, hread _ h.communityId,
      hread _ h.occurredAt, hread _ h.authorId, payload.stored, hread _ hpayload, hagain⟩
  · rw [written_toPlain, written_toPlain]
    simp only [RecordEnvelope.properties, List.map_cons, hwritten]

/-! ## Signatures -/

/-- The domain-separated bytes of a record. -/
def signedBytes (record : Plain) : Buffer :=
  utf8 (object [("schema", text TimebankRecords.memberSignedRecordSchema), ("record", record)]).stringify

/-- The bytes do not depend on the order in which properties were added, nor on the sign of a zero. -/
theorem signedBytes_congr {left right : Plain} (h : left.written = right.written) :
    signedBytes left = signedBytes right := by
  refine congrArg utf8 (stringify_eq_iff.mpr ?_)
  rw [written_object (by simp [plainNames, arrayIndex?]), written_object (by simp [plainNames, arrayIndex?]),
    List.map_cons, List.map_cons, List.map_cons, List.map_cons, h]

/-- An author signs the bytes of the accepted envelope. -/
theorem canonicalMemberSignedRecordPayload_eq_ok {input : Plain} {record : RecordEnvelope}
    (hinput : input.Held) (h : DescribesRecord input record) :
    canonicalMemberSignedRecordPayload input = .ok (signedBytes record.toPlain) := by
  have hcanonical := canonicalRecordEnvelope_eq_ok (createRecordEnvelope_eq_ok.mpr h)
  have hparsed := Plain.parse_stringify (held_toPlain hinput h)
  rw [← signedBytes_congr (written_stored record.toPlain)]
  exact bind_eq_ok.mpr ⟨_, hcanonical, bind_eq_ok.mpr ⟨_, present_eq_ok.mpr hparsed, rfl⟩⟩

/-- What the signature of an accepted record is checked against. -/
def signatureInput (record : MemberSignedRecord) : VerifyMemberSignatureInput where
  communityId := record.communityId
  memberId := record.authorId
  keyId := record.signingKeyId
  payload := signedBytes record.toRecordEnvelope.toPlain
  signature := record.signature

theorem payload_signatureInput (record : MemberSignedRecord) :
    (signatureInput record).payload = signedBytes record.toRecordEnvelope.toPlain := by
  rw [signatureInput]

theorem verifyMemberSignedRecord_eq {input : Plain} {record : MemberSignedRecord} (hinput : input.Held)
    (h : createMemberSignedRecord input = .ok record)
    (authorizations : List (MemberSigningKeyAuthorization crypto)) :
    verifyMemberSignedRecord input authorizations =
      createEd25519MemberSignatureVerifier authorizations >>= fun verifyMemberSignature ↦
        pure (verifyMemberSignature (signatureInput record)) := by
  have hagain := createMemberSignedRecord_eq_ok.mp (createMemberSignedRecord_toPlain record)
  have hpayload := canonicalMemberSignedRecordPayload_eq_ok (held_signed hinput h)
    (createRecordEnvelope_eq_ok.mp hagain.1)
  rw [verifyMemberSignedRecord, h]
  show (createEd25519MemberSignatureVerifier authorizations >>= fun verifyMemberSignature ↦
    canonicalMemberSignedRecordPayload record.toPlain >>= _) = _
  rw [hpayload]
  rfl

/-- A signed record that was stored and read back is accepted with the same signature over the same bytes. -/
theorem createMemberSignedRecord_stored {input : Plain} {record : MemberSignedRecord}
    (hinput : input.Held) (h : createMemberSignedRecord input = .ok record) :
    ∃ again, createMemberSignedRecord input.stored = .ok again ∧
      signatureInput again = signatureInput record := by
  obtain ⟨hcreated, hkey, hsignature⟩ := createMemberSignedRecord_eq_ok.mp h
  obtain ⟨again, hagain, hcommunity, hauthor, hwritten⟩ :=
    describesRecord_stored hinput (createRecordEnvelope_eq_ok.mp hcreated)
  refine ⟨{ again with
    signingKeyId := record.signingKeyId
    signature := record.signature
    signed := record.signed }, createMemberSignedRecord_eq_ok.mpr ⟨?_, ?_, ?_⟩, ?_⟩
  · exact createRecordEnvelope_eq_ok.mpr hagain
  · rw [prop_stored, hkey]
    rfl
  · rw [prop_stored, hsignature]
    rfl
  · simp only [signatureInput, hcommunity, hauthor, signedBytes_congr hwritten]

/-- A signature over a record is a signature over what is stored of it. -/
theorem signed_stored {input : Plain} {record : MemberSignedRecord} (hinput : input.Held)
    (h : createMemberSignedRecord input = .ok record) : ∃ read,
      storeAndRead input = .ok read ∧
      canonicalMemberSignedRecordPayload input = .ok (signedBytes record.toRecordEnvelope.toPlain) ∧
      canonicalMemberSignedRecordPayload read = .ok (signedBytes record.toRecordEnvelope.toPlain) ∧
      ∀ authorizations : List (MemberSigningKeyAuthorization crypto),
        verifyMemberSignedRecord read authorizations = verifyMemberSignedRecord input authorizations := by
  obtain ⟨again, hagain, hsame⟩ := createMemberSignedRecord_stored hinput h
  have hbytes : signedBytes again.toRecordEnvelope.toPlain =
      signedBytes record.toRecordEnvelope.toPlain := by
    rw [← payload_signatureInput, hsame, payload_signatureInput]
  have hgiven := createRecordEnvelope_eq_ok.mp (createMemberSignedRecord_eq_ok.mp h).1
  have hread := createRecordEnvelope_eq_ok.mp (createMemberSignedRecord_eq_ok.mp hagain).1
  refine ⟨input.stored, storeAndRead_eq_ok hinput,
    canonicalMemberSignedRecordPayload_eq_ok hinput hgiven, ?_, fun authorizations ↦ ?_⟩
  · rw [canonicalMemberSignedRecordPayload_eq_ok hinput.stored hread, hbytes]
  · rw [verifyMemberSignedRecord_eq hinput h, verifyMemberSignedRecord_eq hinput.stored hagain, hsame]

/-- The canonical form of an envelope is exact and survives storage: canonical texts are equal exactly when the
seven fields are and the payloads are the same data; creating an envelope again changes nothing; and a signed
record, as it was given or as it was created, is signed over the same bytes after it was stored and read back, and
verifies as it did. -/
theorem canonical_form_exact {left right : Plain} {record other : RecordEnvelope}
    (hleft : left.Held) (hright : right.Held) (hrecord : createRecordEnvelope left = .ok record)
    (hother : createRecordEnvelope right = .ok other) :
    (∃ canonical canonical', canonicalRecordEnvelope left = .ok canonical ∧
      canonicalRecordEnvelope right = .ok canonical' ∧
      (canonical = canonical' ↔ (∀ name ∈ envelopeFields, prop left name = prop right name) ∧
        Option.Rel Same (prop left "payload") (prop right "payload"))) ∧
    createRecordEnvelope record.toPlain = .ok record ∧
    ∀ signed, createMemberSignedRecord left = .ok signed → ∃ payload,
      ∀ given ∈ [left, signed.toPlain], ∃ read, storeAndRead given = .ok read ∧
        canonicalMemberSignedRecordPayload given = .ok payload ∧
        canonicalMemberSignedRecordPayload read = .ok payload ∧
        ∀ authorizations : List (MemberSigningKeyAuthorization crypto),
          verifyMemberSignedRecord read authorizations =
            verifyMemberSignedRecord given authorizations := by
  refine ⟨⟨_, _, canonicalRecordEnvelope_eq_ok hrecord, canonicalRecordEnvelope_eq_ok hother, ?_⟩,
    createRecordEnvelope_toPlain record, fun signed hsigned ↦
      ⟨signedBytes signed.toRecordEnvelope.toPlain, fun given hgiven ↦ ?_⟩⟩
  · exact stringify_toPlain_eq_iff hleft hright (createRecordEnvelope_eq_ok.mp hrecord)
      (createRecordEnvelope_eq_ok.mp hother)
  · rw [List.mem_pair] at hgiven
    rcases hgiven with rfl | rfl
    · exact signed_stored hleft hsigned
    · exact signed_stored (held_signed hleft hsigned) (createMemberSignedRecord_toPlain signed)

/-- A signed note with a payload. -/
def noteInput (payload : Plain) : Plain :=
  object [("id", text "note"), ("schema", text "notes/v1"), ("version", int 1), ("kind", text "note"),
    ("communityId", text "garden"), ("occurredAt", text "2025-06-01T12:00:00.000Z"),
    ("authorId", text "ada"), ("payload", payload), ("signingKeyId", text "key"),
    ("signature", text "c2ln")]

/-- A payload with a negative zero, array indices and surrogates without a partner. -/
def notePayload : Plain :=
  .obj [(ofString "minutes", .num .negativeZero), ([0xD800], .str [0xDC00]), (ofString "10", int 1),
    (ofString "9", .bool true)]

/-- The same payload in another order, with a positive zero. -/
def noteReordered : Plain :=
  .obj [([0xD800], .str [0xDC00]), (ofString "9", .bool true), (ofString "minutes", int 0),
    (ofString "10", int 1)]

/-- The envelope of a note with a normal payload. -/
def signedNote (payload : Plain) (hnormal : normalizeJson payload = .ok payload) :
    MemberSignedRecord where
  id := ofString "note"
  schema := ofString "notes/v1"
  version := 1
  kind := ofString "note"
  communityId := ofString "garden"
  occurredAt := ofString "2025-06-01T12:00:00.000Z"
  authorId := ofString "ada"
  payload := payload
  signingKeyId := ofString "key"
  signature := ofString "c2ln"
  present := by simp only [List.forall_mem_cons, toWellFormed_ofString]; decide
  positive := by decide
  timestamp := (congrArg Timestamp.isCanonical (toWellFormed_ofString _)).trans
    TimebankIdentity.isCanonical_noon
  normal := hnormal
  signed := by simp only [List.forall_mem_cons, toWellFormed_ofString]; decide

theorem createMemberSignedRecord_note {payload normal : Plain} (h : normalizeJson payload = .ok normal) :
    createMemberSignedRecord (noteInput payload) =
      .ok (signedNote normal (normalizeJson_idem payload normal h)) := by
  refine createMemberSignedRecord_eq_ok.mpr ⟨createRecordEnvelope_eq_ok.mpr ?_, ?_, ?_⟩
  · constructor <;> simp [noteInput, signedNote, text, h]
  · simp [noteInput, signedNote, text]
  · simp [noteInput, signedNote, text]

/-- The numbers of the notes are doubles. -/
theorem isDouble_note : Decimal.IsDouble (.ofInt 0) ∧ Decimal.IsDouble (.ofInt 1) := by decide +kernel

theorem held_note {payload : Plain} (h : payload.Held) : (noteInput payload).Held := by
  have hversion : (int 1).Held := ⟨trivial, isDouble_note.2⟩
  refine held_object (by simp) ?_
  simp only [List.forall_mem_cons, text, held_str, h, hversion, List.not_mem_nil, false_implies,
    implies_true, and_self]

/-- Payloads that differ in the order of properties and in the sign of a zero have one canonical text, and the note
that was stored is signed over the same bytes. -/
theorem canonical_form_exact_note : ∃ canonical read payload,
    canonicalRecordEnvelope (noteInput notePayload) = .ok canonical ∧
    canonicalRecordEnvelope (noteInput noteReordered) = .ok canonical ∧
    storeAndRead (noteInput notePayload) = .ok read ∧
    canonicalMemberSignedRecordPayload (noteInput notePayload) = .ok payload ∧
    canonicalMemberSignedRecordPayload read = .ok payload := by
  have hheld : notePayload.Held ∧ noteReordered.Held := by
    refine ⟨⟨⟨by decide, trivial, trivial, trivial, trivial, trivial⟩, ?_⟩,
      ⟨⟨by decide, trivial, trivial, trivial, trivial, trivial⟩, ?_⟩⟩
    · exact ⟨isDouble_note.1, trivial, isDouble_note.2, trivial, trivial⟩
    · exact ⟨trivial, trivial, isDouble_note.1, isDouble_note.2, trivial⟩
  obtain ⟨normal, hnormal⟩ : ∃ normal, normalizeJson notePayload = .ok normal := ⟨_, rfl⟩
  obtain ⟨normal', hnormal'⟩ : ∃ normal, normalizeJson noteReordered = .ok normal := ⟨_, rfl⟩
  have hsigned := createMemberSignedRecord_note hnormal
  obtain ⟨⟨canonical, canonical', hleft, hright, hexact⟩, -, hstored⟩ :=
    @canonical_form_exact transparentCrypto _ _ _ _ (held_note hheld.1) (held_note hheld.2)
      (createMemberSignedRecord_eq_ok.mp hsigned).1
      (createMemberSignedRecord_eq_ok.mp (createMemberSignedRecord_note hnormal')).1
  obtain ⟨payload, hgiven⟩ := hstored _ hsigned
  obtain ⟨read, hread, hbytes, hagain, -⟩ := hgiven _ List.mem_cons_self
  have hsame : canonical = canonical' := by
    refine hexact.mpr ⟨by simp [envelopeFields, noteInput], ?_⟩
    have hpayload : ∀ value, prop (noteInput value) "payload" = some value := by simp [noteInput]
    rw [hpayload, hpayload]
    exact .some ((@orderedBy_eq_iff compare _ _ _ _ hheld.1.oneOfEach hheld.2.oneOfEach).mp rfl)
  exact ⟨canonical, read, payload, hleft, hsame ▸ hright, hread, hbytes, hagain⟩

end PeerHours.PlainRecords
