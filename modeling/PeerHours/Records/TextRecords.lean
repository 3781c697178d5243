import PeerHours.Library.PropertyOrder
import PeerHours.Records.CanonicalForm
import PeerHours.Records.StoredRecords

/-!
# Records of strings

Where every text is a string, the records that programs hold are the records of JSON values: they are accepted
together, have one canonical text, and their authors sign the same bytes.
-/

namespace PeerHours.PlainRecords

open Checked CodeUnits Json Json.Plain KeyedMap Sorting
open TimebankIdentity (MemberSigningKeyAuthorization)

variable {crypto : Crypto}

/-! ## Payloads -/

/-- An object lists its names as code units in the order in which it lists them as strings. -/
theorem sortedListing_ofString (left right : String × JsonValue) :
    sortedListing (ofString left.1) (ofString right.1) = compareProperties left right := by
  show (compare (Plain.listingRank (ofString left.1)) (Plain.listingRank (ofString right.1))).then
    (compare (ofString left.1) (ofString right.1)) =
      compare (propertyRank left.1) (propertyRank right.1)
  rw [compare_ofString, Plain.listingRank, Plain.listingRank, toWellFormed_ofString,
    toWellFormed_ofString, propertyRank, propertyRank]
  cases hleft : arrayIndex? left.1 with
  | none =>
      cases hright : arrayIndex? right.1 with
      | none => simp [List.compare_cons_cons]
      | some index => simp [List.compare_cons_cons, Nat.compare_eq_gt.mpr]
  | some index =>
      cases hright : arrayIndex? right.1 with
      | none => simp [List.compare_cons_cons, Nat.compare_eq_lt.mpr]
      | some other =>
          cases hcompare : compare index other with
          | lt | gt => simp [List.compare_cons_cons, hcompare]
          | eq =>
              obtain rfl := Nat.compare_eq_eq.mp hcompare
              simp [arrayIndex?_inj hleft hright]

mutual

/-- A payload of strings is written in sorted order as its normal form is. -/
theorem orderedBy_ofJson {value normal : JsonValue}
    (h : TimebankRecords.normalizeJson value = .ok normal) :
    (ofJson value).orderedBy sortedListing = ofTree normal.tree := by
  match value with
  | .null | .bool _ | .num _ | .str _ =>
      obtain rfl := Except.ok.inj h
      rfl
  | .arr items =>
      rw [TimebankRecords.normalizeJson] at h
      obtain ⟨kept, hkept, h⟩ := bind_eq_ok.mp h
      obtain rfl := pure_eq_ok.mp h
      rw [ofJson, orderedBy, JsonValue.tree, ofTree, orderedItemsBy_ofItems hkept]
  | .obj fields =>
      rw [TimebankRecords.normalizeJson] at h
      obtain ⟨kept, hkept, h⟩ := bind_eq_ok.mp h
      obtain rfl := pure_eq_ok.mp h
      rw [ofJson, orderedBy, JsonValue.tree, ofTree, orderedFieldsBy_ofFields hkept, ofFields_fieldTrees]
      congr 1
      exact (List.map_insertionSort (fun left right ↦ (compareProperties left right).isLE = true)
        (fun left right ↦ (byName sortedListing left right).isLE = true) _ _ fun left _ right _ ↦ by
          rw [byName, sortedListing_ofString]).symm

theorem orderedItemsBy_ofItems {items kept : List JsonValue}
    (h : TimebankRecords.normalizeItems items = .ok kept) :
    orderedItemsBy sortedListing (Plain.ofItems items) = ofTrees (JsonValue.itemTrees kept) := by
  match items with
  | [] =>
      obtain rfl := Except.ok.inj h
      rfl
  | item :: rest =>
      rw [TimebankRecords.normalizeItems] at h
      obtain ⟨first, hfirst, h⟩ := bind_eq_ok.mp h
      obtain ⟨others, hothers, h⟩ := bind_eq_ok.mp h
      obtain rfl := pure_eq_ok.mp h
      rw [Plain.ofItems, orderedItemsBy, JsonValue.itemTrees, ofTrees, orderedBy_ofJson hfirst,
        orderedItemsBy_ofItems hothers]

theorem orderedFieldsBy_ofFields {fields kept : List (String × JsonValue)}
    (h : TimebankRecords.normalizeFields fields = .ok kept) :
    orderedFieldsBy sortedListing (Plain.ofFields fields) =
      kept.map fun property ↦ (ofString property.1, ofTree property.2.tree) := by
  match fields with
  | [] =>
      obtain rfl := Except.ok.inj h
      rfl
  | (name, value) :: rest =>
      rw [TimebankRecords.normalizeFields] at h
      obtain ⟨_, -, h⟩ := bind_eq_ok.mp h
      obtain ⟨first, hfirst, h⟩ := bind_eq_ok.mp h
      obtain ⟨others, hothers, h⟩ := bind_eq_ok.mp h
      obtain rfl := pure_eq_ok.mp h
      rw [Plain.ofFields, orderedFieldsBy, List.map_cons, orderedBy_ofJson hfirst,
        orderedFieldsBy_ofFields hothers]

end

mutual

/-- A payload of strings that is accepted is accepted as plain data. -/
theorem succeeds_normalizeJson_ofJson {value normal : JsonValue}
    (h : TimebankRecords.normalizeJson value = .ok normal) :
    Succeeds (normalizeJson (ofJson value)) := by
  match value with
  | .null | .bool _ | .num _ | .str _ => exact ⟨_, rfl⟩
  | .arr items =>
      rw [TimebankRecords.normalizeJson] at h
      obtain ⟨kept, hkept, -⟩ := bind_eq_ok.mp h
      exact succeeds_normalizeJson_arr.mpr (succeeds_ofItems hkept)
  | .obj fields =>
      rw [TimebankRecords.normalizeJson] at h
      obtain ⟨kept, hkept, -⟩ := bind_eq_ok.mp h
      exact succeeds_normalizeJson_obj.mpr (succeeds_ofFields hkept)

theorem succeeds_ofItems {items kept : List JsonValue}
    (h : TimebankRecords.normalizeItems items = .ok kept) :
    ∀ item ∈ Plain.ofItems items, Succeeds (normalizeJson item) := by
  match items with
  | [] => exact List.forall_mem_nil _
  | item :: rest =>
      rw [TimebankRecords.normalizeItems] at h
      obtain ⟨first, hfirst, h⟩ := bind_eq_ok.mp h
      obtain ⟨others, hothers, -⟩ := bind_eq_ok.mp h
      exact List.forall_mem_cons.mpr ⟨succeeds_normalizeJson_ofJson hfirst, succeeds_ofItems hothers⟩

theorem succeeds_ofFields {fields kept : List (String × JsonValue)}
    (h : TimebankRecords.normalizeFields fields = .ok kept) :
    ∀ property ∈ Plain.ofFields fields,
      property.1 ≠ ofString "__proto__" ∧ Succeeds (normalizeJson property.2) := by
  match fields with
  | [] => exact List.forall_mem_nil _
  | (name, value) :: rest =>
      rw [TimebankRecords.normalizeFields] at h
      obtain ⟨_, hname, h⟩ := bind_eq_ok.mp h
      obtain ⟨first, hfirst, h⟩ := bind_eq_ok.mp h
      obtain ⟨others, hothers, -⟩ := bind_eq_ok.mp h
      exact List.forall_mem_cons.mpr ⟨⟨fun hunits ↦ require_eq_ok.mp hname (ofString_inj hunits),
        succeeds_normalizeJson_ofJson hfirst⟩, succeeds_ofFields hothers⟩

end

/-- The normal form of a payload of strings is written as that of the JSON value. -/
theorem normalizeJson_ofJson {value normal : JsonValue} (hvalue : WellFormed value)
    (h : TimebankRecords.normalizeJson value = .ok normal) :
    ∃ kept, normalizeJson (ofJson value) = .ok kept ∧ kept.written = ofTree normal.tree := by
  obtain ⟨kept, hkept⟩ := succeeds_normalizeJson_ofJson h
  refine ⟨kept, hkept, ?_⟩
  rw [written_normalizeJson _ (oneOfEach_ofJson hvalue) kept hkept, orderedBy_ofJson h]

/-! ## Envelopes -/

theorem forall_present_ofString {texts : List String} (h : ∀ text ∈ texts, Text.blank text = false) :
    ∀ units ∈ texts.map ofString, Text.blank (toWellFormed units) = false := by
  refine List.forall_mem_map.mpr fun text htext ↦ ?_
  rw [toWellFormed_ofString]
  exact h text htext

theorem isCanonical_ofString {timestamp : String} (h : Timestamp.isCanonical timestamp = true) :
    Timestamp.isCanonical (toWellFormed (ofString timestamp)) = true := by
  rw [toWellFormed_ofString]
  exact h

/-- An envelope of strings with its payload as plain data. -/
def ofRecord (record : TimebankRecords.RecordEnvelope) (payload : Plain)
    (hnormal : normalizeJson payload = .ok payload) : RecordEnvelope where
  id := ofString record.id
  schema := ofString record.schema
  version := record.version
  kind := ofString record.kind
  communityId := ofString record.communityId
  occurredAt := ofString record.occurredAt
  authorId := ofString record.authorId
  payload := payload
  present := forall_present_ofString record.present
  positive := record.positive
  timestamp := isCanonical_ofString record.timestamp
  normal := hnormal

/-- A record of strings that is accepted is accepted as plain data, with the same written terms. -/
theorem describesRecord_ofJson {source : JsonValue} {record : TimebankRecords.RecordEnvelope}
    (hsource : WellFormed source) (h : TimebankRecords.DescribesRecord source record) :
    ∃ payload hnormal, DescribesRecord (ofJson source) (ofRecord record payload hnormal) ∧
      (ofRecord record payload hnormal).toPlain.written = ofTree record.toJson.tree := by
  obtain ⟨given, hgiven, hnormal⟩ := h.payload
  obtain ⟨payload, hpayload, hwritten⟩ :=
    normalizeJson_ofJson (TimebankRecords.wellFormed_of_field hsource hgiven) hnormal
  refine ⟨payload, normalizeJson_idem _ _ hpayload, ?_, ?_⟩
  · refine ⟨prop_of_text h.id, prop_of_text h.schema, ?_, prop_of_text h.kind,
      prop_of_text h.communityId, prop_of_text h.occurredAt, prop_of_text h.authorId, ofJson given, ?_,
      hpayload⟩
    · rw [prop_ofJson, h.version]
      rfl
    · rw [prop_ofJson, hgiven]
      rfl
  · rw [written_toPlain, TimebankRecords.RecordEnvelope.toJson, JsonValue.tree, ofTree,
      ofFields_fieldTrees]
    simp only [RecordEnvelope.properties, TimebankRecords.RecordEnvelope.properties, ofRecord,
      List.map_cons, List.map_nil, hwritten]
    rfl

/-- What is written like a JSON value has its text. -/
theorem stringify_of_written {value : Plain} {json : JsonValue} (h : value.written = ofTree json.tree) :
    value.stringify = Json.stringify json := by
  rw [Plain.stringify, h, render_ofTree, render_tree]
  rfl

/-- Records of strings have one canonical text in both models. -/
theorem canonicalRecordEnvelope_ofJson {source : JsonValue} {record : TimebankRecords.RecordEnvelope}
    (hsource : WellFormed source) (h : TimebankRecords.createRecordEnvelope source = .ok record) :
    canonicalRecordEnvelope (ofJson source) = .ok (TimebankRecords.canonicalRecordEnvelope record) := by
  obtain ⟨payload, hnormal, hdescribes, hwritten⟩ :=
    describesRecord_ofJson hsource (TimebankRecords.createRecordEnvelope_eq_ok.mp h)
  rw [canonicalRecordEnvelope_eq_ok (createRecordEnvelope_eq_ok.mpr hdescribes),
    stringify_of_written hwritten]
  rfl

/-! ## Signatures -/

/-- The bytes that a record of strings is signed over. -/
theorem signedBytes_of_written {value : Plain} {record : TimebankRecords.RecordEnvelope}
    (h : value.written = ofTree record.toJson.tree) :
    signedBytes value = TimebankRecords.canonicalMemberSignedRecordPayload record := by
  refine congrArg utf8 (stringify_of_written ?_)
  rw [written_object (by simp [plainNames, arrayIndex?]), List.map_cons, List.map_cons, h,
    JsonValue.tree, ofTree, ofFields_fieldTrees]
  rfl

/-- The author of a record of strings signs the same bytes in both models. -/
theorem canonicalMemberSignedRecordPayload_ofJson {source : JsonValue}
    {record : TimebankRecords.RecordEnvelope} (hsource : WellFormed source)
    (hdoubles : (ofJson source).Doubles) (h : TimebankRecords.createRecordEnvelope source = .ok record) :
    canonicalMemberSignedRecordPayload (ofJson source) =
      .ok (TimebankRecords.canonicalMemberSignedRecordPayload record) := by
  obtain ⟨payload, hnormal, hdescribes, hwritten⟩ :=
    describesRecord_ofJson hsource (TimebankRecords.createRecordEnvelope_eq_ok.mp h)
  rw [canonicalMemberSignedRecordPayload_eq_ok ⟨oneOfEach_ofJson hsource, hdoubles⟩ hdescribes,
    signedBytes_of_written hwritten]

/-- Keys are found under code units as they are found under strings. -/
theorem lookup_ofString {γ : Type} (wanted : String) (entries : List (String × γ)) :
    lookup (fun entry ↦ ofString entry.1) (ofString wanted) entries = lookup Prod.fst wanted entries := by
  induction entries with
  | nil => rfl
  | cons entry rest ih =>
      rw [lookup_cons, lookup_cons, ih]
      by_cases hname : entry.1 = wanted
      · rw [if_pos hname, if_pos (congrArg ofString hname)]
      · rw [if_neg hname, if_neg fun h ↦ hname (ofString_inj h)]

theorem keyFor_ofString (communityId memberId keyId : String) :
    keyFor (ofString communityId) (ofString memberId) (ofString keyId) =
      ofString (TimebankIdentity.keyFor communityId memberId keyId) := by
  have hzero : ofString "\x00" = [0] := by decide
  rw [keyFor, TimebankIdentity.keyFor, ofString_append, ofString_append, ofString_append,
    ofString_append, hzero, List.singleton_append, List.singleton_append]

/-- A signature over strings is checked in both models with the same key, over the same bytes. -/
theorem verify_ofString (authorizations : List (MemberSigningKeyAuthorization crypto))
    (input : TimebankIdentity.VerifyMemberSignatureInput) :
    (createEd25519MemberSignatureVerifier authorizations >>= fun verifyMemberSignature ↦
      pure (verifyMemberSignature
        { communityId := ofString input.communityId
          memberId := ofString input.memberId
          keyId := ofString input.keyId
          payload := input.payload
          signature := ofString input.signature })) =
      (TimebankIdentity.createEd25519MemberSignatureVerifier authorizations >>=
        fun verifyMemberSignature ↦ pure (verifyMemberSignature input)) := by
  rw [createEd25519MemberSignatureVerifier, TimebankIdentity.createEd25519MemberSignatureVerifier]
  cases TimebankIdentity.indexAuthorizedKeys authorizations with
  | error message => rfl
  | ok keys =>
      simp only [ok_bind, pure_bind, keyFor_ofString, lookup_ofString, toWellFormed_ofString]
      rfl

/-- A record of strings that is accepted verifies alike in both models. -/
theorem verifyMemberSignedRecord_ofJson {source : JsonValue}
    {record : TimebankRecords.MemberSignedRecord} (hsource : WellFormed source)
    (hdoubles : (ofJson source).Doubles)
    (h : TimebankRecords.createMemberSignedRecord source = .ok record)
    (authorizations : List (MemberSigningKeyAuthorization crypto)) :
    verifyMemberSignedRecord (ofJson source) authorizations =
      TimebankRecords.verifyMemberSignedRecord source authorizations := by
  obtain ⟨hcreated, hkey, hsignature⟩ := TimebankRecords.createMemberSignedRecord_eq_ok.mp h
  obtain ⟨payload, hnormal, hdescribes, hwritten⟩ :=
    describesRecord_ofJson hsource (TimebankRecords.createRecordEnvelope_eq_ok.mp hcreated)
  have hsigned : createMemberSignedRecord (ofJson source) = .ok
      { ofRecord record.toRecordEnvelope payload hnormal with
        signingKeyId := ofString record.signingKeyId
        signature := ofString record.signature
        signed := @forall_present_ofString [record.signingKeyId, record.signature]
          (by simp [record.signed]) } :=
    createMemberSignedRecord_eq_ok.mpr
      ⟨createRecordEnvelope_eq_ok.mpr hdescribes, prop_of_text hkey, prop_of_text hsignature⟩
  rw [verifyMemberSignedRecord_eq ⟨oneOfEach_ofJson hsource, hdoubles⟩ hsigned,
    TimebankRecords.verifyMemberSignedRecord, h, signatureInput, signedBytes_of_written hwritten]
  exact verify_ofString authorizations (TimebankRecords.recordSignatureInput record)

end PeerHours.PlainRecords
