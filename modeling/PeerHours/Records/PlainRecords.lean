import PeerHours.Identity.Verification
import PeerHours.Library.PlainObjects
import PeerHours.Records.MemberSigned

/-!
# Records as programs hold them

Envelopes and member-signed records on plain data: texts are code units, zero has a sign, and an object keeps the
order in which its properties were added. An envelope carries the checks that were made of it, so it is created again
from its own object.
-/

namespace PeerHours.PlainRecords

open Checked CodeUnits Json Json.Plain KeyedMap Sorting
open TimebankIdentity (MemberSigningKeyAuthorization blank_of_isCanonical decodeBase64UrlSignature indexAuthorizedKeys)

variable {crypto : Crypto}

/-! ## Checks -/

/-- Text with visible content. -/
abbrev PresentText := {units : CodeUnits // Text.blank (toWellFormed units) = false}

/-- Text in the form that `toISOString` writes. -/
abbrev CanonicalTimestamp := {units : CodeUnits // Timestamp.isCanonical (toWellFormed units) = true}

/-- Reading a property of null throws. -/
def assertReadable : Plain → Except String Unit
  | .null => .error "Cannot read properties of null (reading 'id')"
  | _ => .ok ()

/-- Ensures a stable record field is non-blank text. -/
def assertText (value : Option Plain) (label : String) : Except String PresentText :=
  match value with
  | some (.str units) =>
      if h : Text.blank (toWellFormed units) = false then .ok ⟨units, h⟩
      else .error (label ++ " is required.")
  | _ => .error (label ++ " is required.")

/-- Ensures a schema version is a positive integer. -/
def assertPositiveInteger (value : Option Plain) (label : String) :
    Except String {version : Int // 1 ≤ version} :=
  match int? value with
  | some version =>
      if h : 1 ≤ version then .ok ⟨version, h⟩
      else .error (label ++ " must be a positive integer.")
  | none => .error (label ++ " must be a positive integer.")

/-- Ensures event time uses one unambiguous, canonical UTC ISO-8601 representation. -/
def assertCanonicalTimestamp (value : Option Plain) : Except String CanonicalTimestamp := do
  let units ← assertText value "Record occurredAt timestamp"
  if h : Timestamp.isCanonical (toWellFormed units) = true then .ok ⟨units, h⟩
  else .error "Record occurredAt timestamp must be a canonical UTC ISO-8601 timestamp."

theorem assertText_eq_ok {value : Option Plain} {label : String} {units : PresentText} :
    assertText value label = .ok units ↔ value = some (.str units) := by
  obtain ⟨units, hunits⟩ := units
  unfold assertText
  split
  · rename_i found
    split
    · simp
    · rename_i hblank
      simp only [reduceCtorEq, Option.some.injEq, Plain.str.injEq, false_iff]
      rintro rfl
      exact hblank hunits
  · rename_i hother
    simp only [reduceCtorEq, false_iff]
    exact hother units

/-- A positive whole number is no zero, so its sign is not lost. -/
theorem assertPositiveInteger_eq_ok {value : Option Plain} {label : String}
    {version : {version : Int // 1 ≤ version}} :
    assertPositiveInteger value label = .ok version ↔ value = some (int version) := by
  obtain ⟨version, hversion⟩ := version
  have hint : int? value = some version ↔ value = some (int version) := by
    unfold int?
    split
    · rename_i number
      cases number with
      | negativeZero =>
          have hzero : PlainNumber.negativeZero.written.toInt? = some 0 := rfl
          simp only [hzero, int, Option.some.injEq, Plain.num.injEq, reduceCtorEq, iff_false]
          omega
      | decimal value => simp [PlainNumber.written, Decimal.toInt?_eq_some, int]
    · rename_i hother
      simp only [reduceCtorEq, false_iff]
      exact hother _
  rw [← hint, assertPositiveInteger]
  split
  · rename_i found hfound
    rw [hfound, Option.some.injEq]
    split
    · simp
    · rename_i hnot
      simp only [reduceCtorEq, false_iff]
      rintro rfl
      exact hnot hversion
  · rename_i hnone
    simp [hnone]

theorem assertCanonicalTimestamp_eq_ok {value : Option Plain} {units : CanonicalTimestamp} :
    assertCanonicalTimestamp value = .ok units ↔ value = some (.str units) := by
  obtain ⟨units, hunits⟩ := units
  simp only [assertCanonicalTimestamp, bind_eq_ok, assertText_eq_ok]
  constructor
  · rintro ⟨found, hfound, h⟩
    split at h
    · obtain rfl := Subtype.mk.inj (Except.ok.inj h)
      exact hfound
    · cases h
  · intro h
    exact ⟨⟨units, blank_of_isCanonical hunits⟩, h, dif_pos hunits⟩

/-! ## Payload normalization -/

/-- The name of a property with the normal form of its value; `__proto__` would change the copy's prototype. -/
def assignProperty (property : CodeUnits × Except String Plain) : Except String (CodeUnits × Plain) := do
  require (property.1 ≠ ofString "__proto__")
    "Record payload objects cannot contain a __proto__ property."
  let value ← property.2
  pure (property.1, value)

mutual

/-- Recursively validates, copies and key-sorts a payload value. -/
def normalizeJson : Plain → Except String Plain
  | .null => .ok .null
  | .bool value => .ok (.bool value)
  | .num value => .ok (.num value)
  | .str value => .ok (.str value)
  | .arr items => do
      let items ← normalizeItems items
      pure (.arr items)
  | .obj fields => do
      let fields ← (sortBy compareUnits (normalizeFields fields)).mapM assignProperty
      pure (.obj fields)

/-- Normalizes the items of an array. -/
def normalizeItems : List Plain → Except String (List Plain)
  | [] => .ok []
  | item :: rest => do
      let item ← normalizeJson item
      let rest ← normalizeItems rest
      pure (item :: rest)

/-- The properties of an object with the normal forms of their values. -/
def normalizeFields : List (CodeUnits × Plain) → List (CodeUnits × Except String Plain)
  | [] => []
  | (name, value) :: rest => (name, normalizeJson value) :: normalizeFields rest

end

/-- A property keeps its name, and its value is normalized. -/
structure Normalized (given kept : CodeUnits × Plain) : Prop where
  name : kept.1 = given.1
  allowed : given.1 ≠ ofString "__proto__"
  value : normalizeJson given.2 = .ok kept.2

theorem normalizeItems_eq_mapM (items : List Plain) : normalizeItems items = items.mapM normalizeJson := by
  induction items with
  | nil => rfl
  | cons item rest ih => rw [normalizeItems, ih, List.mapM_cons]

theorem normalizeFields_eq_map (fields : List (CodeUnits × Plain)) :
    normalizeFields fields = fields.map fun property ↦ (property.1, normalizeJson property.2) := by
  induction fields with
  | nil => rfl
  | cons property rest ih => rw [normalizeFields, ih, List.map_cons]

theorem assignProperty_eq_ok {given kept : CodeUnits × Plain} :
    assignProperty (given.1, normalizeJson given.2) = .ok kept ↔ Normalized given kept := by
  simp only [assignProperty, bind_eq_ok, require_eq_ok, exists_const, pure_eq_ok]
  constructor
  · rintro ⟨hallowed, value, hvalue, rfl⟩
    exact ⟨rfl, hallowed, hvalue⟩
  · intro h
    exact ⟨h.allowed, kept.2, h.value, Prod.ext h.name.symm rfl⟩

/-- A normal array has the normal forms of the items. -/
theorem normalizeJson_arr_eq_ok {items : List Plain} {normal : Plain} :
    normalizeJson (.arr items) = .ok normal ↔ ∃ kept, normal = .arr kept ∧
      List.Forall₂ (fun item kept ↦ normalizeJson item = .ok kept) items kept := by
  simp only [normalizeJson, bind_eq_ok, pure_eq_ok, normalizeItems_eq_mapM, mapM_eq_ok]
  constructor
  · rintro ⟨kept, hkept, rfl⟩
    exact ⟨kept, rfl, hkept⟩
  · rintro ⟨kept, rfl, hkept⟩
    exact ⟨kept, hkept, rfl⟩

/-- A normal object has the properties in the order of their names. -/
theorem normalizeJson_obj_eq_ok {fields : List (CodeUnits × Plain)} {normal : Plain} :
    normalizeJson (.obj fields) = .ok normal ↔ ∃ kept, normal = .obj kept ∧
      List.Forall₂ Normalized (sortBy compareUnits fields) kept := by
  simp only [normalizeJson, bind_eq_ok, pure_eq_ok, mapM_eq_ok, normalizeFields_eq_map,
    ← map_sortBy_byName, List.forall₂_map_left_iff, assignProperty_eq_ok]
  constructor
  · rintro ⟨kept, hkept, rfl⟩
    exact ⟨kept, rfl, hkept⟩
  · rintro ⟨kept, rfl, hkept⟩
    exact ⟨kept, hkept, rfl⟩

/-- The names of kept properties are the given ones. -/
theorem map_fst_normalized {given kept : List (CodeUnits × Plain)}
    (h : List.Forall₂ Normalized given kept) : kept.map Prod.fst = given.map Prod.fst :=
  map_eq_map_of_forall₂ h fun _ _ hproperty ↦ hproperty.name

/-- Properties in the order of their names stay where they are. -/
theorem sortBy_normalized {fields kept : List (CodeUnits × Plain)}
    (h : List.Forall₂ Normalized (sortBy compareUnits fields) kept) :
    sortBy compareUnits kept = kept := by
  have hnames : ((sortBy compareUnits fields).map Prod.fst).Pairwise
      fun left right ↦ (compare left right).isLE = true :=
    List.pairwise_map.mpr (@pairwise_sortBy _ compareUnits _ fields)
  rw [← map_fst_normalized h, List.pairwise_map] at hnames
  exact sortBy_eq_self hnames

/-- A normalized value is normal. -/
theorem normalizeJson_idem (value : Plain) :
    ∀ normal, normalizeJson value = .ok normal → normalizeJson normal = .ok normal := by
  induction value using induct with
  | null | bool | num | str =>
      intro normal h
      obtain rfl := Except.ok.inj h
      rfl
  | arr items ih =>
      intro normal h
      obtain ⟨kept, rfl, hkept⟩ := normalizeJson_arr_eq_ok.mp h
      have hitems : ∀ item ∈ kept, normalizeJson item = .ok item :=
        forall_right_of_forall₂ ((List.forall₂_and_left _ _).mpr ⟨ih, hkept⟩)
          fun _ item hitem ↦ hitem.1 item hitem.2
      exact normalizeJson_arr_eq_ok.mpr ⟨kept, rfl, List.forall₂_same.mpr hitems⟩
  | obj fields ih =>
      intro normal h
      obtain ⟨kept, rfl, hkept⟩ := normalizeJson_obj_eq_ok.mp h
      have hproperties : ∀ property ∈ kept, Normalized property property := by
        have hgiven : ∀ property ∈ sortBy compareUnits fields, ∀ normal,
            normalizeJson property.2 = .ok normal → normalizeJson normal = .ok normal :=
          fun property hproperty ↦ ih property (mem_sortBy.mp hproperty)
        refine forall_right_of_forall₂ ((List.forall₂_and_left _ _).mpr ⟨hgiven, hkept⟩) ?_
        intro given property h
        exact ⟨rfl, h.2.name ▸ h.2.allowed, h.1 _ h.2.value⟩
      refine normalizeJson_obj_eq_ok.mpr ⟨kept, rfl, ?_⟩
      rw [sortBy_normalized hkept]
      exact List.forall₂_same.mpr hproperties

/-! ## Envelopes -/

/-- The immutable, generic record shape replicated between Peer Hours runtimes. -/
structure RecordEnvelope where
  id : CodeUnits
  schema : CodeUnits
  version : Int
  kind : CodeUnits
  communityId : CodeUnits
  occurredAt : CodeUnits
  authorId : CodeUnits
  payload : Plain
  present : ∀ units ∈ [id, schema, kind, communityId, authorId],
    Text.blank (toWellFormed units) = false
  positive : 1 ≤ version
  timestamp : Timestamp.isCanonical (toWellFormed occurredAt) = true
  normal : normalizeJson payload = .ok payload

/-- Normalizes the payload property of a record. -/
def normalizePayload (value : Option Plain) :
    Except String {payload : Plain // normalizeJson payload = .ok payload} :=
  match value with
  | some value =>
      match h : normalizeJson value with
      | .ok payload => .ok ⟨payload, normalizeJson_idem value payload h⟩
      | .error message => .error message
  | none => .error "Record payload must contain only JSON-compatible values."

theorem positive_version (version : {version : Int // 1 ≤ version}) : 1 ≤ version.1 :=
  version.2

theorem CanonicalTimestamp.canonical (timestamp : CanonicalTimestamp) :
    Timestamp.isCanonical (toWellFormed timestamp.1) = true :=
  timestamp.2

theorem normal_payload (payload : {payload : Plain // normalizeJson payload = .ok payload}) :
    normalizeJson payload.1 = .ok payload.1 :=
  payload.2

theorem forall_present (texts : List PresentText) :
    ∀ units ∈ texts.map Subtype.val, Text.blank (toWellFormed units) = false :=
  List.forall_mem_map.mpr fun text _ ↦ text.2

/-- Normalizes an immutable, community-scoped record suitable for unordered replicated delivery. -/
def createRecordEnvelope (input : Plain) : Except String RecordEnvelope := do
  assertReadable input
  let id ← assertText (prop input "id") "Record id"
  let schema ← assertText (prop input "schema") "Record schema"
  let version ← assertPositiveInteger (prop input "version") "Record version"
  let kind ← assertText (prop input "kind") "Record kind"
  let communityId ← assertText (prop input "communityId") "Community id"
  let occurredAt ← assertCanonicalTimestamp (prop input "occurredAt")
  let authorId ← assertText (prop input "authorId") "Author id"
  let payload ← normalizePayload (prop input "payload")
  pure
    { id := id
      schema := schema
      version := version
      kind := kind
      communityId := communityId
      occurredAt := occurredAt
      authorId := authorId
      payload := payload
      present := forall_present [id, schema, kind, communityId, authorId]
      positive := positive_version version
      timestamp := CanonicalTimestamp.canonical occurredAt
      normal := normal_payload payload }

/-- The properties of an envelope in the order that `createRecordEnvelope` assigns them. -/
def RecordEnvelope.properties (record : RecordEnvelope) : List (String × Plain) :=
  [("id", .str record.id), ("schema", .str record.schema), ("version", int record.version),
    ("kind", .str record.kind), ("communityId", .str record.communityId),
    ("occurredAt", .str record.occurredAt), ("authorId", .str record.authorId),
    ("payload", record.payload)]

/-- The object of an envelope. -/
def RecordEnvelope.toPlain (record : RecordEnvelope) : Plain :=
  object record.properties

/-- Produces stable JSON for comparing one envelope's complete immutable terms. -/
def canonicalRecordEnvelope (record : Plain) : Except String String := do
  let normalized ← createRecordEnvelope record
  pure normalized.toPlain.stringify

/-- The object has the terms of the envelope. -/
structure DescribesRecord (input : Plain) (record : RecordEnvelope) : Prop where
  id : prop input "id" = some (.str record.id)
  schema : prop input "schema" = some (.str record.schema)
  version : prop input "version" = some (int record.version)
  kind : prop input "kind" = some (.str record.kind)
  communityId : prop input "communityId" = some (.str record.communityId)
  occurredAt : prop input "occurredAt" = some (.str record.occurredAt)
  authorId : prop input "authorId" = some (.str record.authorId)
  payload : ∃ payload, prop input "payload" = some payload ∧ normalizeJson payload = .ok record.payload

theorem assertReadable_eq_ok {input : Plain} {result : Unit} :
    assertReadable input = .ok result ↔ input ≠ .null := by
  cases input <;> simp [assertReadable]

theorem normalizePayload_eq_ok {value : Option Plain}
    {payload : {payload : Plain // normalizeJson payload = .ok payload}} :
    normalizePayload value = .ok payload ↔
      ∃ source, value = some source ∧ normalizeJson source = .ok payload := by
  obtain ⟨payload, hpayload⟩ := payload
  cases value with
  | none => simp [normalizePayload]
  | some source =>
      simp only [normalizePayload, Option.some.injEq, exists_eq_left']
      split
      · rename_i found hfound
        simp [hfound]
      · rename_i message hmessage
        simp [hmessage]

/-- Envelopes are created exactly from the objects that describe them. -/
theorem createRecordEnvelope_eq_ok {input : Plain} {record : RecordEnvelope} :
    createRecordEnvelope input = .ok record ↔ DescribesRecord input record := by
  simp only [createRecordEnvelope, bind_eq_ok, assertReadable_eq_ok, exists_const, assertText_eq_ok,
    assertPositiveInteger_eq_ok, assertCanonicalTimestamp_eq_ok, normalizePayload_eq_ok, pure_eq_ok]
  constructor
  · rintro ⟨-, id, hid, schema, hschema, version, hversion, kind, hkind, community, hcommunity,
      occurredAt, hoccurredAt, author, hauthor, payload, hpayload, rfl⟩
    exact ⟨hid, hschema, hversion, hkind, hcommunity, hoccurredAt, hauthor, hpayload⟩
  · intro h
    have hpresent := record.present
    simp only [List.forall_mem_cons] at hpresent
    obtain ⟨hid, hschema, hkind, hcommunity, hauthor, -⟩ := hpresent
    refine ⟨?_, ⟨record.id, hid⟩, h.id, ⟨record.schema, hschema⟩, h.schema,
      ⟨record.version, record.positive⟩, h.version, ⟨record.kind, hkind⟩, h.kind,
      ⟨record.communityId, hcommunity⟩, h.communityId, ⟨record.occurredAt, record.timestamp⟩,
      h.occurredAt, ⟨record.authorId, hauthor⟩, h.authorId, ⟨record.payload, record.normal⟩,
      h.payload, rfl⟩
    rintro rfl
    have hid := h.id
    cases hid

theorem describesRecord_properties (record : RecordEnvelope) (rest : List (String × Plain)) :
    DescribesRecord (object (record.properties ++ rest)) record := by
  constructor <;> simp [RecordEnvelope.properties, record.normal]

/-- An envelope is created again from its own object. -/
theorem createRecordEnvelope_toPlain (record : RecordEnvelope) :
    createRecordEnvelope record.toPlain = .ok record := by
  have h := describesRecord_properties record []
  rw [List.append_nil] at h
  exact createRecordEnvelope_eq_ok.mpr h

/-! ## Member-signed records -/

/-- An immutable record envelope accompanied by its author's authorized Ed25519 signature. -/
structure MemberSignedRecord extends RecordEnvelope where
  signingKeyId : CodeUnits
  signature : CodeUnits
  signed : ∀ units ∈ [signingKeyId, signature], Text.blank (toWellFormed units) = false

/-- Creates an immutable member-signed record without treating possession as authorization. -/
def createMemberSignedRecord (input : Plain) : Except String MemberSignedRecord := do
  let record ← createRecordEnvelope input
  let signingKeyId ← assertText (prop input "signingKeyId") "Member signing key id"
  let signature ← assertText (prop input "signature") "Member record signature"
  pure
    { record with
      signingKeyId := signingKeyId
      signature := signature
      signed := forall_present [signingKeyId, signature] }

/-- The object of a member-signed record. -/
def MemberSignedRecord.toPlain (record : MemberSignedRecord) : Plain :=
  object (record.properties ++
    [("signingKeyId", .str record.signingKeyId), ("signature", .str record.signature)])

/-- The exact domain-separated bytes an author signs for one immutable record envelope. -/
def canonicalMemberSignedRecordPayload (record : Plain) : Except String Buffer := do
  let canonical ← canonicalRecordEnvelope record
  let parsed ← present (Plain.parse canonical) "Unexpected end of JSON input"
  pure (utf8 (Plain.stringify
    (object [("schema", text TimebankRecords.memberSignedRecordSchema), ("record", parsed)])))

/-- What a member signature is checked against. -/
structure VerifyMemberSignatureInput where
  communityId : CodeUnits
  memberId : CodeUnits
  keyId : CodeUnits
  payload : Buffer
  signature : CodeUnits

/-- The key under which a signing key is found: three texts that a zero code unit separates. -/
def keyFor (communityId memberId keyId : CodeUnits) : CodeUnits :=
  communityId ++ 0 :: (memberId ++ 0 :: keyId)

/-- Creates a verifier for arbitrary immutable member-authored payloads. -/
def createEd25519MemberSignatureVerifier
    (authorizations : List (MemberSigningKeyAuthorization crypto)) :
    Except String (VerifyMemberSignatureInput → Bool) := do
  let keysByCommunityMemberAndId ← indexAuthorizedKeys authorizations
  pure fun input ↦
    let key := lookup (fun entry ↦ ofString entry.1)
      (keyFor input.communityId input.memberId input.keyId) keysByCommunityMemberAndId
    match key, decodeBase64UrlSignature (toWellFormed input.signature) with
    | some (_, publicKey), some signature => crypto.verify publicKey.key input.payload signature
    | _, _ => false

/-- Verifies that an active community authorization for the envelope author signed every record term. -/
def verifyMemberSignedRecord (record : Plain)
    (authorizations : List (MemberSigningKeyAuthorization crypto)) : Except String Bool :=
  match createMemberSignedRecord record with
  | .error _ => .ok false
  | .ok normalized => do
      let verifyMemberSignature ← createEd25519MemberSignatureVerifier authorizations
      let payload ← canonicalMemberSignedRecordPayload normalized.toPlain
      pure (verifyMemberSignature
        { communityId := normalized.communityId
          memberId := normalized.authorId
          keyId := normalized.signingKeyId
          payload := payload
          signature := normalized.signature })

theorem createMemberSignedRecord_eq_ok {input : Plain} {record : MemberSignedRecord} :
    createMemberSignedRecord input = .ok record ↔
      createRecordEnvelope input = .ok record.toRecordEnvelope ∧
      prop input "signingKeyId" = some (.str record.signingKeyId) ∧
      prop input "signature" = some (.str record.signature) := by
  simp only [createMemberSignedRecord, bind_eq_ok, assertText_eq_ok, pure_eq_ok]
  constructor
  · rintro ⟨envelope, henvelope, key, hkey, signature, hsignature, rfl⟩
    exact ⟨henvelope, hkey, hsignature⟩
  · rintro ⟨henvelope, hkey, hsignature⟩
    have hsigned := record.signed
    simp only [List.forall_mem_cons] at hsigned
    exact ⟨_, henvelope, ⟨_, hsigned.1⟩, hkey, ⟨_, hsigned.2.1⟩, hsignature, rfl⟩

/-- A member-signed record is created again from its own object. -/
theorem createMemberSignedRecord_toPlain (record : MemberSignedRecord) :
    createMemberSignedRecord record.toPlain = .ok record := by
  refine createMemberSignedRecord_eq_ok.mpr ⟨?_, ?_, ?_⟩
  · exact createRecordEnvelope_eq_ok.mpr (describesRecord_properties record.toRecordEnvelope _)
  · simp [MemberSignedRecord.toPlain, RecordEnvelope.properties]
  · simp [MemberSignedRecord.toPlain, RecordEnvelope.properties]

/-! ## Storage -/

/-- Validates and clones a generic JSON record before it enters or leaves a core; plain data is finite JSON. -/
def normalizeRecord (value : Plain) : Except String Plain :=
  present (Plain.parse value.stringify) "Unexpected end of JSON input"

/-- A record that is appended to a record store and read from it: the core keeps its JSON text. -/
def storeAndRead (record : Plain) : Except String Plain := do
  let normalized ← normalizeRecord record
  let value ← present (Plain.parse normalized.stringify) "Unexpected end of JSON input"
  normalizeRecord value

end PeerHours.PlainRecords
