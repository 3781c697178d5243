import PeerHours.Identity.Revocation
import PeerHours.Library.PropertyOrder
import PeerHours.Records.IdentityRecords

/-!
# Unsigned properties

A root signature covers the terms of a declaration or of a key statement, and the decoders compare the envelope
with those terms. They copy every other property of the payload: two accepted envelopes of one signed statement
are one record exactly when their payloads agree beside the signed names.
-/

namespace PeerHours.TimebankRecords

open Checked Json KeyedMap Sorting
open JsonValue (field field_obj get get_cons)
open TimebankIdentity

variable {crypto : Crypto}

/-! ## Signed names -/

/-- The properties of a declaration that its root signs, and the signature. -/
def declarationNames : List String :=
  ["schema", "memberId", "communityId", "feedPublicKey", "occurredAt", "rootPublicKeyPem", "signature"]

/-- The properties of a key statement that its root signs, and the signature: a revocation signs no public key. -/
def statementNames (event : MemberSigningKeyAuthorizationEvent crypto) : List String :=
  ["schema", "eventId", "communityId", "memberId", "keyId", "action", "occurredAt", "rootPublicKeyPem",
    "signature"] ++
    match event.action with
    | .activate _ => ["publicKeyPem"]
    | .revoke => []

/-- Two declarations with the same signed terms and the same signature. -/
structure SameSigned (left right : MemberFeedDeclaration crypto) : Prop where
  communityId : left.communityId = right.communityId
  feedPublicKey : left.feedPublicKey = right.feedPublicKey
  occurredAt : left.occurredAt = right.occurredAt
  rootPublicKeyPem : left.rootPublicKey.publicKeyPem = right.rootPublicKey.publicKeyPem
  signature : left.signature = right.signature

/-- Two payloads read the same under every name that is not listed. -/
def AgreeBeside (names : List String) (left right : JsonValue) : Prop :=
  ∀ name, name ∉ names → left.field name = right.field name

/-- An object has one property of each name. -/
def OneOfEach (value : JsonValue) : Prop :=
  (value.properties.map Prod.fst).Nodup

/-- Two supplied records are one: they have one canonical text, and are reduced together without a conflict. -/
def OneRecord (localeCompare : String → String → Ordering) (first second : JsonValue)
    (left right : RecordEnvelope) : Prop :=
  canonicalRecordEnvelope left = canonicalRecordEnvelope right ∧
    Succeeds (reduceRecordEnvelopes localeCompare [first, second])

/-! ## Payloads -/

/-- A payload that reads a property is an object with sorted properties. -/
theorem sorted_payload (record : RecordEnvelope) {name : String} {value : JsonValue}
    (h : record.payload.field name = some value) : ∃ fields, record.payload = .obj fields ∧
      sortBy compareProperties fields = fields := by
  cases hpayload : record.payload with
  | obj fields =>
      refine ⟨fields, rfl, ?_⟩
      have hnormal := record.normal
      rw [hpayload, normalizeJson] at hnormal
      obtain ⟨properties, -, hsorted⟩ := bind_eq_ok.mp hnormal
      rw [pure_eq_ok, JsonValue.obj.injEq] at hsorted
      rw [← hsorted, sortBy_sortBy]
  | _ =>
      rw [hpayload] at h
      cases h

/-- Payloads with the same properties are equal. -/
theorem payload_eq_iff {left right : RecordEnvelope} (hleft : OneOfEach left.payload)
    (hright : OneOfEach right.payload) {name : String} {value other : JsonValue}
    (hvalue : left.payload.field name = some value) (hother : right.payload.field name = some other) :
    left.payload = right.payload ↔ ∀ name, left.payload.field name = right.payload.field name := by
  constructor
  · intro hsame _
    rw [hsame]
  · intro hsame
    obtain ⟨first, hfirst, hfirstSorted⟩ := sorted_payload left hvalue
    obtain ⟨second, hsecond, hsecondSorted⟩ := sorted_payload right hother
    rw [hfirst] at hleft hsame ⊢
    rw [hsecond] at hright hsame ⊢
    have hsorted := sortBy_eq_of_get hleft hright hsame
    rw [← hfirstSorted, ← hsecondSorted]
    exact congrArg JsonValue.obj hsorted

/-- Records with the same terms and the same payload are equal. -/
theorem record_eq_iff {left right : RecordEnvelope} (hid : left.id = right.id)
    (hschema : left.schema = right.schema) (hversion : left.version = right.version)
    (hkind : left.kind = right.kind) (hcommunity : left.communityId = right.communityId)
    (htime : left.occurredAt = right.occurredAt) (hauthor : left.authorId = right.authorId) :
    left = right ↔ left.payload = right.payload := by
  constructor
  · intro hsame
    rw [hsame]
  · intro hpayload
    obtain ⟨id, schema, version, kind, community, time, author, payload, _, _, _, _⟩ := left
    obtain ⟨id', schema', version', kind', community', time', author', payload', _, _, _, _⟩ := right
    cases hid; cases hschema; cases hversion; cases hkind; cases hcommunity; cases htime; cases hauthor
    cases hpayload
    rfl

/-- Supplied records with one id are one exactly when the records that are created from them are equal. -/
theorem oneRecord_iff {localeCompare : String → String → Ordering} {first second : JsonValue}
    {left right : RecordEnvelope} (hfirst : createRecordEnvelope first = .ok left)
    (hsecond : createRecordEnvelope second = .ok right) :
    OneRecord localeCompare first second left right ↔ left = right := by
  constructor
  · intro hone
    exact canonicalRecordEnvelope_inj hone.1
  · rintro rfl
    have hcontains : ∀ record, Contains [first, second] record → record = left := by
      rintro record ⟨source, hsource, hcreated⟩
      simp only [List.mem_cons, List.not_mem_nil, or_false] at hsource
      rcases hsource with rfl | rfl
      · exact Except.ok.inj (hcreated.symm.trans hfirst)
      · exact Except.ok.inj (hcreated.symm.trans hsecond)
    refine ⟨rfl, (reduceRecordEnvelopes_spec localeCompare _).1.mpr ⟨?_, ?_⟩⟩
    · intro source hsource
      simp only [List.mem_cons, List.not_mem_nil, or_false] at hsource
      rcases hsource with rfl | rfl
      · exact ⟨left, hfirst⟩
      · exact ⟨left, hsecond⟩
    · intro record other hrecord hother _
      rw [hcontains record hrecord, hcontains other hother]

/-! ## Declarations -/

section Declarations

variable {left right : RecordEnvelope} {signed again : MemberFeedDeclaration crypto}

/-- Two envelopes of one signed declaration have the same terms. -/
theorem declaration_eq_iff (hleft : DescribesDeclaration left.payload signed ∧ RoutesDeclaration left signed)
    (hright : DescribesDeclaration right.payload again ∧ RoutesDeclaration right again)
    (hsame : SameSigned signed again) (hfirst : OneOfEach left.payload) (hsecond : OneOfEach right.payload) :
    left = right ↔ AgreeBeside declarationNames left.payload right.payload := by
  obtain ⟨hdescribes, hroutes⟩ := hleft
  obtain ⟨hother, hotherRoutes⟩ := hright
  have hroot : signed.rootPublicKey = again.rootPublicKey :=
    Ed25519PublicKey.ext hsame.rootPublicKeyPem
  have hmember : signed.memberId = again.memberId := congrArg selfOwnedMemberId hroot
  have hfeed : signed.feedPublicKeyText = again.feedPublicKeyText := by
    have hread := signed.hypercoreKey.1
    rw [hsame.feedPublicKey, again.hypercoreKey.1] at hread
    exact (Option.some.inj hread).symm
  have hid : left.id = right.id := by
    rw [hroutes.id, hotherRoutes.id, hmember, hsame.communityId, hfeed]
  rw [record_eq_iff hid (hroutes.schema.trans hotherRoutes.schema.symm)
    (hroutes.version.trans hotherRoutes.version.symm) (hroutes.kind.trans hotherRoutes.kind.symm)
    (by rw [hroutes.communityId, hotherRoutes.communityId, hsame.communityId])
    (by rw [hroutes.occurredAt, hotherRoutes.occurredAt, hsame.occurredAt])
    (by rw [hroutes.authorId, hotherRoutes.authorId, hmember]),
    payload_eq_iff hfirst hsecond hdescribes.schema hother.schema]
  constructor
  · exact fun hagree name _ ↦ hagree name
  · intro hagree name
    by_cases hname : name ∈ declarationNames
    · simp only [declarationNames, List.mem_cons, List.not_mem_nil, or_false] at hname
      rcases hname with rfl | rfl | rfl | rfl | rfl | rfl | rfl
      · rw [hdescribes.schema, hother.schema]
      · rw [hdescribes.memberId, hother.memberId, hmember]
      · rw [hdescribes.communityId, hother.communityId, hsame.communityId]
      · rw [hdescribes.feedPublicKey, hother.feedPublicKey, hsame.feedPublicKey]
      · rw [hdescribes.occurredAt, hother.occurredAt, hsame.occurredAt]
      · rw [hdescribes.rootPublicKey, hother.rootPublicKey, hroot]
      · rw [hdescribes.signature, hother.signature, hsame.signature]
    · exact hagree name hname

end Declarations

/-! ## Key statements -/

section Statements

variable {left right : RecordEnvelope} {statement : RootSignedMemberSigningKeyLifecycle crypto}

/-- A payload reads every signed name as its statement says. -/
theorem field_of_statement {payload other : JsonValue} (h : DescribesStatement payload statement)
    (hother : DescribesStatement other statement) {name : String}
    (hname : name ∈ statementNames statement.event) : payload.field name = other.field name := by
  obtain ⟨hschema, hevent, hroot, hsignature⟩ := h
  obtain ⟨hotherSchema, hotherEvent, hotherRoot, hotherSignature⟩ := hother
  rw [statementNames, List.mem_append] at hname
  rcases hname with hname | hname
  · simp only [List.mem_cons, List.not_mem_nil, or_false] at hname
    rcases hname with rfl | rfl | rfl | rfl | rfl | rfl | rfl | rfl | rfl
    · rw [hschema, hotherSchema]
    · rw [hevent.eventId, hotherEvent.eventId]
    · rw [hevent.communityId, hotherEvent.communityId]
    · rw [hevent.memberId, hotherEvent.memberId]
    · rw [hevent.keyId, hotherEvent.keyId]
    · rw [hevent.action, hotherEvent.action]
    · rw [hevent.occurredAt, hotherEvent.occurredAt]
    · rw [hroot, hotherRoot]
    · rw [hsignature, hotherSignature]
  · cases haction : statement.event.action with
    | activate publicKey =>
        simp only [haction, List.mem_singleton] at hname
        rw [hname, hevent.publicKey publicKey haction, hotherEvent.publicKey publicKey haction]
    | revoke =>
        rw [haction] at hname
        exact absurd hname List.not_mem_nil

/-- Two envelopes of one signed key statement have the same terms. -/
theorem statement_eq_iff
    (hleft : DescribesStatement left.payload statement ∧
      RoutesEvent (rootSignedRecordKindFor statement.event) left statement.event)
    (hright : DescribesStatement right.payload statement ∧
      RoutesEvent (rootSignedRecordKindFor statement.event) right statement.event)
    (hfirst : OneOfEach left.payload) (hsecond : OneOfEach right.payload) :
    left = right ↔ AgreeBeside (statementNames statement.event) left.payload right.payload := by
  obtain ⟨hdescribes, hroutes⟩ := hleft
  obtain ⟨hother, hotherRoutes⟩ := hright
  rw [record_eq_iff (hroutes.id.trans hotherRoutes.id.symm)
    (hroutes.schema.trans hotherRoutes.schema.symm) (hroutes.version.trans hotherRoutes.version.symm)
    (hroutes.kind.trans hotherRoutes.kind.symm)
    (hroutes.communityId.trans hotherRoutes.communityId.symm)
    (hroutes.occurredAt.trans hotherRoutes.occurredAt.symm)
    (hroutes.authorId.trans hotherRoutes.authorId.symm),
    payload_eq_iff hfirst hsecond hdescribes.1 hother.1]
  constructor
  · exact fun hagree name _ ↦ hagree name
  · intro hagree name
    by_cases hname : name ∈ statementNames statement.event
    · exact field_of_statement hdescribes hother hname
    · exact hagree name hname

end Statements

/-- Two accepted envelopes of one signed declaration, or of one signed key statement, are one record exactly
when their payloads agree beside the signed names. -/
theorem signed_records_one_iff (localeCompare : String → String → Ordering) {first second : JsonValue}
    {left right : RecordEnvelope} (hfirst : createRecordEnvelope first = .ok left)
    (hsecond : createRecordEnvelope second = .ok right) (hleft : OneOfEach left.payload)
    (hright : OneOfEach right.payload) :
    (∀ signed again, memberFeedDeclarationFromRecord crypto first = .ok signed →
      memberFeedDeclarationFromRecord crypto second = .ok again → SameSigned signed again →
      (OneRecord localeCompare first second left right ↔
        AgreeBeside declarationNames left.payload right.payload)) ∧
    ∀ statement, rootSignedMemberSigningKeyLifecycleFromRecord crypto first = .ok statement →
      rootSignedMemberSigningKeyLifecycleFromRecord crypto second = .ok statement →
      (OneRecord localeCompare first second left right ↔
        AgreeBeside (statementNames statement.event) left.payload right.payload) := by
  refine ⟨fun signed again hsigned hagain hsame ↦ ?_, fun statement hstatement hagain ↦ ?_⟩
  · rw [oneRecord_iff hfirst hsecond]
    exact declaration_eq_iff ((memberFeedDeclarationFromRecord_eq_ok hfirst).mp hsigned)
      ((memberFeedDeclarationFromRecord_eq_ok hsecond).mp hagain) hsame hleft hright
  · rw [oneRecord_iff hfirst hsecond]
    exact statement_eq_iff ((rootSignedMemberSigningKeyLifecycleFromRecord_eq_ok hfirst).mp hstatement)
      ((rootSignedMemberSigningKeyLifecycleFromRecord_eq_ok hsecond).mp hagain) hleft hright

/-! ## A copied declaration -/

/-- The properties of Ada's declaration of her feed, with further ones. -/
def declaredProperties (rest : List (String × JsonValue)) : List (String × JsonValue) :=
  [("schema", .str memberFeedDeclarationSchema),
    ("memberId", .str (selfOwnedMemberId (transparentKey "ada" blank_ada length_ada))),
    ("communityId", .str "garden"), ("feedPublicKey", .str (String.ofList (List.replicate 64 'a'))),
    ("occurredAt", .str "2025-06-01T12:00:00.000Z"), ("rootPublicKeyPem", .str "ada"),
    ("signature", .str (Base64Url.encode (keyBytes "ada")))] ++ rest

/-- Ada's declaration, read from its sorted properties. -/
def declaredBy (rest : List (String × JsonValue)) : MemberFeedDeclaration transparentCrypto where
  communityId := "garden"
  feedPublicKey := .str (String.ofList (List.replicate 64 'a'))
  feedPublicKeyText := String.ofList (List.replicate 64 'a')
  occurredAt := "2025-06-01T12:00:00.000Z"
  rootPublicKey := transparentKey "ada" blank_ada length_ada
  signature := Base64Url.encode (keyBytes "ada")
  properties := sortBy compareProperties (declaredProperties rest)
  present := blank_garden
  hypercoreKey := hypercoreKey_adaFeed
  timestamp := isCanonical_noon
  signed := signedBy_transparentKey "ada" blank_ada length_ada _

theorem normalFields_declared {rest : List (String × JsonValue)} (h : NormalFields rest) :
    NormalFields (declaredProperties rest) := by
  intro property hproperty
  rcases List.mem_append.mp hproperty with hsigned | hrest
  · simp only [List.mem_cons, List.not_mem_nil, or_false] at hsigned
    rcases hsigned with rfl | rfl | rfl | rfl | rfl | rfl | rfl <;>
      exact ⟨by decide, by rw [normalizeJson]⟩
  · exact h property hrest

/-- The envelope of Ada's declaration. -/
def declaredRecord (rest : List (String × JsonValue)) (h : NormalFields rest) : RecordEnvelope where
  id := memberFeedRecordId (declaredBy rest).memberId "garden" (declaredBy rest).feedPublicKeyText
  schema := identityRecordSchema
  version := identityRecordVersion
  kind := memberFeedDeclarationRecordKind
  communityId := "garden"
  occurredAt := "2025-06-01T12:00:00.000Z"
  authorId := (declaredBy rest).memberId
  payload := .obj (sortBy compareProperties (declaredProperties rest))
  present := by
    have hid : Text.blank (memberFeedRecordId (declaredBy rest).memberId "garden"
        (declaredBy rest).feedPublicKeyText) = false := by
      rw [memberFeedRecordId, Text.blank_append]
      rfl
    simp only [List.forall_mem_cons]
    exact ⟨hid, by decide, by decide, by decide, blank_selfOwnedMemberId _, by simp⟩
  positive := by decide
  timestamp := isCanonical_noon
  normal := normalizeJson_obj_eq_self (normalFields_declared h)

/-- The envelope is accepted with every further property. -/
theorem declaredRecord_accepted {rest : List (String × JsonValue)} (h : NormalFields rest) :
    memberFeedDeclarationFromRecord transparentCrypto (declaredRecord rest h).toJson =
      .ok (declaredBy rest) := by
  refine (memberFeedDeclarationFromRecord_eq_ok (createRecordEnvelope_toJson _)).mpr ⟨?_,
    rfl, rfl, rfl, rfl, rfl, rfl, rfl⟩
  refine ⟨?_, ?_, ?_, ?_, ?_, ?_, ?_, rfl⟩ <;>
    rw [declaredRecord, field_obj, get_sortBy] <;> rfl

/-- The further properties of a declaration are not signed. -/
theorem sameSigned_declaredBy (rest other : List (String × JsonValue)) :
    SameSigned (declaredBy rest) (declaredBy other) :=
  ⟨rfl, rfl, rfl, rfl, rfl⟩

theorem oneOfEach_declared {rest : List (String × JsonValue)} (h : NormalFields rest)
    (hnames : ((declaredProperties rest).map Prod.fst).Nodup) :
    OneOfEach (declaredRecord rest h).payload :=
  (nodup_map_sortBy Prod.fst).mpr hnames

/-- The envelope of the phone key's revocation. -/
def phoneRevocationRecord : RecordEnvelope where
  id := "phone/2"
  schema := identityRecordSchema
  version := identityRecordVersion
  kind := rootSignedKeyRevocationRecordKind
  communityId := "garden"
  occurredAt := "2025-06-02T12:00:00.000Z"
  authorId := phoneRevocation.event.memberId
  payload := .obj (sortBy compareProperties phoneRevocation.toJson.properties)
  present := by
    simp only [List.forall_mem_cons]
    exact ⟨by decide, by decide, by decide, by decide, blank_selfOwnedMemberId _, by simp⟩
  positive := by decide
  timestamp := isCanonical_nextNoon
  normal := by
    refine normalizeJson_obj_eq_self fun property hproperty ↦ ?_
    have hproperties : phoneRevocation.toJson.properties =
        ("schema", .str rootSignedMemberKeyLifecycleSchema) :: phoneRevocation.event.properties ++
          [("rootPublicKeyPem", .str "ada"), ("signature", .str (Base64Url.encode (keyBytes "ada")))] := rfl
    rw [hproperties] at hproperty
    simp only [MemberSigningKeyAuthorizationEvent.properties, phoneRevocation, phoneStatement, phoneEvent,
      MemberSigningKeyAuthorizationAction.publicKey?, Option.map_none, Option.toList_none,
      List.append_nil, List.cons_append, List.nil_append, List.mem_cons, List.not_mem_nil,
      or_false] at hproperty
    rcases hproperty with rfl | rfl | rfl | rfl | rfl | rfl | rfl | rfl | rfl <;>
      exact ⟨by decide, by rw [normalizeJson]⟩

theorem phoneRevocationRecord_accepted :
    rootSignedMemberSigningKeyLifecycleFromRecord transparentCrypto phoneRevocationRecord.toJson =
      .ok phoneRevocation := by
  refine (rootSignedMemberSigningKeyLifecycleFromRecord_eq_ok (createRecordEnvelope_toJson _)).mpr
    ⟨⟨?_, ⟨?_, ?_, ?_, ?_, ?_, ?_, nofun⟩, ?_, ?_⟩, rfl, rfl, rfl, rfl, rfl, rfl, rfl⟩ <;>
    rw [phoneRevocationRecord, field_obj, get_sortBy] <;> rfl

theorem normalFields_bare : NormalFields [] :=
  fun _ hproperty ↦ absurd hproperty List.not_mem_nil

theorem normalFields_note : NormalFields [("note", JsonValue.str "copied")] := by
  intro property hproperty
  rw [List.mem_singleton.mp hproperty]
  exact ⟨by decide, by rw [normalizeJson]⟩

/-- A record that is delivered with a note beside it. -/
def delivered (record : RecordEnvelope) : JsonValue :=
  .obj (record.properties ++ [("note", .str "copied")])

theorem createRecordEnvelope_delivered (record : RecordEnvelope) :
    createRecordEnvelope (delivered record) = .ok record :=
  createRecordEnvelope_eq_ok.mpr (describesRecord_properties record _)

theorem delivered_ne_toJson (record : RecordEnvelope) : record.toJson ≠ delivered record := by
  intro hsame
  have hlength := congrArg List.length (JsonValue.obj.inj hsame)
  rw [List.length_append] at hlength
  exact absurd hlength (by simp)

/-- A declaration and a revocation are one record each with a copy that is delivered with a note beside it, and a
declaration with a note in it is another record. -/
theorem signed_records_one_iff_delivered :
    OneRecord compare (declaredRecord [] normalFields_bare).toJson
        (delivered (declaredRecord [] normalFields_bare)) (declaredRecord [] normalFields_bare)
        (declaredRecord [] normalFields_bare) ∧
      ¬ OneRecord compare (declaredRecord [] normalFields_bare).toJson
        (declaredRecord [("note", .str "copied")] normalFields_note).toJson (declaredRecord [] normalFields_bare)
        (declaredRecord [("note", .str "copied")] normalFields_note) ∧
      OneRecord compare phoneRevocationRecord.toJson (delivered phoneRevocationRecord) phoneRevocationRecord
        phoneRevocationRecord ∧
      ∀ record : RecordEnvelope, record.toJson ≠ delivered record := by
  have hbare : OneOfEach (declaredRecord [] normalFields_bare).payload :=
    oneOfEach_declared normalFields_bare (by decide)
  have hnoted : OneOfEach (declaredRecord [("note", .str "copied")] normalFields_note).payload :=
    oneOfEach_declared normalFields_note (by decide)
  have hrevoked : OneOfEach phoneRevocationRecord.payload :=
    (nodup_map_sortBy Prod.fst).mpr (by decide)
  have haccepted := declaredRecord_accepted normalFields_bare
  have hrevocation := phoneRevocationRecord_accepted
  have hdelivered : memberFeedDeclarationFromRecord transparentCrypto
      (delivered (declaredRecord [] normalFields_bare)) = .ok (declaredBy []) :=
    (memberFeedDeclarationFromRecord_eq_ok (createRecordEnvelope_delivered _)).mpr
      ((memberFeedDeclarationFromRecord_eq_ok (createRecordEnvelope_toJson _)).mp haccepted)
  have hdeliveredRevocation : rootSignedMemberSigningKeyLifecycleFromRecord transparentCrypto
      (delivered phoneRevocationRecord) = .ok phoneRevocation :=
    (rootSignedMemberSigningKeyLifecycleFromRecord_eq_ok (createRecordEnvelope_delivered _)).mpr
      ((rootSignedMemberSigningKeyLifecycleFromRecord_eq_ok (createRecordEnvelope_toJson _)).mp hrevocation)
  refine ⟨?_, ?_, ?_, delivered_ne_toJson⟩
  · exact ((@signed_records_one_iff transparentCrypto compare _ _ _ _ (createRecordEnvelope_toJson _)
      (createRecordEnvelope_delivered _) hbare hbare).1 _ _ haccepted hdelivered
      (sameSigned_declaredBy [] [])).mpr fun _ _ ↦ rfl
  · rw [(@signed_records_one_iff transparentCrypto compare _ _ _ _ (createRecordEnvelope_toJson _)
      (createRecordEnvelope_toJson _) hbare hnoted).1 _ _ haccepted (declaredRecord_accepted normalFields_note)
      (sameSigned_declaredBy [] [("note", .str "copied")])]
    intro hagree
    have hread := hagree "note" (by decide)
    simp only [declaredRecord, field_obj, get_sortBy] at hread
    exact absurd hread (by simp [declaredProperties])
  · exact ((@signed_records_one_iff transparentCrypto compare _ _ _ _ (createRecordEnvelope_toJson _)
      (createRecordEnvelope_delivered _) hrevoked hrevoked).2 _ hrevocation hdeliveredRevocation).mpr
      fun _ _ ↦ rfl

/-- A copy of Ada's declaration with a note is accepted under the same id and the same signature, and conflicts
with the declaration. -/
theorem copied_declaration_conflicts :
    memberFeedDeclarationFromRecord transparentCrypto (declaredRecord [] normalFields_bare).toJson =
        .ok (declaredBy []) ∧
      memberFeedDeclarationFromRecord transparentCrypto
          (declaredRecord [("note", .str "copied")] normalFields_note).toJson =
        .ok (declaredBy [("note", .str "copied")]) ∧
      SameSigned (declaredBy []) (declaredBy [("note", .str "copied")]) ∧
      (declaredRecord [] normalFields_bare).id =
        (declaredRecord [("note", .str "copied")] normalFields_note).id ∧
      canonicalRecordEnvelope (declaredRecord [] normalFields_bare) ≠
        canonicalRecordEnvelope (declaredRecord [("note", .str "copied")] normalFields_note) ∧
      ¬ Succeeds (reduceRecordEnvelopes compare [(declaredRecord [] normalFields_bare).toJson,
        (declaredRecord [("note", .str "copied")] normalFields_note).toJson]) := by
  have hdiffer : declaredRecord [] normalFields_bare ≠
      declaredRecord [("note", .str "copied")] normalFields_note := by
    intro hsame
    have hread := congrArg (fun record : RecordEnvelope ↦ record.payload.field "note") hsame
    simp only [declaredRecord, field_obj, get_sortBy] at hread
    exact absurd hread (by simp [declaredProperties])
  refine ⟨declaredRecord_accepted _, declaredRecord_accepted _, sameSigned_declaredBy _ _, rfl,
    fun hcanonical ↦ hdiffer (canonicalRecordEnvelope_inj hcanonical), fun hreduced ↦ hdiffer ?_⟩
  have hconsistent := (reduceRecordEnvelopes_spec compare _).1.mp hreduced
  exact hconsistent.unique _ _ ⟨_, List.mem_cons_self, createRecordEnvelope_toJson _⟩
    ⟨_, List.mem_cons_of_mem _ (List.mem_singleton_self _), createRecordEnvelope_toJson _⟩ rfl

end PeerHours.TimebankRecords
