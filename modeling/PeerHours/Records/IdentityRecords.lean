import PeerHours.Identity.Verification
import PeerHours.Records.Envelope

/-!
# Identity records

The record forms of key lifecycle events, member feed declarations and root-signed key lifecycle
statements. Each decoder requires the envelope to repeat the terms of its payload.
-/

namespace PeerHours.TimebankRecords

open Checked Json KeyedMap Sorting
open TimebankIdentity

/-! ## Record kinds -/

/-- Record kind for an immutable member signing-key activation lifecycle event. -/
def identityKeyActivationRecordKind : String := "identity.member-signing-key.activate"

/-- Record kind for an immutable member signing-key revocation lifecycle event. -/
def identityKeyRevocationRecordKind : String := "identity.member-signing-key.revoke"

/-- Record kind for a root-signed declaration that publishes one member-owned Hypercore feed. -/
def memberFeedDeclarationRecordKind : String := "identity.member-feed.declare"

/-- Record kind for a root-signed member signing-key activation statement. -/
def rootSignedKeyActivationRecordKind : String := "identity.root-signed-member-key.activate"

/-- Record kind for a root-signed member signing-key revocation statement. -/
def rootSignedKeyRevocationRecordKind : String := "identity.root-signed-member-key.revoke"

/-- The generic envelope schema of identity records. -/
def identityRecordSchema : String := "peer-hours/timebank-record"

/-- The current immutable envelope schema version for identity records. -/
def identityRecordVersion : Int := 1

variable {crypto : Crypto}

/-- The envelope kind that may represent a lifecycle action. -/
def recordKindFor (activation revocation : String)
    (event : MemberSigningKeyAuthorizationEvent crypto) : String :=
  match event.action with
  | .activate _ => activation
  | .revoke => revocation

/-! ## Unsigned lifecycle events -/

/-- The single envelope kind that may represent one identity lifecycle event action. -/
def identityRecordKindFor : MemberSigningKeyAuthorizationEvent crypto → String :=
  recordKindFor identityKeyActivationRecordKind identityKeyRevocationRecordKind

/-- Narrows untrusted record payload data before structural rules apply. -/
def isAuthorizationEvent (payload : JsonValue) : Bool :=
  decide (payload.field "action" = some (.str "activate")) ||
    decide (payload.field "action" = some (.str "revoke"))

variable (crypto) in
/-- Restores and validates one member signing-key lifecycle event from a replicated record. -/
def memberSigningKeyAuthorizationEventFromRecord (record : JsonValue) :
    Except String (MemberSigningKeyAuthorizationEvent crypto) := do
  let normalizedRecord ← createRecordEnvelope record
  require (isAuthorizationEvent normalizedRecord.payload = true)
    "An identity record payload must be a member signing-key lifecycle event."
  let event ← createMemberSigningKeyAuthorizationEvent crypto normalizedRecord.payload
  require (normalizedRecord.schema = identityRecordSchema ∧
      normalizedRecord.version = identityRecordVersion ∧
      normalizedRecord.kind = identityRecordKindFor event)
    "Identity record kind must match its lifecycle action."
  require (normalizedRecord.id = event.eventId)
    "Identity record id must match its lifecycle event id."
  require (normalizedRecord.authorId = event.memberId)
    "Identity record author must match its lifecycle event member."
  require (normalizedRecord.communityId = event.communityId)
    "Identity record community must match its lifecycle event community."
  require (normalizedRecord.occurredAt = event.occurredAt)
    "Identity record timestamp must match its lifecycle event timestamp."
  pure event

/-- Reduces replicated identity records into current member signing-key authorizations. -/
def reduceMemberSigningKeyAuthorizationRecords (crypto : Crypto)
    (localeCompare : String → String → Ordering) (records : List RecordEnvelope) :
    Except String (List (MemberSigningKeyAuthorization crypto)) := do
  let events ← records.mapM fun record ↦
    memberSigningKeyAuthorizationEventFromRecord crypto record.toJson
  reduceMemberSigningKeyAuthorizationEvents localeCompare events

/-! ## Feed declarations -/

/-- The envelope id of a feed declaration. -/
def memberFeedRecordId (memberId communityId feedPublicKey : String) : String :=
  "member-feed:" ++ (memberId ++ (":" ++ (communityId ++ (":" ++ feedPublicKey))))

/-- Maps one valid root-signed feed declaration into a deterministic replicated envelope. -/
def memberFeedDeclarationToRecord (declaration : MemberFeedDeclaration crypto) :
    Except String RecordEnvelope := do
  let normalized ← createMemberFeedDeclaration crypto declaration.toJson
  createRecordEnvelope (.obj
    [("id", .str (memberFeedRecordId normalized.memberId normalized.communityId
        normalized.feedPublicKeyText)),
      ("schema", .str identityRecordSchema), ("version", .int identityRecordVersion),
      ("kind", .str memberFeedDeclarationRecordKind),
      ("communityId", .str normalized.communityId), ("occurredAt", .str normalized.occurredAt),
      ("authorId", .str normalized.memberId), ("payload", normalized.toJson)])

variable (crypto) in
/-- Restores a root-signed feed declaration only when its envelope repeats the same terms. -/
def memberFeedDeclarationFromRecord (record : JsonValue) :
    Except String (MemberFeedDeclaration crypto) := do
  let normalizedRecord ← createRecordEnvelope record
  let declaration ← createMemberFeedDeclaration crypto normalizedRecord.payload
  require (normalizedRecord.schema = identityRecordSchema ∧
      normalizedRecord.version = identityRecordVersion ∧
      normalizedRecord.kind = memberFeedDeclarationRecordKind ∧
      normalizedRecord.authorId = declaration.memberId ∧
      normalizedRecord.communityId = declaration.communityId ∧
      normalizedRecord.occurredAt = declaration.occurredAt ∧
      normalizedRecord.id = memberFeedRecordId declaration.memberId declaration.communityId
        declaration.feedPublicKeyText)
    "A member-feed declaration envelope must match its signed declaration."
  pure declaration

/-- The unique signing-key label a self-owned root identity uses inside one community verifier. -/
def rootKeyIdForMember (memberId : String) : String :=
  "root:" ++ memberId

theorem blank_selfOwnedMemberId (rootPublicKey : Ed25519PublicKey crypto) :
    Text.blank (selfOwnedMemberId rootPublicKey) = false := by
  rw [selfOwnedMemberId, Text.blank_append]
  rfl

/-- The authorization that a declaration gives its root key. -/
def declaredAuthorization (declaration : MemberFeedDeclaration crypto) :
    MemberSigningKeyAuthorization crypto :=
  { communityId := declaration.communityId
    memberId := declaration.memberId
    keyId := rootKeyIdForMember declaration.memberId
    publicKey := declaration.rootPublicKey
    active := true
    present := ⟨declaration.present, blank_selfOwnedMemberId _, by
      rw [rootKeyIdForMember, Text.blank_append]; rfl⟩ }

/-- The key of a declaration by community, member and feed. -/
def declarationKey (declaration : MemberFeedDeclaration crypto) : String :=
  keyFor declaration.communityId declaration.memberId declaration.feedPublicKeyText

variable (crypto) in
/-- Converts root-signed declarations into the existing verifier shape. -/
def memberFeedDeclarationsToAuthorizations (localeCompare : String → String → Ordering)
    (records : List RecordEnvelope) : Except String (List (MemberSigningKeyAuthorization crypto)) := do
  let byMemberAndFeed ← collect declarationKey
    (fun declaration : MemberFeedDeclaration crypto ↦ stringify declaration.toJson)
    "Conflicting member-feed declarations share one identity and feed key."
    (fun record : RecordEnvelope ↦ memberFeedDeclarationFromRecord crypto record.toJson) records
  pure ((sortBy (compareLex (on localeCompare (·.memberId))
    (on localeCompare (·.feedPublicKeyText))) byMemberAndFeed).map declaredAuthorization)

/-! ## Root-signed key lifecycle -/

/-- The only envelope kind allowed for one root-signed lifecycle action. -/
def rootSignedRecordKindFor : MemberSigningKeyAuthorizationEvent crypto → String :=
  recordKindFor rootSignedKeyActivationRecordKind rootSignedKeyRevocationRecordKind

/-- Maps one validated root-signed lifecycle statement into a replica-safe immutable envelope. -/
def rootSignedMemberSigningKeyLifecycleToRecord
    (statement : RootSignedMemberSigningKeyLifecycle crypto) : Except String RecordEnvelope := do
  let normalized ← createRootSignedMemberSigningKeyLifecycle crypto statement.toJson
  createRecordEnvelope (.obj
    [("id", .str normalized.event.eventId), ("schema", .str identityRecordSchema),
      ("version", .int identityRecordVersion),
      ("kind", .str (rootSignedRecordKindFor normalized.event)),
      ("communityId", .str normalized.event.communityId),
      ("occurredAt", .str normalized.event.occurredAt),
      ("authorId", .str normalized.event.memberId), ("payload", normalized.toJson)])

variable (crypto) in
/-- Restores a root-signed lifecycle statement only when all envelope routing terms match it. -/
def rootSignedMemberSigningKeyLifecycleFromRecord (record : JsonValue) :
    Except String (RootSignedMemberSigningKeyLifecycle crypto) := do
  let normalizedRecord ← createRecordEnvelope record
  let statement ← createRootSignedMemberSigningKeyLifecycle crypto normalizedRecord.payload
  require (normalizedRecord.schema = identityRecordSchema ∧
      normalizedRecord.version = identityRecordVersion ∧
      normalizedRecord.kind = rootSignedRecordKindFor statement.event ∧
      normalizedRecord.id = statement.event.eventId ∧
      normalizedRecord.communityId = statement.event.communityId ∧
      normalizedRecord.authorId = statement.event.memberId ∧
      normalizedRecord.occurredAt = statement.event.occurredAt)
    "A root-signed key lifecycle envelope must match its signed statement."
  pure statement

/-- The declaration binding index key. -/
def rootKey (communityId memberId rootPublicKeyPem : String) : String :=
  communityId ++ ("\x00" ++ (memberId ++ ("\x00" ++ rootPublicKeyPem)))

variable (crypto) in
/-- Reduces self-owned key lifecycle records only when the matching root has published feed
provenance. -/
def reduceProvenRootSignedMemberSigningKeyLifecycleRecords
    (localeCompare : String → String → Ordering)
    (lifecycleRecords memberFeedDeclarationRecords : List RecordEnvelope) :
    Except String (List (MemberSigningKeyAuthorization crypto)) := do
  let declarations ← (memberFeedDeclarationRecords.filter fun record ↦
      decide (record.kind = memberFeedDeclarationRecordKind)).mapM fun record ↦
    memberFeedDeclarationFromRecord crypto record.toJson
  let declaredRoots := declarations.map fun declaration ↦
    rootKey declaration.communityId declaration.memberId declaration.rootPublicKey.publicKeyPem
  let statements ← lifecycleRecords.mapM fun record ↦
    rootSignedMemberSigningKeyLifecycleFromRecord crypto record.toJson
  statements |> checkAll fun statement ↦
    require (rootKey statement.event.communityId statement.event.memberId
        statement.rootPublicKey.publicKeyPem ∈ declaredRoots)
      "A root-signed key lifecycle statement requires matching member feed provenance."
  reduceRootSignedMemberSigningKeyLifecycles localeCompare statements

/-- Narrows records that carry the current root-signed member key lifecycle protocol. -/
def isRootSignedMemberSigningKeyLifecycleRecord (kind : String) : Bool :=
  decide (kind = rootSignedKeyActivationRecordKind) ||
    decide (kind = rootSignedKeyRevocationRecordKind)

/-! ## What the decoders accept -/

/-- The envelope repeats the terms of a lifecycle event. -/
structure RoutesEvent (kind : String) (record : RecordEnvelope)
    (event : MemberSigningKeyAuthorizationEvent crypto) : Prop where
  schema : record.schema = identityRecordSchema
  version : record.version = identityRecordVersion
  kind : record.kind = kind
  id : record.id = event.eventId
  communityId : record.communityId = event.communityId
  authorId : record.authorId = event.memberId
  occurredAt : record.occurredAt = event.occurredAt

/-- An unsigned lifecycle record is decoded exactly to the event its payload describes. -/
theorem memberSigningKeyAuthorizationEventFromRecord_eq_ok {source : JsonValue}
    {record : RecordEnvelope} (hrecord : createRecordEnvelope source = .ok record)
    {event : MemberSigningKeyAuthorizationEvent crypto} :
    memberSigningKeyAuthorizationEventFromRecord crypto source = .ok event ↔
      DescribesEvent record.payload event ∧
        RoutesEvent (identityRecordKindFor event) record event := by
  rw [memberSigningKeyAuthorizationEventFromRecord, hrecord, ok_bind]
  simp only [bind_eq_ok, require_eq_ok, exists_const, pure_eq_ok,
    createMemberSigningKeyAuthorizationEvent_eq_ok]
  constructor
  · rintro ⟨-, _, hdescribes, ⟨hschema, hversion, hkind⟩, hid, hauthor, hcommunity, htime, rfl⟩
    exact ⟨hdescribes, ⟨hschema, hversion, hkind, hid, hcommunity, hauthor, htime⟩⟩
  · rintro ⟨hdescribes, hroutes⟩
    refine ⟨?_, event, hdescribes, ⟨hroutes.schema, hroutes.version, hroutes.kind⟩, hroutes.id,
      hroutes.authorId, hroutes.communityId, hroutes.occurredAt, rfl⟩
    rw [isAuthorizationEvent, hdescribes.action]
    cases event.action <;> simp [MemberSigningKeyAuthorizationAction.name]

/-- The envelope repeats the terms of a feed declaration. -/
structure RoutesDeclaration (record : RecordEnvelope) (declaration : MemberFeedDeclaration crypto) :
    Prop where
  schema : record.schema = identityRecordSchema
  version : record.version = identityRecordVersion
  kind : record.kind = memberFeedDeclarationRecordKind
  authorId : record.authorId = declaration.memberId
  communityId : record.communityId = declaration.communityId
  occurredAt : record.occurredAt = declaration.occurredAt
  id : record.id = memberFeedRecordId declaration.memberId declaration.communityId
    declaration.feedPublicKeyText

/-- A declaration record is decoded exactly to the declaration its payload describes. -/
theorem memberFeedDeclarationFromRecord_eq_ok {source : JsonValue} {record : RecordEnvelope}
    (hrecord : createRecordEnvelope source = .ok record)
    {declaration : MemberFeedDeclaration crypto} :
    memberFeedDeclarationFromRecord crypto source = .ok declaration ↔
      DescribesDeclaration record.payload declaration ∧ RoutesDeclaration record declaration := by
  rw [memberFeedDeclarationFromRecord, hrecord, ok_bind]
  simp only [bind_eq_ok, require_eq_ok, exists_const, pure_eq_ok, createMemberFeedDeclaration_eq_ok]
  constructor
  · rintro ⟨_, hdescribes, ⟨hschema, hversion, hkind, hauthor, hcommunity, htime, hid⟩, rfl⟩
    exact ⟨hdescribes, ⟨hschema, hversion, hkind, hauthor, hcommunity, htime, hid⟩⟩
  · rintro ⟨hdescribes, hroutes⟩
    exact ⟨declaration, hdescribes, ⟨hroutes.schema, hroutes.version, hroutes.kind, hroutes.authorId,
      hroutes.communityId, hroutes.occurredAt, hroutes.id⟩, rfl⟩

/-- The payload describes a root-signed statement. -/
def DescribesStatement (payload : JsonValue)
    (statement : RootSignedMemberSigningKeyLifecycle crypto) : Prop :=
  payload.field "schema" = some (.str rootSignedMemberKeyLifecycleSchema) ∧
    DescribesEvent payload statement.event ∧
    payload.field "rootPublicKeyPem" = some (.str statement.rootPublicKey.publicKeyPem) ∧
    payload.field "signature" = some (.str statement.signature)

/-- A root-signed lifecycle record is decoded exactly to the statement its payload describes. -/
theorem rootSignedMemberSigningKeyLifecycleFromRecord_eq_ok {source : JsonValue}
    {record : RecordEnvelope} (hrecord : createRecordEnvelope source = .ok record)
    {statement : RootSignedMemberSigningKeyLifecycle crypto} :
    rootSignedMemberSigningKeyLifecycleFromRecord crypto source = .ok statement ↔
      DescribesStatement record.payload statement ∧
        RoutesEvent (rootSignedRecordKindFor statement.event) record statement.event := by
  rw [rootSignedMemberSigningKeyLifecycleFromRecord, hrecord, ok_bind]
  simp only [bind_eq_ok, require_eq_ok, exists_const, pure_eq_ok,
    createRootSignedMemberSigningKeyLifecycle_eq_ok]
  constructor
  · rintro ⟨_, hdescribes, ⟨hschema, hversion, hkind, hid, hcommunity, hauthor, htime⟩, rfl⟩
    exact ⟨hdescribes, ⟨hschema, hversion, hkind, hid, hcommunity, hauthor, htime⟩⟩
  · rintro ⟨hdescribes, hroutes⟩
    exact ⟨statement, hdescribes, ⟨hroutes.schema, hroutes.version, hroutes.kind, hroutes.id,
      hroutes.communityId, hroutes.authorId, hroutes.occurredAt⟩, rfl⟩

/-- An envelope carries one statement. -/
theorem eq_of_describesStatement {record : RecordEnvelope}
    {left right : RootSignedMemberSigningKeyLifecycle crypto}
    (hleft : DescribesStatement record.payload left ∧
      RoutesEvent (rootSignedRecordKindFor left.event) record left.event)
    (hright : DescribesStatement record.payload right ∧
      RoutesEvent (rootSignedRecordKindFor right.event) record right.event) : left = right := by
  have hcreate := createRecordEnvelope_toJson record
  have hread := (rootSignedMemberSigningKeyLifecycleFromRecord_eq_ok hcreate).mpr hleft
  exact Except.ok.inj (hread.symm.trans
    ((rootSignedMemberSigningKeyLifecycleFromRecord_eq_ok hcreate).mpr hright))

/-- An envelope carries one declaration. -/
theorem eq_of_describesDeclaration {record : RecordEnvelope}
    {left right : MemberFeedDeclaration crypto}
    (hleft : DescribesDeclaration record.payload left ∧ RoutesDeclaration record left)
    (hright : DescribesDeclaration record.payload right ∧ RoutesDeclaration record right) :
    left = right := by
  have hcreate := createRecordEnvelope_toJson record
  have hread := (memberFeedDeclarationFromRecord_eq_ok hcreate).mpr hleft
  exact Except.ok.inj (hread.symm.trans ((memberFeedDeclarationFromRecord_eq_ok hcreate).mpr hright))

end PeerHours.TimebankRecords
