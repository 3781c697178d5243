import PeerHours.Desktop.DeviceKeys
import PeerHours.Library.Stateful
import PeerHours.Records.TimebankRecords

/-!
# The member identity service

The desktop service that keeps a member's root key and device keys and appends signed records to the
member's own feed. Each operation runs over the stored identity and the feed; what it wrote before
stopping stays written. The announcement that follows a declaration goes to peers and not to the feed,
and is left out.
-/

namespace PeerHours.Desktop

open Checked Json KeyedMap Sorting Stateful
open TimebankDomain (ListingKind createMemberProfile createOffer createRequest)
open TimebankIdentity
open TimebankRecords

/-! ## State and surroundings -/

/-- Text in the form of a random UUID. -/
def isUuid (text : String) : Bool :=
  text.toList.length == 36 && text.toList.all fun c ↦ isLowerHex c || c == '-'

/-- A random UUID. -/
abbrev Uuid := {text : String // isUuid text = true}

variable (crypto : Crypto)

/-- A device signing key retained for a published lifecycle activation. -/
structure StoredDeviceSigningKey where
  keyId : String
  keys : StoredMemberIdentity crypto

/-- The root identity and the device keys that only the main process reads. -/
structure IdentityMaterial where
  root : StoredMemberIdentity crypto
  deviceSigningKeys : List (StoredDeviceSigningKey crypto)

/-- The identity store and the member's own feed. -/
structure MemberIdentityService where
  identityStore : Option (IdentityMaterial crypto)
  records : List JsonValue

/-- What one call reads from its surroundings: the selected community, the key storage, the clock, random
ids, a fresh key pair, and whether the feed can be written. -/
structure CallContext where
  communityId : Option String
  isEncryptionAvailable : Bool
  now : CanonicalTimestamp
  keyUuid : Uuid
  recordUuid : Uuid
  generatedKeys : StoredMemberIdentity crypto
  feedWritable : Bool

variable {crypto}

/-- Appends one record to the member's own feed, or stops without effect. -/
def appendRecord (call : CallContext crypto) (record : JsonValue) :
    Action (MemberIdentityService crypto) Unit := do
  check (require (call.feedWritable = true) "The member feed is not writable.")
  modify fun service ↦ { service with records := service.records ++ [record] }

/-! ## The stored identity -/

/-- The key pair signs for its public key. -/
def provesIntegrity (keys : StoredMemberIdentity crypto) : Bool :=
  let proof := utf8 "peer-hours/member-identity-integrity/v1"
  match decodeBase64UrlSignature (keys.sign proof) with
  | some signature => crypto.verify keys.rootPublicKey.key proof signature
  | none => false

/-- Rejects malformed persisted material rather than silently replacing an established member
identity. -/
def assertStoredIdentity (stored : IdentityMaterial crypto) : Except String Unit :=
  require (provesIntegrity stored.root = true ∧ ∀ deviceKey ∈ stored.deviceSigningKeys,
      deviceKey.keyId ≠ "" ∧ provesIntegrity deviceKey.keys = true)
    "Stored member identity material is corrupted."

/-- Generates a root key and persists it. -/
def createStoredIdentity (call : CallContext crypto) :
    Action (MemberIdentityService crypto) (IdentityMaterial crypto) := do
  let stored : IdentityMaterial crypto := ⟨call.generatedKeys, []⟩
  modify fun service ↦ { service with identityStore := some stored }
  pure stored

/-- The persisted identity, created if there is none. -/
def readOrCreateIdentity (call : CallContext crypto) :
    Action (MemberIdentityService crypto) (IdentityMaterial crypto) := do
  let service ← get
  match service.identityStore with
  | some stored => pure stored
  | none => createStoredIdentity call

/-- The selected community, which must not be empty. -/
def selectedCommunity (call : CallContext crypto) (message : String) : Except String String :=
  match call.communityId with
  | some communityId => if communityId = "" then .error message else .ok communityId
  | none => .error message

/-- Stops where the operating system offers no key storage. -/
def requireSecureStorage (call : CallContext crypto) : Except String Unit :=
  require (call.isEncryptionAvailable = true)
    "Secure operating-system key storage is unavailable on this device."

/-- Requires the protected root identity and active discovery scope needed for a lifecycle mutation. -/
def requireProtectedIdentity (call : CallContext crypto) (action : String) :
    Action (MemberIdentityService crypto) (IdentityMaterial crypto × String) := do
  let message := "A protected identity and community scope are required to " ++ action ++ "."
  let service ← get
  let communityId ← check (selectedCommunity call message)
  let stored ← check (present service.identityStore message)
  check (require (call.isEncryptionAvailable = true) message)
  check (assertStoredIdentity stored)
  pure (stored, communityId)

/-! ## Device signing keys -/

/-- The lifecycle state of a device key as the renderer sees it. -/
inductive DeviceSigningKeyState where
  | active
  | revoked
deriving DecidableEq

/-- Public, renderer-safe lifecycle state for a member-owned device key. -/
structure DeviceSigningKeyStatus where
  keyId : String
  state : DeviceSigningKeyState
  occurredAt : String

/-- Code units compare as `<` compares two strings. -/
def codeUnitsLess (left right : String) : Bool :=
  decide (Text.utf16 left < Text.utf16 right)

/-- A later statement replaces the one that is known for a key. -/
def replacesStatement (current statement : RootSignedMemberSigningKeyLifecycle crypto) : Bool :=
  codeUnitsLess current.event.occurredAt statement.event.occurredAt ||
    (decide (current.event.occurredAt = statement.event.occurredAt) &&
      codeUnitsLess current.event.eventId statement.event.eventId)

/-- Remembers the latest statement of each device key of one member and community. Other record kinds and
malformed records are passed over. -/
def rememberStatement (communityId memberId rootPublicKeyPem : String)
    (latestByKey : List (RootSignedMemberSigningKeyLifecycle crypto)) (record : JsonValue) :
    List (RootSignedMemberSigningKeyLifecycle crypto) :=
  match rootSignedMemberSigningKeyLifecycleFromRecord crypto record with
  | .error _ => latestByKey
  | .ok statement =>
      if statement.event.communityId ≠ communityId ∨ statement.event.memberId ≠ memberId ∨
          statement.rootPublicKey.publicKeyPem ≠ rootPublicKeyPem then latestByKey
      else
        match lookup (·.event.keyId) statement.event.keyId latestByKey with
        | none => upsert (·.event.keyId) statement latestByKey
        | some current =>
            if replacesStatement current statement = true then
              upsert (·.event.keyId) statement latestByKey
            else latestByKey

/-- The renderer's state of a statement's key. -/
def deviceSigningKeyStatus (statement : RootSignedMemberSigningKeyLifecycle crypto) :
    DeviceSigningKeyStatus :=
  { keyId := statement.event.keyId
    state := match statement.event.action with
      | .activate _ => .active
      | .revoke => .revoked
    occurredAt := statement.event.occurredAt }

variable (crypto) in
/-- Derives public lifecycle states from the root-signed statements in the feed, the latest first. -/
def deviceSigningKeyStatuses (localeCompare : String → String → Ordering)
    (communityId : Option String) (memberId rootPublicKeyPem : String) (records : List JsonValue) :
    List DeviceSigningKeyStatus :=
  match communityId with
  | none => []
  | some communityId =>
      sortBy (compareLex (fun left right ↦ localeCompare right.occurredAt left.occurredAt)
          (on localeCompare (·.keyId)))
        ((records.foldl (@rememberStatement crypto communityId memberId rootPublicKeyPem) []).map
          deviceSigningKeyStatus)

/-- Root-signs the statement with these unsigned terms. -/
def signStatement (stored : IdentityMaterial crypto) (unsigned : List (String × JsonValue)) :
    Except String (RootSignedMemberSigningKeyLifecycle crypto) := do
  let event ← createMemberSigningKeyAuthorizationEvent crypto (.obj unsigned)
  createRootSignedMemberSigningKeyLifecycle crypto (.obj (unsigned ++
    [("signature", .str (stored.root.sign
      (canonicalRootSignedMemberSigningKeyLifecyclePayload event stored.root.rootPublicKey)))]))

/-- The record of a signed statement, appended to the feed. -/
def appendStatement (call : CallContext crypto) (stored : IdentityMaterial crypto)
    (unsigned : List (String × JsonValue)) : Action (MemberIdentityService crypto) Unit := do
  let statement ← check (signStatement stored unsigned)
  let record ← check (rootSignedMemberSigningKeyLifecycleToRecord statement)
  appendRecord call record.toJson

/-- The unsigned terms of a device key's activation. -/
def unsignedActivation (call : CallContext crypto) (stored : IdentityMaterial crypto)
    (communityId : String) (deviceKey : StoredDeviceSigningKey crypto) :
    List (String × JsonValue) :=
  [("schema", .str rootSignedMemberKeyLifecycleSchema),
    ("eventId", .str ("member-key:" ++ call.recordUuid)), ("communityId", .str communityId),
    ("memberId", .str stored.root.memberId), ("keyId", .str deviceKey.keyId),
    ("action", .str "activate"), ("occurredAt", .str call.now),
    ("publicKeyPem", .str deviceKey.keys.rootPublicKey.publicKeyPem),
    ("rootPublicKeyPem", .str stored.root.rootPublicKey.publicKeyPem)]

/-- The unsigned terms of a device key's revocation. -/
def unsignedRevocation (call : CallContext crypto) (stored : IdentityMaterial crypto)
    (communityId keyId : String) : List (String × JsonValue) :=
  [("schema", .str rootSignedMemberKeyLifecycleSchema),
    ("eventId", .str ("member-key:" ++ call.recordUuid)), ("communityId", .str communityId),
    ("memberId", .str stored.root.memberId), ("keyId", .str keyId), ("action", .str "revoke"),
    ("occurredAt", .str call.now),
    ("rootPublicKeyPem", .str stored.root.rootPublicKey.publicKeyPem)]

/-- Publishes one device key activation after retaining its private material. -/
def activateDeviceSigningKey (call : CallContext crypto) :
    Action (MemberIdentityService crypto) Unit := do
  let (stored, communityId) ← requireProtectedIdentity call "rotate a device signing key"
  let deviceKey : StoredDeviceSigningKey crypto := ⟨"device:" ++ call.keyUuid, call.generatedKeys⟩
  modify fun service ↦ { service with
    identityStore := some ⟨stored.root, stored.deviceSigningKeys ++ [deviceKey]⟩ }
  appendStatement call stored (unsignedActivation call stored communityId deviceKey)

/-- Root-signs one permanent revocation after confirming the selected device key is currently active. -/
def revokeDeviceSigningKey (localeCompare : String → String → Ordering) (call : CallContext crypto)
    (keyId : String) : Action (MemberIdentityService crypto) Unit := do
  let (stored, communityId) ← requireProtectedIdentity call "revoke a device signing key"
  let service ← get
  let status := deviceSigningKeyStatuses crypto localeCompare (some communityId) stored.root.memberId
    stored.root.rootPublicKey.publicKeyPem service.records
  check (require (∃ key ∈ status, key.keyId = keyId ∧ key.state = .active)
    "Choose one of your active device signing keys to revoke.")
  appendStatement call stored (unsignedRevocation call stored communityId keyId)
  modify fun service ↦ { service with
    identityStore := some ⟨stored.root, stored.deviceSigningKeys.filter fun key ↦
      decide (key.keyId ≠ keyId)⟩ }

/-! ## Identity, declaration and listings -/

/-- What a new community's genesis record is signed with. -/
structure GenesisSigner where
  memberId : String
  rootPublicKeyPem : String
  sign : Buffer → String

/-- Supplies the identity material needed to root-sign a new community genesis record. -/
def communityGenesisSigner (call : CallContext crypto) :
    Action (MemberIdentityService crypto) GenesisSigner := do
  check (requireSecureStorage call)
  let stored ← readOrCreateIdentity call
  check (assertStoredIdentity stored)
  pure ⟨stored.root.memberId, stored.root.rootPublicKey.publicKeyPem, stored.root.sign⟩

/-- The state of the local identity. -/
inductive MemberIdentityState where
  | unavailable
  | notCreated
  | ready

/-- Whether a local root identity can operate in the current community. -/
structure MemberIdentityStatus where
  state : MemberIdentityState
  memberId : Option String
  communityId : Option String
  deviceSigningKeys : List DeviceSigningKeyStatus

/-- Reports whether a local root identity can safely operate in the current discovery community. -/
def status (localeCompare : String → String → Ordering) (call : CallContext crypto) :
    Action (MemberIdentityService crypto) MemberIdentityStatus := do
  if call.isEncryptionAvailable = false then pure ⟨.unavailable, none, call.communityId, []⟩
  else
    let service ← get
    match service.identityStore with
    | none => pure ⟨.notCreated, none, call.communityId, []⟩
    | some stored =>
        check (assertStoredIdentity stored)
        pure ⟨.ready, some stored.root.memberId, call.communityId,
          deviceSigningKeyStatuses crypto localeCompare call.communityId stored.root.memberId
            stored.root.rootPublicKey.publicKeyPem service.records⟩

variable (crypto) in
/-- Whether a record is this feed's valid declaration for the community. -/
def readOwnDeclaration (communityId feedPublicKey : String) (record : JsonValue) :
    Option (MemberFeedDeclaration crypto) :=
  if record.field "kind" ≠ some (.str memberFeedDeclarationRecordKind) then none
  else
    match memberFeedDeclarationFromRecord crypto record with
    | .error _ => none
    | .ok declaration =>
        if declaration.communityId = communityId ∧ declaration.feedPublicKey = .str feedPublicKey then
          some declaration
        else none

variable (crypto) in
/-- Finds this feed's valid earlier declaration, so that retrying never appends a duplicate identity
record. -/
def existingDeclaration (communityId feedPublicKey : String) (records : List JsonValue) :
    Option (MemberFeedDeclaration crypto) :=
  records.findSome? (readOwnDeclaration crypto communityId feedPublicKey)

/-- Creates a protected root identity and declares its local feed. -/
def createAndAnnounce (localeCompare : String → String → Ordering) (feedPublicKey : String)
    (call : CallContext crypto) : Action (MemberIdentityService crypto) MemberIdentityStatus := do
  let communityId ← check (selectedCommunity call
    "Connect to a bootstrap discovery scope before creating an identity.")
  check (requireSecureStorage call)
  let stored ← readOrCreateIdentity call
  check (assertStoredIdentity stored)
  let service ← get
  match existingDeclaration crypto communityId feedPublicKey service.records with
  | some _ => status localeCompare call
  | none => do
      let declaration ← check (createDeclaration stored.root communityId feedPublicKey call.now)
      let record ← check (memberFeedDeclarationToRecord declaration)
      appendRecord call record.toJson
      status localeCompare call

/-- What the renderer sends to publish a listing. -/
structure PublishListingInput where
  kind : String
  title : String
  description : String
  minutes : Int

/-- The kind of a listing by its name. -/
def listingKind (name : String) : Except String ListingKind :=
  if name = "offer" then .ok .offer
  else if name = "request" then .ok .request
  else .error "Listing kind must be an offer or request."

/-- Publishes one root-signed offer or request in the member's own feed. -/
def publishListing (call : CallContext crypto) (input : PublishListingInput) :
    Action (MemberIdentityService crypto) Unit := do
  let kind ← check (listingKind input.kind)
  let communityId ← check (selectedCommunity call
    "Connect to a bootstrap discovery scope before publishing a listing.")
  check (requireSecureStorage call)
  let service ← get
  let stored ← check (present service.identityStore
    "Create your self-owned identity before publishing a listing.")
  check (assertStoredIdentity stored)
  let memberId := stored.root.memberId
  let owner ← check (createMemberProfile ⟨memberId, communityId, memberId⟩)
  let create := match kind with
    | .offer => createOffer
    | .request => createRequest
  let draft ← check (create ⟨call.recordUuid, communityId, memberId, input.title, input.description,
    input.minutes⟩)
  let listing ← check (TimebankDomain.publishListing draft owner)
  let record ← check (toPublishedListingRecord listing ⟨call.now, memberId⟩)
  let signed ← check (signRecord stored.root record)
  appendRecord call signed

/-! ## Calls -/

/-- The operations of the service that touch the identity and the feed of one member alone. -/
inductive Operation where
  | communityGenesisSigner
  | createAndAnnounce
  | publishListing (input : PublishListingInput)
  | activateDeviceSigningKey
  | revokeDeviceSigningKey (keyId : String)

variable (crypto) in
/-- One call of an operation in its surroundings. -/
structure Call extends CallContext crypto where
  operation : Operation

/-- Performs one call. -/
def perform (localeCompare : String → String → Ordering) (feedPublicKey : String)
    (call : Call crypto) : Action (MemberIdentityService crypto) Unit :=
  match call.operation with
  | .communityGenesisSigner => do
      let _ ← communityGenesisSigner call.toCallContext
      pure ()
  | .createAndAnnounce => do
      let _ ← createAndAnnounce localeCompare feedPublicKey call.toCallContext
      pure ()
  | .publishListing input => publishListing call.toCallContext input
  | .activateDeviceSigningKey => activateDeviceSigningKey call.toCallContext
  | .revokeDeviceSigningKey keyId => revokeDeviceSigningKey localeCompare call.toCallContext keyId

/-- The service after a sequence of calls, whatever their results. -/
def performAll (localeCompare : String → String → Ordering) (feedPublicKey : String)
    (service : MemberIdentityService crypto) (calls : List (Call crypto)) :
    MemberIdentityService crypto :=
  calls.foldl (fun service call ↦ (outcome (perform localeCompare feedPublicKey call) service).2)
    service

end PeerHours.Desktop
