import PeerHours.Library.CodeUnits
import PeerHours.Runtime.Genesis
import PeerHours.Records.MemberSigned

/-!
# Signed payloads

The six functions that produce the bytes an identity signs, on values whose texts may hold any UTF-16 code
units. A text reaches the host, a pattern or a date through its well-formed string.
-/

namespace PeerHours.SignedPayloads

open Checked CodeUnits
open TimebankIdentity (isHypercoreKey decodeBase64UrlSignature)

/-! ## Values -/

/-- A text literal of the source. -/
def text (literal : String) : Value := .str (ofString literal)

/-- An object with property names of the source. -/
def object (fields : List (String × Value)) : Value :=
  .obj (fields.map fun field ↦ (ofString field.1, field.2))

/-- The own property of a value under a name of the source. -/
def prop (value : Value) (name : String) : Option Value :=
  value.field (ofString name)

/-- `Buffer.from(JSON.stringify(value), "utf8")`. -/
def payloadBytes (value : Value) : Buffer :=
  utf8 (String.ofList (Json.Tree.render quoting value))

theorem payloadBytes_inj {left right : Value} : payloadBytes left = payloadBytes right ↔ left = right := by
  rw [payloadBytes, payloadBytes, utf8_inj, String.ofList_inj, Json.Tree.render_inj]

/-- Text with only well-formed surrogate pairs has the bytes of its string. -/
theorem payloadBytes_ofTree (value : Json.JsonValue) :
    payloadBytes (ofTree value.tree) = jsonBytes value := by
  rw [payloadBytes, render_ofTree, Json.render_tree]
  rfl

/-! ## Checks -/

/-- Ensures a required text is non-blank. -/
def assertPresent (value : Option Value) (label : String) : Except String CodeUnits :=
  match value with
  | some (.str units) =>
      if Text.blank (toWellFormed units) = false then .ok units
      else .error (label ++ " is required.")
  | _ => .error (label ++ " is required.")

/-- Ensures a timestamp has one unambiguous UTC ISO-8601 representation. -/
def assertCanonicalTimestamp (value : Option Value) (label : String) : Except String CodeUnits := do
  let units ← assertPresent value label
  require (Timestamp.isCanonical (toWellFormed units) = true)
    (label ++ " must be a canonical UTC ISO-8601 timestamp.")
  pure units

/-- The text that a pattern reads from a value: a string, or an array of one such value. -/
def patternText : Value → Option CodeUnits
  | .str units => some units
  | .arr [item] => patternText item
  | _ => none

/-- Validates a canonical hexadecimal Hypercore public key used to address a member feed. -/
def assertCanonicalHypercoreKey (value : Option Value) : Except String Value := do
  let message := "A member feed public key must be a lowercase 64-character hexadecimal Hypercore key."
  let key ← present value message
  require ((patternText key).any (fun units ↦ isHypercoreKey (toWellFormed units)) = true) message
  pure key

variable (crypto : Crypto)

/-- Parses an Ed25519 PEM public key and rejects other key algorithms. -/
def parseEd25519PublicKey (publicKeyPem : CodeUnits) : Except String crypto.KeyObject :=
  TimebankIdentity.parseEd25519PublicKey crypto (toWellFormed publicKeyPem)

/-- A member that owns its identifier through its root key. -/
structure SelfOwnedMemberIdentity where
  memberId : CodeUnits
  rootPublicKeyPem : CodeUnits

/-- Derives a stable member identifier from the exact Ed25519 root public key that owns it. -/
def createSelfOwnedMemberIdentity (rootPublicKeyPem : Option Value) :
    Except String SelfOwnedMemberIdentity := do
  let pem ← assertPresent rootPublicKeyPem "Root public key"
  let rootPublicKey ← parseEd25519PublicKey crypto pem
  pure ⟨ofString ("phm_" ++ Base64Url.encode (crypto.sha256 (crypto.exportSpkiDer rootPublicKey))), pem⟩

/-! ## Feed declarations and announcements -/

/-- Returns the exact domain-separated bytes a root identity signs to declare one member feed. -/
def canonicalMemberFeedDeclarationPayload (declaration : Value) : Except String Buffer := do
  let identity ← createSelfOwnedMemberIdentity crypto (prop declaration "rootPublicKeyPem")
  let communityId ← assertPresent (prop declaration "communityId") "Community id"
  let feedPublicKey ← assertCanonicalHypercoreKey (prop declaration "feedPublicKey")
  let occurredAt ← assertCanonicalTimestamp (prop declaration "occurredAt")
    "Authorization event timestamp"
  require (prop declaration "memberId" = some (.str identity.memberId))
    "A member feed declaration member id must match its root public key."
  pure (payloadBytes (object [("schema", text "peer-hours/member-feed-declaration/v1"),
    ("memberId", .str identity.memberId), ("communityId", .str communityId),
    ("feedPublicKey", feedPublicKey), ("occurredAt", .str occurredAt),
    ("rootPublicKeyPem", .str identity.rootPublicKeyPem)]))

/-- Ensures that a public key signed the payload, with the signature in canonical text. -/
def assertSigned (publicKeyPem : Option Value) (payload : Buffer) (signature : Option Value)
    (message : String) : Except String Unit := do
  let signatureText ← match signature with
    | some (.str units) => .ok (toWellFormed units)
    | _ => .error "The first argument must be of type string."
  let decoded ← present (decodeBase64UrlSignature signatureText) message
  let pem ← assertPresent publicKeyPem "Root public key"
  let publicKey ← parseEd25519PublicKey crypto pem
  require (crypto.verify publicKey payload decoded = true) message

/-- Creates a declaration only when its self-owned root identity signed the exact feed terms. -/
def createMemberFeedDeclaration (input : Value) : Except String Value := do
  require (prop input "schema" = some (text "peer-hours/member-feed-declaration/v1"))
    "A member feed declaration must use the current schema."
  let payload ← canonicalMemberFeedDeclarationPayload crypto input
  assertSigned crypto (prop input "rootPublicKeyPem") payload (prop input "signature")
    "A member feed declaration must have a valid root identity signature."
  pure (.obj input.properties)

/-- Returns the exact domain-separated bytes a root identity signs to announce one declared feed. -/
def canonicalMemberFeedAnnouncementPayload (announcement : Value) : Except String Buffer := do
  let declaration ← createMemberFeedDeclaration crypto ((prop announcement "declaration").getD .null)
  let announcedAt ← assertCanonicalTimestamp (prop announcement "announcedAt")
    "Authorization event timestamp"
  let expiresAt ← assertCanonicalTimestamp (prop announcement "expiresAt")
    "Authorization event timestamp"
  require ((Timestamp.millis? (toWellFormed announcedAt)).getD 0 <
      (Timestamp.millis? (toWellFormed expiresAt)).getD 0)
    "A member feed announcement must expire after it is announced."
  pure (payloadBytes (object [("schema", text "peer-hours/member-feed-announcement/v1"),
    ("declaration", declaration), ("announcedAt", .str announcedAt), ("expiresAt", .str expiresAt)]))

/-! ## Key lifecycle statements -/

/-- Every action other than an activation is signed as a revocation. -/
def signedAction (statement : Value) : String :=
  if prop statement "action" = some (text "activate") then "activate" else "revoke"

/-- The key that an activation names, and `null` for a revocation. -/
def signedKey (statement : Value) : Except String Value :=
  if signedAction statement = "activate" then do
    let pem ← assertPresent (prop statement "publicKeyPem") "Ed25519 public key"
    let _ ← parseEd25519PublicKey crypto pem
    pure (.str pem)
  else pure .null

/-- Returns the exact domain-separated bytes a self-owned root key signs for a key lifecycle action. -/
def canonicalRootSignedMemberSigningKeyLifecyclePayload (statement : Value) :
    Except String Buffer := do
  require (prop statement "schema" = some (text "peer-hours/root-signed-member-key-lifecycle/v1"))
    "A root-signed member key lifecycle statement must use the current schema."
  let eventId ← assertPresent (prop statement "eventId") "Authorization event id"
  let communityId ← assertPresent (prop statement "communityId") "Community id"
  let memberId ← assertPresent (prop statement "memberId") "Member id"
  let keyId ← assertPresent (prop statement "keyId") "Signing key id"
  let occurredAt ← assertCanonicalTimestamp (prop statement "occurredAt")
    "Authorization event timestamp"
  let publicKeyPem ← signedKey crypto statement
  let identity ← createSelfOwnedMemberIdentity crypto (prop statement "rootPublicKeyPem")
  require (memberId = identity.memberId)
    "A root-signed member key lifecycle statement member id must match its root public key."
  pure (payloadBytes (object [
    ("schema", text "peer-hours/root-signed-member-key-lifecycle/v1"),
    ("eventId", .str eventId), ("communityId", .str communityId), ("memberId", .str memberId),
    ("keyId", .str keyId), ("action", text (signedAction statement)),
    ("occurredAt", .str occurredAt), ("publicKeyPem", publicKeyPem),
    ("rootPublicKeyPem", .str identity.rootPublicKeyPem)]))

/-! ## Ledger transfers -/

/-- Ensures a required text of a transfer is non-blank. A value that is no text has no `trim` to call. -/
def assertTransferText (value : Option Value) (label : String) : Except String CodeUnits :=
  match value with
  | some (.str units) =>
      if Text.blank (toWellFormed units) = false then .ok units
      else .error (label ++ " is required.")
  | none => .error "Cannot read properties of undefined (reading 'trim')"
  | some .null => .error "Cannot read properties of null (reading 'trim')"
  | some _ => .error "value.trim is not a function"

/-- The whole number of a value. -/
def int? : Option Value → Option Int
  | some (.num number) => number.toInt?
  | _ => none

/-- `value ?? ""`. -/
def orEmptyText (value : Option Value) : Option Value :=
  match value with
  | none | some .null => some (text "")
  | some value => some value

/-- The normalized terms of a transfer. -/
structure TransferTerms where
  id : CodeUnits
  communityId : CodeUnits
  sourceProposalId : Option Value
  providerMemberId : CodeUnits
  recipientMemberId : CodeUnits
  minutes : Int
  reversesTransferId : Option Value

/-- Checks the transfer that the terms reverse, or the proposal that they settle. -/
def assertReversedOrSettled (input : Value) (id : CodeUnits) : Except String Unit :=
  match prop input "reversesTransferId" with
  | some value => do
      let reversed ← assertTransferText (some value) "Reversed transfer id"
      require (reversed ≠ id) "A transfer cannot reverse itself."
  | none => do
      let _ ← assertTransferText (orEmptyText (prop input "sourceProposalId")) "Source proposal id"
      pure ()

/-- Normalizes the immutable terms both participants attest before a complete transfer exists. -/
def createTransferTerms (input : Value) : Except String TransferTerms := do
  let id ← assertTransferText (prop input "id") "Transfer id"
  let communityId ← assertTransferText (prop input "communityId") "Community id"
  let providerMemberId ← assertTransferText (prop input "providerMemberId") "Provider member id"
  let recipientMemberId ← assertTransferText (prop input "recipientMemberId") "Recipient member id"
  let minutes ← present (int? (prop input "minutes"))
    "Transfer minutes must be a positive whole number."
  require (0 < minutes) "Transfer minutes must be a positive whole number."
  require (providerMemberId ≠ recipientMemberId)
    "A transfer cannot have the same provider and recipient."
  assertReversedOrSettled input id
  pure
    { id := id
      communityId := communityId
      sourceProposalId := prop input "sourceProposalId"
      providerMemberId := providerMemberId
      recipientMemberId := recipientMemberId
      minutes := minutes
      reversesTransferId := prop input "reversesTransferId" }

/-- The attestations an object lists: an array, or the characters of a text. -/
def attestationItems (value : Option Value) : Except String (List Value) :=
  let expected := "A transfer requires exactly two participant attestations."
  match value with
  | some (.arr items) => do
      require (items.length = 2) expected
      pure items
  | some (.str units) => do
      require (units.length = 2) expected
      pure ((pieces units).map fun piece ↦ .str piece.units)
  | none => .error "Cannot read properties of undefined (reading 'length')"
  | some .null => .error "Cannot read properties of null (reading 'length')"
  | some value => do
      require (int? (prop value "length") = some 2) expected
      .error "transfer.attestations is not iterable"

/-- Adds the member of one attestation to those that attested before. -/
def addAttestation (terms : TransferTerms) (attested : List CodeUnits) (item : Value) :
    Except String (List CodeUnits) := do
  require (item ≠ .null) "Cannot read properties of null (reading 'memberId')"
  let memberId ← assertTransferText (prop item "memberId") "Attesting member id"
  let _ ← assertTransferText (prop item "keyId") "Attestation signing key id"
  let _ ← assertTransferText (prop item "payloadDigest") "Attestation payload digest"
  let _ ← assertTransferText (prop item "signature") "Attestation signature"
  require (memberId = terms.providerMemberId ∨ memberId = terms.recipientMemberId)
    "Only the provider and recipient may attest a transfer."
  require (memberId ∉ attested) "Each transfer participant may attest only once."
  pure (attested ++ [memberId])

/-- Creates a structurally valid transfer with exactly two participant attestations; the payload does not
write them. -/
def createTransfer (input : Value) : Except String TransferTerms := do
  let terms ← createTransferTerms input
  let items ← attestationItems (prop input "attestations")
  let attested ← items.foldlM (addAttestation terms) []
  require (terms.providerMemberId ∈ attested ∧ terms.recipientMemberId ∈ attested)
    "A transfer requires both provider and recipient attestations."
  pure terms

/-- Normalizes a complete transfer or the terms of one. -/
def normalizeTransfer (transfer : Value) : Except String TransferTerms :=
  if (prop transfer "attestations").isSome then createTransfer transfer
  else createTransferTerms transfer

/-- The canonical terms of a transfer, with `null` for an omitted term. -/
def canonicalTerms (terms : TransferTerms) : Value :=
  object [("schema", text "peer-hours/ledger-transfer/v1"), ("id", .str terms.id),
    ("communityId", .str terms.communityId),
    ("sourceProposalId", terms.sourceProposalId.getD .null),
    ("providerMemberId", .str terms.providerMemberId),
    ("recipientMemberId", .str terms.recipientMemberId), ("minutes", .int terms.minutes),
    ("reversesTransferId", terms.reversesTransferId.getD .null)]

/-- Encodes the immutable transfer terms that Ed25519 participants sign. -/
def canonicalTransferPayload (transfer : Value) : Except String Buffer := do
  let normalized ← normalizeTransfer transfer
  pure (payloadBytes (canonicalTerms normalized))

/-! ## Member-signed records -/

/-- Where a property name stands among the sorted names of an object: array indices first, in numeric
order, then the other names by code units. -/
def propertyRank (name : CodeUnits) : List Nat :=
  match Json.arrayIndex? (toWellFormed name) with
  | some index => [0, index]
  | none => 1 :: name.map UInt16.toNat

/-- The order in which an object lists properties that were assigned in sorted order. -/
def compareProperties (left right : CodeUnits × Value) : Ordering :=
  compareOn (fun property : CodeUnits × Value ↦ propertyRank property.1) left right

mutual

/-- Recursively validates, copies and key-sorts a payload value. -/
def normalizeJson : Value → Except String Value
  | .null => .ok .null
  | .bool value => .ok (.bool value)
  | .num value => .ok (.num value)
  | .str value => .ok (.str value)
  | .arr items => do
      let items ← normalizeItems items
      pure (.arr items)
  | .obj fields => do
      let fields ← normalizeFields fields
      pure (.obj (Sorting.sortBy compareProperties fields))

/-- Normalizes the items of an array. -/
def normalizeItems : List Value → Except String (List Value)
  | [] => .ok []
  | item :: rest => do
      let item ← normalizeJson item
      let rest ← normalizeItems rest
      pure (item :: rest)

/-- Normalizes the properties of an object; `__proto__` would change the copy's prototype. -/
def normalizeFields : List (CodeUnits × Value) → Except String (List (CodeUnits × Value))
  | [] => .ok []
  | (name, value) :: rest => do
      require (name ≠ ofString "__proto__")
        "Record payload objects cannot contain a __proto__ property."
      let value ← normalizeJson value
      let rest ← normalizeFields rest
      pure ((name, value) :: rest)

end

/-- The object of the complete terms of an immutable record envelope. -/
def canonicalRecordEnvelope (record : Value) : Except String Value := do
  let id ← assertPresent (prop record "id") "Record id"
  let schema ← assertPresent (prop record "schema") "Record schema"
  let version ← present (int? (prop record "version")) "Record version must be a positive integer."
  require (1 ≤ version) "Record version must be a positive integer."
  let kind ← assertPresent (prop record "kind") "Record kind"
  let communityId ← assertPresent (prop record "communityId") "Community id"
  let occurredAt ← assertCanonicalTimestamp (prop record "occurredAt") "Record occurredAt timestamp"
  let authorId ← assertPresent (prop record "authorId") "Author id"
  let payload ← present (prop record "payload")
    "Record payload must contain only JSON-compatible values."
  let payload ← normalizeJson payload
  pure (object [("id", .str id), ("schema", .str schema), ("version", .int version),
    ("kind", .str kind), ("communityId", .str communityId), ("occurredAt", .str occurredAt),
    ("authorId", .str authorId), ("payload", payload)])

/-- Returns the exact domain-separated bytes an author signs for one immutable record envelope. -/
def canonicalMemberSignedRecordPayload (record : Value) : Except String Buffer := do
  let envelope ← canonicalRecordEnvelope record
  pure (payloadBytes (object [("schema", text "peer-hours/member-signed-record/v1"),
    ("record", envelope)]))

/-! ## Community genesis -/

/-- A code unit that `trim` removes. -/
def isSpaceUnit (unit : UInt16) : Bool :=
  !isSurrogate unit && Text.isSpace (Char.ofNat unit.toNat)

/-- The text without the white space at its ends. -/
def trim (units : CodeUnits) : CodeUnits :=
  ((units.dropWhile isSpaceUnit).reverse.dropWhile isSpaceUnit).reverse

/-- Produces stable bytes for the creator's detached signature, excluding the signature itself. A property
that is not there is not written. -/
def canonicalCommunityGenesisPayload (genesis : Value) : Except String Buffer :=
  match prop genesis "displayName" with
  | some (.str displayName) =>
      let written : List (String × Option Value) :=
        [("communityId", prop genesis "communityId"), ("discoveryKey", prop genesis "discoveryKey"),
          ("displayName", some (.str (trim displayName))), ("location", prop genesis "location"),
          ("createdAt", prop genesis "createdAt"),
          ("creatorMemberId", prop genesis "creatorMemberId"),
          ("creatorRootPublicKeyPem", prop genesis "creatorRootPublicKeyPem")]
      .ok (payloadBytes (object (("schema", text "peer-hours/community-genesis/v1") ::
        written.filterMap fun field ↦ field.2.map (field.1, ·))))
  | _ => .error "genesis.displayName.trim is not a function"

end PeerHours.SignedPayloads
