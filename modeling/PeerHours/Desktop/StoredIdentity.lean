import PeerHours.Records.IdentityRecords
import PeerHours.Records.MemberSigned

/-!
# The stored root identity

A desktop keeps one root key. With it the desktop signs the declaration of its feed and every record
that it appends.
-/

namespace PeerHours.Desktop

open Checked Json
open TimebankIdentity
open TimebankRecords

variable {crypto : Crypto}

/-- A root key pair. Ed25519 is complete: what the private key signs verifies under the public key. -/
structure StoredMemberIdentity (crypto : Crypto) where
  rootPublicKey : Ed25519PublicKey crypto
  sign : Buffer → String
  complete : ∀ payload, SignedBy rootPublicKey payload (sign payload)

/-- The self-owned member id of a root key. -/
def StoredMemberIdentity.memberId (stored : StoredMemberIdentity crypto) : String :=
  selfOwnedMemberId stored.rootPublicKey

/-- The declaration binding a root identity to a feed, before it is checked. -/
def declarationInput (stored : StoredMemberIdentity crypto)
    (communityId feedPublicKey occurredAt : String) : JsonValue :=
  .obj [("schema", .str memberFeedDeclarationSchema), ("memberId", .str stored.memberId),
    ("communityId", .str communityId), ("feedPublicKey", .str feedPublicKey),
    ("occurredAt", .str occurredAt),
    ("rootPublicKeyPem", .str stored.rootPublicKey.publicKeyPem),
    ("signature", .str (stored.sign (canonicalMemberFeedDeclarationPayload stored.rootPublicKey
      communityId (.str feedPublicKey) occurredAt)))]

/-- Builds and signs the immutable declaration binding this root identity to the runtime's own
feed. -/
def createDeclaration (stored : StoredMemberIdentity crypto)
    (communityId feedPublicKey occurredAt : String) : Except String (MemberFeedDeclaration crypto) :=
  createMemberFeedDeclaration crypto (declarationInput stored communityId feedPublicKey occurredAt)

/-- Signs one immutable record envelope with the member root key. -/
def signRecord (stored : StoredMemberIdentity crypto) (record : RecordEnvelope) :
    Except String JsonValue := do
  let signed ← createMemberSignedRecord (.obj (record.properties ++
    [("signingKeyId", .str (rootKeyIdForMember stored.memberId)),
      ("signature", .str (stored.sign (canonicalMemberSignedRecordPayload record)))]))
  pure signed.toJson

/-! ## What is signed -/

/-- Encoded text is blank only when it is empty. -/
theorem blank_encode_of_ne_nil {bytes : Buffer} (h : (Base64Url.encode bytes).toList ≠ []) :
    Text.blank (Base64Url.encode bytes) = false := by
  obtain ⟨c, hmem⟩ := List.exists_mem_of_ne_nil _ h
  exact Text.blank_eq_false_of_mem hmem
    (Base64Url.isSpace_of_digitValue? (Base64Url.digitValue?_isSome_of_mem hmem))

/-- Signature text is never blank. -/
theorem blank_of_signedBy {publicKey : Ed25519PublicKey crypto} {payload : Buffer}
    {signature : String} (h : SignedBy publicKey payload signature) :
    Text.blank signature = false := by
  obtain ⟨bytes, hdecode, -⟩ := h
  obtain ⟨hlength, rfl⟩ := decodeBase64UrlSignature_eq_some.mp hdecode
  refine blank_encode_of_ne_nil fun hnil ↦ ?_
  have hencode := Base64Url.length_encode bytes
  rw [hnil, hlength] at hencode
  exact absurd hencode (by decide)

/-- The source is the record with the root signature of the identity. -/
def RootSigned (stored : StoredMemberIdentity crypto) (record : RecordEnvelope)
    (source : JsonValue) : Prop :=
  ∃ signed, createMemberSignedRecord source = .ok signed ∧ signed.toRecordEnvelope = record ∧
    signed.signingKeyId = rootKeyIdForMember stored.memberId ∧
    signed.signature = stored.sign (canonicalMemberSignedRecordPayload record)

/-- Signing never fails. -/
theorem signRecord_spec (stored : StoredMemberIdentity crypto) (record : RecordEnvelope) :
    ∃ source, signRecord stored record = .ok source ∧ RootSigned stored record source := by
  have hkey : Text.blank (rootKeyIdForMember stored.memberId) = false := by
    rw [rootKeyIdForMember, Text.blank_append]
    rfl
  let signed : MemberSignedRecord :=
    { record with
      signingKeyId := rootKeyIdForMember stored.memberId
      signature := stored.sign (canonicalMemberSignedRecordPayload record)
      signed := ⟨hkey, blank_of_signedBy (stored.complete _)⟩ }
  have hcreate : createMemberSignedRecord signed.toJson = .ok signed :=
    createMemberSignedRecord_toJson signed
  refine ⟨signed.toJson, ?_, signed, hcreate, rfl, rfl, rfl⟩
  rw [signRecord]
  change createMemberSignedRecord signed.toJson >>= _ = _
  rw [hcreate]
  rfl

theorem RootSigned.create {stored : StoredMemberIdentity crypto} {record : RecordEnvelope}
    {source : JsonValue} (h : RootSigned stored record source) :
    createRecordEnvelope source = .ok record := by
  obtain ⟨signed, hcreate, rfl, -⟩ := h
  exact (createMemberSignedRecord_eq_ok.mp hcreate).1

end PeerHours.Desktop
