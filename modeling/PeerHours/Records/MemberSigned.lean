import PeerHours.Identity.Verification
import PeerHours.Records.Envelope

/-!
# Member-signed records

A record envelope accompanied by its author's signature over every term of the envelope.
-/

namespace PeerHours.TimebankRecords

open Checked Json
open TimebankIdentity

variable {crypto : Crypto}

/-- The domain-separation marker for signatures over complete immutable record envelopes. -/
def memberSignedRecordSchema : String := "peer-hours/member-signed-record/v1"

/-- An immutable record envelope accompanied by its author's authorized Ed25519 signature. -/
structure MemberSignedRecord extends RecordEnvelope where
  signingKeyId : String
  signature : String
  signed : Text.blank signingKeyId = false ∧ Text.blank signature = false

/-- Creates an immutable member-signed record without treating possession as authorization. -/
def createMemberSignedRecord (input : JsonValue) : Except String MemberSignedRecord := do
  let record ← createRecordEnvelope input
  let signingKeyId ← assertPresent (input.field "signingKeyId") "Member signing key id"
  let signature ← assertPresent (input.field "signature") "Member record signature"
  pure
    { record with
      signingKeyId := signingKeyId
      signature := signature
      signed := ⟨signingKeyId.2, signature.2⟩ }

/-- The object of a member-signed record. -/
def MemberSignedRecord.toJson (record : MemberSignedRecord) : JsonValue :=
  .obj (record.properties ++
    [("signingKeyId", .str record.signingKeyId), ("signature", .str record.signature)])

/-- The exact domain-separated bytes an author signs for one immutable record envelope. -/
def canonicalMemberSignedRecordPayload (record : RecordEnvelope) : Buffer :=
  jsonBytes (.obj [("schema", .str memberSignedRecordSchema), ("record", record.toJson)])

/-- What a record's signature is checked against. -/
def recordSignatureInput (record : MemberSignedRecord) : VerifyMemberSignatureInput :=
  { communityId := record.communityId
    memberId := record.authorId
    keyId := record.signingKeyId
    payload := canonicalMemberSignedRecordPayload record.toRecordEnvelope
    signature := record.signature }

/-- Verifies that an active community authorization for the envelope author signed every record
term. -/
def verifyMemberSignedRecord (record : JsonValue)
    (authorizations : List (MemberSigningKeyAuthorization crypto)) : Except String Bool :=
  match createMemberSignedRecord record with
  | .error _ => .ok false
  | .ok normalized => do
      let verifyMemberSignature ← createEd25519MemberSignatureVerifier authorizations
      pure (verifyMemberSignature (recordSignatureInput normalized))

/-- Narrows a record-shaped value to the additional fields needed for member admission. -/
def isMemberSignedRecord (value : JsonValue) : Bool :=
  (value.field "signingKeyId").isSome && (value.field "signature").isSome

theorem createMemberSignedRecord_eq_ok {input : JsonValue} {record : MemberSignedRecord} :
    createMemberSignedRecord input = .ok record ↔
      createRecordEnvelope input = .ok record.toRecordEnvelope ∧
      input.field "signingKeyId" = some (.str record.signingKeyId) ∧
      input.field "signature" = some (.str record.signature) := by
  simp only [createMemberSignedRecord, bind_eq_ok, assertPresent_eq_ok, pure_eq_ok]
  constructor
  · rintro ⟨envelope, henvelope, key, hkey, signature, hsignature, rfl⟩
    exact ⟨henvelope, hkey, hsignature⟩
  · rintro ⟨henvelope, hkey, hsignature⟩
    exact ⟨_, henvelope, ⟨_, record.signed.1⟩, hkey, ⟨_, record.signed.2⟩, hsignature, rfl⟩

/-- A member-signed record is created again from its own object. -/
@[simp] theorem createMemberSignedRecord_toJson (record : MemberSignedRecord) :
    createMemberSignedRecord record.toJson = .ok record :=
  createMemberSignedRecord_eq_ok.mpr
    ⟨createRecordEnvelope_eq_ok.mpr (describesRecord_properties record.toRecordEnvelope _), rfl, rfl⟩

@[simp] theorem createRecordEnvelope_memberSigned (record : MemberSignedRecord) :
    createRecordEnvelope record.toJson = .ok record.toRecordEnvelope :=
  (createMemberSignedRecord_eq_ok.mp (createMemberSignedRecord_toJson record)).1

/-- The author's active key signed the record. -/
def Authentic (authorizations : List (MemberSigningKeyAuthorization crypto)) (source : JsonValue)
    (record : MemberSignedRecord) : Prop :=
  createMemberSignedRecord source = .ok record ∧
    VerifiesUnder authorizations (recordSignatureInput record)

/-- Verification accepts exactly the authentic records, under compatible authorizations. -/
theorem verifyMemberSignedRecord_eq_ok_true {source : JsonValue}
    {authorizations : List (MemberSigningKeyAuthorization crypto)} :
    verifyMemberSignedRecord source authorizations = .ok true ↔
      authorizations.Pairwise Compatible ∧ ∃ record, Authentic authorizations source record := by
  unfold verifyMemberSignedRecord Authentic
  split
  · rename_i message hcreate
    simp [hcreate]
  · rename_i record hcreate
    simp only [hcreate, Except.ok.injEq, exists_eq_left', bind_eq_ok, pure_eq_ok,
      createEd25519MemberSignatureVerifier_eq_ok, ← verifyMemberSignature_indexedKeys]
    constructor
    · rintro ⟨_, ⟨hpairs, rfl⟩, hverified⟩
      exact ⟨hpairs, hverified⟩
    · rintro ⟨hpairs, hverified⟩
      exact ⟨_, ⟨hpairs, rfl⟩, hverified⟩

end PeerHours.TimebankRecords
