import PeerHours.Desktop.StoredIdentity
import PeerHours.Records.Encoding

/-!
# Device keys of a stored identity

A desktop root-signs the activation and the revocation of its device keys. What it signs is always a
valid statement, and its record carries that statement.
-/

namespace PeerHours.Desktop

open Checked Json
open TimebankIdentity
open TimebankRecords

variable {crypto : Crypto}

/-- The statement of one lifecycle event, signed with the root key of the event's member. -/
def signLifecycle (stored : StoredMemberIdentity crypto)
    (event : MemberSigningKeyAuthorizationEvent crypto) (howned : event.memberId = stored.memberId) :
    RootSignedMemberSigningKeyLifecycle crypto where
  event := event
  rootPublicKey := stored.rootPublicKey
  signature := stored.sign (canonicalRootSignedMemberSigningKeyLifecyclePayload event
    stored.rootPublicKey)
  owned := howned
  signed := stored.complete _

/-- The properties of a statement. -/
def lifecycleProperties (statement : RootSignedMemberSigningKeyLifecycle crypto) :
    List (String × JsonValue) :=
  statement.toJson.properties

theorem normalFields_lifecycle (statement : RootSignedMemberSigningKeyLifecycle crypto) :
    NormalFields (lifecycleProperties statement) ∧
      ((lifecycleProperties statement).map Prod.fst).Nodup := by
  unfold lifecycleProperties RootSignedMemberSigningKeyLifecycle.toJson
    MemberSigningKeyAuthorizationEvent.properties
  cases statement.event.action with
  | activate publicKey =>
      exact ⟨by simp [JsonValue.properties, MemberSigningKeyAuthorizationAction.publicKey?,
        normalFields_cons_str, normalFields_nil],
        by simp [JsonValue.properties, MemberSigningKeyAuthorizationAction.publicKey?]⟩
  | revoke =>
      exact ⟨by simp [JsonValue.properties, MemberSigningKeyAuthorizationAction.publicKey?,
        normalFields_cons_str, normalFields_nil],
        by simp [JsonValue.properties, MemberSigningKeyAuthorizationAction.publicKey?]⟩

/-- A payload that reads like the statement's object describes the statement. -/
theorem describesStatement_of_field {payload : JsonValue}
    {statement : RootSignedMemberSigningKeyLifecycle crypto}
    (h : ∀ name, payload.field name = statement.toJson.field name) :
    DescribesStatement payload statement := by
  obtain ⟨⟨eventId, community, member, key, publicKey | _, occurredAt, _, _, _⟩, root, signature, _,
    _⟩ := statement
  · exact ⟨h _, ⟨h _, h _, h _, h _, h _, h _, by rintro _ ⟨⟩; exact h _⟩, h _, h _⟩
  · exact ⟨h _, ⟨h _, h _, h _, h _, h _, h _, by rintro _ ⟨⟩⟩, h _, h _⟩

/-- The record of a statement always encodes, and carries the statement. -/
theorem lifecycleToRecord_spec (statement : RootSignedMemberSigningKeyLifecycle crypto) :
    ∃ record, rootSignedMemberSigningKeyLifecycleToRecord statement = .ok record ∧
      DescribesStatement record.payload statement ∧
      RoutesEvent (rootSignedRecordKindFor statement.event) record statement.event := by
  have hcreate : createRootSignedMemberSigningKeyLifecycle crypto statement.toJson =
      .ok statement :=
    createRootSignedMemberSigningKeyLifecycle_eq_ok.mpr (describesStatement_of_field fun _ ↦ rfl)
  obtain ⟨hnormal, hnodup⟩ := normalFields_lifecycle statement
  obtain ⟨payload, hpayload, -, hfield⟩ := normalize_properties hnormal hnodup
  have hkind : Text.blank (rootSignedRecordKindFor statement.event) = false := by
    rw [rootSignedRecordKindFor, recordKindFor]
    cases statement.event.action with
    | activate publicKey =>
        exact (by decide : Text.blank rootSignedKeyActivationRecordKind = false)
    | revoke => exact (by decide : Text.blank rootSignedKeyRevocationRecordKind = false)
  let record : RecordEnvelope :=
    { id := statement.event.eventId
      schema := identityRecordSchema
      version := identityRecordVersion
      kind := rootSignedRecordKindFor statement.event
      communityId := statement.event.communityId
      occurredAt := statement.event.occurredAt
      authorId := statement.event.memberId
      payload := payload
      present := by
        simp only [List.forall_mem_cons]
        exact ⟨statement.event.eventIdPresent, by decide, hkind, statement.event.present.1,
          statement.event.present.2.1, by simp⟩
      positive := by decide
      timestamp := statement.event.timestamp
      normal := normalizeJson_idem hpayload }
  refine ⟨record, ?_, describesStatement_of_field hfield, ⟨rfl, rfl, rfl, rfl, rfl, rfl, rfl⟩⟩
  rw [rootSignedMemberSigningKeyLifecycleToRecord, hcreate, ok_bind]
  exact createRecordEnvelope_eq_ok.mpr ⟨rfl, rfl, rfl, rfl, rfl, rfl, rfl, _, rfl, hpayload⟩

end PeerHours.Desktop
