import PeerHours.Identity.Transparent
import PeerHours.Identity.Verification

/-!
# Permanent revocation

A revoked key id stays revoked: any reduction of statements among which its revocation is found either
fails or leaves the key inactive, so nothing verifies under it again.
-/

namespace PeerHours.TimebankIdentity

open Checked Json
open TimebankLedger (Transfer TransferAttestation)

variable {crypto : Crypto}

/-- No verifier accepts a signature under an index key that no active authorization has. -/
theorem verifier_rejects_inactive {authorizations : List (MemberSigningKeyAuthorization crypto)}
    {communityId memberId keyId : String}
    (hinactive : ∀ authorization ∈ authorizations, authorization.active = true →
      authorization.indexKey ≠ keyFor communityId memberId keyId)
    {verifier : VerifyMemberSignatureInput → Bool}
    (h : createEd25519MemberSignatureVerifier authorizations = .ok verifier)
    (payload : Buffer) (signature : String) :
    verifier ⟨communityId, memberId, keyId, payload, signature⟩ = false := by
  obtain ⟨-, rfl⟩ := createEd25519MemberSignatureVerifier_eq_ok.mp h
  rw [← Bool.not_eq_true, verifyMemberSignature_indexedKeys]
  intro ⟨publicKey, hfound, _⟩
  obtain ⟨authorization, hmem, hactive, hindex, -⟩ := mem_of_activeKey? hfound
  exact hinactive authorization hmem hactive hindex

/-- No attestation verifies under such an index key. -/
theorem attestation_rejects_inactive {authorizations : List (MemberSigningKeyAuthorization crypto)}
    {transfer : Transfer} {attestation : TransferAttestation}
    (hinactive : ∀ authorization ∈ authorizations, authorization.active = true →
      authorization.indexKey ≠ keyFor transfer.communityId attestation.memberId attestation.keyId)
    {verifier : TimebankLedger.SignatureVerifier}
    (h : createEd25519SignatureVerifier authorizations = .ok verifier) :
    verifier transfer attestation ≠ .ok true := by
  intro hverified
  obtain ⟨member, hmember, hverifier⟩ := bind_eq_ok.mp h
  obtain rfl := pure_eq_ok.mp hverifier
  obtain ⟨digest, -, hverified⟩ := bind_eq_ok.mp hverified
  split at hverified
  · exact absurd (pure_eq_ok.mp hverified) (by simp)
  · obtain ⟨payload, -, hverified⟩ := bind_eq_ok.mp hverified
    have hrejected := verifier_rejects_inactive hinactive hmember payload attestation.signature
    exact absurd ((pure_eq_ok.mp hverified).symm.trans hrejected) (by simp)

/-- Revocation is permanent: whatever statements come with a revocation, in whatever order, reducing
them fails or leaves no active authorization of the revoked key, and no verifier accepts it. -/
theorem revocation_permanent {localeCompare : String → String → Ordering}
    {statements later : List (RootSignedMemberSigningKeyLifecycle crypto)} (hlater : statements ⊆ later)
    {revocation : RootSignedMemberSigningKeyLifecycle crypto} (hrevocation : revocation ∈ statements)
    (haction : revocation.event.action = .revoke)
    {authorizations : List (MemberSigningKeyAuthorization crypto)}
    (h : reduceRootSignedMemberSigningKeyLifecycles localeCompare later = .ok authorizations) :
    (∀ authorization ∈ authorizations,
      authorization.communityId = revocation.event.communityId →
      authorization.memberId = revocation.event.memberId →
      authorization.keyId = revocation.event.keyId → authorization.active = false) ∧
    (∀ verifier, createEd25519MemberSignatureVerifier authorizations = .ok verifier →
      ∀ payload signature, verifier ⟨revocation.event.communityId, revocation.event.memberId,
        revocation.event.keyId, payload, signature⟩ = false) ∧
    ∀ verifier, createEd25519SignatureVerifier authorizations = .ok verifier →
      ∀ transfer attestation, transfer.communityId = revocation.event.communityId →
        attestation.memberId = revocation.event.memberId →
        attestation.keyId = revocation.event.keyId → verifier transfer attestation ≠ .ok true := by
  have hinactive : ∀ authorization ∈ authorizations, authorization.active = true →
      authorization.indexKey ≠ keyFor revocation.event.communityId revocation.event.memberId
        revocation.event.keyId := fun authorization hmem hactive hindex ↦
    not_revoked_of_active h hmem hactive revocation (hlater hrevocation) haction hindex.symm
  refine ⟨?_, ?_, ?_⟩
  · intro authorization hmem hcommunity hmember hkey
    by_contra hactive
    refine hinactive authorization hmem (by simpa using hactive) ?_
    rw [MemberSigningKeyAuthorization.indexKey, hcommunity, hmember, hkey]
  · intro verifier hverifier payload signature
    exact verifier_rejects_inactive hinactive hverifier payload signature
  · intro verifier hverifier transfer attestation hcommunity hmember hkey
    refine attestation_rejects_inactive ?_ hverifier
    rw [hcommunity, hmember, hkey]
    exact hinactive

/-- A lifecycle event of the phone key of the member whose root key is `ada`. -/
def phoneEvent (eventId occurredAt : String)
    (action : MemberSigningKeyAuthorizationAction transparentCrypto)
    (heventId : Text.blank eventId = false) (htime : Timestamp.isCanonical occurredAt = true) :
    MemberSigningKeyAuthorizationEvent transparentCrypto where
  eventId := eventId
  communityId := "garden"
  memberId := selfOwnedMemberId (transparentKey "ada" blank_ada length_ada)
  keyId := "phone"
  action := action
  occurredAt := occurredAt
  eventIdPresent := heventId
  present := ⟨blank_garden, by decide +kernel, blank_phone⟩
  timestamp := htime

/-- The root-signed statement of an event of that member. -/
def phoneStatement (event : MemberSigningKeyAuthorizationEvent transparentCrypto)
    (howned : event.memberId = selfOwnedMemberId (transparentKey "ada" blank_ada length_ada)) :
    RootSignedMemberSigningKeyLifecycle transparentCrypto where
  event := event
  rootPublicKey := transparentKey "ada" blank_ada length_ada
  signature := Base64Url.encode (keyBytes "ada")
  owned := howned
  signed := signedBy_transparentKey "ada" blank_ada length_ada _

def phoneActivation : RootSignedMemberSigningKeyLifecycle transparentCrypto :=
  phoneStatement (phoneEvent "phone/1" "2025-06-01T12:00:00.000Z"
    (.activate (transparentKey "phone" blank_phone length_phone)) (by decide) isCanonical_noon) rfl

def phoneRevocation : RootSignedMemberSigningKeyLifecycle transparentCrypto :=
  phoneStatement (phoneEvent "phone/2" "2025-06-02T12:00:00.000Z" .revoke (by decide)
    isCanonical_nextNoon) rfl

theorem revocation_permanent_phone :
    ∃ authorizations, reduceRootSignedMemberSigningKeyLifecycles compare
        [phoneRevocation, phoneActivation] = .ok authorizations ∧
      ∀ authorization ∈ authorizations, authorization.communityId = "garden" →
        authorization.memberId = phoneRevocation.event.memberId → authorization.keyId = "phone" →
        authorization.active = false := by
  obtain ⟨authorizations, h⟩ : Succeeds (reduceRootSignedMemberSigningKeyLifecycles compare
      [phoneRevocation, phoneActivation]) := by decide +kernel
  exact ⟨authorizations, h,
    (@revocation_permanent _ compare [phoneRevocation] _ (by simp) _ (List.mem_singleton.mpr rfl) rfl
      _ h).1⟩

end PeerHours.TimebankIdentity
