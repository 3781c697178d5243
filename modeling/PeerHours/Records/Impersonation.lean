import PeerHours.Records.Declarations
import PeerHours.Records.Signatures

/-!
# Who speaks for a self-owned member

A declared member's records and attestations are checked against the authorizations of the whole history,
and unsigned lifecycle records add some of these. The index key joins its parts with U+0000. So an unsigned
record can name a member id that goes on beyond the separator and take a slot of the declared member, but
only under a key id that has a separator too.
-/

namespace PeerHours.TimebankRecords

open Checked Json KeyedMap Sorting
open TimebankIdentity

variable {crypto : Crypto} {localeCompare : String → String → Ordering} {communityId : String}
  {records : List JsonValue}

/-- Two index keys of a community agree part by part, or the other member id goes on beyond the
separator. -/
theorem keyFor_cases {memberId keyId memberId' keyId' : String} (hmember' : '\x00' ∉ memberId'.toList)
    (h : keyFor communityId memberId keyId = keyFor communityId memberId' keyId') :
    (memberId = memberId' ∧ keyId = keyId') ∨ ∃ rest,
      memberId = memberId' ++ ("\x00" ++ rest) ∧ keyId' = rest ++ ("\x00" ++ keyId) := by
  have hnul : "\x00" = String.singleton '\x00' := rfl
  rw [keyFor, keyFor, String.append_right_inj, String.append_right_inj, hnul] at h
  exact Text.join_cases hmember' h

/-- Every signature that a resolution checks is made for its community. -/
theorem ChecksSignature.communityId_eq {input : VerifyMemberSignatureInput}
    (h : ChecksSignature records communityId input) : input.communityId = communityId := by
  cases h with
  | @record source record _ hdomain hcreate =>
      obtain ⟨hcreate, -, -⟩ := createMemberSignedRecord_eq_ok.mp hcreate
      have hfield := (createRecordEnvelope_eq_ok.mp hcreate).communityId
      rw [hdomain.1] at hfield
      exact (JsonValue.str.inj (Option.some.inj hfield)).symm
  | settlement hproposal _ _ => exact hproposal.1
  | transfer htransfer _ => exact htransfer.1

/-- The key is the declared root key under its own id, or a device key that the root activated under the id
and that no statement of the history revokes. -/
inductive RootedKey (records : List JsonValue) (communityId : String)
    (declaration : MemberFeedDeclaration crypto) (keyId : String) (publicKey : Ed25519PublicKey crypto) :
    Prop where
  | root (hkeyId : keyId = rootKeyIdForMember declaration.memberId)
      (hkey : publicKey = declaration.rootPublicKey) : RootedKey records communityId declaration keyId publicKey
  | device (statement : RootSignedMemberSigningKeyLifecycle crypto)
      (held : HoldsStatement records communityId statement)
      (signer : statement.rootPublicKey = declaration.rootPublicKey)
      (action : statement.event.action = .activate publicKey) (hkeyId : statement.event.keyId = keyId)
      (standing : ∀ revocation : RootSignedMemberSigningKeyLifecycle crypto,
        HoldsStatement records communityId revocation → revocation.event.action = .revoke →
        revocation.event.memberId = declaration.memberId → revocation.event.keyId ≠ keyId) :
      RootedKey records communityId declaration keyId publicKey

/-- An unsigned record of the history activated a key for a member whose id goes on beyond the separator
after the declared member's id. -/
def AliasedBy (crypto : Crypto) (records : List JsonValue) (communityId memberId keyId : String) : Prop :=
  ∃ event : MemberSigningKeyAuthorizationEvent crypto, HoldsEvent records communityId event ∧
    event.action ≠ .revoke ∧ ∃ rest, event.memberId = memberId ++ ("\x00" ++ rest) ∧
      keyId = rest ++ ("\x00" ++ event.keyId)

/-- The root key of the one declaration of a member is the root key that signed for it. -/
theorem signer_eq {authorizations : List (MemberSigningKeyAuthorization crypto)}
    (h : authorizationsOf crypto localeCompare communityId records = .ok authorizations)
    (hcompatible : authorizations.Pairwise Compatible)
    {declaration other : MemberFeedDeclaration crypto}
    (hdeclaration : HoldsDeclaration records communityId declaration)
    (hother : HoldsDeclaration records communityId other)
    {statement : RootSignedMemberSigningKeyLifecycle crypto}
    (hroot : other.rootPublicKey.publicKeyPem = statement.rootPublicKey.publicKeyPem)
    (hmember : statement.event.memberId = declaration.memberId) :
    statement.rootPublicKey = declaration.rootPublicKey := by
  have hkey : other.rootPublicKey = statement.rootPublicKey := Ed25519PublicKey.ext hroot
  have hsame : other = declaration := by
    refine eq_of_authorizationsOf h hcompatible hother hdeclaration ?_
    rw [MemberFeedDeclaration.memberId, hkey, ← statement.owned]
    exact hmember
  rw [← hkey, hsame]

/-- An active authorization in a slot of a declared member is one of its own keys, or an unsigned record
took the slot. -/
theorem rootedKey_of_slot {authorizations : List (MemberSigningKeyAuthorization crypto)}
    (h : authorizationsOf crypto localeCompare communityId records = .ok authorizations)
    (hcompatible : authorizations.Pairwise Compatible)
    {declaration : MemberFeedDeclaration crypto}
    (hdeclaration : HoldsDeclaration records communityId declaration)
    {authorization : MemberSigningKeyAuthorization crypto} (hmem : authorization ∈ authorizations)
    (hactive : authorization.active = true) {keyId : String}
    (hindex : authorization.indexKey = keyFor communityId declaration.memberId keyId) :
    RootedKey records communityId declaration keyId authorization.publicKey ∨
      AliasedBy crypto records communityId declaration.memberId keyId := by
  obtain ⟨normalized, hnormalized, hresolve⟩ := bind_eq_ok.mp h
  obtain ⟨legacy, declared, rootSigned, rfl, -, hparts⟩ :=
    parts_of_resolveAuthorizations (reduced_of_reduceRecordEnvelopes hnormalized) hresolve
  have hplain := nul_not_mem_selfOwnedMemberId declaration.rootPublicKey
  rcases List.mem_append.mp hmem with hmem | hrootSigned
  · cases List.mem_append.mp hmem with
    | inl hlegacy =>
        obtain ⟨event, hevent, ⟨haction, hcommunity, hmember, hkey⟩, hundeclared⟩ :=
          hparts.fromLegacy _ hlegacy
        rw [MemberSigningKeyAuthorization.indexKey, ← hcommunity, hevent.1, ← hmember, ← hkey] at hindex
        cases keyFor_cases hplain hindex with
        | inl hsame => exact absurd hsame.1.symm (hundeclared declaration hdeclaration)
        | inr hbeyond =>
            refine .inr ⟨event, hevent, ?_, hbeyond⟩
            rw [haction]
            simp
    | inr hdeclared =>
        obtain ⟨other, hother, rfl⟩ := (hparts.fromDeclared _).mp hdeclared
        have hslot : keyFor communityId other.memberId (rootKeyIdForMember other.memberId) =
            keyFor communityId declaration.memberId keyId := by
          rw [← hindex, ← hother.1]
          rfl
        obtain ⟨hmember, hkey⟩ := (keyFor_inj (nul_not_mem_selfOwnedMemberId _) hplain).mp hslot
        obtain rfl := eq_of_authorizationsOf h hcompatible hother hdeclaration hmember
        exact .inl (.root hkey.symm rfl)
  · obtain ⟨statement, hstatement, ⟨haction, hcommunity, hmember, hkey⟩, other, hother, hroot⟩ :=
      hparts.fromRootSigned _ hrootSigned
    have howned : '\x00' ∉ statement.event.memberId.toList := by
      rw [statement.owned]
      exact nul_not_mem_selfOwnedMemberId _
    have hslot : keyFor communityId statement.event.memberId statement.event.keyId =
        keyFor communityId declaration.memberId keyId := by
      rw [← hindex, MemberSigningKeyAuthorization.indexKey, ← hcommunity, hstatement.1, hmember, hkey]
    obtain ⟨hsameMember, hsameKey⟩ := (keyFor_inj howned hplain).mp hslot
    refine .inl (.device statement hstatement
      (signer_eq h hcompatible hdeclaration hother hroot hsameMember) haction hsameKey ?_)
    intro revocation hrevocation hrevokes hrevokedMember hrevokedKey
    refine hparts.retired _ hrootSigned hactive revocation hrevocation hrevokes ?_
    rw [hindex, MemberSigningKeyAuthorizationEvent.indexKey, hrevocation.1, hrevokedMember, hrevokedKey]

/-- Every signature in the name of a declared member that a coherent history checks is made by one of the
member's own keys, unless an unsigned record took the slot. -/
theorem Coherent.rootedKey (hrecords : Consistent records)
    {authorizations : List (MemberSigningKeyAuthorization crypto)}
    (hcoherent : Coherent records communityId authorizations)
    (h : authorizationsOf crypto localeCompare communityId records = .ok authorizations)
    {declaration : MemberFeedDeclaration crypto}
    (hdeclaration : HoldsDeclaration records communityId declaration)
    {input : VerifyMemberSignatureInput} (hchecks : ChecksSignature records communityId input)
    (hmember : input.memberId = declaration.memberId) :
    (∃ publicKey, RootedKey records communityId declaration input.keyId publicKey ∧
      SignedBy publicKey input.payload input.signature) ∨
      AliasedBy crypto records communityId declaration.memberId input.keyId := by
  obtain ⟨publicKey, hfound, hsigned⟩ := hcoherent.verifies hrecords hchecks
  obtain ⟨authorization, hmem, hactive, hindex, rfl⟩ := mem_of_activeKey? hfound
  rw [hchecks.communityId_eq, hmember] at hindex
  cases rootedKey_of_slot h hcoherent.compatible hdeclaration hmem hactive hindex with
  | inl hown => exact .inl ⟨_, hown, hsigned⟩
  | inr haliased => exact .inr haliased

end PeerHours.TimebankRecords
