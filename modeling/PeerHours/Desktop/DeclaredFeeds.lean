import PeerHours.Desktop.StoredIdentity
import PeerHours.Records.Authorizations
import PeerHours.Records.Encoding
import PeerHours.Records.Standing

/-!
# Histories of declared feeds

When every identity record of a history is a feed declaration and each member declares one feed, the
history authorizes exactly the root keys of its declarations, and a root signature of a declared member
is authentic.
-/

namespace PeerHours.Desktop

open Checked Json KeyedMap Sorting
open TimebankIdentity
open TimebankRecords

variable {crypto : Crypto}

/-! ## Declarations -/

/-- The declaration has the terms that a stored identity declares a feed with. -/
structure DeclaredBy (stored : StoredMemberIdentity crypto)
    (communityId feedPublicKey occurredAt : String) (declaration : MemberFeedDeclaration crypto) :
    Prop where
  community : declaration.communityId = communityId
  feed : declaration.feedPublicKey = .str feedPublicKey
  feedText : declaration.feedPublicKeyText = feedPublicKey
  time : declaration.occurredAt = occurredAt
  root : declaration.rootPublicKey = stored.rootPublicKey

variable {stored : StoredMemberIdentity crypto} {communityId feedPublicKey occurredAt : String}

/-- The declaration of a feed with the given properties. -/
def declarationWith (stored : StoredMemberIdentity crypto)
    (hcommunity : Text.blank communityId = false) (hkey : isHypercoreKey feedPublicKey = true)
    (htime : Timestamp.isCanonical occurredAt = true) (properties : List (String × JsonValue)) :
    MemberFeedDeclaration crypto :=
  { communityId := communityId
    feedPublicKey := .str feedPublicKey
    feedPublicKeyText := feedPublicKey
    occurredAt := occurredAt
    rootPublicKey := stored.rootPublicKey
    signature := stored.sign (canonicalMemberFeedDeclarationPayload stored.rootPublicKey
      communityId (.str feedPublicKey) occurredAt)
    properties := properties
    present := hcommunity
    hypercoreKey := ⟨rfl, hkey⟩
    timestamp := htime
    signed := stored.complete _ }

/-- A desktop can always declare its feed, and the record of its declaration carries a declaration of
the same terms. -/
theorem declare_spec (stored : StoredMemberIdentity crypto)
    (hcommunity : Text.blank communityId = false) (hkey : isHypercoreKey feedPublicKey = true)
    (htime : Timestamp.isCanonical occurredAt = true) :
    ∃ declaration record carried,
      createDeclaration stored communityId feedPublicKey occurredAt = .ok declaration ∧
      memberFeedDeclarationToRecord declaration = .ok record ∧
      DescribesDeclaration record.payload carried ∧ RoutesDeclaration record carried ∧
      DeclaredBy stored communityId feedPublicKey occurredAt carried := by
  let fields := (declarationInput stored communityId feedPublicKey occurredAt).properties
  have hcreate : createDeclaration stored communityId feedPublicKey occurredAt =
      .ok (declarationWith stored hcommunity hkey htime fields) :=
    createMemberFeedDeclaration_eq_ok.mpr ⟨rfl, rfl, rfl, rfl, rfl, rfl, rfl, rfl⟩
  obtain ⟨payload, hpayload, hproperties, -⟩ := @normalize_properties fields
    (by simp [fields, declarationInput, JsonValue.properties, normalFields_cons_str,
      normalFields_nil])
    (by simp [fields, declarationInput, JsonValue.properties])
  simp only [fields, HasProperties, declarationInput, JsonValue.properties,
    List.forall_mem_cons] at hproperties
  obtain ⟨hschema, hmember, hcommunityField, hfeed, htimeField, hroot, hsignature, -⟩ := hproperties
  let carried := declarationWith stored hcommunity hkey htime payload.properties
  have hid : Text.blank (memberFeedRecordId stored.memberId communityId feedPublicKey) = false := by
    rw [memberFeedRecordId, Text.blank_append]
    rfl
  let record : RecordEnvelope :=
    { id := memberFeedRecordId stored.memberId communityId feedPublicKey
      schema := identityRecordSchema
      version := identityRecordVersion
      kind := memberFeedDeclarationRecordKind
      communityId := communityId
      occurredAt := occurredAt
      authorId := stored.memberId
      payload := payload
      present := by
        simp only [List.forall_mem_cons]
        exact ⟨hid, by decide, by decide, hcommunity, blank_selfOwnedMemberId _, by simp⟩
      positive := by decide
      timestamp := htime
      normal := normalizeJson_idem hpayload }
  refine ⟨_, record, carried, hcreate, ?_, ?_, ?_, ⟨rfl, rfl, rfl, rfl, rfl⟩⟩
  · rw [memberFeedDeclarationToRecord, createMemberFeedDeclaration_toJson hcreate, ok_bind]
    exact createRecordEnvelope_eq_ok.mpr ⟨rfl, rfl, rfl, rfl, rfl, rfl, rfl, _, rfl, hpayload⟩
  · exact ⟨hschema, hmember, hcommunityField, hfeed, htimeField, hroot, hsignature, rfl⟩
  · exact ⟨rfl, rfl, rfl, rfl, rfl, rfl, rfl⟩

/-! ## Authorized roots -/

section Roots

variable {records : List JsonValue} {localeCompare : String → String → Ordering}

/-- The records of the community: those of one declared feed a member, and no key lifecycle. -/
structure DeclaredFeeds (crypto : Crypto) (records : List JsonValue) (communityId : String) :
    Prop where
  consistent : Consistent records
  noLifecycle : ∀ record, Contains records record → record.communityId = communityId →
    isIdentityRecord record.kind = false ∧
      isRootSignedMemberSigningKeyLifecycleRecord record.kind = false
  declarations : ∀ record, Contains records record → record.communityId = communityId →
    record.kind = memberFeedDeclarationRecordKind →
    ∃ declaration : MemberFeedDeclaration crypto,
      DescribesDeclaration record.payload declaration ∧ RoutesDeclaration record declaration
  oneFeed : ∀ left right : MemberFeedDeclaration crypto,
    HoldsDeclaration records communityId left → HoldsDeclaration records communityId right →
    left.memberId = right.memberId → left = right

/-- The authorizations are the root keys of the declarations held. -/
structure AuthorizesRoots (records : List JsonValue) (communityId : String)
    (authorizations : List (MemberSigningKeyAuthorization crypto)) : Prop where
  mem : ∀ authorization, authorization ∈ authorizations ↔
    ∃ declaration, HoldsDeclaration records communityId declaration ∧
      declaredAuthorization declaration = authorization
  compatible : authorizations.Pairwise Compatible

theorem memberId_of_fingerprint {left right : MemberFeedDeclaration crypto}
    (h : (declaredAuthorization left).fingerprint = (declaredAuthorization right).fingerprint) :
    left.memberId = right.memberId := by
  have hkey := Base64Url.encode_inj.mp h
  change crypto.exportSpkiDer left.rootPublicKey.key =
    crypto.exportSpkiDer right.rootPublicKey.key at hkey
  rw [MemberFeedDeclaration.memberId, MemberFeedDeclaration.memberId, selfOwnedMemberId,
    selfOwnedMemberId, hkey]

/-- Declarations of different members are compatible. -/
theorem compatible_declared {left right : MemberFeedDeclaration crypto}
    (hcommunity : left.communityId = right.communityId) (hne : left.memberId ≠ right.memberId) :
    Compatible (declaredAuthorization left) (declaredAuthorization right) := by
  constructor
  · intro hid
    simp [MemberSigningKeyAuthorization.authorizationId, declaredAuthorization, hcommunity,
      rootKeyIdForMember, hne] at hid
  · intro hfingerprint
    exact absurd (memberId_of_fingerprint hfingerprint) hne

/-- The declared keys of different members are pairwise compatible. -/
theorem pairwise_declared {communityRecords : List RecordEnvelope}
    (hreduced : Reduced records communityId communityRecords)
    (hone : ∀ left right : MemberFeedDeclaration crypto,
      HoldsDeclaration records communityId left → HoldsDeclaration records communityId right →
      left.memberId = right.memberId → left = right)
    {declared : List (MemberSigningKeyAuthorization crypto)}
    (h : memberFeedDeclarationsToAuthorizations crypto localeCompare
      (recordsOfKind memberFeedDeclarationRecordKind communityRecords) = .ok declared) :
    declared.Pairwise Compatible := by
  obtain ⟨byKey, hbyKey, h⟩ := bind_eq_ok.mp h
  obtain rfl := pure_eq_ok.mp h
  have hheld : ∀ declaration ∈ byKey, HoldsDeclaration records communityId declaration :=
    fun declaration hdeclaration ↦ (holdsDeclaration_iff hreduced).mpr
      ((mem_collect determines_declarations hbyKey declaration).mp hdeclaration)
  have hnodup : byKey.Nodup := (nodup_collect determines_declarations hbyKey).of_map
  rw [List.pairwise_map]
  refine (nodup_sortBy.mpr hnodup).pairwise_of_forall_ne fun left hleft right hright hne ↦ ?_
  have hleft := hheld left (mem_sortBy.mp hleft)
  have hright := hheld right (mem_sortBy.mp hright)
  exact compatible_declared (hleft.1.trans hright.1.symm) fun hsame ↦
    hne (hone left right hleft hright hsame)

/-- A history of declared feeds authorizes the declared root keys. -/
theorem DeclaredFeeds.authorizes (h : DeclaredFeeds crypto records communityId) :
    ∃ authorizations, authorizationsOf crypto localeCompare communityId records =
        .ok authorizations ∧ AuthorizesRoots records communityId authorizations := by
  obtain ⟨normalized, hnormalized⟩ :=
    (reduceRecordEnvelopes_spec localeCompare records).1.mpr h.consistent
  have hreduced : Reduced records communityId _ := reduced_of_reduceRecordEnvelopes hnormalized
  generalize hcommunity : (normalized.filter fun record ↦
    decide (record.communityId = communityId)) = communityRecords at hreduced
  have hdecodes : ∀ record ∈ recordsOfKind memberFeedDeclarationRecordKind communityRecords,
      Succeeds (memberFeedDeclarationFromRecord crypto record.toJson) := by
    intro record hrecord
    obtain ⟨hmem, hkind⟩ := mem_recordsOfKind.mp hrecord
    obtain ⟨hcontains, hsame⟩ := (hreduced.mem record).mp hmem
    obtain ⟨declaration, hdeclaration⟩ := h.declarations record hcontains hsame hkind
    exact ⟨declaration,
      (memberFeedDeclarationFromRecord_eq_ok (createRecordEnvelope_toJson record)).mpr hdeclaration⟩
  have hnone : ∀ {keep : String → Bool}, (∀ record, Contains records record →
      record.communityId = communityId → keep record.kind = false) →
      communityRecords.filter (fun record ↦ keep record.kind) = [] := by
    intro keep hkeep
    refine List.filter_eq_nil_iff.mpr fun record hrecord ↦ ?_
    obtain ⟨hcontains, hsame⟩ := (hreduced.mem record).mp hrecord
    simp [hkeep record hcontains hsame]
  have hlegacy := @hnone isIdentityRecord fun record hcontains hsame ↦
    (h.noLifecycle record hcontains hsame).1
  have hrootSigned := @hnone isRootSignedMemberSigningKeyLifecycleRecord fun record hcontains hsame ↦
    (h.noLifecycle record hcontains hsame).2
  obtain ⟨declared, hdeclared⟩ := @succeeds_declaredAuthorizations _ _ _ localeCompare _ h.consistent
    hreduced hdecodes
  obtain ⟨declarations, hdeclarations⟩ := succeeds_mapM.mpr hdecodes
  refine ⟨declared, ?_, mem_declaredAuthorizations hreduced hdeclared,
    pairwise_declared hreduced h.oneFeed hdeclared⟩
  have hreduceRoot : reduceProvenRootSignedMemberSigningKeyLifecycleRecords crypto localeCompare []
      (recordsOfKind memberFeedDeclarationRecordKind communityRecords) = .ok [] := by
    rw [reduceProvenRootSignedMemberSigningKeyLifecycleRecords, filter_recordsOfKind, hdeclarations]
    rfl
  rw [authorizationsOf, hnormalized, ok_bind, hcommunity, resolveAuthorizations]
  have hreduceLegacy : reduceMemberSigningKeyAuthorizationRecords crypto localeCompare [] =
      .ok [] := rfl
  simp [hlegacy, hrootSigned, hdeclared, hreduceRoot, hreduceLegacy, require]

variable {authorizations : List (MemberSigningKeyAuthorization crypto)}

/-- A declared member's root key is found under its root key id. -/
theorem AuthorizesRoots.activeKey (h : AuthorizesRoots records communityId authorizations)
    {declaration : MemberFeedDeclaration crypto}
    (hdeclaration : HoldsDeclaration records communityId declaration) :
    activeKey? authorizations (keyFor communityId declaration.memberId
      (rootKeyIdForMember declaration.memberId)) = some declaration.rootPublicKey := by
  have hkey : (declaredAuthorization declaration).indexKey = keyFor communityId declaration.memberId
      (rootKeyIdForMember declaration.memberId) := by rw [← hdeclaration.1]; rfl
  rw [← hkey]
  refine activeKey?_of_compatible h.compatible ((h.mem _).mpr ⟨declaration, hdeclaration, rfl⟩) rfl ?_
  intro other hother hindex
  obtain ⟨otherDeclaration, hotherDeclaration, rfl⟩ := (h.mem other).mp hother
  have hcommunity : otherDeclaration.communityId = declaration.communityId :=
    hotherDeclaration.1.trans hdeclaration.1.symm
  change keyFor otherDeclaration.communityId otherDeclaration.memberId _ =
    keyFor declaration.communityId declaration.memberId _ at hindex
  rw [hcommunity] at hindex
  have hmember : otherDeclaration.memberId = declaration.memberId :=
    ((keyFor_inj (nul_not_mem_selfOwnedMemberId _) (nul_not_mem_selfOwnedMemberId _)).mp hindex).1
  change otherDeclaration.communityId ++ ("\x00" ++ rootKeyIdForMember otherDeclaration.memberId) =
    declaration.communityId ++ ("\x00" ++ rootKeyIdForMember declaration.memberId)
  rw [hcommunity, hmember]

end Roots

/-! ## Root signatures -/

section Signatures

variable {authorizations : List (MemberSigningKeyAuthorization crypto)}

/-- The authorizations hold the root key of the identity under its root key id. -/
def RootAuthorized (stored : StoredMemberIdentity crypto) (communityId : String)
    (authorizations : List (MemberSigningKeyAuthorization crypto)) : Prop :=
  activeKey? authorizations (keyFor communityId stored.memberId
    (rootKeyIdForMember stored.memberId)) = some stored.rootPublicKey

/-- What an authorized root key signs is verified. -/
theorem RootAuthorized.verifies (h : RootAuthorized stored communityId authorizations)
    (payload : Buffer) :
    VerifiesUnder authorizations
      { communityId := communityId
        memberId := stored.memberId
        keyId := rootKeyIdForMember stored.memberId
        payload := payload
        signature := stored.sign payload } :=
  ⟨stored.rootPublicKey, h, stored.complete payload⟩

/-- A record that its author's authorized root key signed is authentic. -/
theorem RootSigned.authentic {record : RecordEnvelope} {source : JsonValue}
    (h : RootSigned stored record source) (hauthor : record.authorId = stored.memberId)
    (hcommunity : record.communityId = communityId)
    (hroot : RootAuthorized stored communityId authorizations) :
    ∃ signed, Authentic authorizations source signed ∧ signed.toRecordEnvelope = record := by
  obtain ⟨signed, hcreate, rfl, hkey, hsignature⟩ := h
  refine ⟨signed, ⟨hcreate, ?_⟩, rfl⟩
  rw [recordSignatureInput, hcommunity, hauthor, hkey, hsignature]
  exact hroot.verifies _

end Signatures

end PeerHours.Desktop
