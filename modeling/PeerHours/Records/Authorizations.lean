import PeerHours.Records.FeedResolution
import PeerHours.Records.Resolution

/-!
# Where authorizations come from

The authorizations of a history are those of its unsigned lifecycle records, then the root keys of its
feed declarations, then the keys its root-signed lifecycle records leave.
-/

namespace PeerHours.TimebankRecords

open Checked Json KeyedMap Sorting
open TimebankIdentity

variable {crypto : Crypto} {records : List JsonValue} {communityId : String}
  {localeCompare : String → String → Ordering}

/-- The history holds an unsigned lifecycle event. -/
def HoldsEvent (records : List JsonValue) (communityId : String)
    (event : MemberSigningKeyAuthorizationEvent crypto) : Prop :=
  event.communityId = communityId ∧ ∃ record, Contains records record ∧
    DescribesEvent record.payload event ∧ RoutesEvent (identityRecordKindFor event) record event

/-- The history holds a feed declaration. -/
def HoldsDeclaration (records : List JsonValue) (communityId : String)
    (declaration : MemberFeedDeclaration crypto) : Prop :=
  declaration.communityId = communityId ∧ ∃ record, Contains records record ∧
    DescribesDeclaration record.payload declaration ∧ RoutesDeclaration record declaration

/-- The history holds a root-signed lifecycle statement. -/
def HoldsStatement (records : List JsonValue) (communityId : String)
    (statement : RootSignedMemberSigningKeyLifecycle crypto) : Prop :=
  statement.event.communityId = communityId ∧ ∃ record, Contains records record ∧
    DescribesStatement record.payload statement ∧
    RoutesEvent (rootSignedRecordKindFor statement.event) record statement.event

/-- The unsigned lifecycle records among the community's envelopes. -/
def legacyIdentityRecords (communityRecords : List RecordEnvelope) : List RecordEnvelope :=
  communityRecords.filter fun record ↦ isIdentityRecord record.kind

/-- The three sources of a history's authorizations, in order. -/
structure AuthorizationParts (localeCompare : String → String → Ordering) (records : List JsonValue)
    (communityId : String)
    (legacy declared rootSigned : List (MemberSigningKeyAuthorization crypto)) : Prop where
  fromLegacy : ∀ authorization ∈ legacy, ∃ event : MemberSigningKeyAuthorizationEvent crypto,
    HoldsEvent records communityId event ∧ Activates event authorization ∧
      ∀ declaration : MemberFeedDeclaration crypto, HoldsDeclaration records communityId declaration →
        declaration.memberId ≠ event.memberId
  fromDeclared : ∀ authorization, authorization ∈ declared ↔
    ∃ declaration, HoldsDeclaration records communityId declaration ∧
      declaredAuthorization declaration = authorization
  fromRootSigned : ∀ authorization ∈ rootSigned,
    ∃ statement : RootSignedMemberSigningKeyLifecycle crypto,
      HoldsStatement records communityId statement ∧ Activates statement.event authorization ∧
      ∃ declaration : MemberFeedDeclaration crypto, HoldsDeclaration records communityId declaration ∧
        declaration.rootPublicKey.publicKeyPem = statement.rootPublicKey.publicKeyPem
  retired : ∀ authorization ∈ rootSigned, authorization.active = true →
    ∀ statement : RootSignedMemberSigningKeyLifecycle crypto,
      HoldsStatement records communityId statement → statement.event.action = .revoke →
      statement.event.indexKey ≠ authorization.indexKey
  current : ∀ statement : RootSignedMemberSigningKeyLifecycle crypto,
    HoldsStatement records communityId statement → statement.event.action ≠ .revoke →
    (∀ other : RootSignedMemberSigningKeyLifecycle crypto, HoldsStatement records communityId other →
      other.event.action = .revoke → other.event.indexKey ≠ statement.event.indexKey) →
    ∃ authorization ∈ rootSigned, authorization.active = true ∧
      authorization.indexKey = statement.event.indexKey

variable {communityRecords : List RecordEnvelope}

theorem isIdentityRecord_identityRecordKindFor
    (event : MemberSigningKeyAuthorizationEvent crypto) :
    isIdentityRecord (identityRecordKindFor event) = true := by
  unfold identityRecordKindFor recordKindFor
  cases event.action <;> simp [isIdentityRecord]

/-- A root-signed lifecycle record is an activation or a revocation. -/
theorem rootSignedRecordKindFor_cases (event : MemberSigningKeyAuthorizationEvent crypto) :
    rootSignedRecordKindFor event = rootSignedKeyActivationRecordKind ∨
      rootSignedRecordKindFor event = rootSignedKeyRevocationRecordKind := by
  unfold rootSignedRecordKindFor recordKindFor
  cases event.action with
  | activate publicKey => exact .inl rfl
  | revoke => exact .inr rfl

theorem isRootSigned_rootSignedRecordKindFor (event : MemberSigningKeyAuthorizationEvent crypto) :
    isRootSignedMemberSigningKeyLifecycleRecord (rootSignedRecordKindFor event) = true := by
  unfold rootSignedRecordKindFor recordKindFor
  cases event.action <;> simp [isRootSignedMemberSigningKeyLifecycleRecord]

/-- The community's envelopes hold an event exactly when one of the unsigned lifecycle records decodes
to it. -/
theorem holdsEvent_iff (hreduced : Reduced records communityId communityRecords)
    {event : MemberSigningKeyAuthorizationEvent crypto} :
    HoldsEvent records communityId event ↔
      ∃ record ∈ legacyIdentityRecords communityRecords,
        memberSigningKeyAuthorizationEventFromRecord crypto record.toJson = .ok event := by
  simp only [legacyIdentityRecords, List.mem_filter, hreduced.mem,
    memberSigningKeyAuthorizationEventFromRecord_eq_ok (createRecordEnvelope_toJson _)]
  constructor
  · rintro ⟨hcommunity, record, hcontains, hdescribes, hroutes⟩
    refine ⟨record, ⟨⟨hcontains, hroutes.communityId.trans hcommunity⟩, ?_⟩, hdescribes, hroutes⟩
    rw [hroutes.kind]
    exact isIdentityRecord_identityRecordKindFor event
  · rintro ⟨record, ⟨⟨hcontains, hcommunity⟩, -⟩, hdescribes, hroutes⟩
    exact ⟨hroutes.communityId.symm.trans hcommunity, record, hcontains, hdescribes, hroutes⟩

theorem holdsDeclaration_iff (hreduced : Reduced records communityId communityRecords)
    {declaration : MemberFeedDeclaration crypto} :
    HoldsDeclaration records communityId declaration ↔
      ∃ record ∈ recordsOfKind memberFeedDeclarationRecordKind communityRecords,
        memberFeedDeclarationFromRecord crypto record.toJson = .ok declaration := by
  simp only [mem_recordsOfKind, hreduced.mem,
    memberFeedDeclarationFromRecord_eq_ok (createRecordEnvelope_toJson _)]
  constructor
  · rintro ⟨hcommunity, record, hcontains, hdescribes, hroutes⟩
    exact ⟨record, ⟨⟨hcontains, hroutes.communityId.trans hcommunity⟩, hroutes.kind⟩, hdescribes,
      hroutes⟩
  · rintro ⟨record, ⟨⟨hcontains, hcommunity⟩, -⟩, hdescribes, hroutes⟩
    exact ⟨hroutes.communityId.symm.trans hcommunity, record, hcontains, hdescribes, hroutes⟩

theorem holdsStatement_iff (hreduced : Reduced records communityId communityRecords)
    {statement : RootSignedMemberSigningKeyLifecycle crypto} :
    HoldsStatement records communityId statement ↔
      ∃ record ∈ communityRecords.filter fun record ↦
        isRootSignedMemberSigningKeyLifecycleRecord record.kind,
        rootSignedMemberSigningKeyLifecycleFromRecord crypto record.toJson = .ok statement := by
  simp only [List.mem_filter, hreduced.mem,
    rootSignedMemberSigningKeyLifecycleFromRecord_eq_ok (createRecordEnvelope_toJson _)]
  constructor
  · rintro ⟨hcommunity, record, hcontains, hdescribes, hroutes⟩
    refine ⟨record, ⟨⟨hcontains, hroutes.communityId.trans hcommunity⟩, ?_⟩, hdescribes, hroutes⟩
    rw [hroutes.kind]
    exact isRootSigned_rootSignedRecordKindFor statement.event
  · rintro ⟨record, ⟨⟨hcontains, hcommunity⟩, -⟩, hdescribes, hroutes⟩
    exact ⟨hroutes.communityId.symm.trans hcommunity, record, hcontains, hdescribes, hroutes⟩

/-! ## Declared root keys -/

/-- The text of a self-owned member id contains only `phm_` and base64url characters. -/
theorem mem_selfOwnedMemberId {rootPublicKey : Ed25519PublicKey crypto} {c : Char}
    (h : c ∈ (selfOwnedMemberId rootPublicKey).toList) :
    c ∈ "phm_".toList ∨ (Base64Url.digitValue? c).isSome = true := by
  rw [selfOwnedMemberId, String.toList_append, List.mem_append] at h
  exact h.imp_right Base64Url.digitValue?_isSome_of_mem

/-- A self-owned member id contains no NUL. -/
theorem nul_not_mem_selfOwnedMemberId (rootPublicKey : Ed25519PublicKey crypto) :
    '\x00' ∉ (selfOwnedMemberId rootPublicKey).toList := by
  intro h
  rcases mem_selfOwnedMemberId h with h | h
  · exact absurd h (by decide)
  · exact absurd h (by decide)

/-- A self-owned member id contains no colon. -/
theorem colon_not_mem_selfOwnedMemberId (rootPublicKey : Ed25519PublicKey crypto) :
    ':' ∉ (selfOwnedMemberId rootPublicKey).toList := by
  intro h
  cases mem_selfOwnedMemberId h with
  | inl h => exact absurd h (by decide)
  | inr h => exact absurd h (by decide)

/-- The record id of a feed declaration names the member. -/
theorem memberFeedRecordId_inj {left right : Ed25519PublicKey crypto}
    {leftCommunity rightCommunity leftFeed rightFeed : String}
    (h : memberFeedRecordId (selfOwnedMemberId left) leftCommunity leftFeed =
      memberFeedRecordId (selfOwnedMemberId right) rightCommunity rightFeed) :
    selfOwnedMemberId left = selfOwnedMemberId right ∧
      leftCommunity ++ (":" ++ leftFeed) = rightCommunity ++ (":" ++ rightFeed) := by
  have hcolon : selfOwnedMemberId left ++ (String.singleton ':' ++ _) =
      selfOwnedMemberId right ++ (String.singleton ':' ++ _) := (String.append_right_inj _).mp h
  exact (Text.join_inj (colon_not_mem_selfOwnedMemberId left)
    (colon_not_mem_selfOwnedMemberId right)).mp hcolon

/-- Index keys of one community with a NUL-free member id agree only when all parts do. -/
theorem keyFor_inj {communityId memberId keyId memberId' keyId' : String}
    (hmember : '\x00' ∉ memberId.toList) (hmember' : '\x00' ∉ memberId'.toList) :
    keyFor communityId memberId keyId = keyFor communityId memberId' keyId' ↔
      memberId = memberId' ∧ keyId = keyId' := by
  have hnul : "\x00" = String.singleton '\x00' := rfl
  rw [keyFor, keyFor, String.append_right_inj, String.append_right_inj, hnul]
  exact Text.join_inj hmember hmember'

theorem determines_declarations :
    Determines declarationKey
      (fun declaration : MemberFeedDeclaration crypto ↦ stringify declaration.toJson)
      (fun record : RecordEnvelope ↦ memberFeedDeclarationFromRecord crypto record.toJson) := by
  intro left right leftDeclaration rightDeclaration hleft hright _ hcontent
  have hagain : ∀ {record : RecordEnvelope} {declaration : MemberFeedDeclaration crypto},
      memberFeedDeclarationFromRecord crypto record.toJson = .ok declaration →
      createMemberFeedDeclaration crypto declaration.toJson = .ok declaration := fun h ↦
    createMemberFeedDeclaration_toJson (createMemberFeedDeclaration_eq_ok.mpr
      ((memberFeedDeclarationFromRecord_eq_ok (createRecordEnvelope_toJson _)).mp h).1)
  have hsame := hagain hleft
  rw [stringify_inj.mp hcontent, hagain hright] at hsame
  exact Except.ok.inj hsame.symm

/-- The declared authorizations are the root keys of the declarations held. -/
theorem mem_declaredAuthorizations (hreduced : Reduced records communityId communityRecords)
    {declared : List (MemberSigningKeyAuthorization crypto)}
    (h : memberFeedDeclarationsToAuthorizations crypto localeCompare
      (recordsOfKind memberFeedDeclarationRecordKind communityRecords) = .ok declared)
    (authorization : MemberSigningKeyAuthorization crypto) :
    authorization ∈ declared ↔ ∃ declaration, HoldsDeclaration records communityId declaration ∧
      declaredAuthorization declaration = authorization := by
  obtain ⟨byKey, hbyKey, h⟩ := bind_eq_ok.mp h
  obtain rfl := pure_eq_ok.mp h
  simp only [List.mem_map, mem_sortBy, mem_collect determines_declarations hbyKey,
    holdsDeclaration_iff hreduced]

/-- Declarations that decode never conflict: their envelope id names them. -/
theorem succeeds_declaredAuthorizations (hrecords : Consistent records)
    (hreduced : Reduced records communityId communityRecords)
    (hdecodes : ∀ record ∈ recordsOfKind memberFeedDeclarationRecordKind communityRecords,
      Succeeds (memberFeedDeclarationFromRecord crypto record.toJson)) :
    Succeeds (memberFeedDeclarationsToAuthorizations crypto localeCompare
      (recordsOfKind memberFeedDeclarationRecordKind communityRecords)) := by
  have hcollect := @succeeds_collect _ _ _ _ _ declarationKey _
    (fun declaration : MemberFeedDeclaration crypto ↦ stringify declaration.toJson)
    "Conflicting member-feed declarations share one identity and feed key."
    (fun record : RecordEnvelope ↦ memberFeedDeclarationFromRecord crypto record.toJson)
    determines_declarations (recordsOfKind memberFeedDeclarationRecordKind communityRecords)
  obtain ⟨byKey, hbyKey⟩ := hcollect.mpr ⟨hdecodes, by
    intro record hrecord declaration hdeclaration other hother otherDeclaration hotherDeclaration hkey
    have hroutes := (memberFeedDeclarationFromRecord_eq_ok
      (createRecordEnvelope_toJson record)).mp hdeclaration
    have hotherRoutes := (memberFeedDeclarationFromRecord_eq_ok
      (createRecordEnvelope_toJson other)).mp hotherDeclaration
    have hmem := (hreduced.mem record).mp (mem_recordsOfKind.mp hrecord).1
    have hotherMem := (hreduced.mem other).mp (mem_recordsOfKind.mp hother).1
    have hcommunity : otherDeclaration.communityId = declaration.communityId := by
      rw [← hotherRoutes.2.communityId, ← hroutes.2.communityId, hotherMem.2, hmem.2]
    rw [declarationKey, declarationKey, hcommunity] at hkey
    obtain ⟨hmember, hfeed⟩ := (keyFor_inj (nul_not_mem_selfOwnedMemberId _)
      (nul_not_mem_selfOwnedMemberId _)).mp hkey
    have hsame : other = record := hrecords.unique _ _ hotherMem.1 hmem.1 (by
      rw [hotherRoutes.2.id, hroutes.2.id, hcommunity, hfeed]
      rw [show otherDeclaration.memberId = declaration.memberId from hmember])
    subst hsame
    exact Except.ok.inj (hotherDeclaration.symm.trans hdeclaration)⟩
  exact ⟨_, bind_eq_ok.mpr ⟨byKey, hbyKey, rfl⟩⟩

/-! ## Parts -/

theorem filter_recordsOfKind (kind : String) :
    ((recordsOfKind kind communityRecords).filter fun record ↦ decide (record.kind = kind)) =
      recordsOfKind kind communityRecords := by
  rw [recordsOfKind, List.filter_filter]
  simp

/-- Assembly checks the authors of the legacy records and joins three reductions. -/
theorem resolveAuthorizations_eq_ok {authorizations : List (MemberSigningKeyAuthorization crypto)} :
    resolveAuthorizations crypto localeCompare communityRecords = .ok authorizations ↔
      (∀ record ∈ legacyIdentityRecords communityRecords,
        ∀ declaration ∈ recordsOfKind memberFeedDeclarationRecordKind communityRecords,
          record.authorId ≠ declaration.authorId) ∧
      ∃ legacy declared rootSigned,
        reduceMemberSigningKeyAuthorizationRecords crypto localeCompare
          (legacyIdentityRecords communityRecords) = .ok legacy ∧
        memberFeedDeclarationsToAuthorizations crypto localeCompare
          (recordsOfKind memberFeedDeclarationRecordKind communityRecords) = .ok declared ∧
        reduceProvenRootSignedMemberSigningKeyLifecycleRecords crypto localeCompare
          (communityRecords.filter fun record ↦
            isRootSignedMemberSigningKeyLifecycleRecord record.kind)
          (recordsOfKind memberFeedDeclarationRecordKind communityRecords) = .ok rootSigned ∧
        legacy ++ declared ++ rootSigned = authorizations := by
  have hforeign : (∀ record ∈ legacyIdentityRecords communityRecords, record.authorId ∉
      (recordsOfKind memberFeedDeclarationRecordKind communityRecords).map (·.authorId)) ↔
      ∀ record ∈ legacyIdentityRecords communityRecords,
        ∀ declaration ∈ recordsOfKind memberFeedDeclarationRecordKind communityRecords,
          record.authorId ≠ declaration.authorId := by
    refine forall₂_congr fun record _ ↦ ?_
    rw [List.mem_map, not_exists]
    exact forall_congr' fun declaration ↦ ⟨fun h hmem hsame ↦ h ⟨hmem, hsame.symm⟩,
      fun h hboth ↦ h hboth.1 hboth.2.symm⟩
  rw [← hforeign]
  simp only [resolveAuthorizations, bind_eq_ok, require_eq_ok, pure_eq_ok, exists_const]
  refine and_congr_right fun _ ↦ ?_
  constructor
  · rintro ⟨legacy, hlegacy, declared, hdeclared, rootSigned, hrootSigned, hsame⟩
    exact ⟨legacy, declared, rootSigned, hlegacy, hdeclared, hrootSigned, hsame⟩
  · rintro ⟨legacy, declared, rootSigned, hlegacy, hdeclared, hrootSigned, hsame⟩
    exact ⟨legacy, hlegacy, declared, hdeclared, rootSigned, hrootSigned, hsame⟩

/-- The three reductions give the parts of the authorizations. -/
theorem parts_of_reductions (hreduced : Reduced records communityId communityRecords)
    (hforeign : ∀ record ∈ legacyIdentityRecords communityRecords,
      ∀ declaration ∈ recordsOfKind memberFeedDeclarationRecordKind communityRecords,
        record.authorId ≠ declaration.authorId)
    {legacy declared rootSigned : List (MemberSigningKeyAuthorization crypto)}
    (hlegacy : reduceMemberSigningKeyAuthorizationRecords crypto localeCompare
      (legacyIdentityRecords communityRecords) = .ok legacy)
    (hdeclared : memberFeedDeclarationsToAuthorizations crypto localeCompare
      (recordsOfKind memberFeedDeclarationRecordKind communityRecords) = .ok declared)
    (hrootSigned : reduceProvenRootSignedMemberSigningKeyLifecycleRecords crypto localeCompare
      (communityRecords.filter fun record ↦
        isRootSignedMemberSigningKeyLifecycleRecord record.kind)
      (recordsOfKind memberFeedDeclarationRecordKind communityRecords) = .ok rootSigned) :
    AuthorizationParts localeCompare records communityId legacy declared rootSigned := by
  obtain ⟨declarations, hdeclarations, hrootSigned⟩ := bind_eq_ok.mp hrootSigned
  obtain ⟨statements, hstatements, hrootSigned⟩ := bind_eq_ok.mp hrootSigned
  obtain ⟨_, hproven, hrootSigned⟩ := bind_eq_ok.mp hrootSigned
  rw [filter_recordsOfKind] at hdeclarations
  have hheld : ∀ statement, statement ∈ statements ↔
      HoldsStatement records communityId statement := fun statement ↦ by
    rw [holdsStatement_iff hreduced, mem_of_mapM hstatements]
  refine ⟨?_, mem_declaredAuthorizations hreduced hdeclared, ?_, ?_, ?_⟩
  · intro authorization hauthorization
    obtain ⟨events, hevents, hreduce⟩ := bind_eq_ok.mp hlegacy
    obtain ⟨event, hevent, hactivates⟩ := activates_of_reduce hreduce hauthorization
    obtain ⟨record, hrecord, hdecode⟩ := (mem_of_mapM hevents event).mp hevent
    refine ⟨event, (holdsEvent_iff hreduced).mpr ⟨record, hrecord, hdecode⟩, hactivates, ?_⟩
    intro declaration hdeclaration hsame
    obtain ⟨other, hother, hotherDecode⟩ := (holdsDeclaration_iff hreduced).mp hdeclaration
    refine hforeign record hrecord other hother ?_
    rw [((memberFeedDeclarationFromRecord_eq_ok (createRecordEnvelope_toJson _)).mp
      hotherDecode).2.authorId, hsame, ((memberSigningKeyAuthorizationEventFromRecord_eq_ok
      (createRecordEnvelope_toJson _)).mp hdecode).2.authorId]
  · intro authorization hauthorization
    obtain ⟨events, hevents, -, -, hreduce⟩ := retires_of_reduceRootSigned hrootSigned
    obtain ⟨event, hevent, hactivates⟩ := activates_of_reduce hreduce hauthorization
    obtain ⟨statement, hstatement, rfl⟩ := (hevents event).mp hevent
    refine ⟨statement, (hheld statement).mp hstatement, hactivates, ?_⟩
    have hdeclaredRoot := require_eq_ok.mp (checkAll_eq_ok.mp hproven statement hstatement)
    obtain ⟨declaration, hdeclaration, hroot⟩ := List.mem_map.mp hdeclaredRoot
    obtain ⟨record, hrecord, hdecode⟩ := (mem_of_mapM hdeclarations declaration).mp hdeclaration
    have hholds := (holdsDeclaration_iff hreduced).mpr ⟨record, hrecord, hdecode⟩
    refine ⟨declaration, hholds, ?_⟩
    change keyFor declaration.communityId declaration.memberId _ =
      keyFor statement.event.communityId statement.event.memberId _ at hroot
    rw [hholds.1, ((hheld statement).mp hstatement).1, statement.owned] at hroot
    exact ((keyFor_inj (nul_not_mem_selfOwnedMemberId _) (nul_not_mem_selfOwnedMemberId _)).mp
      hroot).2
  · intro authorization hauthorization hactive statement hstatement
    exact not_revoked_of_active hrootSigned hauthorization hactive statement
      ((hheld statement).mpr hstatement)
  · intro statement hstatement haction hnever
    exact active_of_not_revoked hrootSigned ((hheld statement).mpr hstatement) haction
      fun other hother ↦ hnever other ((hheld other).mp hother)

/-- The parts of assembled authorizations. -/
theorem parts_of_resolveAuthorizations (hreduced : Reduced records communityId communityRecords)
    {authorizations : List (MemberSigningKeyAuthorization crypto)}
    (h : resolveAuthorizations crypto localeCompare communityRecords = .ok authorizations) :
    ∃ legacy declared rootSigned, authorizations = legacy ++ declared ++ rootSigned ∧
      reduceMemberSigningKeyAuthorizationRecords crypto localeCompare
        (legacyIdentityRecords communityRecords) = .ok legacy ∧
      AuthorizationParts localeCompare records communityId legacy declared rootSigned := by
  obtain ⟨hforeign, legacy, declared, rootSigned, hlegacy, hdeclared, hrootSigned, rfl⟩ :=
    resolveAuthorizations_eq_ok.mp h
  exact ⟨legacy, declared, rootSigned, rfl, hlegacy,
    parts_of_reductions hreduced hforeign hlegacy hdeclared hrootSigned⟩

end PeerHours.TimebankRecords
