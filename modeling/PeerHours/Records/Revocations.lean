import PeerHours.Identity.LateRevocation
import PeerHours.Records.Signatures

/-!
# Device-key revocations in a resolved history

A root-signed revocation later than every record of a history changes the authorizations of its own key
and nothing else. Signatures are checked under the final authorizations, so the history resolves with
the revocation exactly when it needed no signature of the revoked key.
-/

namespace PeerHours.TimebankRecords

open Checked Json KeyedMap
open TimebankIdentity

variable {crypto : Crypto} {communityId : String} {localeCompare : String → String → Ordering}

variable (crypto) in
/-- A valid root-signed revocation of a device key: the source carries a revocation statement for the
community under a declared root, and it occurred later than every record. -/
structure LateRevocation (localeCompare : String → String → Ordering) (communityId : String)
    (records : List JsonValue) (source : JsonValue)
    (statement : RootSignedMemberSigningKeyLifecycle crypto) : Prop where
  read : rootSignedMemberSigningKeyLifecycleFromRecord crypto source = .ok statement
  action : statement.event.action = .revoke
  community : statement.event.communityId = communityId
  root : ∃ declaration : MemberFeedDeclaration crypto,
    HoldsDeclaration records communityId declaration ∧
      declaration.rootPublicKey.publicKeyPem = statement.rootPublicKey.publicKeyPem
  device : statement.event.keyId ≠ rootKeyIdForMember statement.event.memberId
  later : ∀ record, Contains records record →
    localeCompare record.occurredAt statement.event.occurredAt = .lt

variable {records : List JsonValue} {source : JsonValue}
  {statement : RootSignedMemberSigningKeyLifecycle crypto}

/-- The envelope of a revocation. -/
theorem LateRevocation.envelope
    (h : LateRevocation crypto localeCompare communityId records source statement) :
    ∃ record, createRecordEnvelope source = .ok record ∧
      DescribesStatement record.payload statement ∧
      RoutesEvent rootSignedKeyRevocationRecordKind record statement.event := by
  obtain ⟨record, hcreate, -⟩ := bind_eq_ok.mp h.read
  obtain ⟨hdescribes, hroutes⟩ :=
    (rootSignedMemberSigningKeyLifecycleFromRecord_eq_ok hcreate).mp h.read
  have hkind : rootSignedRecordKindFor statement.event = rootSignedKeyRevocationRecordKind := by
    rw [rootSignedRecordKindFor, recordKindFor, h.action]
  exact ⟨record, hcreate, hdescribes, hkind ▸ hroutes⟩

/-- The revocation's member declared its feed with the root key that signed the revocation. -/
theorem LateRevocation.declared
    (h : LateRevocation crypto localeCompare communityId records source statement) :
    ∃ declaration : MemberFeedDeclaration crypto,
      HoldsDeclaration records communityId declaration ∧
        declaration.rootPublicKey = statement.rootPublicKey ∧
        declaration.memberId = statement.event.memberId := by
  obtain ⟨declaration, hheld, hpem⟩ := h.root
  have hroot := Ed25519PublicKey.ext hpem
  refine ⟨declaration, hheld, hroot, ?_⟩
  rw [MemberFeedDeclaration.memberId, hroot, statement.owned]

section Authorizations

variable {communityRecords : List RecordEnvelope}
  {authorizations legacy declared rootSigned : List (MemberSigningKeyAuthorization crypto)}

/-- Leaving out the revoked key leaves out its root-signed authorization and no other. -/
theorem AuthorizationParts.withoutKey
    (hparts : AuthorizationParts localeCompare records communityId legacy declared rootSigned)
    (h : LateRevocation crypto localeCompare communityId records source statement) :
    withoutKey statement.event.memberId statement.event.keyId (legacy ++ declared ++ rootSigned) =
      legacy ++ declared ++ rootSigned.filter fun authorization ↦
        decide (authorization.indexKey ≠ statement.event.indexKey) := by
  obtain ⟨declaration, hdeclaration, -, hmember⟩ := h.declared
  rw [TimebankIdentity.withoutKey, List.filter_append, List.filter_append]
  congr 1
  · congr 1
    · rw [List.filter_eq_self]
      intro authorization hauthorization
      obtain ⟨event, -, ⟨-, -, hown, -⟩, hforeign⟩ := hparts.fromLegacy authorization hauthorization
      have hne : authorization.memberId ≠ statement.event.memberId := by
        rw [← hown, ← hmember]
        exact (hforeign declaration hdeclaration).symm
      simp [hne]
    · rw [List.filter_eq_self]
      intro authorization hauthorization
      obtain ⟨other, -, rfl⟩ := (hparts.fromDeclared authorization).mp hauthorization
      simp only [Bool.not_eq_true', Bool.and_eq_false_iff, decide_eq_false_iff_not]
      by_cases hsame : (declaredAuthorization other).memberId = statement.event.memberId
      · refine .inr fun hkey ↦ h.device ?_
        rw [← hkey, ← hsame]
        rfl
      · exact .inl hsame
  · refine List.filter_congr fun authorization hauthorization ↦ ?_
    obtain ⟨other, hother, ⟨-, hcommunity, hown, hkey⟩, -⟩ :=
      hparts.fromRootSigned authorization hauthorization
    have hindex : authorization.indexKey = statement.event.indexKey ↔
        authorization.memberId = statement.event.memberId ∧
          authorization.keyId = statement.event.keyId := by
      rw [MemberSigningKeyAuthorization.indexKey, MemberSigningKeyAuthorizationEvent.indexKey,
        ← hcommunity, hother.1, h.community]
      refine keyFor_inj ?_ ?_
      · rw [← hown, other.owned]
        exact nul_not_mem_selfOwnedMemberId _
      · rw [statement.owned]
        exact nul_not_mem_selfOwnedMemberId _
    rw [← Bool.decide_and, ← decide_not]
    exact decide_eq_decide.mpr (not_congr hindex).symm

variable [Std.TransCmp localeCompare]

/-- The proven root-signed lifecycle with the revocation behind all other records. -/
theorem LateRevocation.reduceProven (hreduced : Reduced records communityId communityRecords)
    (h : LateRevocation crypto localeCompare communityId records source statement)
    (hfresh : ∀ other, Contains records other → other.id ≠ statement.event.eventId)
    {record : RecordEnvelope} (hcreate : createRecordEnvelope source = .ok record)
    (hrootSigned : reduceProvenRootSignedMemberSigningKeyLifecycleRecords crypto localeCompare
      (communityRecords.filter fun record ↦
        isRootSignedMemberSigningKeyLifecycleRecord record.kind)
      (recordsOfKind memberFeedDeclarationRecordKind communityRecords) = .ok rootSigned) :
    ∃ retired, reduceProvenRootSignedMemberSigningKeyLifecycleRecords crypto localeCompare
        ((communityRecords.filter fun record ↦
          isRootSignedMemberSigningKeyLifecycleRecord record.kind) ++ [record])
        (recordsOfKind memberFeedDeclarationRecordKind communityRecords) = .ok retired ∧
      retired.Perm (rootSigned.map (·.retiredBy statement.event.indexKey)) ∧
      (rootSigned.map (·.indexKey)).Nodup := by
  obtain ⟨declarations, hdeclarations, hrootSigned⟩ := bind_eq_ok.mp hrootSigned
  obtain ⟨statements, hstatements, hrootSigned⟩ := bind_eq_ok.mp hrootSigned
  obtain ⟨_, hproven, hrootSigned⟩ := bind_eq_ok.mp hrootSigned
  have hheld : ∀ other ∈ statements, ∃ envelope, Contains records envelope ∧
      envelope.id = other.event.eventId ∧ envelope.occurredAt = other.event.occurredAt := by
    intro other hother
    obtain ⟨-, envelope, hcontains, -, hroutes⟩ := (holdsStatement_iff hreduced).mpr
      ((mem_of_mapM hstatements other).mp hother)
    exact ⟨envelope, hcontains, hroutes.id, hroutes.occurredAt⟩
  obtain ⟨retired, hretired, hperm⟩ := reduceRootSigned_concat_revocation hrootSigned h.action
    (by
      intro other hother
      obtain ⟨envelope, hcontains, hid, -⟩ := hheld other hother
      exact hid ▸ hfresh envelope hcontains)
    (by
      intro other hother
      obtain ⟨envelope, hcontains, -, htime⟩ := hheld other hother
      exact htime ▸ h.later envelope hcontains)
  have hread : rootSignedMemberSigningKeyLifecycleFromRecord crypto record.toJson = .ok statement := by
    rw [rootSignedMemberSigningKeyLifecycleFromRecord_eq_ok (createRecordEnvelope_toJson record),
      ← rootSignedMemberSigningKeyLifecycleFromRecord_eq_ok hcreate]
    exact h.read
  have hroot : rootKey statement.event.communityId statement.event.memberId
      statement.rootPublicKey.publicKeyPem ∈ declarations.map fun declaration ↦
        rootKey declaration.communityId declaration.memberId
          declaration.rootPublicKey.publicKeyPem := by
    obtain ⟨declaration, hdeclaration, hsame, hmember⟩ := h.declared
    rw [filter_recordsOfKind] at hdeclarations
    refine List.mem_map.mpr ⟨declaration, (mem_of_mapM hdeclarations declaration).mpr
      ((holdsDeclaration_iff hreduced).mp hdeclaration), ?_⟩
    rw [hdeclaration.1, h.community, hsame, hmember]
  refine ⟨retired, ?_, hperm, ?_⟩
  · rw [reduceProvenRootSignedMemberSigningKeyLifecycleRecords, hdeclarations, ok_bind,
      List.mapM_append, hstatements, ok_bind, List.mapM_cons, hread, List.mapM_nil]
    refine bind_eq_ok.mpr ⟨statements ++ [statement], rfl, bind_eq_ok.mpr ⟨⟨⟩, ?_, hretired⟩⟩
    rw [checkAll_eq_ok] at hproven ⊢
    intro other hother
    cases List.mem_append.mp hother with
    | inl hold => exact hproven other hold
    | inr hnew =>
        rw [List.mem_singleton.mp hnew]
        exact require_eq_ok.mpr hroot
  · obtain ⟨events, -, -, -, hreduce⟩ := retires_of_reduceRootSigned hrootSigned
    exact nodup_of_reduce hreduce

/-- With the revocation the authorizations stay compatible and verify what they verified without its
key. -/
theorem LateRevocation.extends (hreduced : Reduced records communityId communityRecords)
    (h : LateRevocation crypto localeCompare communityId records source statement)
    (hfresh : ∀ other, Contains records other → other.id ≠ statement.event.eventId)
    {record : RecordEnvelope} (hcreate : createRecordEnvelope source = .ok record)
    (hauthorizations :
      resolveAuthorizations crypto localeCompare communityRecords = .ok authorizations)
    (hcompatible : authorizations.Pairwise Compatible) :
    ∃ extended, resolveAuthorizations crypto localeCompare (communityRecords ++ [record]) =
        .ok extended ∧
      extended.Pairwise Compatible ∧
      ∀ input, VerifiesUnder extended input ↔ VerifiesUnder
        (TimebankIdentity.withoutKey statement.event.memberId statement.event.keyId authorizations)
        input := by
  obtain ⟨hforeign, legacy, declared, rootSigned, hlegacy, hdeclared, hrootSigned, rfl⟩ :=
    resolveAuthorizations_eq_ok.mp hauthorizations
  obtain ⟨retired, hretired, hperm, hnodup⟩ := h.reduceProven hreduced hfresh hcreate hrootSigned
  have hparts := parts_of_reductions hreduced hforeign hlegacy hdeclared hrootSigned
  have hkind : record.kind = rootSignedKeyRevocationRecordKind := by
    obtain ⟨envelope, henvelope, -, hroutes⟩ := h.envelope
    obtain rfl := Except.ok.inj (hcreate.symm.trans henvelope)
    exact hroutes.kind
  have hsameLegacy : legacyIdentityRecords (communityRecords ++ [record]) =
      legacyIdentityRecords communityRecords := by
    have hnot : isIdentityRecord record.kind = false := by rw [hkind]; decide
    simp [legacyIdentityRecords, List.filter_append, hnot]
  have hsameDeclarations : recordsOfKind memberFeedDeclarationRecordKind
      (communityRecords ++ [record]) =
        recordsOfKind memberFeedDeclarationRecordKind communityRecords := by
    have hnot : record.kind ≠ memberFeedDeclarationRecordKind := by rw [hkind]; decide
    simp [recordsOfKind, List.filter_append, hnot]
  have hlifecycle : (communityRecords ++ [record]).filter (fun record ↦
      isRootSignedMemberSigningKeyLifecycleRecord record.kind) =
        (communityRecords.filter fun record ↦
          isRootSignedMemberSigningKeyLifecycleRecord record.kind) ++ [record] := by
    have his : isRootSignedMemberSigningKeyLifecycleRecord record.kind = true := by
      rw [hkind]
      decide
    simp [List.filter_append, his]
  refine ⟨legacy ++ declared ++ retired, resolveAuthorizations_eq_ok.mpr ⟨?_, legacy, declared,
    retired, ?_, ?_, ?_, rfl⟩, ?_, fun input ↦ ?_⟩
  · rw [hsameLegacy, hsameDeclarations]
    exact hforeign
  · rw [hsameLegacy, hlegacy]
  · rw [hsameDeclarations, hdeclared]
  · rw [hlifecycle, hsameDeclarations, hretired]
  · obtain ⟨hfirst, hsecond, hcross⟩ := List.pairwise_append.mp hcompatible
    refine List.pairwise_append.mpr ⟨hfirst, ?_, ?_⟩
    · rw [hperm.pairwise_iff Compatible.symm, List.pairwise_map]
      exact hsecond.imp fun hpair ↦
        compatible_retiredBy.mpr (compatible_retiredBy.mpr hpair.symm).symm
    · intro left hleft right hright
      obtain ⟨earlier, hearlier, rfl⟩ := List.mem_map.mp (hperm.mem_iff.mp hright)
      exact compatible_retiredBy.mpr (hcross left hleft earlier hearlier)
  · simp only [VerifiesUnder, hparts.withoutKey h, activeKey?_append, activeKey?_retired hnodup hperm]

end Authorizations

/-! ## The resolved view -/

section Resolved

variable [Std.TransCmp localeCompare] {first second : List JsonValue}
  {state : ResolvedTimebankState crypto}

omit [Std.TransCmp localeCompare] in
/-- The revocation is no domain record. -/
theorem LateRevocation.sameDomainRecords
    (h : LateRevocation crypto localeCompare communityId (first ++ second) source statement) :
    SameDomainRecords communityId (first ++ source :: second) (first ++ second) := by
  obtain ⟨record, hcreate, -, hroutes⟩ := h.envelope
  intro other hdomain
  have hne : other ≠ source := by
    intro hsame
    rw [hsame, isDomainRecord_iff hcreate, hroutes.kind] at hdomain
    exact absurd hdomain.2 (by decide)
  simp [hne]

omit [Std.TransCmp localeCompare] in
/-- Records with a revocation under a new id stay consistent. -/
theorem LateRevocation.consistent
    (h : LateRevocation crypto localeCompare communityId (first ++ second) source statement)
    (hrecords : Consistent (first ++ second))
    (hfresh : ∀ other, Contains (first ++ second) other → other.id ≠ statement.event.eventId) :
    Consistent (first ++ source :: second) := by
  obtain ⟨record, hcreate, -, hroutes⟩ := h.envelope
  exact hrecords.insert hcreate fun other hother ↦ hroutes.id ▸ hfresh other hother

/-- The community's envelopes and authorizations with the revocation. -/
theorem LateRevocation.stages
    (h : LateRevocation crypto localeCompare communityId (first ++ second) source statement)
    (hresolve : resolveTimebankRecords crypto localeCompare communityId (first ++ second) = .ok state)
    (hfresh : ∀ other, Contains (first ++ second) other → other.id ≠ statement.event.eventId) :
    ∃ normalized record authorizations,
      reduceRecordEnvelopes localeCompare (first ++ second) = .ok normalized ∧
      createRecordEnvelope source = .ok record ∧
      record.kind = rootSignedKeyRevocationRecordKind ∧
      reduceRecordEnvelopes localeCompare (first ++ source :: second) =
        .ok (normalized ++ [record]) ∧
      communityRecordsOf communityId (normalized ++ [record]) =
        communityRecordsOf communityId normalized ++ [record] ∧
      authorizationsOf crypto localeCompare communityId (first ++ source :: second) =
        .ok authorizations ∧
      authorizations.Pairwise Compatible ∧
      ∀ input, VerifiesUnder authorizations input ↔ VerifiesUnder (TimebankIdentity.withoutKey
        statement.event.memberId statement.event.keyId state.authorizations) input := by
  obtain ⟨hrecords, hcoherent, -⟩ := resolved_of_eq_ok hresolve
  obtain ⟨record, hcreate, -, hroutes⟩ := h.envelope
  obtain ⟨larger, hlarger⟩ := (reduceRecordEnvelopes_spec localeCompare _).1.mpr
    (h.consistent hrecords hfresh)
  obtain ⟨normalized, hnormalized, rfl⟩ := reduceRecordEnvelopes_insert hcreate hlarger
    (fun other hother ↦ hroutes.id ▸ hfresh other hother)
    (fun other hother ↦ hroutes.occurredAt ▸ h.later other hother)
  have hcommunity : record.communityId = communityId := hroutes.communityId.trans h.community
  have hrecordsOf : communityRecordsOf communityId (normalized ++ [record]) =
      communityRecordsOf communityId normalized ++ [record] := by
    simp [communityRecordsOf, List.filter_append, hcommunity]
  obtain ⟨authorizations, hauthorizations, hcompatible, hverifies⟩ :=
    h.extends (reduced_of_reduceRecordEnvelopes hnormalized) hfresh hcreate
      (authorizations_of_resolve hresolve hnormalized) hcoherent.compatible
  refine ⟨normalized, record, authorizations, hnormalized, hcreate, hroutes.kind, hlarger, hrecordsOf,
    ?_, hcompatible, hverifies⟩
  rw [authorizationsOf, hlarger, ok_bind]
  exact (congrArg _ hrecordsOf).trans hauthorizations

/-- When resolved records still resolve with the revocation, its record id is new and every signature
they need verifies without the revoked key. -/
theorem LateRevocation.of_resolve
    (h : LateRevocation crypto localeCompare communityId (first ++ second) source statement)
    (hresolve :
      resolveTimebankRecords crypto localeCompare communityId (first ++ second) = .ok state)
    {extended : ResolvedTimebankState crypto}
    (hextended : resolveTimebankRecords crypto localeCompare communityId
      (first ++ source :: second) = .ok extended) :
    (∀ record, Contains (first ++ second) record → record.id ≠ statement.event.eventId) ∧
      ∀ input, ChecksSignature (first ++ second) communityId input →
        VerifiesUnder (TimebankIdentity.withoutKey statement.event.memberId statement.event.keyId
          state.authorizations) input := by
  obtain ⟨hrecords, -, -⟩ := resolved_of_eq_ok hresolve
  obtain ⟨hlargerRecords, hlargerCoherent, hlargerResolved⟩ := resolved_of_eq_ok hextended
  have hfresh : ∀ record, Contains (first ++ second) record →
      record.id ≠ statement.event.eventId := by
    intro other hother hid
    obtain ⟨record, hcreate, -, hroutes⟩ := h.envelope
    have hsubset : first ++ second ⊆ first ++ source :: second := by
      intro other
      simp only [List.mem_append, List.mem_cons]
      tauto
    obtain ⟨otherSource, hsource, hotherCreate⟩ := hother
    obtain rfl := hlargerRecords.unique other record ⟨otherSource, hsubset hsource, hotherCreate⟩
      ⟨source, by simp, hcreate⟩ (hid.trans hroutes.id.symm)
    have hlast := h.later other ⟨otherSource, hsource, hotherCreate⟩
    rw [hroutes.occurredAt, @Std.ReflCmp.compare_self _ localeCompare] at hlast
    cases hlast
  obtain ⟨-, -, authorizations, -, -, -, -, -, hauthorizations, -, hverifies⟩ :=
    h.stages hresolve hfresh
  obtain rfl := Except.ok.inj (hlargerResolved.authorizations.symm.trans hauthorizations)
  refine ⟨hfresh, fun input hchecks ↦ (hverifies input).mp ?_⟩
  exact (h.sameDomainRecords.coherent.mp hlargerCoherent).verifies hrecords hchecks

/-- A revocation under a new record id, whose key no needed signature was made with, keeps resolved
records resolving to the same ledger. -/
theorem LateRevocation.resolves
    (h : LateRevocation crypto localeCompare communityId (first ++ second) source statement)
    (hresolve :
      resolveTimebankRecords crypto localeCompare communityId (first ++ second) = .ok state)
    (hfresh : ∀ record, Contains (first ++ second) record → record.id ≠ statement.event.eventId)
    (hsigned : ∀ input, ChecksSignature (first ++ second) communityId input →
      VerifiesUnder (TimebankIdentity.withoutKey statement.event.memberId statement.event.keyId
        state.authorizations) input) :
    ∃ extended, resolveTimebankRecords crypto localeCompare communityId (first ++ source :: second) =
      .ok extended ∧ extended.ledger = state.ledger := by
  obtain ⟨hrecords, hcoherent, hresolved⟩ := resolved_of_eq_ok hresolve
  obtain ⟨normalized, record, authorizations, hnormalized, hcreate, hkind, hlarger, hrecordsOf,
    hauthorizations, hcompatible, hverifies⟩ := h.stages hresolve hfresh
  have hlargerCoherent := h.sameDomainRecords.coherent.mpr ((hcoherent.iff_verifies hrecords).mpr
    ⟨hcompatible, fun input hchecks ↦ (hverifies input).mpr (hsigned input hchecks)⟩)
  obtain ⟨extended, hextended⟩ := succeeds_of_coherent (h.consistent hrecords hfresh) hauthorizations
    hlargerCoherent
  refine ⟨extended, hextended, ?_⟩
  have htransfers := transfers_of_resolve hextended hlarger
  have hother : record.kind ≠ ledgerTransferRecordKind := by
    rw [hkind]
    decide
  rw [hrecordsOf, recordsOfKind, List.filter_append, List.filter_cons_of_neg (by simp [hother]),
    List.filter_nil, List.append_nil] at htransfers
  have hstate := Except.ok.inj (htransfers.symm.trans (transfers_of_resolve hresolve hnormalized))
  rw [(resolved_of_eq_ok hextended).2.2.ledger, hresolved.ledger, hstate]

end Resolved

end PeerHours.TimebankRecords
