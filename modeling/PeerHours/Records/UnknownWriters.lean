import PeerHours.Records.Declarations
import PeerHours.Records.KeyEvents

/-!
# Histories of unknown writers

A history whose feed nobody declared, and whose records nobody authorized signed, is still read in
full: every record must be a well-formed envelope that contradicts no other, before the resolution
looks at its community, and key records of the community are reduced with the others. The resolved
view ignores such a history exactly when it passes all of these and its key events keep the keys.
-/

namespace PeerHours.TimebankRecords

open Checked Json KeyedMap
open TimebankIdentity

variable {crypto : Crypto} {communityId : String} {localeCompare : String → String → Ordering}

/-- The record belongs to another community, or is a malformed envelope, or carries no signature of a
key authorized for its author. -/
def FromUnknownWriter (authorizations : List (MemberSigningKeyAuthorization crypto))
    (communityId : String) (source : JsonValue) : Prop :=
  source.field "communityId" ≠ some (.str communityId) ∨
    ¬ Succeeds (createRecordEnvelope source) ∨
    ¬ ∃ record, Authentic authorizations source record

variable (crypto) in
/-- Additional records that leave a resolved view alone. -/
structure Ignorable (localeCompare : String → String → Ordering) (communityId : String)
    (records additional : List JsonValue) : Prop where
  consistent : Consistent (records ++ additional)
  domain : ∀ source ∈ additional, ¬ IsDomainRecord communityId source
  lifecycle : ∀ record, Contains additional record → record.communityId = communityId →
    isRootSignedMemberSigningKeyLifecycleRecord record.kind = false
  declarations : ∀ record, Contains additional record → record.communityId = communityId →
    record.kind = memberFeedDeclarationRecordKind → Contains records record
  foreign : ∀ record, Contains additional record → record.communityId = communityId →
    isIdentityRecord record.kind = true →
    ∀ declaration, Contains records declaration → declaration.communityId = communityId →
      declaration.kind = memberFeedDeclarationRecordKind → record.authorId ≠ declaration.authorId
  keys : ∃ held further, keyEvents crypto communityId records = .ok held ∧
    keyEvents crypto communityId additional = .ok further ∧ KeepsKeys localeCompare held further

/-! ## Declarations of a repeated record -/

/-- The feed that a record declares is read from its envelope. -/
theorem readDeclaredFeed_congr {left right : JsonValue} {record : RecordEnvelope}
    (hleft : createRecordEnvelope left = .ok record) (hright : createRecordEnvelope right = .ok record) :
    readDeclaredFeed crypto left = readDeclaredFeed crypto right := by
  simp only [readDeclaredFeed, memberFeedDeclarationFromRecord, hleft, hright]

theorem isFeedDeclaration_iff {source : JsonValue} {record : RecordEnvelope}
    (hcreate : createRecordEnvelope source = .ok record) :
    isFeedDeclaration communityId source ↔
      record.communityId = communityId ∧ record.kind = memberFeedDeclarationRecordKind := by
  have hrecord := createRecordEnvelope_eq_ok.mp hcreate
  rw [isFeedDeclaration, hrecord.communityId, hrecord.kind]
  simp

section Histories

variable {histories : List MemberFeedHistory} {feedPublicKey : String} {additional : List JsonValue}

theorem flatMap_records_append :
    (histories ++ [(⟨feedPublicKey, additional⟩ : MemberFeedHistory)]).flatMap (·.records) =
      histories.flatMap (·.records) ++ additional := by
  simp

/-- Records that only repeat declarations declare no further feed. -/
theorem declaration_repeated
    (hwellFormed : ∀ source ∈ additional, Succeeds (createRecordEnvelope source))
    (hdeclarations : ∀ record, Contains additional record → record.communityId = communityId →
      record.kind = memberFeedDeclarationRecordKind →
      Contains (histories.flatMap (·.records)) record) {source : JsonValue}
    (hsource : source ∈ feedDeclarations communityId (histories ++ [⟨feedPublicKey, additional⟩])) :
    ∃ earlier ∈ feedDeclarations communityId histories,
      readDeclaredFeed crypto source = readDeclaredFeed crypto earlier := by
  rw [feedDeclarations, flatMap_records_append] at hsource
  obtain ⟨hmem, hdeclaration⟩ := List.mem_filter.mp hsource
  cases List.mem_append.mp hmem with
  | inl hold => exact ⟨source, List.mem_filter.mpr ⟨hold, hdeclaration⟩, rfl⟩
  | inr hadditional =>
      obtain ⟨record, hcreate⟩ := hwellFormed source hadditional
      obtain ⟨hcommunity, hkind⟩ := (isFeedDeclaration_iff hcreate).mp (of_decide_eq_true hdeclaration)
      obtain ⟨earlier, hearlier, hcreateEarlier⟩ :=
        hdeclarations record ⟨source, hadditional, hcreate⟩ hcommunity hkind
      exact ⟨earlier, List.mem_filter.mpr ⟨hearlier, decide_eq_true
        ((isFeedDeclaration_iff hcreateEarlier).mpr ⟨hcommunity, hkind⟩)⟩,
        readDeclaredFeed_congr hcreate hcreateEarlier⟩

theorem declaresFeed_of_repeated
    (hwellFormed : ∀ source ∈ additional, Succeeds (createRecordEnvelope source))
    (hdeclarations : ∀ record, Contains additional record → record.communityId = communityId →
      record.kind = memberFeedDeclarationRecordKind →
      Contains (histories.flatMap (·.records)) record) {feed memberId : String}
    (h : DeclaresFeed crypto communityId (histories ++ [⟨feedPublicKey, additional⟩]) feed memberId) :
    DeclaresFeed crypto communityId histories feed memberId := by
  obtain ⟨source, hsource, hread⟩ := h
  obtain ⟨earlier, hearlier, hsame⟩ := @declaration_repeated crypto _ _ _ _ hwellFormed hdeclarations
    source hsource
  exact ⟨earlier, hearlier, hsame ▸ hread⟩

end Histories

/-! ## The view with the additional history -/

section Resolved

variable [Std.TransCmp localeCompare] {records additional : List JsonValue}
  {state : ResolvedTimebankState crypto} {normalized larger : List RecordEnvelope}

/-- Ignorable records leave the envelopes of every kind but the legacy key kinds unchanged. -/
theorem Ignorable.filter_eq (h : Ignorable crypto localeCompare communityId records additional)
    (hnormalized : reduceRecordEnvelopes localeCompare records = .ok normalized)
    (hlarger : reduceRecordEnvelopes localeCompare (records ++ additional) = .ok larger) :
    (∀ kind ∈ memberAuthoredDomainRecordKinds,
      recordsOfKind kind (communityRecordsOf communityId larger) =
        recordsOfKind kind (communityRecordsOf communityId normalized)) ∧
    recordsOfKind memberFeedDeclarationRecordKind (communityRecordsOf communityId larger) =
      recordsOfKind memberFeedDeclarationRecordKind (communityRecordsOf communityId normalized) ∧
    (communityRecordsOf communityId larger).filter (fun record ↦
        isRootSignedMemberSigningKeyLifecycleRecord record.kind) =
      (communityRecordsOf communityId normalized).filter fun record ↦
        isRootSignedMemberSigningKeyLifecycleRecord record.kind := by
  refine ⟨fun kind hkind ↦ ?_, ?_, ?_⟩
  · refine filter_communityRecordsOf_append hlarger hnormalized fun record hcontains hcommunity hname ↦ ?_
    obtain ⟨source, hsource, hcreate⟩ := hcontains
    exact absurd ((isDomainRecord_iff hcreate).mpr ⟨hcommunity, of_decide_eq_true hname ▸ hkind⟩)
      (h.domain source hsource)
  · exact filter_communityRecordsOf_append hlarger hnormalized fun record hcontains hcommunity hname ↦
      h.declarations record hcontains hcommunity (of_decide_eq_true hname)
  · refine filter_communityRecordsOf_append hlarger hnormalized fun record hcontains hcommunity hname ↦ ?_
    rw [h.lifecycle record hcontains hcommunity] at hname
    cases hname

/-- Ignorable records leave the resolved records as they are. -/
theorem Ignorable.resolve (h : Ignorable crypto localeCompare communityId records additional)
    (hresolve : resolveTimebankRecords crypto localeCompare communityId records = .ok state) :
    resolveTimebankRecords crypto localeCompare communityId (records ++ additional) = .ok state := by
  obtain ⟨hrecords, hcoherent, -⟩ := resolved_of_eq_ok hresolve
  obtain ⟨normalized, hnormalized⟩ := (reduceRecordEnvelopes_spec localeCompare records).1.mpr hrecords
  obtain ⟨larger, hlarger⟩ :=
    (reduceRecordEnvelopes_spec localeCompare (records ++ additional)).1.mpr h.consistent
  obtain ⟨hkinds, hdeclarations, hlifecycle⟩ := h.filter_eq hnormalized hlarger
  refine resolve_of_same hresolve hnormalized hlarger hkinds ?_ ?_
  · obtain ⟨hforeign, legacy, declared, rootSigned, hlegacy, hdeclared, hrootSigned, hsame⟩ :=
      resolveAuthorizations_eq_ok.mp (authorizations_of_resolve hresolve hnormalized)
    refine resolveAuthorizations_eq_ok.mpr ⟨?_, legacy, declared, rootSigned, ?_, ?_, ?_, hsame⟩
    · rw [hdeclarations]
      intro record hrecord declaration hdeclaration
      obtain ⟨hmem, hkind⟩ := List.mem_filter.mp hrecord
      obtain ⟨hcontains, hcommunity⟩ := ((reduced_of_reduceRecordEnvelopes hlarger).mem record).mp hmem
      have hdeclarationMem := mem_recordsOfKind.mp hdeclaration
      obtain ⟨hheld, hdeclarationCommunity⟩ :=
        ((reduced_of_reduceRecordEnvelopes hnormalized).mem declaration).mp hdeclarationMem.1
      obtain ⟨source, hsource, hcreate⟩ := hcontains
      cases List.mem_append.mp hsource with
      | inl hold =>
          refine hforeign record (List.mem_filter.mpr ⟨?_, hkind⟩) declaration hdeclaration
          exact ((reduced_of_reduceRecordEnvelopes hnormalized).mem record).mpr
            ⟨⟨source, hold, hcreate⟩, hcommunity⟩
      | inr hadditional =>
          exact h.foreign record ⟨source, hadditional, hcreate⟩ hcommunity hkind declaration hheld
            hdeclarationCommunity hdeclarationMem.2
    · exact (reduce_append_iff h.consistent hnormalized hlarger hlegacy).mpr h.keys
    · rw [hdeclarations, hdeclared]
    · rw [hlifecycle, hdeclarations, hrootSigned]
  · have hsigned := hcoherent.signed.assert hcoherent.compatible hcoherent.decodes
    rw [assertMemberSignedDomainRecords, checkAll_eq_ok] at hsigned ⊢
    intro source hsource
    cases List.mem_append.mp hsource with
    | inl hold => exact hsigned source hold
    | inr hadditional => exact if_neg (h.domain source hadditional)

omit [Std.TransCmp localeCompare] in
/-- A declaration whose root key is authorized before any additional record is held before them. -/
theorem holdsDeclaration_of_authorized
    (hresolve : resolveTimebankRecords crypto localeCompare communityId records = .ok state)
    (hlargerResolve :
      resolveTimebankRecords crypto localeCompare communityId (records ++ additional) = .ok state)
    {declaration : MemberFeedDeclaration crypto}
    (hdeclaration : HoldsDeclaration (records ++ additional) communityId declaration) :
    HoldsDeclaration records communityId declaration := by
  obtain ⟨hrecords, hcoherent, hresolved⟩ := resolved_of_eq_ok hresolve
  obtain ⟨hlargerRecords, -, hlargerResolved⟩ := resolved_of_eq_ok hlargerResolve
  obtain ⟨normalized, hnormalized⟩ := (reduceRecordEnvelopes_spec localeCompare records).1.mpr hrecords
  obtain ⟨larger, hlarger⟩ :=
    (reduceRecordEnvelopes_spec localeCompare (records ++ additional)).1.mpr hlargerRecords
  have hreduced : Reduced records communityId (communityRecordsOf communityId normalized) :=
    reduced_of_reduceRecordEnvelopes hnormalized
  have hlargerReduced :
      Reduced (records ++ additional) communityId (communityRecordsOf communityId larger) :=
    reduced_of_reduceRecordEnvelopes hlarger
  have hlargerAuthorizations := authorizations_of_resolve hlargerResolve hlarger
  obtain ⟨legacy, declared, rootSigned, hsame, -, hparts⟩ :=
    parts_of_resolveAuthorizations hreduced (authorizations_of_resolve hresolve hnormalized)
  obtain ⟨_, largerDeclared, _, hlargerSame, -, hlargerParts⟩ :=
    parts_of_resolveAuthorizations hlargerReduced hlargerAuthorizations
  -- two declarations of one member in the larger history are the same declaration
  have hunique : ∀ {earlier : MemberFeedDeclaration crypto},
      HoldsDeclaration records communityId earlier → earlier.memberId = declaration.memberId →
      HoldsDeclaration records communityId declaration := by
    intro earlier hearlier hmember
    have hlarge : HoldsDeclaration (records ++ additional) communityId earlier := by
      obtain ⟨hcommunity, record, ⟨source, hsource, hcreate⟩, hroutes⟩ := hearlier
      exact ⟨hcommunity, record, ⟨source, List.mem_append_left _ hsource, hcreate⟩, hroutes⟩
    rwa [← eq_of_authorizationsOf hlargerResolved.authorizations hcoherent.compatible hlarge
      hdeclaration hmember]
  have hmem : declaredAuthorization declaration ∈ state.authorizations := by
    rw [hlargerSame]
    exact List.mem_append_left _ (List.mem_append_right _
      ((hlargerParts.fromDeclared _).mpr ⟨declaration, hdeclaration, rfl⟩))
  rw [hsame] at hmem
  rcases List.mem_append.mp hmem with hmem | hrootSigned
  · rcases List.mem_append.mp hmem with hlegacy | hdeclared
    · -- a legacy key of a declared member would stop the larger history
      obtain ⟨event, hevent, ⟨-, -, hmember, -⟩, -⟩ := hparts.fromLegacy _ hlegacy
      obtain ⟨record, hrecord, hdecode⟩ := (holdsEvent_iff hreduced).mp hevent
      obtain ⟨hinSmall, hkind⟩ := List.mem_filter.mp hrecord
      obtain ⟨⟨source, hsource, hcreate⟩, hcommunity⟩ := (hreduced.mem record).mp hinSmall
      have hlargeRecord : record ∈ legacyIdentityRecords (communityRecordsOf communityId larger) :=
        List.mem_filter.mpr ⟨(hlargerReduced.mem record).mpr
          ⟨⟨source, List.mem_append_left _ hsource, hcreate⟩, hcommunity⟩, hkind⟩
      obtain ⟨other, hother, hotherDecode⟩ := (holdsDeclaration_iff hlargerReduced).mp hdeclaration
      refine absurd ?_ ((resolveAuthorizations_eq_ok.mp hlargerAuthorizations).1 record hlargeRecord
        other hother)
      rw [((memberSigningKeyAuthorizationEventFromRecord_eq_ok (createRecordEnvelope_toJson _)).mp
        hdecode).2.authorId, ((memberFeedDeclarationFromRecord_eq_ok
        (createRecordEnvelope_toJson _)).mp hotherDecode).2.authorId]
      exact hmember
    · obtain ⟨earlier, hearlier, hauthorization⟩ := (hparts.fromDeclared _).mp hdeclared
      exact hunique hearlier (congrArg (·.memberId) hauthorization)
  · obtain ⟨statement, -, ⟨-, -, hmember, -⟩, earlier, hearlier, hroot⟩ :=
      hparts.fromRootSigned _ hrootSigned
    refine hunique hearlier ?_
    rw [MemberFeedDeclaration.memberId, Ed25519PublicKey.ext hroot, ← statement.owned]
    exact hmember

omit [Std.TransCmp localeCompare] in
/-- Additional declarations that leave the authorizations alone are repetitions. -/
theorem declarations_of_resolve
    (hresolve : resolveTimebankRecords crypto localeCompare communityId records = .ok state)
    (hlargerResolve :
      resolveTimebankRecords crypto localeCompare communityId (records ++ additional) = .ok state)
    (record : RecordEnvelope) (hcontains : Contains additional record)
    (hcommunity : record.communityId = communityId)
    (hkind : record.kind = memberFeedDeclarationRecordKind) : Contains records record := by
  obtain ⟨hlargerRecords, -, -⟩ := resolved_of_eq_ok hlargerResolve
  obtain ⟨larger, hlarger⟩ :=
    (reduceRecordEnvelopes_spec localeCompare (records ++ additional)).1.mpr hlargerRecords
  have hlargerReduced :
      Reduced (records ++ additional) communityId (communityRecordsOf communityId larger) :=
    reduced_of_reduceRecordEnvelopes hlarger
  obtain ⟨source, hsource, hcreate⟩ := hcontains
  have hlargerContains : Contains (records ++ additional) record :=
    ⟨source, List.mem_append_right _ hsource, hcreate⟩
  have hin : record ∈ recordsOfKind memberFeedDeclarationRecordKind
      (communityRecordsOf communityId larger) :=
    mem_recordsOfKind.mpr ⟨(hlargerReduced.mem record).mpr ⟨hlargerContains, hcommunity⟩, hkind⟩
  obtain ⟨-, -, declared, -, -, hdeclared, -⟩ :=
    resolveAuthorizations_eq_ok.mp (authorizations_of_resolve hlargerResolve hlarger)
  obtain ⟨byKey, hbyKey, -⟩ := bind_eq_ok.mp hdeclared
  obtain ⟨declaration, hdecode⟩ :=
    ((succeeds_collect determines_declarations).mp ⟨byKey, hbyKey⟩).1 record hin
  obtain ⟨-, earlier, ⟨other, hother, hotherCreate⟩, -, hroutes⟩ :=
    holdsDeclaration_of_authorized hresolve hlargerResolve
      ((holdsDeclaration_iff hlargerReduced).mpr ⟨record, hin, hdecode⟩)
  have hown := ((memberFeedDeclarationFromRecord_eq_ok (createRecordEnvelope_toJson record)).mp
    hdecode).2
  rw [← hlargerRecords.unique earlier record ⟨other, List.mem_append_left _ hother, hotherCreate⟩
    hlargerContains (hroutes.id.trans hown.id.symm)]
  exact ⟨other, hother, hotherCreate⟩

/-- A resolved view that additional records of unknown writers leave alone could ignore them. -/
theorem ignorable_of_resolve
    (hresolve : resolveTimebankRecords crypto localeCompare communityId records = .ok state)
    (hlargerResolve :
      resolveTimebankRecords crypto localeCompare communityId (records ++ additional) = .ok state)
    (hunknown : ∀ source ∈ additional, FromUnknownWriter state.authorizations communityId source)
    (hlifecycle : ∀ record, Contains additional record → record.communityId = communityId →
      isRootSignedMemberSigningKeyLifecycleRecord record.kind = false) :
    Ignorable crypto localeCompare communityId records additional := by
  obtain ⟨hrecords, -, -⟩ := resolved_of_eq_ok hresolve
  obtain ⟨hlargerRecords, hlargerCoherent, -⟩ := resolved_of_eq_ok hlargerResolve
  obtain ⟨normalized, hnormalized⟩ := (reduceRecordEnvelopes_spec localeCompare records).1.mpr hrecords
  obtain ⟨larger, hlarger⟩ :=
    (reduceRecordEnvelopes_spec localeCompare (records ++ additional)).1.mpr hlargerRecords
  have hlargerReduced :
      Reduced (records ++ additional) communityId (communityRecordsOf communityId larger) :=
    reduced_of_reduceRecordEnvelopes hlarger
  have hinLarger : ∀ {record : RecordEnvelope}, Contains additional record →
      Contains (records ++ additional) record :=
    fun ⟨source, hsource, hcreate⟩ ↦ ⟨source, List.mem_append_right _ hsource, hcreate⟩
  have hauthorizations := authorizations_of_resolve hresolve hnormalized
  have hlargerAuthorizations := authorizations_of_resolve hlargerResolve hlarger
  obtain ⟨-, legacy, declared, rootSigned, hlegacy, hdeclared, hrootSigned, hsame⟩ :=
    resolveAuthorizations_eq_ok.mp hauthorizations
  obtain ⟨hforeign, largerLegacy, largerDeclared, largerRootSigned, hlargerLegacy, hlargerDeclared,
    hlargerRootSigned, hlargerSame⟩ := resolveAuthorizations_eq_ok.mp hlargerAuthorizations
  -- a view that resolves has only signed domain records, and no member of the community signed these
  have hdomain : ∀ source ∈ additional, ¬ IsDomainRecord communityId source := by
    intro source hsource hdomain
    have hlargerSource := List.mem_append_right records hsource
    rcases hunknown source hsource with hcommunity | hmalformed | hunsigned
    · exact hcommunity hdomain.1
    · exact hmalformed (hlargerRecords.wellFormed source hlargerSource)
    · exact hunsigned (hlargerCoherent.signed source hlargerSource hdomain.1 hdomain.2)
  have hdeclarations := @declarations_of_resolve _ _ _ _ _ _ hresolve hlargerResolve
  have hsameDeclarations : recordsOfKind memberFeedDeclarationRecordKind
      (communityRecordsOf communityId larger) =
        recordsOfKind memberFeedDeclarationRecordKind (communityRecordsOf communityId normalized) :=
    filter_communityRecordsOf_append hlarger hnormalized fun record hcontains hcommunity hname ↦
      hdeclarations record hcontains hcommunity (of_decide_eq_true hname)
  refine ⟨hlargerRecords, hdomain, hlifecycle, hdeclarations, ?_, ?_⟩
  · intro record hcontains hcommunity hkind declaration hdeclaration hdeclarationCommunity hname
    refine hforeign record (List.mem_filter.mpr ⟨(hlargerReduced.mem record).mpr
      ⟨hinLarger hcontains, hcommunity⟩, hkind⟩) declaration ?_
    rw [hsameDeclarations]
    exact mem_recordsOfKind.mpr ⟨((reduced_of_reduceRecordEnvelopes hnormalized).mem declaration).mpr
      ⟨hdeclaration, hdeclarationCommunity⟩, hname⟩
  · -- the declared and root-signed keys agree, so the legacy keys are what is left of equal lists
    have hsameLifecycle : (communityRecordsOf communityId larger).filter (fun record ↦
        isRootSignedMemberSigningKeyLifecycleRecord record.kind) =
        (communityRecordsOf communityId normalized).filter fun record ↦
          isRootSignedMemberSigningKeyLifecycleRecord record.kind :=
      filter_communityRecordsOf_append hlarger hnormalized fun record hcontains hcommunity hname ↦ by
        rw [hlifecycle record hcontains hcommunity] at hname
        cases hname
    rw [hsameDeclarations, hdeclared, Except.ok.injEq] at hlargerDeclared
    rw [hsameDeclarations, hsameLifecycle, hrootSigned, Except.ok.injEq] at hlargerRootSigned
    rw [← hlargerDeclared, ← hlargerRootSigned, ← hsame, List.append_cancel_right_eq,
      List.append_cancel_right_eq] at hlargerSame
    refine (reduce_append_iff hlargerRecords hnormalized hlarger hlegacy).mp ?_
    rw [hlargerSame] at hlargerLegacy
    exact hlargerLegacy

end Resolved

end PeerHours.TimebankRecords
