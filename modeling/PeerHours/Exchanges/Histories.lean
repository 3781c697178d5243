import PeerHours.Exchanges.Publications

/-!
# Histories of what members publish

Histories that hold exactly the declarations of some members and the publications that they signed
with their root keys. When the publications have ids of their own and refer to each other properly,
such histories always resolve, and they hold the published values and nothing else.
-/

namespace PeerHours.Exchanges

open Checked Json
open Desktop
open TimebankIdentity (DescribesDeclaration MemberSigningKeyAuthorization isHypercoreKey
  isLowerHex selfOwnedMemberId)
open TimebankRecords

variable {crypto : Crypto}

/-! ## Ids -/

/-- The record id that a value is published under. -/
def recordIdOf : DomainValue → String
  | .publishedListing value => publishedListingRecords.recordId (publishedListingRecords.id value)
  | .closedListing value => closedListingRecords.recordId (closedListingRecords.id value)
  | .proposedProposal value =>
      proposedExchangeProposalRecords.recordId (proposedExchangeProposalRecords.id value)
  | .acceptedProposal value =>
      acceptedExchangeProposalRecords.recordId (acceptedExchangeProposalRecords.id value)
  | .acknowledgement value =>
      settlementAcknowledgementRecords.recordId (settlementAcknowledgementRecords.id value)
  | .attestation value =>
      settlementTransferAttestationRecords.recordId (settlementTransferAttestationRecords.id value)
  | .transfer value => ledgerTransferRecords.recordId (ledgerTransferRecords.id value)

/-- The community that a value belongs to. -/
def communityOf : DomainValue → String
  | .publishedListing value => value.communityId
  | .closedListing value => value.communityId
  | .proposedProposal value | .acceptedProposal value => value.communityId
  | .acknowledgement value => value.communityId
  | .attestation value => value.communityId
  | .transfer value => value.communityId

/-- The envelope of a value has its record id and its community. -/
theorem routed_of_carriedBy {record : RecordEnvelope} {value : DomainValue}
    (h : value.CarriedBy record) :
    record.id = recordIdOf value ∧ record.communityId = communityOf value := by
  cases value with
  | publishedListing | closedListing | proposedProposal | acceptedProposal | acknowledgement
  | attestation | transfer =>
      simp only [DomainValue.CarriedBy] at h
      exact ⟨h.id, h.communityId⟩

/-! ## Members -/

/-- Members with distinct root keys that SHA-256 tells apart, each with a feed of its own. -/
structure DistinctMembers (members : List (FeedOwner crypto)) : Prop where
  roots : ∀ left ∈ members, ∀ right ∈ members,
    crypto.exportSpkiDer left.stored.rootPublicKey.key =
      crypto.exportSpkiDer right.stored.rootPublicKey.key → left = right
  collisionFree : ∀ left ∈ members, ∀ right ∈ members,
    crypto.sha256 (crypto.exportSpkiDer left.stored.rootPublicKey.key) =
      crypto.sha256 (crypto.exportSpkiDer right.stored.rootPublicKey.key) →
    crypto.exportSpkiDer left.stored.rootPublicKey.key =
      crypto.exportSpkiDer right.stored.rootPublicKey.key
  feeds : ∀ left ∈ members, ∀ right ∈ members, left.feedPublicKey = right.feedPublicKey →
    left = right

/-- A member id names one member. -/
theorem DistinctMembers.memberId_inj {members : List (FeedOwner crypto)}
    (h : DistinctMembers members) {left right : FeedOwner crypto} (hleft : left ∈ members)
    (hright : right ∈ members) (hid : left.memberId = right.memberId) : left = right := by
  have hdigest : crypto.sha256 (crypto.exportSpkiDer left.stored.rootPublicKey.key) =
      crypto.sha256 (crypto.exportSpkiDer right.stored.rootPublicKey.key) := by
    have hencoded : "phm_" ++ _ = "phm_" ++ _ := hid
    exact Base64Url.encode_inj.mp (String.append_right_inj _ |>.mp hencoded)
  exact h.roots left hleft right hright (h.collisionFree left hleft right hright hdigest)

/-- The declaration record of a member: its envelope carries a declaration of the member's feed. -/
theorem declareFeed_spec {communityId : String} (hcommunity : Text.blank communityId = false)
    (owner : FeedOwner crypto) :
    ∃ source record carried, declareFeed communityId owner = .ok (owner, source) ∧
      createRecordEnvelope source = .ok record ∧ DescribesDeclaration record.payload carried ∧
      RoutesDeclaration record carried ∧
      DeclaredBy owner.stored communityId owner.feedPublicKey owner.declaredAt carried := by
  obtain ⟨declaration, record, carried, hcreate, hrecord, hdescribes, hroutes, hdeclared⟩ :=
    declare_spec owner.stored hcommunity owner.hypercoreKey owner.declaredAt.2
  refine ⟨record.toJson, record, carried, ?_, createRecordEnvelope_toJson record, hdescribes, hroutes,
    hdeclared⟩
  rw [declareFeed, hcreate, ok_bind, hrecord, ok_bind]
  rfl

/-- What the declaration record of a member says. -/
theorem of_declareFeed {communityId : String} (hcommunity : Text.blank communityId = false)
    {owner : FeedOwner crypto} {source : JsonValue}
    (h : declareFeed communityId owner = .ok (owner, source)) :
    ∃ record carried, createRecordEnvelope source = .ok record ∧
      DescribesDeclaration record.payload carried ∧ RoutesDeclaration record carried ∧
      DeclaredBy owner.stored communityId owner.feedPublicKey owner.declaredAt carried := by
  obtain ⟨other, record, carried, hother, hrest⟩ := declareFeed_spec hcommunity owner
  have hpair := Except.ok.inj (h.symm.trans hother)
  obtain rfl : source = other := congrArg Prod.snd hpair
  exact ⟨record, carried, hrest⟩

/-- The declaration record of a member names the member. -/
theorem memberId_of_memberFeedRecordId {left right : FeedOwner crypto}
    {communityId leftFeed rightFeed : String}
    (h : memberFeedRecordId left.memberId communityId leftFeed =
      memberFeedRecordId right.memberId communityId rightFeed) : left.memberId = right.memberId :=
  (memberFeedRecordId_inj h).1

/-! ## Histories -/

/-- The source is in a history of the member's feed. -/
def InFeedOf (histories : List MemberFeedHistory) (owner : FeedOwner crypto) (source : JsonValue) :
    Prop :=
  ∃ history ∈ histories, history.feedPublicKey = owner.feedPublicKey ∧ source ∈ history.records

/-- The histories hold the declarations of the members and their publications, each in its author's
feed. -/
structure PublishedIn (communityId : String) (members : List (FeedOwner crypto))
    (published : Publication crypto → Prop) (histories : List MemberFeedHistory) : Prop where
  feeds : ∀ history ∈ histories, ∃ owner ∈ members, history.feedPublicKey = owner.feedPublicKey
  sources : ∀ owner ∈ members, ∀ source, InFeedOf histories owner source →
    declareFeed communityId owner = .ok (owner, source) ∨
      ∃ publication, published publication ∧ publication.PublishedAs (owner, source)
  declares : ∀ owner ∈ members, ∃ source, InFeedOf histories owner source ∧
    declareFeed communityId owner = .ok (owner, source)
  publishes : ∀ publication, published publication →
    ∃ source, InFeedOf histories publication.owner source ∧
      publication.PublishedAs (publication.owner, source)

/-- Members whose publications have ids of their own. -/
structure Protocol (communityId : String) (members : List (FeedOwner crypto))
    (published : Publication crypto → Prop) : Prop extends DistinctMembers members where
  present : Text.blank communityId = false
  owners : ∀ publication, published publication →
    publication.owner ∈ members ∧ communityOf publication.value = communityId
  ids : ∀ left right, published left → published right →
    recordIdOf left.value = recordIdOf right.value → left = right
  undeclared : ∀ publication, published publication → ∀ owner ∈ members,
    recordIdOf publication.value ≠ memberFeedRecordId owner.memberId communityId owner.feedPublicKey

/-- The declaration that the record of a member's declaration carries is the member's own. -/
theorem memberId_of_declaredBy {communityId : String} {owner : FeedOwner crypto}
    {feedPublicKey occurredAt : String}
    {declaration : TimebankIdentity.MemberFeedDeclaration crypto}
    (h : DeclaredBy owner.stored communityId feedPublicKey occurredAt declaration) :
    declaration.memberId = owner.memberId := by
  show selfOwnedMemberId declaration.rootPublicKey = selfOwnedMemberId owner.stored.rootPublicKey
  rw [h.root]

/-- A record that declares a feed is read as its member's feed. -/
theorem readDeclaredFeed_of_declareFeed {communityId : String}
    (hcommunity : Text.blank communityId = false) {owner : FeedOwner crypto} {source : JsonValue}
    (hdeclares : declareFeed communityId owner = .ok (owner, source)) :
    readDeclaredFeed crypto source = .ok (owner.feedPublicKey, owner.memberId) := by
  obtain ⟨record, declaration, hcreate, hdescribes, hroutes, hterms⟩ :=
    of_declareFeed hcommunity hdeclares
  have hread := (memberFeedDeclarationFromRecord_eq_ok hcreate).mpr ⟨hdescribes, hroutes⟩
  rw [readDeclaredFeed, hread, ok_bind, hterms.feed, JsonValue.text?_str,
    memberId_of_declaredBy hterms]
  show Except.ok (owner.feedPublicKey.toLower, owner.memberId) = _
  rw [toLower_of_isHypercoreKey owner.hypercoreKey]

/-- A record that declares a feed declares it in every history that holds it. -/
theorem declaresFeed_of_declareFeed {communityId : String}
    (hcommunity : Text.blank communityId = false) {owner : FeedOwner crypto} {source : JsonValue}
    (hdeclares : declareFeed communityId owner = .ok (owner, source))
    {histories : List MemberFeedHistory} (hmem : source ∈ histories.flatMap (·.records)) :
    DeclaresFeed crypto communityId histories owner.feedPublicKey owner.memberId := by
  obtain ⟨record, declaration, hcreate, -, hroutes, hterms⟩ := of_declareFeed hcommunity hdeclares
  have hfields := createRecordEnvelope_eq_ok.mp hcreate
  refine ⟨source, List.mem_filter.mpr ⟨hmem, decide_eq_true ⟨?_, ?_⟩⟩,
    readDeclaredFeed_of_declareFeed hcommunity hdeclares⟩
  · rw [hfields.communityId, hroutes.communityId, hterms.community]
  · rw [hfields.kind, hroutes.kind]

section Histories

variable {communityId : String} {members : List (FeedOwner crypto)}
  {published : Publication crypto → Prop} {histories : List MemberFeedHistory}

theorem mem_flatMap_records {source : JsonValue} (h : PublishedIn communityId members published histories) :
    source ∈ histories.flatMap (·.records) ↔ ∃ owner ∈ members, InFeedOf histories owner source := by
  rw [List.mem_flatMap]
  constructor
  · intro ⟨history, hhistory, hsource⟩
    obtain ⟨owner, howner, hfeed⟩ := h.feeds history hhistory
    exact ⟨owner, howner, history, hhistory, hfeed, hsource⟩
  · intro ⟨_, _, history, hhistory, _, hsource⟩
    exact ⟨history, hhistory, hsource⟩

/-- The kinds of declarations and of publications differ. -/
theorem kind_of_publishes {publication : Publication crypto} {record : RecordEnvelope}
    {source : JsonValue} (hpublishes : publication.Publishes record source) :
    record.kind ∈ memberAuthoredDomainRecordKinds := by
  rw [hpublishes.carried.kindName]
  exact DomainValue.kindName_mem _

variable (hprotocol : Protocol communityId members published)
  (h : PublishedIn communityId members published histories)
include hprotocol h

/-- The histories contain the envelopes of declarations and of publications. -/
theorem contains_iff {record : RecordEnvelope} :
    Contains (histories.flatMap (·.records)) record ↔
      (∃ owner ∈ members, ∃ source, declareFeed communityId owner = .ok (owner, source) ∧
        createRecordEnvelope source = .ok record) ∨
      ∃ publication, published publication ∧ ∃ source, publication.Publishes record source := by
  constructor
  · intro ⟨source, hsource, hcreate⟩
    obtain ⟨owner, howner, hfeed⟩ := (mem_flatMap_records h).mp hsource
    cases h.sources owner howner source hfeed with
    | inl hdeclares => exact .inl ⟨owner, howner, source, hdeclares, hcreate⟩
    | inr hpublishes =>
        obtain ⟨publication, hpublished, -, other, hother⟩ := hpublishes
        have hsame := hother.rootSigned.create
        rw [hcreate, Except.ok.injEq] at hsame
        exact .inr ⟨publication, hpublished, source, hsame ▸ hother⟩
  · intro hrecord
    cases hrecord with
    | inl hdeclares =>
        obtain ⟨owner, howner, source, hdeclares, hcreate⟩ := hdeclares
        obtain ⟨other, hfeed, hother⟩ := h.declares owner howner
        obtain rfl : source = other := congrArg Prod.snd (Except.ok.inj (hdeclares.symm.trans hother))
        exact ⟨source, (mem_flatMap_records h).mpr ⟨owner, howner, hfeed⟩, hcreate⟩
    | inr hpublishes =>
        obtain ⟨publication, hpublished, source, hpublishes⟩ := hpublishes
        obtain ⟨other, hfeed, -, otherRecord, hother⟩ := h.publishes publication hpublished
        obtain ⟨rfl, rfl⟩ := hpublishes.unique hother
        exact ⟨source, (mem_flatMap_records h).mpr
          ⟨_, (hprotocol.owners publication hpublished).1, hfeed⟩, hpublishes.rootSigned.create⟩

/-- The histories are consistent. -/
theorem PublishedIn.consistent : Consistent (histories.flatMap (·.records)) where
  wellFormed source hsource := by
    obtain ⟨owner, howner, hfeed⟩ := (mem_flatMap_records h).mp hsource
    cases h.sources owner howner source hfeed with
    | inl hdeclares =>
        obtain ⟨record, -, hcreate, -⟩ := of_declareFeed hprotocol.present hdeclares
        exact ⟨record, hcreate⟩
    | inr hpublishes =>
        obtain ⟨_, -, -, record, hpublishes⟩ := hpublishes
        exact ⟨record, hpublishes.rootSigned.create⟩
  unique left right hleft hright hid := by
    -- an id belongs to one declaration or to one publication
    have apart : ∀ {owner publication declared record : _} {source other : JsonValue},
        owner ∈ members → published publication →
        declareFeed communityId owner = .ok (owner, source) →
        createRecordEnvelope source = .ok declared → publication.Publishes record other →
        declared.id ≠ record.id := by
      intro owner publication declared record source other howner hpublished hdeclares hcreate
        hpublishes hsame
      obtain ⟨_, carried, hcreate', -, hroutes, hterms⟩ := of_declareFeed hprotocol.present hdeclares
      obtain rfl := Except.ok.inj (hcreate.symm.trans hcreate')
      rw [hroutes.id, (routed_of_carriedBy hpublishes.carried).1, memberId_of_declaredBy hterms,
        hterms.community, hterms.feedText] at hsame
      exact hprotocol.undeclared publication hpublished owner howner hsame.symm
    cases (contains_iff hprotocol h).mp hleft with
    | inl hleft =>
        obtain ⟨owner, howner, source, hdeclares, hcreate⟩ := hleft
        cases (contains_iff hprotocol h).mp hright with
        | inl hright =>
            obtain ⟨other, hother, otherSource, hotherDeclares, hotherCreate⟩ := hright
            obtain ⟨_, carried, hcreate', -, hroutes, hterms⟩ :=
              of_declareFeed hprotocol.present hdeclares
            obtain ⟨_, otherCarried, hotherCreate', -, hotherRoutes, hotherTerms⟩ :=
              of_declareFeed hprotocol.present hotherDeclares
            obtain rfl := Except.ok.inj (hcreate.symm.trans hcreate')
            obtain rfl := Except.ok.inj (hotherCreate.symm.trans hotherCreate')
            rw [hroutes.id, hotherRoutes.id, memberId_of_declaredBy hterms,
              memberId_of_declaredBy hotherTerms, hterms.community, hotherTerms.community] at hid
            obtain rfl := hprotocol.memberId_inj howner hother (memberId_of_memberFeedRecordId hid)
            obtain rfl : source = otherSource :=
              congrArg Prod.snd (Except.ok.inj (hdeclares.symm.trans hotherDeclares))
            exact Except.ok.inj (hcreate.symm.trans hotherCreate)
        | inr hright =>
            obtain ⟨publication, hpublished, otherSource, hpublishes⟩ := hright
            exact absurd hid (apart howner hpublished hdeclares hcreate hpublishes)
    | inr hleft =>
        obtain ⟨publication, hpublished, source, hpublishes⟩ := hleft
        cases (contains_iff hprotocol h).mp hright with
        | inl hright =>
            obtain ⟨owner, howner, otherSource, hdeclares, hcreate⟩ := hright
            exact absurd hid.symm (apart howner hpublished hdeclares hcreate hpublishes)
        | inr hright =>
            obtain ⟨other, hother, otherSource, hotherPublishes⟩ := hright
            rw [(routed_of_carriedBy hpublishes.carried).1,
              (routed_of_carriedBy hotherPublishes.carried).1] at hid
            obtain rfl := hprotocol.ids publication other hpublished hother hid
            exact (hpublishes.unique hotherPublishes).1

/-- A record that declares a feed is a member's declaration. -/
theorem declares_of_contains {record : RecordEnvelope}
    (hcontains : Contains (histories.flatMap (·.records)) record)
    (hkind : record.kind ∉ memberAuthoredDomainRecordKinds) :
    ∃ owner ∈ members, ∃ source declaration, declareFeed communityId owner = .ok (owner, source) ∧
      createRecordEnvelope source = .ok record ∧ DescribesDeclaration record.payload declaration ∧
      RoutesDeclaration record declaration ∧
      DeclaredBy owner.stored communityId owner.feedPublicKey owner.declaredAt declaration := by
  cases (contains_iff hprotocol h).mp hcontains with
  | inl hdeclares =>
      obtain ⟨owner, howner, source, hdeclares, hcreate⟩ := hdeclares
      obtain ⟨_, declaration, hcreate', hdescribes, hroutes, hterms⟩ :=
        of_declareFeed hprotocol.present hdeclares
      obtain rfl := Except.ok.inj (hcreate.symm.trans hcreate')
      exact ⟨owner, howner, source, declaration, hdeclares, hcreate, hdescribes, hroutes, hterms⟩
  | inr hpublishes =>
      obtain ⟨_, -, _, hpublishes⟩ := hpublishes
      exact absurd (kind_of_publishes hpublishes) hkind

/-- A declaration is held exactly when a member made it. -/
theorem holdsDeclaration_of_member {declaration : TimebankIdentity.MemberFeedDeclaration crypto}
    (hheld : HoldsDeclaration (histories.flatMap (·.records)) communityId declaration) :
    ∃ owner ∈ members, ∃ source record, declareFeed communityId owner = .ok (owner, source) ∧
      createRecordEnvelope source = .ok record ∧
      memberFeedDeclarationFromRecord crypto source = .ok declaration ∧
      DeclaredBy owner.stored communityId owner.feedPublicKey owner.declaredAt declaration := by
  obtain ⟨-, record, hcontains, hdescribes, hroutes⟩ := hheld
  have hkind : record.kind ∉ memberAuthoredDomainRecordKinds := by
    rw [hroutes.kind]
    decide
  obtain ⟨owner, howner, source, other, hdeclares, hcreate, hother, hotherRoutes, hterms⟩ :=
    declares_of_contains hprotocol h hcontains hkind
  have hread := (memberFeedDeclarationFromRecord_eq_ok hcreate).mpr ⟨hdescribes, hroutes⟩
  obtain rfl := Except.ok.inj (hread.symm.trans
    ((memberFeedDeclarationFromRecord_eq_ok hcreate).mpr ⟨hother, hotherRoutes⟩))
  exact ⟨owner, howner, source, record, hdeclares, hcreate, hread, hterms⟩

/-- The identity records of the histories are one declaration a member. -/
theorem PublishedIn.declaredFeeds :
    DeclaredFeeds crypto (histories.flatMap (·.records)) communityId where
  consistent := h.consistent hprotocol
  noLifecycle record hcontains _ := by
    by_cases hdomain : record.kind ∈ memberAuthoredDomainRecordKinds
    · have hnone : ∀ kind ∈ memberAuthoredDomainRecordKinds, isIdentityRecord kind = false ∧
          isRootSignedMemberSigningKeyLifecycleRecord kind = false := by decide
      exact hnone _ hdomain
    · obtain ⟨_, -, _, _, -, -, -, hroutes, -⟩ :=
        declares_of_contains hprotocol h hcontains hdomain
      rw [hroutes.kind]
      decide
  declarations record hcontains _ hkind := by
    have hnone : memberFeedDeclarationRecordKind ∉ memberAuthoredDomainRecordKinds := by decide
    obtain ⟨_, -, _, declaration, -, -, hdescribes, hroutes, -⟩ :=
      declares_of_contains hprotocol h hcontains (hkind ▸ hnone)
    exact ⟨declaration, hdescribes, hroutes⟩
  oneFeed left right hleft hright hmember := by
    obtain ⟨owner, howner, source, _, hdeclares, -, hread, hterms⟩ :=
      holdsDeclaration_of_member hprotocol h hleft
    obtain ⟨other, hother, otherSource, _, hotherDeclares, -, hotherRead, hotherTerms⟩ :=
      holdsDeclaration_of_member hprotocol h hright
    rw [memberId_of_declaredBy hterms, memberId_of_declaredBy hotherTerms] at hmember
    obtain rfl := hprotocol.memberId_inj howner hother hmember
    obtain rfl : source = otherSource :=
      congrArg Prod.snd (Except.ok.inj (hdeclares.symm.trans hotherDeclares))
    exact Except.ok.inj (hread.symm.trans hotherRead)

/-- The histories authorize the root key of every member. -/
theorem PublishedIn.rootAuthorized
    {authorizations : List (MemberSigningKeyAuthorization crypto)}
    (hauthorizes : AuthorizesRoots (histories.flatMap (·.records)) communityId authorizations)
    {owner : FeedOwner crypto} (howner : owner ∈ members) :
    RootAuthorized owner.stored communityId authorizations := by
  obtain ⟨source, -, hdeclares⟩ := h.declares owner howner
  obtain ⟨record, declaration, hcreate, hdescribes, hroutes, hterms⟩ :=
    of_declareFeed hprotocol.present hdeclares
  have hcontains : Contains (histories.flatMap (·.records)) record :=
    (contains_iff hprotocol h).mpr (.inl ⟨owner, howner, source, hdeclares, hcreate⟩)
  have hkey := hauthorizes.activeKey ⟨hterms.community, record, hcontains, hdescribes, hroutes⟩
  rw [memberId_of_declaredBy hterms, hterms.root] at hkey
  exact hkey

/-- The histories hold the published values of each kind. -/
theorem PublishedIn.holds_iff {α : Type} {kind : RecordKind α} {make : α → DomainValue}
    (hmake : CarriesAs kind make) (hkind : kind.kind ∈ memberAuthoredDomainRecordKinds) {value : α} :
    kind.Holds (histories.flatMap (·.records)) communityId value ↔
      ∃ publication, published publication ∧ publication.value = make value := by
  constructor
  · intro ⟨_, record, hcontains, hcarries⟩
    cases (contains_iff hprotocol h).mp hcontains with
    | inl hdeclares =>
        obtain ⟨_, -, _, hdeclares, hcreate⟩ := hdeclares
        obtain ⟨_, _, hcreate', -, hroutes, -⟩ := of_declareFeed hprotocol.present hdeclares
        obtain rfl := Except.ok.inj (hcreate.symm.trans hcreate')
        rw [← hcarries.kindName, hroutes.kind] at hkind
        exact absurd hkind (by decide)
    | inr hpublishes =>
        obtain ⟨publication, hpublished, source, hpublishes⟩ := hpublishes
        have hname := hpublishes.carried.kindName.symm.trans hcarries.kindName
        obtain ⟨content, hcontent⟩ := hmake.named publication.value hname
        have hcarried := hpublishes.carried
        rw [hcontent, hmake.carried] at hcarried
        rw [hcarries.unique hcarried]
        exact ⟨publication, hpublished, hcontent⟩
  · intro ⟨publication, hpublished, hvalue⟩
    obtain ⟨source, -, -, record, hpublishes⟩ := h.publishes publication hpublished
    have hcarried := hpublishes.carried
    rw [hvalue, hmake.carried] at hcarried
    have hcommunity := (routed_of_carriedBy hpublishes.carried).2.trans
      (hprotocol.owners publication hpublished).2
    exact ⟨hcarried.communityId.symm.trans hcommunity, record,
      (contains_iff hprotocol h).mpr (.inr ⟨publication, hpublished, source, hpublishes⟩), hcarried⟩

/-! ## Provenance -/

theorem PublishedIn.wellFormed : WellFormedHistories histories := by
  intro history hhistory
  obtain ⟨owner, -, hfeed⟩ := h.feeds history hhistory
  refine ⟨hfeed ▸ isFeedPublicKey_of_isHypercoreKey owner.hypercoreKey, fun source hsource ↦ ?_⟩
  obtain ⟨record, hcreate⟩ := (h.consistent hprotocol).wellFormed source
    (List.mem_flatMap.mpr ⟨history, hhistory, hsource⟩)
  exact isObject_of_field (createRecordEnvelope_eq_ok.mp hcreate).id

/-- The feeds that the histories declare are those of the members. -/
theorem declaresFeed_iff {feedPublicKey memberId : String} :
    DeclaresFeed crypto communityId histories feedPublicKey memberId ↔
      ∃ owner ∈ members, owner.feedPublicKey = feedPublicKey ∧ owner.memberId = memberId := by
  constructor
  · intro ⟨source, hsource, hread⟩
    obtain ⟨hmem, hdeclaration⟩ := List.mem_filter.mp hsource
    obtain ⟨owner, howner, hfeed⟩ := (mem_flatMap_records h).mp hmem
    have hkind := (of_decide_eq_true hdeclaration).2
    cases h.sources owner howner source hfeed with
    | inl hdeclares =>
        rw [readDeclaredFeed_of_declareFeed hprotocol.present hdeclares, Except.ok.injEq,
          Prod.mk.injEq] at hread
        exact ⟨owner, howner, hread⟩
    | inr hpublishes =>
        obtain ⟨_, -, -, record, hpublishes⟩ := hpublishes
        have hdomain := kind_of_publishes hpublishes
        rw [(createRecordEnvelope_eq_ok.mp hpublishes.rootSigned.create).kind, Option.some.injEq,
          JsonValue.str.injEq] at hkind
        rw [hkind] at hdomain
        exact absurd hdomain (by decide)
  · intro ⟨owner, howner, hfeed, hmember⟩
    obtain ⟨source, hin, hdeclares⟩ := h.declares owner howner
    rw [← hfeed, ← hmember]
    exact declaresFeed_of_declareFeed hprotocol.present hdeclares
      ((mem_flatMap_records h).mpr ⟨owner, howner, hin⟩)

theorem PublishedIn.feedsDeclared : FeedsDeclared crypto communityId histories where
  readable source hsource := by
    obtain ⟨hmem, hdeclaration⟩ := List.mem_filter.mp hsource
    obtain ⟨owner, howner, hfeed⟩ := (mem_flatMap_records h).mp hmem
    have hkind := (of_decide_eq_true hdeclaration).2
    cases h.sources owner howner source hfeed with
    | inl hdeclares => exact ⟨_, readDeclaredFeed_of_declareFeed hprotocol.present hdeclares⟩
    | inr hpublishes =>
        obtain ⟨_, -, -, record, hpublishes⟩ := hpublishes
        have hdomain := kind_of_publishes hpublishes
        rw [(createRecordEnvelope_eq_ok.mp hpublishes.rootSigned.create).kind, Option.some.injEq,
          JsonValue.str.injEq] at hkind
        rw [hkind] at hdomain
        exact absurd hdomain (by decide)
  oneMember feedPublicKey left right hleft hright := by
    obtain ⟨owner, howner, hfeed, rfl⟩ := (declaresFeed_iff hprotocol h).mp hleft
    obtain ⟨other, hother, hotherFeed, rfl⟩ := (declaresFeed_iff hprotocol h).mp hright
    rw [hprotocol.feeds owner howner other hother (hfeed.trans hotherFeed.symm)]

/-- Every record arrives through its author's feed. -/
theorem PublishedIn.provenance : Provenance crypto communityId histories := by
  intro history hhistory source hsource _ hmember
  obtain ⟨owner, howner, hfeed⟩ := h.feeds history hhistory
  refine ⟨owner.memberId, ?_, (declaresFeed_iff hprotocol h).mpr ⟨owner, howner, ?_, rfl⟩⟩
  · cases h.sources owner howner source ⟨history, hhistory, hfeed, hsource⟩ with
    | inl hdeclares =>
        obtain ⟨record, declaration, hcreate, -, hroutes, hterms⟩ :=
          of_declareFeed hprotocol.present hdeclares
        rw [(createRecordEnvelope_eq_ok.mp hcreate).authorId, hroutes.authorId,
          memberId_of_declaredBy hterms]
    | inr hpublishes =>
        obtain ⟨publication, -, hentry, record, hpublishes⟩ := hpublishes
        obtain rfl : owner = publication.owner := hentry
        rw [(createRecordEnvelope_eq_ok.mp hpublishes.rootSigned.create).authorId, hpublishes.author]
  · rw [hfeed, toLower_of_isHypercoreKey owner.hypercoreKey]

/-! ## Resolution -/

/-- When the published values refer to each other properly, the histories resolve. -/
theorem PublishedIn.resolves {localeCompare : String → String → Ordering}
    (hlinked : ∀ authorizations : List (MemberSigningKeyAuthorization crypto),
      (∀ owner ∈ members, RootAuthorized owner.stored communityId authorizations) →
      ∀ publication, published publication →
        publication.value.Linked (histories.flatMap (·.records)) communityId authorizations) :
    Succeeds (resolveTimebankMemberFeeds crypto localeCompare communityId histories) := by
  obtain ⟨authorizations, hauthorizations, hroots⟩ :=
    @DeclaredFeeds.authorizes _ _ _ localeCompare (h.declaredFeeds hprotocol)
  have hmembers : ∀ owner ∈ members, RootAuthorized owner.stored communityId authorizations :=
    fun owner howner ↦ h.rootAuthorized hprotocol hroots howner
  have hcoherent : Coherent (histories.flatMap (·.records)) communityId authorizations := by
    refine coherent_iff.mpr ⟨hprotocol.present, hroots.compatible, fun source hsource hdomain ↦ ?_⟩
    obtain ⟨owner, howner, hfeed⟩ := (mem_flatMap_records h).mp hsource
    cases h.sources owner howner source hfeed with
    | inl hdeclares =>
        obtain ⟨record, declaration, hcreate, -, hroutes, -⟩ :=
          of_declareFeed hprotocol.present hdeclares
        have hkind := ((isDomainRecord_iff hcreate).mp hdomain).2
        rw [hroutes.kind] at hkind
        exact absurd hkind (by decide)
    | inr hpublishes =>
        obtain ⟨publication, hpublished, hentry, record, hpublishes⟩ := hpublishes
        obtain rfl : owner = publication.owner := hentry
        have hcommunity := (routed_of_carriedBy hpublishes.carried).2.trans
          (hprotocol.owners publication hpublished).2
        obtain ⟨signed, hauthentic, hsame⟩ := hpublishes.rootSigned.authentic hpublishes.author
          hcommunity (hmembers _ howner)
        exact ⟨signed, publication.value, hauthentic, hsame ▸ hpublishes.carried,
          hlinked authorizations hmembers publication hpublished⟩
  obtain ⟨state, hstate⟩ := succeeds_of_coherent (h.consistent hprotocol) hauthorizations hcoherent
  exact ⟨state, resolveTimebankMemberFeeds_eq_ok.mpr ⟨h.wellFormed hprotocol,
    h.feedsDeclared hprotocol, h.provenance hprotocol, hstate⟩⟩

omit hprotocol h in
/-- Members who publish more have larger histories. -/
theorem PublishedIn.subset {more : Publication crypto → Prop} {larger : List MemberFeedHistory}
    (hprotocol : Protocol communityId members more)
    (h : PublishedIn communityId members published histories)
    (hlarger : PublishedIn communityId members more larger)
    (hmore : ∀ publication, published publication → more publication) :
    histories.flatMap (·.records) ⊆ larger.flatMap (·.records) := by
  intro source hsource
  obtain ⟨owner, howner, hfeed⟩ := (mem_flatMap_records h).mp hsource
  refine (mem_flatMap_records hlarger).mpr ?_
  cases h.sources owner howner source hfeed with
  | inl hdeclares =>
      obtain ⟨other, hother, hdeclaresOther⟩ := hlarger.declares owner howner
      obtain rfl : source = other :=
        congrArg Prod.snd (Except.ok.inj (hdeclares.symm.trans hdeclaresOther))
      exact ⟨owner, howner, hother⟩
  | inr hpublishes =>
      obtain ⟨publication, hpublished, -, record, hrecord⟩ := hpublishes
      obtain ⟨other, hother, -, otherRecord, hotherRecord⟩ :=
        hlarger.publishes publication (hmore publication hpublished)
      obtain ⟨-, rfl⟩ := hrecord.unique hotherRecord
      exact ⟨publication.owner, (hprotocol.owners publication (hmore publication hpublished)).1,
        hother⟩

end Histories

end PeerHours.Exchanges
