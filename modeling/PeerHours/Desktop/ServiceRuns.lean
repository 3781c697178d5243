import PeerHours.Desktop.DeclaredFeeds
import PeerHours.Desktop.FeedGrowth
import PeerHours.Desktop.ServiceEffects

/-!
# Runs of the member identity service

A run is a sequence of calls with fresh random ids. While listings and statements follow a declaration of
the feed for their community, and revocations are stamped later than activations, the records of each
community form an own feed.
-/

namespace PeerHours.Desktop

open Checked Json Stateful
open TimebankIdentity
open TimebankRecords

variable {crypto : Crypto}

/-! ## Record ids -/

theorem colon_not_mem_uuid (uuid : Uuid) : ':' ∉ uuid.1.toList := by
  intro hmem
  obtain ⟨-, hall⟩ := Bool.and_eq_true_iff.mp uuid.2
  exact absurd (List.all_eq_true.mp hall ':' hmem) (by decide)

variable (crypto) in
/-- The record id was issued by a call: it is a UUID of the run, or it names the feed of the record's
community. -/
def IssuedId (feedPublicKey : String) (used : List Uuid) (record : RecordEnvelope) : Prop :=
  (∃ uuid ∈ used, record.id = uuid.1 ∨ record.id = "member-key:" ++ uuid.1) ∨
    ∃ root : StoredMemberIdentity crypto,
      record.id = memberFeedRecordId root.memberId record.communityId feedPublicKey

section Fresh

variable {feedPublicKey : String} {used : List Uuid} {record : RecordEnvelope} {uuid : Uuid}

/-- Texts with a colon are no UUID. -/
theorem ne_uuid_of_colon {text : String} (h : ':' ∈ text.toList) : text ≠ uuid.1 :=
  fun hsame ↦ colon_not_mem_uuid uuid (hsame ▸ h)

theorem memberFeedRecordId_ne_memberKey {memberId communityId text : String} :
    memberFeedRecordId memberId communityId feedPublicKey ≠ "member-key:" ++ text := by
  intro h
  exact absurd (congrArg (·.toList[7]?) h) (by simp [memberFeedRecordId])

theorem colon_mem_memberFeedRecordId {memberId communityId : String} :
    ':' ∈ (memberFeedRecordId memberId communityId feedPublicKey).toList := by
  simp [memberFeedRecordId]

/-- A new UUID is no record id of the run yet. -/
theorem IssuedId.ne_uuid (h : IssuedId crypto feedPublicKey used record) (hfresh : uuid ∉ used) :
    record.id ≠ uuid.1 := by
  rcases h with ⟨earlier, hearlier, hid | hid⟩ | ⟨root, hid⟩
  · rw [hid]
    exact fun hsame ↦ hfresh (Subtype.ext hsame ▸ hearlier)
  · rw [hid]
    exact ne_uuid_of_colon (by simp)
  · rw [hid]
    exact ne_uuid_of_colon colon_mem_memberFeedRecordId

/-- Nor is the event id that is made of it. -/
theorem IssuedId.ne_memberKey (h : IssuedId crypto feedPublicKey used record) (hfresh : uuid ∉ used) :
    record.id ≠ "member-key:" ++ uuid.1 := by
  rcases h with ⟨earlier, hearlier, hid | hid⟩ | ⟨root, hid⟩
  · rw [hid]
    exact (ne_uuid_of_colon (by simp)).symm
  · rw [hid]
    exact fun hsame ↦ hfresh (Subtype.ext ((String.append_right_inj _).mp hsame) ▸ hearlier)
  · rw [hid]
    exact memberFeedRecordId_ne_memberKey

/-- The id of a feed declaration is taken only by a record of its community. -/
theorem IssuedId.ne_memberFeed (h : IssuedId crypto feedPublicKey used record)
    {root : StoredMemberIdentity crypto} {communityId : String}
    (hcommunity : record.communityId ≠ communityId) :
    record.id ≠ memberFeedRecordId root.memberId communityId feedPublicKey := by
  rcases h with ⟨earlier, hearlier, hid | hid⟩ | ⟨other, hid⟩
  · rw [hid]
    exact (ne_uuid_of_colon colon_mem_memberFeedRecordId).symm
  · rw [hid]
    exact memberFeedRecordId_ne_memberKey.symm
  · rw [hid]
    intro hsame
    obtain ⟨-, hrest⟩ := memberFeedRecordId_inj hsame
    exact hcommunity ((String.append_left_inj _).mp hrest)

end Fresh

/-! ## The invariant -/

/-- The source is a listing that the root key signed. -/
def RootListing (root : StoredMemberIdentity crypto) (source : JsonValue) : Prop :=
  ∃ record listing, RootSigned root record source ∧ publishedListingRecords.Carries record listing ∧
    record.authorId = root.memberId

/-- The records of a community in the service's feed: an own feed of the stored root identity, whose
listings the root key signed. -/
structure CommunityFeed (localeCompare : String → String → Ordering) (feedPublicKey communityId : String)
    (service : MemberIdentityService crypto) (root : StoredMemberIdentity crypto)
    (declaration : MemberFeedDeclaration crypto) : Prop where
  stored : service.root? = some root
  ownFeed : OwnFeed crypto localeCompare communityId service.records declaration
  key : declaration.rootPublicKey = root.rootPublicKey
  names : declaration.feedPublicKey = .str feedPublicKey
  listings : ∀ source ∈ service.records, IsDomainRecord communityId source → RootListing root source

/-- The feed of a run: its ids were issued, and the records of each community are an own feed. -/
structure SoundService (localeCompare : String → String → Ordering) (feedPublicKey : String)
    (used : List Uuid) (service : MemberIdentityService crypto) : Prop where
  consistent : Consistent service.records
  issued : ∀ record, Contains service.records record → IssuedId crypto feedPublicKey used record
  keys : ∀ communityId (statement : RootSignedMemberSigningKeyLifecycle crypto),
    HoldsStatement service.records communityId statement →
    ∃ uuid ∈ used, statement.event.keyId = "device:" ++ uuid.1
  communities : ∀ record, Contains service.records record → ∃ root declaration,
    CommunityFeed localeCompare feedPublicKey record.communityId service root declaration

/-- What a call needs to keep the feed sound: a declaration of the feed for the selected community before
it publishes, activates or revokes, and a revocation that sorts after the activations of its key. -/
structure Covered (localeCompare : String → String → Ordering) (feedPublicKey : String)
    (call : Call crypto) (service : MemberIdentityService crypto) : Prop where
  declared : call.operation ≠ .communityGenesisSigner → call.operation ≠ .createAndAnnounce →
    service.root? ≠ none → ∀ communityId, call.communityId = some communityId →
    existingDeclaration crypto communityId feedPublicKey service.records ≠ none
  later : ∀ keyId, call.operation = .revokeDeviceSigningKey keyId →
    ∀ communityId, call.communityId = some communityId →
    ∀ statement : RootSignedMemberSigningKeyLifecycle crypto,
      HoldsStatement service.records communityId statement → statement.event.action ≠ .revoke →
      statement.event.keyId = keyId →
      localeCompare statement.event.occurredAt call.now = .lt ∨
        localeCompare statement.event.occurredAt call.now = .eq ∧
          localeCompare statement.event.eventId ("member-key:" ++ call.recordUuid) = .lt

variable {localeCompare : String → String → Ordering} {feedPublicKey communityId : String}
  {used : List Uuid} {service after : MemberIdentityService crypto} {call : Call crypto}

/-- A declaration that is found is a record of the community. -/
theorem contains_of_existingDeclaration (hrecords : Consistent service.records)
    (h : existingDeclaration crypto communityId feedPublicKey service.records ≠ none) :
    ∃ record, Contains service.records record ∧ record.communityId = communityId := by
  obtain ⟨declaration, hfound⟩ := Option.ne_none_iff_exists'.mp h
  obtain ⟨source, hsource, hread⟩ := List.exists_of_findSome?_eq_some hfound
  unfold readOwnDeclaration at hread
  split at hread
  · cases hread
  · split at hread
    · cases hread
    · rename_i found hfrom
      split at hread
      · rename_i hterms
        obtain ⟨record, hcreate⟩ := hrecords.wellFormed source hsource
        obtain ⟨-, hroutes⟩ := (memberFeedDeclarationFromRecord_eq_ok hcreate).mp hfrom
        exact ⟨record, ⟨source, hsource, hcreate⟩, hroutes.communityId.trans hterms.1⟩
      · cases hread

/-- A declaration of the feed for the community is found wherever it stands. -/
theorem existingDeclaration_ne_none {records : List JsonValue} {source : JsonValue}
    {record : RecordEnvelope} {declaration : MemberFeedDeclaration crypto} (hsource : source ∈ records)
    (hcreate : createRecordEnvelope source = .ok record)
    (hdescribes : DescribesDeclaration record.payload declaration)
    (hroutes : RoutesDeclaration record declaration) (hcommunity : declaration.communityId = communityId)
    (hnames : declaration.feedPublicKey = .str feedPublicKey) :
    existingDeclaration crypto communityId feedPublicKey records ≠ none := by
  intro hnone
  have hread := List.findSome?_eq_none_iff.mp hnone source hsource
  have hkind : source.field "kind" = some (.str memberFeedDeclarationRecordKind) := by
    rw [(createRecordEnvelope_eq_ok.mp hcreate).kind, hroutes.kind]
  have hdecode := (memberFeedDeclarationFromRecord_eq_ok hcreate).mpr ⟨hdescribes, hroutes⟩
  simp [readOwnDeclaration, hkind, hdecode, hcommunity, hnames] at hread

/-- The declaration of an own feed is found. -/
theorem CommunityFeed.existing {root : StoredMemberIdentity crypto}
    {declaration : MemberFeedDeclaration crypto}
    (h : CommunityFeed localeCompare feedPublicKey communityId service root declaration) :
    existingDeclaration crypto communityId feedPublicKey service.records ≠ none := by
  obtain ⟨hcommunity, record, ⟨source, hsource, hcreate⟩, hdescribes, hroutes⟩ := h.ownFeed.held
  exact existingDeclaration_ne_none hsource hcreate hdescribes hroutes hcommunity h.names

/-! ## One call -/

section Append

variable {source : JsonValue} {record : RecordEnvelope}

/-- A record of another community leaves the records of a community as they are. -/
theorem CommunityFeed.concat_other {root : StoredMemberIdentity crypto}
    {declaration : MemberFeedDeclaration crypto}
    (h : CommunityFeed localeCompare feedPublicKey communityId service root declaration)
    (hcreate : createRecordEnvelope source = .ok record)
    (hfresh : ∀ other, Contains service.records other → other.id ≠ record.id)
    (hrecords : after.records = service.records ++ [source]) (hroot : after.root? = some root)
    (hother : record.communityId ≠ communityId) :
    CommunityFeed localeCompare feedPublicKey communityId after root declaration where
  stored := hroot
  ownFeed := by
    rw [hrecords]
    exact h.ownFeed.concat hcreate hfresh (fun hsame ↦ absurd hsame hother)
      fun statement hin _ hroutes ↦ absurd (hroutes.communityId.trans hin) hother
  key := h.key
  names := h.names
  listings := by
    intro other hmem hdomain
    rw [hrecords] at hmem
    rcases List.mem_append.mp hmem with hold | hnew
    · exact h.listings other hold hdomain
    · rw [List.mem_singleton.mp hnew, isDomainRecord_iff hcreate] at hdomain
      exact absurd hdomain.1 hother

/-- A feed stays sound with one more record, when the records of its community are sound. -/
theorem SoundService.append (h : SoundService localeCompare feedPublicKey used service)
    {larger : List Uuid} (hused : used ⊆ larger) (hcreate : createRecordEnvelope source = .ok record)
    (hfresh : ∀ other, Contains service.records other → other.id ≠ record.id)
    (hissued : IssuedId crypto feedPublicKey larger record)
    (hrecords : after.records = service.records ++ [source])
    (hroot : ∀ root, service.root? = some root → after.root? = some root)
    (hkeys : ∀ statement : RootSignedMemberSigningKeyLifecycle crypto,
      DescribesStatement record.payload statement →
      RoutesEvent (rootSignedRecordKindFor statement.event) record statement.event →
      ∃ uuid ∈ larger, statement.event.keyId = "device:" ++ uuid.1)
    (hcommunity : ∃ root declaration,
      CommunityFeed localeCompare feedPublicKey record.communityId after root declaration) :
    SoundService localeCompare feedPublicKey larger after where
  consistent := by
    rw [hrecords]
    exact h.consistent.concat hcreate hfresh
  issued := by
    intro other hother
    rw [hrecords, contains_concat hcreate] at hother
    rcases hother with hold | rfl
    · exact (h.issued other hold).imp_left fun ⟨uuid, huuid, hid⟩ ↦ ⟨uuid, hused huuid, hid⟩
    · exact hissued
  keys := by
    intro communityId statement hstatement
    rw [hrecords, holdsStatement_concat hcreate] at hstatement
    rcases hstatement with hold | ⟨-, hdescribes, hroutes⟩
    · obtain ⟨uuid, huuid, hkey⟩ := h.keys communityId statement hold
      exact ⟨uuid, hused huuid, hkey⟩
    · exact hkeys statement hdescribes hroutes
  communities := by
    intro other hother
    by_cases hsame : record.communityId = other.communityId
    · rw [← hsame]
      exact hcommunity
    · rw [hrecords, contains_concat hcreate] at hother
      rcases hother with hold | rfl
      · obtain ⟨root, declaration, hfeed⟩ := h.communities other hold
        exact ⟨root, declaration, hfeed.concat_other hcreate hfresh hrecords
          (hroot root hfeed.stored) hsame⟩
      · exact absurd rfl hsame

end Append

section Step

variable (h : SoundService localeCompare feedPublicKey used service)
include h

/-- Where no declaration of the feed is found, the feed has no record of the community. -/
theorem SoundService.no_record
    (hnone : existingDeclaration crypto communityId feedPublicKey service.records = none)
    {record : RecordEnvelope} (hcontains : Contains service.records record) :
    record.communityId ≠ communityId := by
  rintro rfl
  obtain ⟨root, declaration, hfeed⟩ := h.communities record hcontains
  exact hfeed.existing hnone

/-- Where a declaration of the feed is found, the records of the community are an own feed of the stored
identity. -/
theorem SoundService.communityFeed {root : StoredMemberIdentity crypto}
    (hroot : service.root? = some root)
    (hdeclared : existingDeclaration crypto communityId feedPublicKey service.records ≠ none) :
    ∃ declaration, CommunityFeed localeCompare feedPublicKey communityId service root declaration := by
  obtain ⟨record, hcontains, rfl⟩ := contains_of_existingDeclaration h.consistent hdeclared
  obtain ⟨other, declaration, hfeed⟩ := h.communities record hcontains
  obtain rfl := Option.some.inj (hroot.symm.trans hfeed.stored)
  exact ⟨declaration, hfeed⟩

/-- A call that appends nothing keeps the feed sound. -/
theorem SoundService.unchanged (hrecords : after.records = service.records)
    (hroot : ∀ root, service.root? = some root → after.root? = some root) {larger : List Uuid}
    (hused : used ⊆ larger) : SoundService localeCompare feedPublicKey larger after where
  consistent := hrecords ▸ h.consistent
  issued record hcontains := by
    rw [hrecords] at hcontains
    exact (h.issued record hcontains).imp_left fun ⟨uuid, huuid, hid⟩ ↦ ⟨uuid, hused huuid, hid⟩
  keys communityId statement hstatement := by
    rw [hrecords] at hstatement
    obtain ⟨uuid, huuid, hkey⟩ := h.keys communityId statement hstatement
    exact ⟨uuid, hused huuid, hkey⟩
  communities record hcontains := by
    rw [hrecords] at hcontains
    obtain ⟨root, declaration, hfeed⟩ := h.communities record hcontains
    exact ⟨root, declaration,
      { stored := hroot root hfeed.stored
        ownFeed := hrecords ▸ hfeed.ownFeed
        key := hfeed.key
        names := hfeed.names
        listings := hrecords ▸ hfeed.listings }⟩

/-- A first declaration of the feed for a community keeps the feed sound. -/
theorem SoundService.declared (hfeedKey : isHypercoreKey feedPublicKey = true)
    {root : StoredMemberIdentity crypto} {declaration : MemberFeedDeclaration crypto}
    {record : RecordEnvelope} {now : CanonicalTimestamp}
    (hnone : existingDeclaration crypto communityId feedPublicKey service.records = none)
    (hdeclaration : createDeclaration root communityId feedPublicKey now = .ok declaration)
    (hrecord : memberFeedDeclarationToRecord declaration = .ok record)
    (hrecords : after.records = service.records ++ [record.toJson])
    (hroot : ∀ earlier, service.root? = some earlier → earlier = root)
    (hafter : after.root? = some root) {larger : List Uuid} (hused : used ⊆ larger) :
    SoundService localeCompare feedPublicKey larger after := by
  have hin : communityId = declaration.communityId := JsonValue.str.inj (Option.some.inj
    (createMemberFeedDeclaration_eq_ok.mp hdeclaration).communityId)
  have hpresent : Text.blank communityId = false := hin ▸ declaration.present
  obtain ⟨other, otherRecord, carried, hother, hotherRecord, hdescribes, hroutes, hterms⟩ :=
    declare_spec root hpresent hfeedKey now.2
  obtain rfl := Except.ok.inj (hdeclaration.symm.trans hother)
  obtain rfl := Except.ok.inj (hrecord.symm.trans hotherRecord)
  have hcreate := createRecordEnvelope_toJson record
  have hcommunity : record.communityId = communityId := hroutes.communityId.trans hterms.community
  have hmember : carried.memberId = root.memberId := by
    show selfOwnedMemberId carried.rootPublicKey = selfOwnedMemberId root.rootPublicKey
    rw [hterms.root]
  have hid : record.id = memberFeedRecordId root.memberId record.communityId feedPublicKey := by
    rw [hroutes.id, hmember, ← hroutes.communityId, hterms.feedText]
  have hfresh : ∀ other, Contains service.records other → other.id ≠ record.id := by
    intro other hother
    rw [hid, hcommunity]
    exact (h.issued other hother).ne_memberFeed (h.no_record hnone hother)
  refine h.append hused hcreate hfresh (.inr ⟨root, hid⟩) hrecords ?_ ?_ ⟨root, carried, ?_⟩
  · intro earlier hearlier
    rw [hroot earlier hearlier]
    exact hafter
  · intro statement _ hstatement
    have hkind := isRootSigned_rootSignedRecordKindFor statement.event
    rw [← hstatement.kind, hroutes.kind] at hkind
    exact absurd hkind (by decide)
  · rw [hcommunity]
    exact
      { stored := hafter
        ownFeed := by
          rw [hrecords]
          exact ownFeed_of_declaration h.consistent hcreate hfresh
            (fun other hother ↦ h.no_record hnone hother) hdescribes hroutes hterms.community
        key := hterms.root
        names := hterms.feed
        listings := by
          intro source hmem hdomain
          rw [hrecords] at hmem
          rcases List.mem_append.mp hmem with hold | hnew
          · obtain ⟨envelope, henvelope⟩ := h.consistent.wellFormed source hold
            rw [isDomainRecord_iff henvelope] at hdomain
            exact absurd hdomain.1 (h.no_record hnone ⟨source, hold, henvelope⟩)
          · rw [List.mem_singleton.mp hnew, isDomainRecord_iff hcreate, hroutes.kind] at hdomain
            exact absurd hdomain.2 (by decide) }

/-- A listing under a new UUID, after a declaration of its community, keeps the feed sound. -/
theorem SoundService.listed {root : StoredMemberIdentity crypto} {listing : TimebankDomain.Listing}
    {record : RecordEnvelope} {source : JsonValue} {now : CanonicalTimestamp} {uuid : Uuid}
    (hdeclared : existingDeclaration crypto communityId feedPublicKey service.records ≠ none)
    (hroot : service.root? = some root) (hvalid : ListingValid listing) (hid : listing.id = uuid)
    (hmember : listing.memberId = root.memberId) (hlisting : listing.communityId = communityId)
    (hrecord : toPublishedListingRecord listing ⟨now, root.memberId⟩ = .ok record)
    (hsigned : signRecord root record = .ok source)
    (hrecords : after.records = service.records ++ [source]) (hafter : after.root? = some root)
    {larger : List Uuid} (hused : used ⊆ larger) (huuid : uuid ∉ used) (hnew : uuid ∈ larger) :
    SoundService localeCompare feedPublicKey larger after := by
  have hauthor : publishedListingRecords.mayAuthor listing root.memberId = true :=
    decide_eq_true hmember.symm
  obtain ⟨other, hother, hcarries, hauthorId, -⟩ := @RecordKind.Encodes.envelope _ _ _
    encodes_publishedListing _ hvalid ⟨now, root.memberId⟩ hauthor now.2
  obtain rfl := Except.ok.inj (hrecord.symm.trans
    ((encodes_publishedListing.encode hvalid hauthor).trans hother))
  obtain ⟨otherSource, hotherSource, hrootSigned⟩ := signRecord_spec root record
  obtain rfl := Except.ok.inj (hsigned.symm.trans hotherSource)
  have hcreate := hrootSigned.create
  have hrecordId : record.id = uuid := hcarries.id.trans hid
  have hcommunity : record.communityId = communityId := hcarries.communityId.trans hlisting
  have hnoStatement : ∀ statement : RootSignedMemberSigningKeyLifecycle crypto,
      ¬ RoutesEvent (rootSignedRecordKindFor statement.event) record statement.event := by
    intro statement hstatement
    have hkind := isRootSigned_rootSignedRecordKindFor statement.event
    rw [← hstatement.kind, hcarries.kindName] at hkind
    exact absurd hkind (by decide)
  have hfresh : ∀ other, Contains service.records other → other.id ≠ record.id :=
    fun other hother ↦ hrecordId ▸ (h.issued other hother).ne_uuid huuid
  obtain ⟨declaration, hfeed⟩ := h.communityFeed hroot hdeclared
  refine h.append hused hcreate hfresh (.inl ⟨uuid, hnew, .inl hrecordId⟩) hrecords ?_
    (fun statement _ hstatement ↦ absurd hstatement (hnoStatement statement)) ⟨root, declaration, ?_⟩
  · intro earlier hearlier
    rw [Option.some.inj (hearlier.symm.trans hroot)]
    exact hafter
  · rw [hcommunity]
    exact
      { stored := hafter
        ownFeed := by
          rw [hrecords]
          exact hfeed.ownFeed.concat hcreate hfresh (fun _ ↦ .listing hcarries.kindName)
            fun statement _ _ hstatement ↦ absurd hstatement (hnoStatement statement)
        key := hfeed.key
        names := hfeed.names
        listings := by
          intro other hmem hdomain
          rw [hrecords] at hmem
          rcases List.mem_append.mp hmem with hold | hnew
          · exact hfeed.listings other hold hdomain
          · rw [List.mem_singleton.mp hnew]
            exact ⟨record, listing, hrootSigned, hcarries, hauthorId⟩ }

/-- A statement of the root key that follows the lifecycle of its community, after a declaration, keeps
the feed sound. -/
theorem SoundService.stated {root : StoredMemberIdentity crypto}
    {statement : RootSignedMemberSigningKeyLifecycle crypto} {record : RecordEnvelope} {uuid : Uuid}
    (hdeclared : existingDeclaration crypto communityId feedPublicKey service.records ≠ none)
    (hroot : service.root? = some root) (hsigner : statement.rootPublicKey = root.rootPublicKey)
    (hid : statement.event.eventId = "member-key:" ++ uuid)
    (hevent : statement.event.communityId = communityId)
    (hfollows : FollowsLifecycle localeCompare communityId service.records statement)
    (hrecord : rootSignedMemberSigningKeyLifecycleToRecord statement = .ok record)
    (hrecords : after.records = service.records ++ [record.toJson])
    (hafter : after.root? = some root) {larger : List Uuid} (hused : used ⊆ larger)
    (huuid : uuid ∉ used) (hnew : uuid ∈ larger)
    (hkey : ∃ uuid ∈ larger, statement.event.keyId = "device:" ++ uuid.1) :
    SoundService localeCompare feedPublicKey larger after := by
  obtain ⟨other, hother, hdescribes, hroutes⟩ := lifecycleToRecord_spec statement
  obtain rfl := Except.ok.inj (hrecord.symm.trans hother)
  have hcreate := createRecordEnvelope_toJson record
  have hrecordId : record.id = "member-key:" ++ uuid := hroutes.id.trans hid
  have hcommunity : record.communityId = communityId := hroutes.communityId.trans hevent
  have hfresh : ∀ other, Contains service.records other → other.id ≠ record.id :=
    fun other hother ↦ hrecordId ▸ (h.issued other hother).ne_memberKey huuid
  obtain ⟨declaration, hfeed⟩ := h.communityFeed hroot hdeclared
  refine h.append hused hcreate hfresh (.inl ⟨uuid, hnew, .inr hrecordId⟩) hrecords ?_ ?_
    ⟨root, declaration, ?_⟩
  · intro earlier hearlier
    rw [Option.some.inj (hearlier.symm.trans hroot)]
    exact hafter
  · intro carried hcarried hroutesCarried
    rw [eq_of_describesStatement ⟨hcarried, hroutesCarried⟩ ⟨hdescribes, hroutes⟩]
    exact hkey
  · rw [hcommunity]
    exact
      { stored := hafter
        ownFeed := by
          rw [hrecords]
          refine hfeed.ownFeed.concat hcreate hfresh
            (fun _ ↦ .statement statement hdescribes hroutes (hsigner.trans hfeed.key.symm)) ?_
          intro carried _ hcarried hroutesCarried
          rw [eq_of_describesStatement ⟨hcarried, hroutesCarried⟩ ⟨hdescribes, hroutes⟩]
          exact ⟨hsigner.trans hfeed.key.symm, hfollows⟩
        key := hfeed.key
        names := hfeed.names
        listings := by
          intro other hmem hdomain
          rw [hrecords] at hmem
          rcases List.mem_append.mp hmem with hold | hnew
          · exact hfeed.listings other hold hdomain
          · rw [List.mem_singleton.mp hnew, isDomainRecord_iff hcreate, hroutes.kind] at hdomain
            rcases rootSignedRecordKindFor_cases statement.event with hkind | hkind
            · exact absurd (hkind ▸ hdomain.2) (by decide)
            · exact absurd (hkind ▸ hdomain.2) (by decide) }

/-- A covered call with new UUIDs keeps the feed sound. -/
theorem SoundService.step (hfeedKey : isHypercoreKey feedPublicKey = true)
    (heffect : Effect feedPublicKey call service after)
    (hcovered : Covered localeCompare feedPublicKey call service) (hkeyUuid : call.keyUuid ∉ used)
    (hrecordUuid : call.recordUuid ∉ used) :
    SoundService localeCompare feedPublicKey (call.keyUuid :: call.recordUuid :: used) after := by
  have hused : used ⊆ call.keyUuid :: call.recordUuid :: used := fun uuid hmem ↦ by simp [hmem]
  have hnew : call.recordUuid ∈ call.keyUuid :: call.recordUuid :: used := by simp
  cases heffect with
  | unchanged hrecords hroot => exact h.unchanged hrecords hroot hused
  | declared communityId root declaration record hnone hdeclaration hrecord hrecords hroot hafter =>
      exact h.declared hfeedKey hnone hdeclaration hrecord hrecords hroot hafter hused
  | listed communityId root listing record source hoperation hcommunity hroot hvalid hid hmember
      hlisting hrecord hsigned hrecords hafter =>
      obtain ⟨input, hoperation⟩ := hoperation
      have hdeclared := hcovered.declared (by rw [hoperation]; nofun) (by rw [hoperation]; nofun)
        (by rw [hroot]; nofun) communityId hcommunity
      exact h.listed hdeclared hroot hvalid hid hmember hlisting hrecord hsigned hrecords hafter hused
        hrecordUuid hnew
  | stated communityId root statement record hcommunity hroot hsigner hid hevent htime hsigns hrecord
      hrecords hafter =>
      have hdevice : ∀ uuid : Uuid, statement.event.keyId = "device:" ++ uuid.1 →
          statement.event.keyId ≠ rootKeyIdForMember statement.event.memberId := by
        intro uuid hkey hroot
        rw [hkey] at hroot
        exact absurd (congrArg (·.toList.head?) hroot) (by simp [rootKeyIdForMember])
      cases hsigns with
      | activation hoperation haction hkey =>
          have hdeclared := hcovered.declared (by rw [hoperation]; nofun) (by rw [hoperation]; nofun)
            (by rw [hroot]; nofun) communityId hcommunity
          refine h.stated hdeclared hroot hsigner hid hevent ⟨hdevice _ hkey, fun _ other hother hsame ↦ ?_,
            fun hrevoke ↦ absurd hrevoke haction⟩ hrecord hrecords hafter hused hrecordUuid hnew
            ⟨call.keyUuid, by simp, hkey⟩
          obtain ⟨uuid, huuid, hotherKey⟩ := h.keys communityId other hother
          rw [hotherKey, hkey, String.append_right_inj] at hsame
          exact hkeyUuid (Subtype.ext hsame ▸ huuid)
      | revocation hoperation haction hheld =>
          have hdeclared := hcovered.declared (by rw [hoperation]; nofun) (by rw [hoperation]; nofun)
            (by rw [hroot]; nofun) communityId hcommunity
          obtain ⟨named, hnamed, hsameKey⟩ := hheld
          obtain ⟨uuid, huuid, hnamedKey⟩ := h.keys communityId named hnamed
          have hkey := hsameKey.symm.trans hnamedKey
          refine h.stated hdeclared hroot hsigner hid hevent ⟨hdevice uuid hkey,
            fun hactivates ↦ absurd haction hactivates, fun _ other hother hactivates hother' ↦ ?_⟩ hrecord
            hrecords hafter hused hrecordUuid hnew ⟨uuid, hused huuid, hkey⟩
          have hlater := hcovered.later _ hoperation communityId hcommunity other hother hactivates hother'
          rw [← htime, ← hid] at hlater
          exact Ordering.then_eq_lt.mpr hlater

end Step

/-! ## Runs -/

/-- Every call of the run is covered where it happens. -/
def CoveredRun (localeCompare : String → String → Ordering) (feedPublicKey : String) :
    MemberIdentityService crypto → List (Call crypto) → Prop
  | _, [] => True
  | service, call :: rest =>
      Covered localeCompare feedPublicKey call service ∧
        CoveredRun localeCompare feedPublicKey
          (outcome (perform localeCompare feedPublicKey call) service).2 rest

/-- A covered call before a covered run. -/
theorem CoveredRun.cons {calls : List (Call crypto)} {result : Except String Unit}
    (hcovered : Covered localeCompare feedPublicKey call service)
    (hperform : outcome (perform localeCompare feedPublicKey call) service = (result, after))
    (hrest : CoveredRun localeCompare feedPublicKey after calls) :
    CoveredRun localeCompare feedPublicKey service (call :: calls) := by
  refine ⟨hcovered, ?_⟩
  rw [hperform]
  exact hrest

/-- A call before a run leaves its service to the run. -/
theorem performAll_cons {calls : List (Call crypto)} {result : Except String Unit}
    (hperform : outcome (perform localeCompare feedPublicKey call) service = (result, after)) :
    performAll localeCompare feedPublicKey service (call :: calls) =
      performAll localeCompare feedPublicKey after calls := by
  rw [performAll, List.foldl_cons, hperform]
  rfl

theorem CoveredRun.of_append {done rest : List (Call crypto)}
    (h : CoveredRun localeCompare feedPublicKey service (done ++ rest)) :
    CoveredRun localeCompare feedPublicKey service done := by
  induction done generalizing service with
  | nil => trivial
  | cons call done ih => exact ⟨h.1, ih h.2⟩

/-- The random ids of a run. -/
def uuidsOf (calls : List (Call crypto)) : List Uuid :=
  calls.flatMap fun call ↦ [call.keyUuid, call.recordUuid]

/-- A covered run with fresh UUIDs keeps the feed sound. -/
theorem SoundService.run (hfeedKey : isHypercoreKey feedPublicKey = true) {calls : List (Call crypto)}
    (h : SoundService localeCompare feedPublicKey used service)
    (hcovered : CoveredRun localeCompare feedPublicKey service calls)
    (hfresh : (uuidsOf calls ++ used).Nodup) :
    ∃ larger, SoundService localeCompare feedPublicKey larger
      (performAll localeCompare feedPublicKey service calls) := by
  induction calls generalizing service used with
  | nil => exact ⟨used, h⟩
  | cons call rest ih =>
      obtain ⟨hcall, hrest⟩ := hcovered
      have hnodup : (call.keyUuid :: call.recordUuid :: (uuidsOf rest ++ used)).Nodup := hfresh
      have hkeyUuid : call.keyUuid ∉ used := by
        intro hmem
        exact (List.nodup_cons.mp hnodup).1 (by simp [hmem])
      have hrecordUuid : call.recordUuid ∉ used := by
        intro hmem
        exact (List.nodup_cons.mp (List.nodup_cons.mp hnodup).2).1 (by simp [hmem])
      refine ih (h.step hfeedKey (perform_effect localeCompare) hcall hkeyUuid hrecordUuid) hrest ?_
      exact (List.perm_middle.trans (List.perm_middle.cons _)).nodup_iff.mpr hnodup

/-- A service whose feed is empty is sound. -/
theorem soundService_of_empty (hempty : service.records = []) :
    SoundService localeCompare feedPublicKey [] service where
  consistent := by
    rw [hempty]
    exact ⟨nofun, fun _ _ hleft ↦ absurd hleft contains_nil⟩
  issued record hcontains := absurd (hempty ▸ hcontains) contains_nil
  keys communityId statement hstatement := by
    obtain ⟨-, record, hcontains, -⟩ := hstatement
    exact absurd (hempty ▸ hcontains) contains_nil
  communities record hcontains := absurd (hempty ▸ hcontains) contains_nil

/-! ## Resolution -/

/-- A feed without records of the community resolves to its empty view. -/
theorem resolves_of_no_record {records : List JsonValue} (hconsistent : Consistent records)
    (hcommunity : Text.blank communityId = false) (hfeedKey : isHypercoreKey feedPublicKey = true)
    (hnone : ∀ record, Contains records record → record.communityId ≠ communityId) :
    Succeeds (resolveTimebankMemberFeeds crypto localeCompare communityId
      [⟨feedPublicKey, records⟩]) := by
  have hfield : ∀ source ∈ records, source.field "communityId" ≠ some (.str communityId) := by
    intro source hsource hfield
    obtain ⟨record, hcreate⟩ := hconsistent.wellFormed source hsource
    refine hnone record ⟨source, hsource, hcreate⟩ ?_
    simpa [(createRecordEnvelope_eq_ok.mp hcreate).communityId] using hfield
  have hdeclarations : feedDeclarations communityId [⟨feedPublicKey, records⟩] = [] := by
    refine List.filter_eq_nil_iff.mpr fun source hsource hdeclares ↦ ?_
    exact hfield source (by simpa using hsource) (of_decide_eq_true hdeclares).1
  have hdeclared : DeclaredFeeds crypto records communityId :=
    { consistent := hconsistent
      noLifecycle := fun record hcontains hsame ↦ absurd hsame (hnone record hcontains)
      declarations := fun record hcontains hsame ↦ absurd hsame (hnone record hcontains)
      oneFeed := by
        intro left right hleft
        obtain ⟨hsame, record, hcontains, -, hroutes⟩ := hleft
        exact absurd (hroutes.communityId.trans hsame) (hnone record hcontains) }
  obtain ⟨authorizations, hauthorizations, hroots⟩ := hdeclared.authorizes
  obtain ⟨state, hstate⟩ := succeeds_of_coherent hconsistent hauthorizations (coherent_iff.mpr
    ⟨hcommunity, hroots.compatible, fun source hsource hdomain ↦
      absurd hdomain.1 (hfield source hsource)⟩)
  refine ⟨state, resolveTimebankMemberFeeds_eq_ok.mpr ⟨?_, ⟨?_, ?_⟩, ?_, by simpa using hstate⟩⟩
  · intro history hhistory
    rw [List.mem_singleton.mp hhistory]
    refine ⟨isFeedPublicKey_of_isHypercoreKey hfeedKey, fun source hsource ↦ ?_⟩
    obtain ⟨record, hcreate⟩ := hconsistent.wellFormed source hsource
    exact isObject_of_field (createRecordEnvelope_eq_ok.mp hcreate).id
  · rw [hdeclarations]
    nofun
  · intro declared left right hleft
    rw [DeclaresFeed, hdeclarations] at hleft
    obtain ⟨_, hnil, -⟩ := hleft
    cases hnil
  · intro history hhistory source hsource hsame
    rw [List.mem_singleton.mp hhistory] at hsource
    exact absurd hsame (hfield source hsource)

/-- Listings that the root key signed are listings of the own feed. -/
theorem RootListing.own {root : StoredMemberIdentity crypto}
    {declaration : MemberFeedDeclaration crypto} {records : List JsonValue} {source : JsonValue}
    (h : RootListing root source) (hkey : declaration.rootPublicKey = root.rootPublicKey)
    (hdomain : IsDomainRecord communityId source) :
    OwnListing records communityId declaration source := by
  obtain ⟨record, listing, ⟨signed, hcreate, rfl, hkeyId, hsignature⟩, hcarries, hauthor⟩ := h
  have hmember : declaration.memberId = root.memberId := by
    show selfOwnedMemberId declaration.rootPublicKey = selfOwnedMemberId root.rootPublicKey
    rw [hkey]
  refine ⟨signed, listing, declaration.rootPublicKey, hcreate, hcarries,
    ((isDomainRecord_iff (createMemberSignedRecord_eq_ok.mp hcreate).1).mp hdomain).1,
    hauthor.trans hmember.symm, ?_, ?_⟩
  · rw [hkeyId, ← hmember]
    exact .root
  · rw [hsignature, hkey]
    exact root.complete _

/-- A sound feed resolves alone, for every community. -/
theorem SoundService.resolves [Std.TransCmp localeCompare]
    (h : SoundService localeCompare feedPublicKey used service)
    (hfeedKey : isHypercoreKey feedPublicKey = true) (hcommunity : Text.blank communityId = false) :
    Succeeds (resolveTimebankMemberFeeds crypto localeCompare communityId
      [⟨feedPublicKey, service.records⟩]) := by
  by_cases hsome : ∃ record, Contains service.records record ∧ record.communityId = communityId
  · obtain ⟨record, hcontains, rfl⟩ := hsome
    obtain ⟨root, declaration, hfeed⟩ := h.communities record hcontains
    exact hfeed.ownFeed.resolves_feed hcommunity hfeedKey hfeed.names fun source hsource hdomain ↦
      (hfeed.listings source hsource hdomain).own hfeed.key hdomain
  · exact resolves_of_no_record h.consistent hcommunity hfeedKey fun record hcontains hsame ↦
      hsome ⟨record, hcontains, hsame⟩

/-- Every record of a sound feed is covered by a declaration of the feed for its community. -/
theorem SoundService.declares (h : SoundService localeCompare feedPublicKey used service)
    (hfeedKey : isHypercoreKey feedPublicKey = true) {record : RecordEnvelope}
    (hcontains : Contains service.records record) :
    ∃ memberId, DeclaresFeed crypto record.communityId [⟨feedPublicKey, service.records⟩]
      feedPublicKey memberId := by
  obtain ⟨root, declaration, hfeed⟩ := h.communities record hcontains
  exact ⟨declaration.memberId, (hfeed.ownFeed.declaresFeed_iff hfeedKey hfeed.names).mpr ⟨rfl, rfl⟩⟩

end PeerHours.Desktop
