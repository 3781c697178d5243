import PeerHours.Exchanges.Garden
import PeerHours.Identity.Revocation
import PeerHours.Desktop.OwnFeed
import PeerHours.Records.Revocations

/-!
# Device-key revocations in member feeds

A member revokes a device key in its declared feed, later than every record. The revocation leaves the
ledger alone when nothing in the histories was signed with that key. Otherwise the whole view is gone.
-/

namespace PeerHours.Exchanges

open Checked Json
open TimebankIdentity
open TimebankRecords

variable {crypto : Crypto} {communityId : String} {localeCompare : String → String → Ordering}

/-- The histories with one more record at the end of a feed. -/
def appendTo (before : List MemberFeedHistory) (feed : MemberFeedHistory)
    (after : List MemberFeedHistory) (source : JsonValue) : List MemberFeedHistory :=
  before ++ { feed with records := feed.records ++ [source] } :: after

section Append

variable {before after : List MemberFeedHistory} {feed : MemberFeedHistory} {source : JsonValue}

theorem flatMap_appendTo :
    (appendTo before feed after source).flatMap (·.records) =
      (before.flatMap (·.records) ++ feed.records) ++ source :: after.flatMap (·.records) := by
  simp [appendTo]

theorem flatMap_feed :
    (before ++ feed :: after).flatMap (·.records) =
      (before.flatMap (·.records) ++ feed.records) ++ after.flatMap (·.records) := by
  simp

/-- A record that is no declaration, and whose author declared the feed it is appended to, passes the
checks of the feeds: all depends on the records together. -/
theorem resolve_appendTo {state result : ResolvedTimebankState crypto}
    (h : resolveTimebankMemberFeeds crypto localeCompare communityId (before ++ feed :: after) =
      .ok state)
    (hobject : source.isObject = true) (hdeclares : ¬ isFeedDeclaration communityId source)
    (hauthor : ∃ memberId, source.field "authorId" = some (.str memberId) ∧
      DeclaresFeed crypto communityId (before ++ feed :: after) feed.feedPublicKey.toLower memberId) :
    resolveTimebankMemberFeeds crypto localeCompare communityId (appendTo before feed after source) =
        .ok result ↔
      resolveTimebankRecords crypto localeCompare communityId
        ((before.flatMap (·.records) ++ feed.records) ++ source :: after.flatMap (·.records)) =
          .ok result := by
  obtain ⟨hwellFormed, hdeclared, hprovenance, -⟩ := resolveTimebankMemberFeeds_eq_ok.mp h
  have hsame : feedDeclarations communityId (appendTo before feed after source) =
      feedDeclarations communityId (before ++ feed :: after) := by
    rw [feedDeclarations, feedDeclarations, flatMap_appendTo, flatMap_feed]
    simp [List.filter_append, hdeclares]
  have hdeclaresFeed : ∀ feedPublicKey memberId,
      DeclaresFeed crypto communityId (appendTo before feed after source) feedPublicKey memberId ↔
        DeclaresFeed crypto communityId (before ++ feed :: after) feedPublicKey memberId := by
    intro feedPublicKey memberId
    rw [DeclaresFeed, DeclaresFeed, hsame]
  -- a history of the longer list is an earlier one, perhaps with the record at its end
  have hhistories : ∀ history ∈ appendTo before feed after source,
      ∃ earlier ∈ before ++ feed :: after, history.feedPublicKey = earlier.feedPublicKey ∧
        ∀ record ∈ history.records, record ∈ earlier.records ∨ earlier = feed ∧ record = source := by
    intro history hhistory
    simp only [appendTo, List.mem_append, List.mem_cons] at hhistory
    rcases hhistory with hbefore | rfl | hafter
    · exact ⟨history, by simp [hbefore], rfl, fun record hrecord ↦ .inl hrecord⟩
    · exact ⟨feed, by simp, rfl, by simp⟩
    · exact ⟨history, by simp [hafter], rfl, fun record hrecord ↦ .inl hrecord⟩
  rw [resolveTimebankMemberFeeds_eq_ok, flatMap_appendTo]
  refine ⟨fun hresult ↦ hresult.2.2.2, fun hresult ↦ ⟨?_, ⟨?_, ?_⟩, ?_, hresult⟩⟩
  · intro history hhistory
    obtain ⟨earlier, hearlier, hfeed, hrecords⟩ := hhistories history hhistory
    refine ⟨hfeed ▸ (hwellFormed earlier hearlier).1, fun record hrecord ↦ ?_⟩
    cases hrecords record hrecord with
    | inl hold => exact (hwellFormed earlier hearlier).2 record hold
    | inr hnew => exact hnew.2 ▸ hobject
  · rw [hsame]
    exact hdeclared.readable
  · intro feedPublicKey left right hleft hright
    exact hdeclared.oneMember feedPublicKey left right ((hdeclaresFeed _ _).mp hleft)
      ((hdeclaresFeed _ _).mp hright)
  · intro history hhistory record hrecord hcommunity hmember
    obtain ⟨earlier, hearlier, hfeed, hrecords⟩ := hhistories history hhistory
    rw [hfeed]
    simp only [hdeclaresFeed]
    cases hrecords record hrecord with
    | inl hold => exact hprovenance earlier hearlier record hold hcommunity hmember
    | inr hnew =>
        rw [hnew.1, hnew.2]
        exact hauthor

end Append

/-- A device-key revocation at the end of its member's declared feed keeps the histories resolving, and
their ledger, exactly when its record id is new and every signature that the histories need verifies
without the revoked key. -/
theorem revocation_harmless_iff [Std.TransCmp localeCompare] {before after : List MemberFeedHistory}
    {feed : MemberFeedHistory} {state : ResolvedTimebankState crypto}
    (h : resolveTimebankMemberFeeds crypto localeCompare communityId (before ++ feed :: after) =
      .ok state)
    {source : JsonValue} {statement : RootSignedMemberSigningKeyLifecycle crypto}
    (hrevocation : LateRevocation crypto localeCompare communityId
      ((before ++ feed :: after).flatMap (·.records)) source statement)
    (hfeed : DeclaresFeed crypto communityId (before ++ feed :: after) feed.feedPublicKey.toLower
      statement.event.memberId) :
    (∃ extended, resolveTimebankMemberFeeds crypto localeCompare communityId
        (appendTo before feed after source) = .ok extended ∧
        extended.ledger.transfers = state.ledger.transfers ∧
        extended.ledger.postings = state.ledger.postings ∧
        extended.ledger.balances = state.ledger.balances) ↔
      (∀ record, Contains ((before ++ feed :: after).flatMap (·.records)) record →
        record.id ≠ statement.event.eventId) ∧
      ∀ input, ChecksSignature ((before ++ feed :: after).flatMap (·.records)) communityId input →
        VerifiesUnder (withoutKey statement.event.memberId statement.event.keyId
          state.authorizations) input := by
  have hresolve := (resolveTimebankMemberFeeds_eq_ok.mp h).2.2.2
  obtain ⟨record, hcreate, -, hroutes⟩ := hrevocation.envelope
  have hfields := createRecordEnvelope_eq_ok.mp hcreate
  have hdeclares : ¬ isFeedDeclaration communityId source := by
    intro hdeclares
    have hkind := hdeclares.2
    rw [hfields.kind, hroutes.kind] at hkind
    exact absurd hkind (by decide)
  have hauthor : source.field "authorId" = some (.str statement.event.memberId) := by
    rw [hfields.authorId, hroutes.authorId]
  simp only [resolve_appendTo h (isObject_of_field hfields.id) hdeclares ⟨_, hauthor, hfeed⟩]
  rw [flatMap_feed] at hresolve hrevocation ⊢
  constructor
  · intro hresolves
    obtain ⟨extended, hextended, -⟩ := hresolves
    exact hrevocation.of_resolve hresolve hextended
  · intro ⟨hfresh, hsigned⟩
    obtain ⟨extended, hextended, hledger⟩ := hrevocation.resolves hresolve hfresh hsigned
    refine ⟨extended, hextended, ?_⟩
    rw [hledger]
    exact ⟨rfl, rfl, rfl⟩

namespace Garden

open Desktop

/-- A record signed with Ada's phone key. -/
def phoneSigned (record : RecordEnvelope) : MemberSignedRecord :=
  { record with
    signingKeyId := "phone"
    signature := Base64Url.encode (keyBytes "phone")
    signed := ⟨by decide, by decide +kernel⟩ }

/-- Ada declares her feed, activates her phone key, and offers with it. -/
structure PhoneFeed (declared activated listed : JsonValue) : Prop where
  declares : declareFeed "garden" ada = .ok (ada, declared)
  activates : ∃ record, rootSignedMemberSigningKeyLifecycleToRecord phoneActivation = .ok record ∧
    record.toJson = activated
  lists : ∃ record, toPublishedListingRecord adaOffer.listing ⟨noon, ada.memberId⟩ = .ok record ∧
    (phoneSigned record).toJson = listed

/-- The envelopes of the phone feed. -/
structure PhoneEnvelopes (declared activated listed : JsonValue)
    (declaration : MemberFeedDeclaration transparentCrypto)
    (first second third : RecordEnvelope) : Prop where
  declared : createRecordEnvelope declared = .ok first
  activated : createRecordEnvelope activated = .ok second
  listed : createMemberSignedRecord listed = .ok (phoneSigned third)
  describes : DescribesDeclaration first.payload declaration
  routes : RoutesDeclaration first declaration
  own : DeclaredBy ada.stored "garden" ada.feedPublicKey noon declaration
  activation : DescribesStatement second.payload phoneActivation ∧
    RoutesEvent rootSignedKeyActivationRecordKind second phoneActivation.event
  listing : publishedListingRecords.Carries third adaOffer.listing
  author : third.authorId = ada.memberId
  time : third.occurredAt = noon

theorem exists_phoneFeed : ∃ declared activated listed, PhoneFeed declared activated listed := by
  obtain ⟨declared, -, -, hdeclared, -⟩ := @declareFeed_spec _ "garden" (by decide) ada
  obtain ⟨activation, hactivation, -⟩ := lifecycleToRecord_spec phoneActivation
  obtain ⟨record, hrecord, -⟩ := adaOffer.envelope
  exact ⟨declared, _, _, hdeclared, ⟨activation, hactivation, rfl⟩, ⟨record, hrecord, rfl⟩⟩

variable {declared activated listed : JsonValue}

theorem PhoneFeed.envelopes (h : PhoneFeed declared activated listed) :
    ∃ declaration first second third,
      PhoneEnvelopes declared activated listed declaration first second third := by
  obtain ⟨first, declaration, hfirst, hdescribes, hroutes, hown⟩ :=
    of_declareFeed (by decide) h.declares
  obtain ⟨second, hsecond, rfl⟩ := h.activates
  obtain ⟨other, hother, hactivation⟩ := lifecycleToRecord_spec phoneActivation
  obtain rfl := Except.ok.inj (hsecond.symm.trans hother)
  obtain ⟨third, hthird, rfl⟩ := h.lists
  obtain ⟨record, hrecord, hcarries, hauthor, htime⟩ := adaOffer.envelope
  obtain rfl := Except.ok.inj (hthird.symm.trans hrecord)
  exact ⟨declaration, first, second, third, hfirst, createRecordEnvelope_toJson second,
    createMemberSignedRecord_toJson (phoneSigned third), hdescribes, hroutes, hown, hactivation,
    hcarries, hauthor, htime⟩

section Envelopes

variable {declaration : MemberFeedDeclaration transparentCrypto} {first second third : RecordEnvelope}

theorem PhoneEnvelopes.contains_iff
    (h : PhoneEnvelopes declared activated listed declaration first second third)
    {record : RecordEnvelope} :
    Contains [declared, activated, listed] record ↔
      record = first ∨ record = second ∨ record = third := by
  have hlisted := (createMemberSignedRecord_eq_ok.mp h.listed).1
  change createRecordEnvelope listed = .ok third at hlisted
  simp only [contains_cons, h.declared, h.activated, hlisted, Except.ok.injEq, contains_nil, or_false]
  rw [eq_comm, @eq_comm _ second, @eq_comm _ third]

/-- The records of the phone feed have three ids. -/
theorem PhoneEnvelopes.ids
    (h : PhoneEnvelopes declared activated listed declaration first second third) :
    first.id = memberFeedRecordId declaration.memberId "garden" ada.feedPublicKey ∧
      second.id = "phone/1" ∧ third.id = "ada-offer" := by
  refine ⟨?_, h.activation.2.id, h.listing.id⟩
  rw [h.routes.id, h.own.community, h.own.feedText]

theorem PhoneEnvelopes.statement
    (h : PhoneEnvelopes declared activated listed declaration first second third)
    {statement : RootSignedMemberSigningKeyLifecycle transparentCrypto}
    (hstatement : HoldsStatement [declared, activated, listed] "garden" statement) :
    statement = phoneActivation := by
  obtain ⟨-, record, hcontains, hdescribes, hroutes⟩ := hstatement
  have hkind := isRootSigned_rootSignedRecordKindFor statement.event
  rw [← hroutes.kind] at hkind
  rcases h.contains_iff.mp hcontains with rfl | rfl | rfl
  · rw [h.routes.kind] at hkind
    exact absurd hkind (by decide)
  · exact eq_of_describesStatement ⟨hdescribes, hroutes⟩ h.activation
  · rw [h.listing.kindName] at hkind
    exact absurd hkind (by decide)

/-- The phone feed is an own feed. -/
theorem PhoneEnvelopes.ownFeed
    (h : PhoneEnvelopes declared activated listed declaration first second third) :
    OwnFeed transparentCrypto compare "garden" [declared, activated, listed] declaration where
  consistent := by
    constructor
    · intro source hsource
      simp only [List.mem_cons, List.not_mem_nil, or_false] at hsource
      rcases hsource with rfl | rfl | rfl
      · exact ⟨first, h.declared⟩
      · exact ⟨second, h.activated⟩
      · exact ⟨_, (createMemberSignedRecord_eq_ok.mp h.listed).1⟩
    · obtain ⟨hfirst, hsecond, hthird⟩ := h.ids
      intro left right hleft hright hid
      rcases h.contains_iff.mp hleft with rfl | rfl | rfl <;>
        rcases h.contains_iff.mp hright with rfl | rfl | rfl <;>
        first
        | rfl
        | simp only [hfirst, hsecond, hthird, memberFeedRecordId] at hid
          exact absurd (congrArg (·.toList.head?) hid) (by simp)
  held := ⟨h.own.community, first, h.contains_iff.mpr (.inl rfl), h.describes, h.routes⟩
  carries := by
    intro record hcontains hcommunity
    rcases h.contains_iff.mp hcontains with rfl | rfl | rfl
    · exact .declaration h.describes h.routes
    · exact .statement phoneActivation h.activation.1 h.activation.2 h.own.root.symm
    · exact .listing h.listing.kindName
  activatedOnce := by
    intro left right hleft hright _ _ _
    rw [h.statement hleft, h.statement hright]
  revokedLater := by
    intro activation revocation _ hrevocation _ hrevoke
    rw [h.statement hrevocation] at hrevoke
    cases hrevoke
  device := by
    intro statement hstatement hkey
    rw [h.statement hstatement] at hkey
    exact absurd (congrArg (·.toList.head?) hkey) (by simp [rootKeyIdForMember]; decide)

/-- The phone key speaks for Ada in the phone feed. -/
theorem PhoneEnvelopes.ownKey
    (h : PhoneEnvelopes declared activated listed declaration first second third) :
    OwnKey [declared, activated, listed] "garden" declaration "phone"
      (transparentKey "phone" (by decide) (by decide)) := by
  have hheld : HoldsStatement [declared, activated, listed] "garden" phoneActivation :=
    ⟨rfl, second, h.contains_iff.mpr (.inr (.inl rfl)), h.activation.1, h.activation.2⟩
  refine .device hheld rfl fun other hother hrevoke ↦ ?_
  rw [h.statement hother] at hrevoke
  cases hrevoke

/-- Ada's root key, which declared the feed, makes her its member. -/
theorem PhoneEnvelopes.memberId
    (h : PhoneEnvelopes declared activated listed declaration first second third) :
    declaration.memberId = ada.memberId := memberId_of_declaredBy h.own

theorem PhoneEnvelopes.resolves
    (h : PhoneEnvelopes declared activated listed declaration first second third) :
    Succeeds (resolveTimebankMemberFeeds transparentCrypto compare "garden"
      [⟨ada.feedPublicKey, [declared, activated, listed]⟩]) := by
  refine h.ownFeed.resolves_feed (by decide) ada.hypercoreKey h.own.feed fun source hsource hdomain ↦ ?_
  simp only [List.mem_cons, List.not_mem_nil, or_false] at hsource
  rcases hsource with rfl | rfl | rfl
  · rw [isDomainRecord_iff h.declared, h.routes.kind] at hdomain
    exact absurd hdomain.2 (by decide)
  · rw [isDomainRecord_iff h.activated, h.activation.2.kind] at hdomain
    exact absurd hdomain.2 (by decide)
  · refine ⟨_, _, _, h.listed, h.listing, h.listing.communityId, h.author.trans h.memberId.symm,
      h.ownKey, ?_⟩
    exact signedBy_transparentKey "phone" (by decide) (by decide) _

/-- The record of the phone key's revocation. -/
theorem PhoneEnvelopes.lateRevocation
    (h : PhoneEnvelopes declared activated listed declaration first second third)
    {revocation : RecordEnvelope}
    (hrevocation : rootSignedMemberSigningKeyLifecycleToRecord phoneRevocation = .ok revocation) :
    LateRevocation transparentCrypto compare "garden" [declared, activated, listed]
      revocation.toJson phoneRevocation where
  read := by
    obtain ⟨record, hrecord, hdescribes, hroutes⟩ := lifecycleToRecord_spec phoneRevocation
    obtain rfl := Except.ok.inj (hrecord.symm.trans hrevocation)
    exact (rootSignedMemberSigningKeyLifecycleFromRecord_eq_ok
      (createRecordEnvelope_toJson record)).mpr ⟨hdescribes, hroutes⟩
  action := rfl
  community := rfl
  root := ⟨declaration, h.ownFeed.held, congrArg _ h.own.root⟩
  device := by
    intro hkey
    exact absurd (congrArg (·.toList.head?) hkey) (by simp [rootKeyIdForMember]; decide)
  later := by
    intro record hcontains
    rcases h.contains_iff.mp hcontains with rfl | rfl | rfl
    · rw [h.routes.occurredAt, h.own.time]
      decide
    · rw [h.activation.2.occurredAt]
      decide
    · rw [h.time]
      decide

/-- The offer in the phone feed asks for a signature of the phone key. -/
theorem PhoneEnvelopes.checksSignature
    (h : PhoneEnvelopes declared activated listed declaration first second third) :
    ∃ payload signature, ChecksSignature [declared, activated, listed] "garden"
      ⟨"garden", declaration.memberId, "phone", payload, signature⟩ := by
  have hcommunity : (phoneSigned third).communityId = "garden" := h.listing.communityId
  have hauthor : (phoneSigned third).authorId = declaration.memberId := h.author.trans h.memberId.symm
  have hkind : (phoneSigned third).kind = publishedListingRecordKind := h.listing.kindName
  have hdomain : IsDomainRecord "garden" listed := by
    rw [isDomainRecord_iff (createMemberSignedRecord_eq_ok.mp h.listed).1, hkind]
    exact ⟨hcommunity, by decide⟩
  have hmem : listed ∈ [declared, activated, listed] := by simp
  have hchecks := ChecksSignature.record hmem hdomain h.listed
  rw [recordSignatureInput, hcommunity, hauthor] at hchecks
  exact ⟨_, _, hchecks⟩

end Envelopes

theorem revocation_harmless_iff_phone :
    ∃ declared activated listed revocation, ∃ state : ResolvedTimebankState transparentCrypto,
      PhoneFeed declared activated listed ∧
      rootSignedMemberSigningKeyLifecycleToRecord phoneRevocation = .ok revocation ∧
      ((∃ extended, resolveTimebankMemberFeeds transparentCrypto compare "garden"
          (appendTo [] ⟨ada.feedPublicKey, [declared, activated, listed]⟩ [] revocation.toJson) =
            .ok extended ∧
          extended.ledger.transfers = state.ledger.transfers ∧
          extended.ledger.postings = state.ledger.postings ∧
          extended.ledger.balances = state.ledger.balances) ↔
        (∀ record, Contains [declared, activated, listed] record →
          record.id ≠ phoneRevocation.event.eventId) ∧
        ∀ input, ChecksSignature [declared, activated, listed] "garden" input →
          VerifiesUnder (withoutKey phoneRevocation.event.memberId phoneRevocation.event.keyId
            state.authorizations) input) := by
  obtain ⟨declared, activated, listed, hfeed⟩ := exists_phoneFeed
  obtain ⟨declaration, first, second, third, h⟩ := hfeed.envelopes
  obtain ⟨revocation, hrevocation, -⟩ := lifecycleToRecord_spec phoneRevocation
  obtain ⟨state, hstate⟩ := h.resolves
  have hdeclares := (h.ownFeed.declaresFeed_iff ada.hypercoreKey h.own.feed).mpr
    ⟨toLower_of_isHypercoreKey ada.hypercoreKey, h.memberId.symm⟩
  exact ⟨declared, activated, listed, revocation, state, hfeed, hrevocation,
    @revocation_harmless_iff _ _ _ _ [] [] ⟨ada.feedPublicKey, _⟩ state hstate _ _
      (h.lateRevocation hrevocation) hdeclares⟩

/-- Ada revokes the phone key that she offered with: the feed that resolved before no longer does. -/
theorem revocation_stops_resolution :
    ∃ declared activated listed revocation, ∃ state : ResolvedTimebankState transparentCrypto,
      PhoneFeed declared activated listed ∧
      rootSignedMemberSigningKeyLifecycleToRecord phoneRevocation = .ok revocation ∧
      resolveTimebankMemberFeeds transparentCrypto compare "garden"
        [⟨ada.feedPublicKey, [declared, activated, listed]⟩] = .ok state ∧
      activeKey? state.authorizations (keyFor "garden" ada.memberId "phone") =
        some (transparentKey "phone" (by decide) (by decide)) ∧
      LateRevocation transparentCrypto compare "garden" [declared, activated, listed]
        revocation.toJson phoneRevocation ∧
      ¬ Succeeds (resolveTimebankMemberFeeds transparentCrypto compare "garden"
        [⟨ada.feedPublicKey, [declared, activated, listed, revocation.toJson]⟩]) := by
  obtain ⟨declared, activated, listed, hfeed⟩ := exists_phoneFeed
  obtain ⟨declaration, first, second, third, h⟩ := hfeed.envelopes
  obtain ⟨revocation, hrevocation, -⟩ := lifecycleToRecord_spec phoneRevocation
  obtain ⟨state, hstate⟩ := h.resolves
  have hresolve : resolveTimebankRecords transparentCrypto compare "garden"
      [declared, activated, listed] = .ok state := (resolveTimebankMemberFeeds_eq_ok.mp hstate).2.2.2
  have hauthorizations := (resolved_of_eq_ok hresolve).2.2.authorizations
  have hlate := h.lateRevocation hrevocation
  refine ⟨declared, activated, listed, revocation, state, hfeed, hrevocation, hstate, ?_, hlate, ?_⟩
  · obtain ⟨authorizations, hsame, -, hkeys⟩ := h.ownFeed.authorizes
    obtain rfl := Except.ok.inj (hauthorizations.symm.trans hsame)
    rw [← h.memberId]
    exact hkeys _ _ h.ownKey
  · intro ⟨extended, hextended⟩
    obtain ⟨-, hsigned⟩ := @LateRevocation.of_resolve _ _ _ _ _ _ [declared, activated, listed] []
      state hlate hresolve extended (resolveTimebankMemberFeeds_eq_ok.mp hextended).2.2.2
    obtain ⟨payload, signature, hchecks⟩ := h.checksSignature
    have hverifies := hsigned _ hchecks
    have hown : phoneRevocation.event.memberId = declaration.memberId := h.memberId.symm
    rw [hown] at hverifies
    exact h.ownFeed.not_verifies_withoutKey hauthorizations "phone" _ _ hverifies

end Garden

end PeerHours.Exchanges
