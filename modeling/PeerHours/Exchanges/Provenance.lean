import PeerHours.Exchanges.Garden
import PeerHours.Records.Declarations

/-!
# Provenance of member-authored records

Feed provenance is checked for the kinds of one list and member signatures for the kinds of another. The
lists differ in the closed listing, so a closure is the one record of a member that may arrive through a
feed its author never declared.
-/

namespace PeerHours.Exchanges

open Checked Json
open TimebankRecords

variable {crypto : Crypto} {localeCompare : String → String → Ordering} {communityId : String}

/-- The kinds whose records speak for their author: those that need a member's signature and those that
need its root's. -/
def authoredKinds : List String :=
  memberAuthoredDomainRecordKinds ++ [rootSignedKeyActivationRecordKind, rootSignedKeyRevocationRecordKind]

/-- The record arrived in a history whose feed its author's root declared for the community. -/
def ArrivedThroughOwnFeed (crypto : Crypto) (communityId : String)
    (histories : List MemberFeedHistory) (history : MemberFeedHistory) (record : JsonValue) : Prop :=
  ∃ authorId, record.field "authorId" = some (.str authorId) ∧
    DeclaresFeed crypto communityId histories history.feedPublicKey.toLower authorId

/-- Every record of the community and of one of the kinds arrived through its author's own feed. -/
def ArriveThroughOwnFeeds (crypto : Crypto) (communityId : String)
    (histories : List MemberFeedHistory) (kinds : List String) : Prop :=
  ∀ history ∈ histories, ∀ record ∈ history.records,
    record.field "communityId" = some (.str communityId) →
    (∃ kind ∈ kinds, record.field "kind" = some (.str kind)) →
    ArrivedThroughOwnFeed crypto communityId histories history record

/-- The lists of kinds differ in the closed listing only. -/
theorem mem_authoredKinds {kind : String} :
    kind ∈ authoredKinds ↔ kind = closedListingRecordKind ∨ kind ∈ memberAuthoredRecordKinds := by
  simp only [authoredKinds, memberAuthoredDomainRecordKinds, memberAuthoredRecordKinds,
    List.mem_append, List.mem_cons, List.not_mem_nil, or_false]
  tauto

/-- Feed provenance covers every member-authored kind of resolved histories exactly when it covers the
closed listings. -/
theorem provenance_iff_closures {histories : List MemberFeedHistory}
    {state : ResolvedTimebankState crypto}
    (h : resolveTimebankMemberFeeds crypto localeCompare communityId histories = .ok state) :
    ArriveThroughOwnFeeds crypto communityId histories authoredKinds ↔
      ArriveThroughOwnFeeds crypto communityId histories [closedListingRecordKind] := by
  obtain ⟨-, -, hprovenance, -⟩ := resolveTimebankMemberFeeds_eq_ok.mp h
  constructor
  · intro hall history hhistory record hrecord hcommunity ⟨kind, hkind, hfield⟩
    rw [List.mem_singleton] at hkind
    exact hall history hhistory record hrecord hcommunity
      ⟨kind, mem_authoredKinds.mpr (.inl hkind), hfield⟩
  · intro hclosures history hhistory record hrecord hcommunity ⟨kind, hkind, hfield⟩
    cases mem_authoredKinds.mp hkind with
    | inl hclosure =>
        exact hclosures history hhistory record hrecord hcommunity
          ⟨kind, List.mem_singleton.mpr hclosure, hfield⟩
    | inr hchecked =>
        exact hprovenance history hhistory record hrecord hcommunity ⟨kind, hchecked, hfield⟩

/-- A record outside the checked kinds may lie in any history: moving it from one to another changes
nothing. -/
theorem resolves_moved [Std.TransCmp localeCompare] [Std.LawfulEqCmp localeCompare]
    {firstFeed secondFeed : String} {firstRecords secondRecords : List JsonValue} {record : JsonValue}
    {state : ResolvedTimebankState crypto}
    (h : resolveTimebankMemberFeeds crypto localeCompare communityId
      [⟨firstFeed, firstRecords ++ [record]⟩, ⟨secondFeed, secondRecords⟩] = .ok state)
    (hunchecked : ¬ isMemberAuthoredRecord record) :
    resolveTimebankMemberFeeds crypto localeCompare communityId
        [⟨firstFeed, firstRecords⟩, ⟨secondFeed, secondRecords ++ [record]⟩] = .ok state ∧
      ∀ {feedPublicKey memberId}, DeclaresFeed crypto communityId
        [⟨firstFeed, firstRecords⟩, ⟨secondFeed, secondRecords ++ [record]⟩] feedPublicKey memberId →
        DeclaresFeed crypto communityId
          [⟨firstFeed, firstRecords ++ [record]⟩, ⟨secondFeed, secondRecords⟩] feedPublicKey memberId :=
    by
  obtain ⟨hwellFormed, hdeclared, hprovenance, hresolve⟩ := resolveTimebankMemberFeeds_eq_ok.mp h
  have hsame : SameRecords
      ([⟨firstFeed, firstRecords ++ [record]⟩, ⟨secondFeed, secondRecords⟩].flatMap
        MemberFeedHistory.records)
      ([⟨firstFeed, firstRecords⟩, ⟨secondFeed, secondRecords ++ [record]⟩].flatMap
        MemberFeedHistory.records) := by
    intro other
    simp only [List.flatMap_cons, List.flatMap_nil, List.mem_append, List.append_nil]
    tauto
  have hto {feedPublicKey memberId : String} :=
    @declaresFeed_of_subset crypto communityId _ _ (fun other ↦ (hsame other).mp) feedPublicKey
      memberId
  have hfrom {feedPublicKey memberId : String} :=
    @declaresFeed_of_subset crypto communityId _ _ (fun other ↦ (hsame other).mpr) feedPublicKey
      memberId
  refine ⟨resolveTimebankMemberFeeds_eq_ok.mpr ⟨?_, ?_, ?_, hsame.resolve hresolve⟩, hfrom⟩
  · simp only [WellFormedHistories, List.forall_mem_cons, List.forall_mem_append] at hwellFormed ⊢
    tauto
  · exact
      { readable := fun source hsource ↦ hdeclared.readable source (by
          obtain ⟨hmem, hdeclaration⟩ := List.mem_filter.mp hsource
          exact List.mem_filter.mpr ⟨(hsame source).mpr hmem, hdeclaration⟩)
        oneMember := fun feed left right hleft hright ↦
          hdeclared.oneMember feed left right (hfrom hleft) (hfrom hright) }
  · intro history hhistory other hother hcommunity hmember
    have hstayed : ∃ earlier ∈ [⟨firstFeed, firstRecords ++ [record]⟩, ⟨secondFeed, secondRecords⟩],
        MemberFeedHistory.feedPublicKey earlier = history.feedPublicKey ∧ other ∈ earlier.records := by
      simp only [List.mem_cons, List.not_mem_nil, or_false] at hhistory
      cases hhistory with
      | inl hfirst => subst hfirst; exact ⟨_, List.mem_cons_self, rfl, List.mem_append_left _ hother⟩
      | inr hsecond =>
          subst hsecond
          cases List.mem_append.mp hother with
          | inl hother => exact ⟨_, List.mem_cons_of_mem _ List.mem_cons_self, rfl, hother⟩
          | inr hother => exact absurd (List.mem_singleton.mp hother ▸ hmember) hunchecked
    obtain ⟨earlier, hearlier, hfeed, hother⟩ := hstayed
    obtain ⟨authorId, hauthor, hdeclares⟩ := hprovenance earlier hearlier other hother hcommunity hmember
    exact ⟨authorId, hauthor, hfeed ▸ hto hdeclares⟩

namespace Garden

open Desktop
open TimebankDomain

theorem provenance_iff_closures_garden :
    ∃ built, memberFeeds compare (garden [] (by simp)) = .ok built ∧
      (ArriveThroughOwnFeeds transparentCrypto "garden" built authoredKinds ↔
        ArriveThroughOwnFeeds transparentCrypto "garden" built [closedListingRecordKind]) := by
  obtain ⟨built, hbuilt, hpublished⟩ :=
    @publishedIn_of_memberFeeds transparentCrypto compare (garden [] (by simp))
  have hin := hpublished built ⟨fun _ ↦ Iff.rfl, fun _ _ ↦ Iff.rfl⟩
  obtain ⟨state, hstate⟩ := @Community.resolves _ compare (garden [] (by simp)) built hin
  exact ⟨built, hbuilt, provenance_iff_closures hstate⟩

/-- Ada closes her offer. -/
def adaClosure : Publication transparentCrypto :=
  ⟨ada, .closedListing
    { id := closedListingRecordId "ada-offer"
      communityId := "garden"
      listingId := "ada-offer"
      memberId := ada.memberId }, noon⟩

/-- What Ada publishes. -/
def closing (publication : Publication transparentCrypto) : Prop :=
  publication = adaOffer.publication ∨ publication = adaClosure

theorem closing_protocol : Protocol "garden" [ada, ben] closing where
  roots left hleft right hright hsame :=
    (garden [] (by simp)).distinctRoots left (List.mem_append_left [cy] hleft) right
      (List.mem_append_left [cy] hright) hsame
  collisionFree left hleft right hright hsame :=
    (garden [] (by simp)).collisionFree left (List.mem_append_left [cy] hleft) right
      (List.mem_append_left [cy] hright) hsame
  feeds left hleft right hright hsame :=
    (garden [] (by simp)).distinctFeeds left (List.mem_append_left [cy] hleft) right
      (List.mem_append_left [cy] hright) hsame
  present := by decide
  owners publication hpublication := by
    cases hpublication with
    | inl h => subst h; exact ⟨by simp [adaOffer, publicationOf, ListingPublication.publication], rfl⟩
    | inr h => subst h; exact ⟨by simp [adaClosure], rfl⟩
  ids left right hleft hright hid := by
    rcases hleft with rfl | rfl <;> rcases hright with rfl | rfl <;>
      first | rfl | exact absurd hid (by decide)
  undeclared publication hpublication owner _ hid := by
    have hhead := congrArg (·.toList.head?) hid
    rcases hpublication with rfl | rfl <;>
      exact absurd hhead (by simp [memberFeedRecordId]; decide)

theorem adaClosure_published : ∃ source, adaClosure.PublishedAs (ada, source) := by
  have hvalid : ClosureValid
      { id := closedListingRecordId "ada-offer"
        communityId := "garden"
        listingId := "ada-offer"
        memberId := ada.memberId } :=
    ⟨rfl, by decide, by decide, blank_selfOwnedMemberId _⟩
  obtain ⟨_, ⟨owner, source⟩, -, -, -, hpublished⟩ := @publish_spec _ _ _ _ encodes_closedListing _
    carriesAs_closedListing _ hvalid ada noon (fun _ ↦ rfl)
    (by simp [closedListingRecords, ownedRecordKind])
  obtain rfl : owner = ada := hpublished.1
  exact ⟨source, hpublished⟩

/-- Ada's declaration, offer and closure in her own feed, and Ben's declaration in his. -/
theorem closing_publishedIn :
    ∃ adaDeclaration benDeclaration offer closure,
      declareFeed "garden" ben = .ok (ben, benDeclaration) ∧
      adaClosure.PublishedAs (ada, closure) ∧
      PublishedIn "garden" [ada, ben] closing
        [⟨ada.feedPublicKey, [adaDeclaration, offer, closure]⟩,
          ⟨ben.feedPublicKey, [benDeclaration]⟩] := by
  obtain ⟨adaDeclaration, -, -, hada, -⟩ := @declareFeed_spec _ "garden" (by decide) ada
  obtain ⟨benDeclaration, -, -, hben, -⟩ := @declareFeed_spec _ "garden" (by decide) ben
  obtain ⟨⟨owner, offer⟩, -, hoffer⟩ := publishListingRecord_spec adaOffer
  obtain rfl : owner = ada := hoffer.1
  obtain ⟨closure, hclosure⟩ := adaClosure_published
  have hfeeds : ada.feedPublicKey ≠ ben.feedPublicKey := by decide
  refine ⟨adaDeclaration, benDeclaration, offer, closure, hben, hclosure, ?_⟩
  have hin : ∀ (owner : FeedOwner transparentCrypto) source,
      InFeedOf [⟨ada.feedPublicKey, [adaDeclaration, offer, closure]⟩,
        ⟨ben.feedPublicKey, [benDeclaration]⟩] owner source ↔
        (ada.feedPublicKey = owner.feedPublicKey ∧
          (source = adaDeclaration ∨ source = offer ∨ source = closure)) ∨
        ben.feedPublicKey = owner.feedPublicKey ∧ source = benDeclaration := by
    simp [InFeedOf]
  exact
    { feeds := by simp
      sources := fun owner howner source hsource ↦ by
        simp only [List.mem_cons, List.not_mem_nil, or_false] at howner
        rcases (hin owner source).mp hsource with ⟨hkey, hada'⟩ | ⟨hkey, rfl⟩
        · have hsame : owner = ada := by
            rcases howner with rfl | rfl
            · rfl
            · exact absurd hkey hfeeds
          subst hsame
          rcases hada' with rfl | rfl | rfl
          · exact .inl hada
          · exact .inr ⟨_, .inl rfl, hoffer⟩
          · exact .inr ⟨_, .inr rfl, hclosure⟩
        · have hsame : owner = ben := by
            rcases howner with rfl | rfl
            · exact absurd hkey.symm hfeeds
            · rfl
          subst hsame
          exact .inl hben
      declares := fun owner howner ↦ by
        simp only [List.mem_cons, List.not_mem_nil, or_false] at howner
        rcases howner with rfl | rfl
        · exact ⟨adaDeclaration, (hin _ _).mpr (.inl ⟨rfl, .inl rfl⟩), hada⟩
        · exact ⟨benDeclaration, (hin _ _).mpr (.inr ⟨rfl, rfl⟩), hben⟩
      publishes := fun publication hpublication ↦ by
        rcases hpublication with rfl | rfl
        · exact ⟨offer, (hin _ _).mpr (.inl ⟨rfl, .inr (.inl rfl)⟩), hoffer⟩
        · exact ⟨closure, (hin _ _).mpr (.inl ⟨rfl, .inr (.inr rfl)⟩), hclosure⟩ }

/-- Ben's feed carries the closure of Ada's offer: the histories resolve, and the closure arrived through
a feed that Ada never declared. -/
theorem closure_in_foreign_feed :
    ∃ histories state, resolveTimebankMemberFeeds transparentCrypto compare "garden" histories =
        .ok state ∧
      ¬ ArriveThroughOwnFeeds transparentCrypto "garden" histories authoredKinds := by
  obtain ⟨adaDeclaration, benDeclaration, offer, closure, hben, hclosure, hin⟩ := closing_publishedIn
  obtain ⟨state, hstate⟩ := @PublishedIn.resolves _ "garden" [ada, ben] closing _ closing_protocol hin
    compare (fun authorizations hroots publication hpublication ↦ by
      rcases hpublication with rfl | rfl
      · trivial
      · exact ⟨adaOffer.listing, (hin.holds_iff closing_protocol carriesAs_publishedListing
          (by decide)).mpr ⟨_, .inl rfl, rfl⟩, rfl, rfl⟩)
  obtain ⟨record, hpublishes⟩ := hclosure.2
  have hrecord := createRecordEnvelope_eq_ok.mp hpublishes.rootSigned.create
  have hkind : closure.field "kind" = some (.str closedListingRecordKind) := by
    rw [hrecord.kind, hpublishes.carried.kindName]
    rfl
  have hcommunity : closure.field "communityId" = some (.str "garden") := by
    rw [hrecord.communityId, (routed_of_carriedBy hpublishes.carried).2]
    rfl
  have hauthor : closure.field "authorId" = some (.str ada.memberId) := by
    rw [hrecord.authorId, hpublishes.author]
    rfl
  have hunchecked : ¬ isMemberAuthoredRecord closure := by
    intro ⟨kind, hmem, hfield⟩
    rw [hkind, Option.some.injEq, JsonValue.str.injEq] at hfield
    exact absurd (hfield ▸ hmem) (by decide)
  obtain ⟨hmoved, hdeclares⟩ := @resolves_moved _ compare "garden" _ _ ada.feedPublicKey
    ben.feedPublicKey [adaDeclaration, offer] [benDeclaration] closure _ hstate hunchecked
  refine ⟨_, state, hmoved, fun hall ↦ ?_⟩
  obtain ⟨authorId, hfield, hdeclared⟩ := hall _ (List.mem_cons_of_mem _ (List.mem_singleton.mpr rfl))
    closure (by simp) hcommunity ⟨_, by decide, hkind⟩
  obtain rfl : ada.memberId = authorId := by simpa [hauthor] using hfield
  rw [toLower_of_isHypercoreKey ben.hypercoreKey] at hdeclared
  obtain ⟨owner, howner, hfeed, hmember⟩ :=
    (declaresFeed_iff closing_protocol hin).mp (hdeclares hdeclared)
  have hada := closing_protocol.memberId_inj howner (List.mem_cons_self) hmember
  subst hada
  exact absurd hfeed (by decide)

end Garden

end PeerHours.Exchanges
