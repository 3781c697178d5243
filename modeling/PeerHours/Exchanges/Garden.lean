import PeerHours.Exchanges.Settlement

/-!
# A garden community

Three members on a transparent host. Ben receives an hour from Ada and a minute from Cy.
-/

namespace PeerHours.Exchanges.Garden

open Desktop
open TimebankDomain
open TimebankIdentity (CanonicalTimestamp blank_ada blank_ben blank_garden isCanonical_noon
  isHypercoreKey isHypercoreKey_adaFeed length_ada length_ben signedBy_transparentKey transparentKey)
open TimebankRecords

/-- The identity with a transparent root key. -/
def storedIdentity (name : String) (hpresent : Text.blank name = false)
    (hlength : (utf8 name).length ≤ 64) : StoredMemberIdentity transparentCrypto where
  rootPublicKey := transparentKey name hpresent hlength
  sign _ := Base64Url.encode (keyBytes name)
  complete := signedBy_transparentKey name hpresent hlength

/-- The time of every record. -/
def noon : CanonicalTimestamp := ⟨"2025-06-01T12:00:00.000Z", isCanonical_noon⟩

def ada : FeedOwner transparentCrypto where
  stored := storedIdentity "ada" blank_ada length_ada
  feedPublicKey := String.ofList (List.replicate 64 'a')
  declaredAt := noon
  hypercoreKey := isHypercoreKey_adaFeed

def ben : FeedOwner transparentCrypto where
  stored := storedIdentity "ben" blank_ben length_ben
  feedPublicKey := String.ofList (List.replicate 64 'b')
  declaredAt := noon
  hypercoreKey := by decide

def cy : FeedOwner transparentCrypto where
  stored := storedIdentity "cy" (by decide) (by decide)
  feedPublicKey := String.ofList (List.replicate 64 'c')
  declaredAt := noon
  hypercoreKey := by decide

/-- A published listing in the garden. -/
def listingOf (owner : FeedOwner transparentCrypto) (kind : ListingKind) (id : String)
    (minutes : Int) : Listing :=
  { id := id
    communityId := "garden"
    memberId := owner.memberId
    kind := kind
    title := "Digging"
    description := "In the garden"
    minutes := minutes
    status := .published }

/-- A listing that its owner created and published. -/
def publicationOf (owner : FeedOwner transparentCrypto) (kind : ListingKind) (id : String)
    (minutes : Int) (hid : Text.blank id = false) (hpositive : 0 < minutes) :
    ListingPublication transparentCrypto where
  owner := owner
  kind := kind
  input :=
    { id := id
      communityId := "garden"
      memberId := owner.memberId
      title := "Digging"
      description := "In the garden"
      minutes := minutes }
  draft := { listingOf owner kind id minutes with status := .draft }
  listing := listingOf owner kind id minutes
  publishedAt := noon
  created := by
    have hmember : Text.blank owner.memberId = false := blank_selfOwnedMemberId _
    have hcommunity : Text.blank "garden" = false := by decide
    have htitle : Text.blank "Digging" = false := by decide
    have hdescription : Text.blank "In the garden" = false ∧
        (Text.utf16 "In the garden").length ≤ 12000 := by decide
    simp only [createListing, TimebankDomain.assertPresent, assertListingDescription,
      TimebankDomain.assertPositiveWholeMinutes, Checked.require, hid, hmember, hcommunity, htitle,
      hdescription, hpositive, and_self, if_true, Checked.ok_bind]
    rfl
  published := by
    simp only [TimebankDomain.publishListing, assertListingOwner, listingOf, FeedOwner.profile, Checked.require,
      Checked.ok_bind, and_self, if_true]
    rfl

def adaOffer : ListingPublication transparentCrypto :=
  publicationOf ada .offer "ada-offer" 3000 (by decide) (by decide)

def cyOffer : ListingPublication transparentCrypto :=
  publicationOf cy .offer "cy-offer" 3000 (by decide) (by decide)

def benRequest : ListingPublication transparentCrypto :=
  publicationOf ben .request "ben-request" 3000 (by decide) (by decide)

/-- A proposal between a provider's offer and a receiver's request. -/
def proposalOf (id : String) (offer request : ListingPublication transparentCrypto)
    (minutes : Int) : ExchangeProposal :=
  { id := id
    communityId := "garden"
    offerId := offer.listing.id
    requestId := request.listing.id
    providerMemberId := offer.owner.memberId
    receiverMemberId := request.owner.memberId
    creatorMemberId := offer.owner.memberId
    acceptedByMemberId := none
    minutes := minutes
    status := .proposed }

/-- An exchange of some minutes that the provider proposed and submits. -/
def exchangeOf (id : String) (offer request : ListingPublication transparentCrypto) (minutes : Int)
    (hproposes : proposeExchange
      { id := id
        offer := offer.listing
        request := request.listing
        provider := offer.owner.profile offer.listing.communityId
        recipient := request.owner.profile request.listing.communityId
        creatorMemberId := offer.owner.memberId
        minutes := minutes } = .ok (proposalOf id offer request minutes))
    (haccepts : acceptExchangeProposal
      { proposal := proposalOf id offer request minutes
        offer := offer.listing
        request := request.listing
        provider := offer.owner.profile offer.listing.communityId
        recipient := request.owner.profile request.listing.communityId
        acceptedByMemberId := otherParticipant offer.owner.memberId offer.owner.memberId
          request.owner.memberId } = .ok
      { proposalOf id offer request minutes with
        status := .accepted, acceptedByMemberId := some request.owner.memberId }) :
    Exchange transparentCrypto where
  id := id
  offer := offer
  request := request
  creatorMemberId := offer.owner.memberId
  minutes := minutes
  proposal := proposalOf id offer request minutes
  accepted := { proposalOf id offer request minutes with
    status := .accepted, acceptedByMemberId := some request.owner.memberId }
  proposedAt := noon
  acceptedAt := noon
  providerAcknowledgedAt := noon
  receiverAcknowledgedAt := noon
  providerAttestedAt := noon
  receiverAttestedAt := noon
  settledAt := noon
  settledByProvider := true
  proposes := hproposes
  accepts := haccepts

/-- Ben receives all the time that he may owe. -/
def adaExchange : Exchange transparentCrypto :=
  exchangeOf "p2" adaOffer benRequest 3000 (by decide +kernel) (by decide +kernel)

/-- Ben receives one more minute, under an id that sorts earlier. -/
def cyExchange : Exchange transparentCrypto :=
  exchangeOf "p1" cyOffer benRequest 1 (by decide +kernel) (by decide +kernel)

theorem plainId {id : String} (h : Text.blank id = false ∧ '/' ∉ id.toList ∧ ':' ∉ id.toList) :
    PlainId id := h

theorem collisionFree_garden : ∀ left ∈ [ada, ben, cy], ∀ right ∈ [ada, ben, cy],
    transparentCrypto.sha256 (transparentCrypto.exportSpkiDer left.stored.rootPublicKey.key) =
      transparentCrypto.sha256 (transparentCrypto.exportSpkiDer right.stored.rootPublicKey.key) →
    transparentCrypto.exportSpkiDer left.stored.rootPublicKey.key =
      transparentCrypto.exportSpkiDer right.stored.rootPublicKey.key := by
  intro left hleft right hright hsame
  simp only [List.mem_cons, List.not_mem_nil, or_false] at hleft hright
  rcases hleft with rfl | rfl | rfl <;> rcases hright with rfl | rfl | rfl <;>
    first | rfl | exact absurd hsame (by decide +kernel)

/-- The community of the three members with some of the two exchanges. -/
def garden (exchanges : List (Exchange transparentCrypto))
    (h : ∀ exchange ∈ exchanges, exchange = adaExchange ∨ exchange = cyExchange) :
    Community transparentCrypto where
  communityId := "garden"
  members := [ada, ben, cy]
  listings := [adaOffer, cyOffer, benRequest]
  exchanges := exchanges
  present := blank_garden
  distinctRoots left hleft right hright hsame := by
    simp only [List.mem_cons, List.not_mem_nil, or_false] at hleft hright
    rcases hleft with rfl | rfl | rfl <;> rcases hright with rfl | rfl | rfl <;>
      first | rfl | exact absurd hsame (by decide)
  collisionFree := collisionFree_garden
  distinctFeeds left hleft right hright hsame := by
    simp only [List.mem_cons, List.not_mem_nil, or_false] at hleft hright
    rcases hleft with rfl | rfl | rfl <;> rcases hright with rfl | rfl | rfl <;>
      first | rfl | exact absurd hsame (by decide)
  listingOwners publication hpublication := by
    simp only [List.mem_cons, List.not_mem_nil, or_false] at hpublication
    rcases hpublication with rfl | rfl | rfl <;>
      exact ⟨by simp [adaOffer, cyOffer, benRequest, publicationOf], rfl⟩
  listed exchange hexchange := by
    cases h exchange hexchange with
    | inl hsame => subst hsame; simp [adaExchange, exchangeOf]
    | inr hsame => subst hsame; simp [cyExchange, exchangeOf]
  listingIds left hleft right hright hsame := by
    simp only [List.mem_cons, List.not_mem_nil, or_false] at hleft hright
    rcases hleft with rfl | rfl | rfl <;> rcases hright with rfl | rfl | rfl <;>
      first | rfl | exact absurd hsame (by decide)
  proposalIds left hleft right hright hsame := by
    rcases h left hleft with rfl | rfl <;> rcases h right hright with rfl | rfl <;>
      first | rfl | exact absurd hsame (by decide)
  plainListingIds publication hpublication := by
    simp only [List.mem_cons, List.not_mem_nil, or_false] at hpublication
    rcases hpublication with rfl | rfl | rfl <;> exact plainId (by decide)
  plainProposalIds exchange hexchange := by
    rcases h exchange hexchange with rfl | rfl <;> exact plainId (by decide)

/-- Transfers with distinct ids are put in one order by their ids. -/
theorem sortBy_transfers {transfers others : List TimebankLedger.Transfer}
    (hids : (transfers.map (·.id)).Nodup) (hothers : others.Nodup)
    (hmem : ∀ transfer, transfer ∈ transfers ↔ transfer ∈ others) :
    Sorting.sortBy (Sorting.on compare (·.id)) transfers =
      Sorting.sortBy (Sorting.on compare (·.id)) others :=
  Sorting.sortBy_eq_of_mem_iff hids.of_map hothers hmem fun _ hleft _ hright hcompare ↦
    List.inj_on_of_nodup_map hids hleft hright (@Std.LawfulEqCmp.eq_of_compare _ compare _ _ _ hcompare)

/-- The feeds as a replica may receive them: in reverse, each once more with its records in reverse. -/
def redelivered (histories : List MemberFeedHistory) : List MemberFeedHistory :=
  (histories ++ histories.map fun history : MemberFeedHistory ↦
    { history with records := history.records.reverse }).reverse

theorem sameHistories_redelivered (histories : List MemberFeedHistory) :
    SameHistories histories (redelivered histories) where
  feeds feedPublicKey := by
    simp only [redelivered, List.mem_reverse, List.mem_append, List.mem_map]
    constructor
    · rintro ⟨history, hhistory, hkey⟩
      exact ⟨history, .inl hhistory, hkey⟩
    · rintro ⟨history, hhistory | ⟨other, hother, rfl⟩, hkey⟩
      · exact ⟨history, hhistory, hkey⟩
      · exact ⟨other, hother, hkey⟩
  records feedPublicKey record := by
    simp only [redelivered, List.mem_reverse, List.mem_append, List.mem_map]
    constructor
    · rintro ⟨history, hhistory, hrecord⟩
      exact ⟨history, .inl hhistory, hrecord⟩
    · rintro ⟨history, hhistory | ⟨other, hother, rfl⟩, hkey, hrecord⟩
      · exact ⟨history, hhistory, hkey, hrecord⟩
      · exact ⟨other, hother, hkey, List.mem_reverse.mp hrecord⟩

/-- Both exchanges of the garden settle on a replica that received the feeds twice, in reverse. -/
theorem honest_exchanges_settle_garden :
    ∃ built state, memberFeeds compare (garden [adaExchange, cyExchange] (by simp)) = .ok built ∧
      resolveTimebankMemberFeeds transparentCrypto compare "garden" (redelivered built) = .ok state ∧
      ∀ exchange ∈ [adaExchange, cyExchange],
        (∃ confirmation ∈ state.settlementConfirmations,
          confirmation.proposalId = exchange.id ∧ confirmation.status = .dualConfirmed) ∧
        (∃ attestation ∈ state.settlementAttestations,
          attestation.proposalId = exchange.id ∧ attestation.status = .dualAttested) ∧
        (exchange.settlement ∈ state.ledger.transfers ∨
          ⟨exchange.settlement, .minimumBalance⟩ ∈ state.ledger.rejectedTransfers) := by
  obtain ⟨built, hbuilt, h⟩ :=
    honest_exchanges_settle compare (garden [adaExchange, cyExchange] (by simp))
  obtain ⟨state, hstate, hexchanges⟩ := h (redelivered built) (sameHistories_redelivered built)
  exact ⟨built, state, hbuilt, hstate, hexchanges⟩

end PeerHours.Exchanges.Garden
