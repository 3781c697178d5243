import PeerHours.Exchanges.Garden
import PeerHours.Exchanges.Reversal

/-!
# Proposals and the listings they name

The resolver compares an acceptance with its pending proposal, and neither with the listings that the
proposal names. So resolved proposals agree with those listings exactly where every proposal record is one
that the domain proposes from them.
-/

namespace PeerHours.Exchanges

open Checked Json
open TimebankDomain
open TimebankRecords

/-! ## Agreement -/

variable {records : List JsonValue}

/-- The history has a published listing record of the listing. -/
def OnRecord (records : List JsonValue) (listing : Listing) : Prop :=
  publishedListingRecords.Holds records listing.communityId listing

/-- The listing is of the kind, owned by the member, in the community of the proposal and long enough
for it. -/
structure Suits (proposal : ExchangeProposal) (kind : ListingKind) (memberId : String)
    (listing : Listing) : Prop where
  kind : listing.kind = kind
  owner : listing.memberId = memberId
  community : listing.communityId = proposal.communityId
  minutes : proposal.minutes ≤ listing.minutes

/-- The listings that a proposal names suit it, where the history has them. -/
structure AgreesWithListings (records : List JsonValue) (proposal : ExchangeProposal) : Prop where
  offer : ∀ listing, OnRecord records listing → listing.id = proposal.offerId →
    Suits proposal .offer proposal.providerMemberId listing
  request : ∀ listing, OnRecord records listing → listing.id = proposal.requestId →
    Suits proposal .request proposal.receiverMemberId listing

/-- The domain proposes this exchange from an offer and a request that are the listings of the history
wherever it has listings of their ids. -/
def ProposedFromListings (records : List JsonValue) (proposal : ExchangeProposal) : Prop :=
  ∃ input, proposeExchange input =
      .ok { proposal with status := .proposed, acceptedByMemberId := none } ∧
    ∀ listing, OnRecord records listing →
      (listing.id = input.offer.id → listing = input.offer) ∧
        (listing.id = input.request.id → listing = input.request)

/-- A history has one listing of an id. -/
theorem OnRecord.unique (hrecords : Consistent records) {left right : Listing}
    (hleft : OnRecord records left) (hright : OnRecord records right) (hid : left.id = right.id) :
    left = right := by
  obtain ⟨-, record, hcontains, hcarries⟩ := hleft
  obtain ⟨-, other, hotherContains, hotherCarries⟩ := hright
  obtain rfl : record = other := hrecords.unique _ _ hcontains hotherContains
    (hcarries.id.trans (hid.trans hotherCarries.id.symm))
  exact Except.ok.inj (hcarries.payload.symm.trans hotherCarries.payload)

/-- What the listings of an id suit is suited by one published listing of that id. -/
theorem exists_suiting (hrecords : Consistent records) {proposal : ExchangeProposal}
    {kind : ListingKind} {id memberId : String}
    (h : ∀ listing, OnRecord records listing → listing.id = id →
      Suits proposal kind memberId listing) :
    ∃ listing, listing.id = id ∧ listing.status = .published ∧
      Suits proposal kind memberId listing ∧
      ∀ other, OnRecord records other → other.id = id → other = listing := by
  by_cases hrecorded : ∃ listing, OnRecord records listing ∧ listing.id = id
  · obtain ⟨listing, honRecord, hid⟩ := hrecorded
    have hvalid : ListingValid listing := RecordKind.Holds.valid lawful_publishedListing honRecord
    exact ⟨listing, hid, hvalid.published, h listing honRecord hid, fun other hother hotherId ↦
      hother.unique hrecords honRecord (hotherId.trans hid.symm)⟩
  · -- nothing is recorded under the id, so any listing will do
    let listing : Listing :=
      { id := id
        communityId := proposal.communityId
        memberId := memberId
        kind := kind
        title := ""
        description := ""
        minutes := proposal.minutes
        status := .published }
    exact ⟨listing, rfl, rfl, ⟨rfl, rfl, rfl, le_refl proposal.minutes⟩, fun other hother hid ↦
      absurd ⟨other, hother, hid⟩ hrecorded⟩

/-- A proposal with valid terms agrees with the listings it names exactly if the domain proposes it from
them. -/
theorem agreesWithListings_iff (hrecords : Consistent records) {proposal : ExchangeProposal}
    (hterms : ProposalTermsValid proposal) :
    AgreesWithListings records proposal ↔ ProposedFromListings records proposal := by
  constructor
  · intro h
    obtain ⟨offer, hofferId, hofferPublished, hoffer, hofferUnique⟩ := exists_suiting hrecords h.offer
    obtain ⟨request, hrequestId, hrequestPublished, hrequest, hrequestUnique⟩ :=
      exists_suiting hrecords h.request
    refine ⟨{ id := proposal.id
              offer := offer
              request := request
              provider := ⟨proposal.providerMemberId, proposal.communityId, proposal.providerMemberId⟩
              recipient := ⟨proposal.receiverMemberId, proposal.communityId, proposal.receiverMemberId⟩
              creatorMemberId := proposal.creatorMemberId
              minutes := proposal.minutes }, proposeExchange_eq_ok.mpr ⟨?_, ?_⟩, ?_⟩
    · exact
        { offer := hoffer.kind
          request := hrequest.kind
          community := hoffer.community.trans hrequest.community.symm
          offerPublished := hofferPublished
          requestPublished := hrequestPublished
          distinct := by
            show offer.memberId ≠ request.memberId
            rw [hoffer.owner, hrequest.owner]
            exact hterms.distinct
          positive := hterms.positive
          offerMinutes := hoffer.minutes
          requestMinutes := hrequest.minutes
          provider := ⟨hoffer.owner.symm, hoffer.community.symm⟩
          recipient := ⟨hrequest.owner.symm, hrequest.community.symm⟩
          creator := hterms.creator }
    · simp only [ProposeExchangeInput.proposal, hofferId, hrequestId, hoffer.community]
    · intro listing hrecord
      exact ⟨fun hid ↦ hofferUnique listing hrecord (hid.trans hofferId),
        fun hid ↦ hrequestUnique listing hrecord (hid.trans hrequestId)⟩
  · intro ⟨input, hproposes, hlistings⟩
    obtain ⟨hrules, hproposal⟩ := proposeExchange_eq_ok.mp hproposes
    simp only [ProposeExchangeInput.proposal, ExchangeProposal.mk.injEq] at hproposal
    obtain ⟨-, hcommunity, hofferId, hrequestId, hprovider, hreceiver, -, -, hminutes, -⟩ := hproposal
    constructor
    · intro listing hrecord hid
      obtain rfl := (hlistings listing hrecord).1 (hid.trans hofferId.symm)
      exact ⟨hrules.offer, hrules.provider.1.symm.trans hprovider, hcommunity,
        hminutes ▸ hrules.offerMinutes⟩
    · intro listing hrecord hid
      obtain rfl := (hlistings listing hrecord).2 (hid.trans hrequestId.symm)
      exact ⟨hrules.request, hrules.recipient.1.symm.trans hreceiver,
        hrules.community.symm.trans hcommunity, hminutes ▸ hrules.requestMinutes⟩

/-! ## Resolved proposals -/

section Resolved

variable {crypto : Crypto} {localeCompare : String → String → Ordering} {communityId : String}

/-- The history of the community has a pending or an accepted record of the proposal. -/
def ProposalOnRecord (records : List JsonValue) (communityId : String) (proposal : ExchangeProposal) :
    Prop :=
  proposedExchangeProposalRecords.Holds records communityId proposal ∨
    acceptedExchangeProposalRecords.Holds records communityId proposal

/-- The resolved proposals agree with the listings they name exactly if the domain proposes every recorded
proposal from them. -/
theorem resolved_proposals_agree_iff {histories : List MemberFeedHistory}
    {state : ResolvedTimebankState crypto}
    (h : resolveTimebankMemberFeeds crypto localeCompare communityId histories = .ok state) :
    (∀ proposal, proposal ∈ state.proposedProposals ∨ proposal ∈ state.acceptedProposals →
        AgreesWithListings (histories.flatMap (·.records)) proposal) ↔
      ∀ proposal, ProposalOnRecord (histories.flatMap (·.records)) communityId proposal →
        ProposedFromListings (histories.flatMap (·.records)) proposal := by
  obtain ⟨-, -, -, hresolve⟩ := resolveTimebankMemberFeeds_eq_ok.mp h
  obtain ⟨hrecords, -, hresolved⟩ := resolved_of_eq_ok hresolve
  refine forall_congr' fun proposal ↦ ?_
  rw [hresolved.proposed.mem, hresolved.accepted.mem]
  refine forall_congr' fun hrecord ↦ agreesWithListings_iff hrecords ?_
  cases hrecord with
  | inl hproposed =>
      exact (RecordKind.Holds.valid lawful_proposedExchangeProposal hproposed).toProposalTermsValid
  | inr haccepted =>
      exact (RecordKind.Holds.valid lawful_acceptedExchangeProposal haccepted).toProposalTermsValid

end Resolved

namespace Garden

theorem resolved_proposals_agree_iff_garden :
    ∃ built state, memberFeeds compare (garden [adaExchange] (by simp)) = .ok built ∧
      resolveTimebankMemberFeeds transparentCrypto compare "garden" built = .ok state ∧
      ((∀ proposal, proposal ∈ state.proposedProposals ∨ proposal ∈ state.acceptedProposals →
          AgreesWithListings (built.flatMap (·.records)) proposal) ↔
        ∀ proposal, ProposalOnRecord (built.flatMap (·.records)) "garden" proposal →
          ProposedFromListings (built.flatMap (·.records)) proposal) := by
  obtain ⟨built, hbuilt, hpublished⟩ :=
    @publishedIn_of_memberFeeds transparentCrypto compare (garden [adaExchange] (by simp))
  obtain ⟨state, hstate⟩ := @Community.resolves _ compare (garden [adaExchange] (by simp)) built
    (hpublished built ⟨fun _ ↦ Iff.rfl, fun _ _ ↦ Iff.rfl⟩)
  exact ⟨built, state, hbuilt, hstate, resolved_proposals_agree_iff hstate⟩

/-- Ada proposes more minutes than her own offer has. -/
def overlongProposal : ExchangeProposal :=
  proposalOf "p3" adaOffer benRequest 3600

/-- What Ada and Ben publish. -/
def overlong : List (Publication transparentCrypto) :=
  [adaOffer.publication, benRequest.publication, ⟨ada, .proposedProposal overlongProposal, noon⟩]

theorem overlong_protocol : Protocol "garden" [ada, ben] (· ∈ overlong) where
  roots left hleft right hright hsame :=
    (garden [] (by simp)).distinctRoots left (List.mem_append_left [cy] hleft) right
      (List.mem_append_left [cy] hright) hsame
  collisionFree left hleft right hright hsame :=
    (garden [] (by simp)).collisionFree left (List.mem_append_left [cy] hleft) right
      (List.mem_append_left [cy] hright) hsame
  feeds left hleft right hright hsame :=
    (garden [] (by simp)).distinctFeeds left (List.mem_append_left [cy] hleft) right
      (List.mem_append_left [cy] hright) hsame
  present := by decide
  owners publication hpublication := by
    simp only [overlong, List.mem_cons, List.not_mem_nil, or_false] at hpublication
    rcases hpublication with rfl | rfl | rfl
    · exact ⟨by simp [adaOffer, publicationOf, ListingPublication.publication], rfl⟩
    · exact ⟨by simp [benRequest, publicationOf, ListingPublication.publication], rfl⟩
    · exact ⟨by simp, rfl⟩
  ids left right hleft hright hid := by
    simp only [overlong, List.mem_cons, List.not_mem_nil, or_false] at hleft hright
    rcases hleft with rfl | rfl | rfl <;> rcases hright with rfl | rfl | rfl <;>
      first | rfl | exact absurd hid (by decide)
  undeclared publication hpublication owner _ hid := by
    have hhead := congrArg (·.toList.head?) hid
    simp only [overlong, List.mem_cons, List.not_mem_nil, or_false] at hpublication
    rcases hpublication with rfl | rfl | rfl <;>
      exact absurd hhead (by simp [memberFeedRecordId]; decide)

theorem overlongProposal_valid : ProposedValid overlongProposal := by
  have hada : Text.blank ada.memberId = false := blank_selfOwnedMemberId _
  have hben : Text.blank ben.memberId = false := blank_selfOwnedMemberId _
  exact
    { id := by decide
      communityId := by decide
      offerId := by decide
      requestId := by decide
      providerMemberId := hada
      receiverMemberId := hben
      creatorMemberId := hada
      positive := by decide
      distinct := adaExchange.proposal_spec.2.2.2.2.1
      creator := .inl rfl
      status := rfl
      acceptedBy := rfl }

theorem overlong_publishable : ∀ publication ∈ overlong,
    ∃ source, publication.PublishedAs (publication.owner, source) := by
  intro publication hpublication
  simp only [overlong, List.mem_cons, List.not_mem_nil, or_false] at hpublication
  rcases hpublication with rfl | rfl | rfl
  · exact adaOffer.publishable
  · exact benRequest.publishable
  · have hauthor (proposal : ExchangeProposal) (memberId : String)
        (hcreator : memberId = proposal.creatorMemberId) :
        proposedExchangeProposalRecords.mayAuthor proposal memberId = true := decide_eq_true hcreator
    obtain ⟨_, ⟨owner, source⟩, -, -, -, hpublished⟩ := @publish_spec _ _ _ _
      encodes_proposedExchangeProposal _ carriesAs_proposedProposal _ overlongProposal_valid ada noon
      (fun _ ↦ rfl) (hauthor _ _ rfl)
    obtain rfl : owner = ada := hpublished.1
    exact ⟨source, hpublished⟩

/-- The feeds of Ada and Ben resolve with a proposal of 3600 minutes that names an offer of 3000. -/
theorem overlong_proposal_resolves :
    ∃ histories state,
      resolveTimebankMemberFeeds transparentCrypto compare "garden" histories = .ok state ∧
      overlongProposal ∈ state.proposedProposals ∧
      ¬ AgreesWithListings (histories.flatMap (·.records)) overlongProposal := by
  obtain ⟨histories, hin⟩ := exists_publishedIn overlong_protocol overlong_publishable
  obtain ⟨state, hstate⟩ := @PublishedIn.resolves _ "garden" [ada, ben] (· ∈ overlong) _
    overlong_protocol hin compare fun _ _ publication hpublication ↦ by
      simp only [overlong, List.mem_cons, List.not_mem_nil, or_false] at hpublication
      rcases hpublication with rfl | rfl | rfl <;> trivial
  obtain ⟨-, -, -, hresolve⟩ := resolveTimebankMemberFeeds_eq_ok.mp hstate
  obtain ⟨-, -, hresolved⟩ := resolved_of_eq_ok hresolve
  refine ⟨histories, state, hstate, (hresolved.proposed.mem _).mpr ((hin.holds_iff overlong_protocol
    carriesAs_proposedProposal (by decide)).mpr
      ⟨⟨ada, .proposedProposal overlongProposal, noon⟩, by simp [overlong], rfl⟩), fun hagrees ↦ ?_⟩
  have hoffer : OnRecord (histories.flatMap (·.records)) adaOffer.listing :=
    (hin.holds_iff overlong_protocol carriesAs_publishedListing (by decide)).mpr
      ⟨adaOffer.publication, by simp [overlong], rfl⟩
  have hminutes : overlongProposal.minutes ≤ adaOffer.listing.minutes :=
    (hagrees.offer _ hoffer rfl).minutes
  exact absurd hminutes (by decide)

end Garden

end PeerHours.Exchanges
