import PeerHours.Library.Checked
import PeerHours.Library.Text

/-!
# Offers, requests and exchanges

The domain rules of the timebank: a member publishes offers and requests, one of two members
proposes an exchange between an offer and a request, and the other one accepts it.
-/

namespace PeerHours.TimebankDomain

open Checked

/-- A community-scoped member profile. -/
structure MemberProfile where
  id : String
  communityId : String
  displayName : String
deriving DecidableEq

/-- The lifecycle state of a member-owned offer or request. -/
inductive ListingStatus where
  | draft
  | published
  | closed
deriving DecidableEq

/-- The kind of service listing a member creates. -/
inductive ListingKind where
  | offer
  | request
deriving DecidableEq

/-- A member-owned offer or request for a bounded whole number of minutes. -/
structure Listing where
  id : String
  communityId : String
  memberId : String
  kind : ListingKind
  title : String
  description : String
  minutes : Int
  status : ListingStatus
deriving DecidableEq

/-- The lifecycle state of a proposed exchange. -/
inductive ExchangeProposalStatus where
  | proposed
  | accepted
deriving DecidableEq

/-- A proposed transfer of time from an offer owner to a request owner. -/
structure ExchangeProposal where
  id : String
  communityId : String
  offerId : String
  requestId : String
  providerMemberId : String
  receiverMemberId : String
  creatorMemberId : String
  acceptedByMemberId : Option String
  minutes : Int
  status : ExchangeProposalStatus
deriving DecidableEq

/-- Ensures identifiers and titles contain meaningful non-whitespace content. -/
def assertPresent (value label : String) : Except String Unit :=
  require (Text.blank value = false) (label ++ " is required.")

/-- Ensures a time amount is a positive number of minutes. -/
def assertPositiveWholeMinutes (minutes : Int) : Except String Unit :=
  require (0 < minutes) "Minute amounts must be positive whole numbers."

/-- Creates a member profile for matching a member-owned action to one community. -/
def createMemberProfile (input : MemberProfile) : Except String MemberProfile := do
  assertPresent input.id "Member id"
  assertPresent input.communityId "Community id"
  assertPresent input.displayName "Member display name"
  pure input

/-- Input required to create a member-owned offer or request draft. -/
structure CreateListingInput where
  id : String
  communityId : String
  memberId : String
  title : String
  description : String
  minutes : Int

/-- Restricts immutable listing descriptions to bounded plain text. -/
def assertListingDescription (value : String) : Except String Unit :=
  require (Text.blank value = false ∧ (Text.utf16 value).length ≤ 12000)
    "Listing description must contain 1 to 12000 characters."

/-- Creates and validates one member-owned listing in its initial draft state. -/
def createListing (kind : ListingKind) (input : CreateListingInput) : Except String Listing := do
  assertPresent input.id "Listing id"
  assertPresent input.communityId "Community id"
  assertPresent input.memberId "Member id"
  assertPresent input.title "Listing title"
  assertListingDescription input.description
  assertPositiveWholeMinutes input.minutes
  pure
    { id := input.id
      communityId := input.communityId
      memberId := input.memberId
      kind := kind
      title := input.title
      description := input.description
      minutes := input.minutes
      status := .draft }

/-- Creates a draft, member-owned offer. -/
def createOffer (input : CreateListingInput) : Except String Listing :=
  createListing .offer input

/-- Creates a draft, member-owned request. -/
def createRequest (input : CreateListingInput) : Except String Listing :=
  createListing .request input

/-- Ensures a profile exactly matches the listing owner and community. -/
def assertListingOwner (listing : Listing) (owner : MemberProfile) : Except String Unit :=
  require (owner.id = listing.memberId ∧ owner.communityId = listing.communityId)
    "A listing can only be published by its owner in the same community."

/-- Publishes a draft only when the supplied profile owns it in the same community. -/
def publishListing (listing : Listing) (owner : MemberProfile) : Except String Listing := do
  require (listing.status = .draft) "Only draft listings can be published."
  assertListingOwner listing owner
  pure { listing with status := .published }

/-- Closes a published listing only when its owner acts within the listing's community. -/
def closeListing (listing : Listing) (owner : MemberProfile) : Except String Listing := do
  require (listing.status = .published) "Only published listings can be closed."
  assertListingOwner listing owner
  pure { listing with status := .closed }

/-- Ensures listings are published and eligible to form an exchange for the requested minutes. -/
def assertMatchableListings (offer request : Listing) (minutes : Int) : Except String Unit := do
  require (offer.kind = .offer ∧ request.kind = .request)
    "An exchange requires one offer and one request."
  require (offer.communityId = request.communityId)
    "An exchange requires listings from the same community."
  require (offer.status = .published ∧ request.status = .published)
    "Only published listings are eligible for an exchange."
  require (offer.memberId ≠ request.memberId) "A member cannot exchange time with themself."
  assertPositiveWholeMinutes minutes
  require (minutes ≤ offer.minutes ∧ minutes ≤ request.minutes)
    "Proposed minutes must fit within both listings."

/-- Ensures provider and recipient profiles match their listing owners and community. -/
def assertProposalParticipants (offer request : Listing) (provider recipient : MemberProfile) :
    Except String Unit := do
  assertListingOwner offer provider
  assertListingOwner request recipient

/-- Ensures an exchange creator is one of the exchange participants. -/
def assertProposalCreator (creatorMemberId providerMemberId recipientMemberId : String) :
    Except String Unit :=
  require (creatorMemberId = providerMemberId ∨ creatorMemberId = recipientMemberId)
    "An exchange proposal must be created by one of its participants."

/-- Input required to propose an exchange between one offer and one request. -/
structure ProposeExchangeInput where
  id : String
  offer : Listing
  request : Listing
  provider : MemberProfile
  recipient : MemberProfile
  creatorMemberId : String
  minutes : Int

/-- Proposes a valid exchange from one published offer to one published request. -/
def proposeExchange (input : ProposeExchangeInput) : Except String ExchangeProposal := do
  assertMatchableListings input.offer input.request input.minutes
  assertProposalParticipants input.offer input.request input.provider input.recipient
  assertProposalCreator input.creatorMemberId input.provider.id input.recipient.id
  pure
    { id := input.id
      communityId := input.offer.communityId
      offerId := input.offer.id
      requestId := input.request.id
      providerMemberId := input.provider.id
      receiverMemberId := input.recipient.id
      creatorMemberId := input.creatorMemberId
      acceptedByMemberId := none
      minutes := input.minutes
      status := .proposed }

/-- Input required to accept an existing proposed exchange. -/
structure AcceptExchangeProposalInput where
  proposal : ExchangeProposal
  offer : Listing
  request : Listing
  provider : MemberProfile
  recipient : MemberProfile
  acceptedByMemberId : String

/-- The participant of a proposal who did not create it. -/
def otherParticipant (creatorMemberId providerMemberId recipientMemberId : String) : String :=
  if creatorMemberId = providerMemberId then recipientMemberId else providerMemberId

/-- Accepts a valid proposal only when the other participant accepts it. -/
def acceptExchangeProposal (input : AcceptExchangeProposalInput) :
    Except String ExchangeProposal := do
  let proposal := input.proposal
  require (proposal.status = .proposed) "Only proposed exchanges can be accepted."
  require (proposal.offerId = input.offer.id ∧ proposal.requestId = input.request.id ∧
      proposal.communityId = input.offer.communityId ∧
      proposal.providerMemberId = input.provider.id ∧
      proposal.receiverMemberId = input.recipient.id)
    "The proposal does not match the supplied listings and participants."
  assertMatchableListings input.offer input.request proposal.minutes
  assertProposalParticipants input.offer input.request input.provider input.recipient
  assertProposalCreator proposal.creatorMemberId input.provider.id input.recipient.id
  require (input.acceptedByMemberId =
      otherParticipant proposal.creatorMemberId input.provider.id input.recipient.id)
    "Only the other proposal participant can accept an exchange."
  pure { proposal with status := .accepted, acceptedByMemberId := some input.acceptedByMemberId }

/-! ## What proposing checks -/

/-- The rules for the input of a proposal. -/
structure Proposable (input : ProposeExchangeInput) : Prop where
  offer : input.offer.kind = .offer
  request : input.request.kind = .request
  community : input.offer.communityId = input.request.communityId
  offerPublished : input.offer.status = .published
  requestPublished : input.request.status = .published
  distinct : input.offer.memberId ≠ input.request.memberId
  positive : 0 < input.minutes
  offerMinutes : input.minutes ≤ input.offer.minutes
  requestMinutes : input.minutes ≤ input.request.minutes
  provider : input.provider.id = input.offer.memberId ∧
    input.provider.communityId = input.offer.communityId
  recipient : input.recipient.id = input.request.memberId ∧
    input.recipient.communityId = input.request.communityId
  creator : input.creatorMemberId = input.provider.id ∨ input.creatorMemberId = input.recipient.id

/-- The pending proposal of an input. -/
def ProposeExchangeInput.proposal (input : ProposeExchangeInput) : ExchangeProposal :=
  { id := input.id
    communityId := input.offer.communityId
    offerId := input.offer.id
    requestId := input.request.id
    providerMemberId := input.provider.id
    receiverMemberId := input.recipient.id
    creatorMemberId := input.creatorMemberId
    acceptedByMemberId := none
    minutes := input.minutes
    status := .proposed }

/-- Proposing succeeds exactly for inputs that keep the rules. -/
theorem proposeExchange_eq_ok {input : ProposeExchangeInput} {proposal : ExchangeProposal} :
    proposeExchange input = .ok proposal ↔ Proposable input ∧ input.proposal = proposal := by
  simp only [proposeExchange, assertMatchableListings, assertProposalParticipants,
    assertListingOwner, assertProposalCreator, assertPositiveWholeMinutes, bind_eq_ok,
    require_eq_ok, exists_const, pure_eq_ok]
  constructor
  · rintro ⟨⟨⟨hoffer, hrequest⟩, hcommunity, ⟨hofferPublished, hrequestPublished⟩, hdistinct,
      hpositive, hofferMinutes, hrequestMinutes⟩, ⟨hprovider, hrecipient⟩, hcreator, hproposal⟩
    exact ⟨⟨hoffer, hrequest, hcommunity, hofferPublished, hrequestPublished, hdistinct, hpositive,
      hofferMinutes, hrequestMinutes, hprovider, hrecipient, hcreator⟩, hproposal⟩
  · rintro ⟨h, hproposal⟩
    exact ⟨⟨⟨h.offer, h.request⟩, h.community, ⟨h.offerPublished, h.requestPublished⟩, h.distinct,
      h.positive, h.offerMinutes, h.requestMinutes⟩, ⟨h.provider, h.recipient⟩, h.creator, hproposal⟩

end PeerHours.TimebankDomain
