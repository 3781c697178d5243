import PeerHours.Desktop.DeclaredFeeds
import PeerHours.Records.FeedResolution

/-!
# Communities that follow the protocol

Members with one declared feed each, the listings they publish and the exchanges they carry through to
settlement. Every record is produced by the encoders, signed by its author's root key and placed in the
author's feed.
-/

namespace PeerHours.Exchanges

open Checked Json
open Desktop
open TimebankDomain
open TimebankIdentity (CanonicalTimestamp Ed25519PublicKey isHypercoreKey
  createParticipantTransferAttestation)
open TimebankLedger (TransferAttestation)
open TimebankRecords
open TimebankSettlement

variable (crypto : Crypto)

/-- A member and the one feed it declares. -/
structure FeedOwner where
  stored : StoredMemberIdentity crypto
  feedPublicKey : String
  declaredAt : CanonicalTimestamp
  hypercoreKey : isHypercoreKey feedPublicKey = true

variable {crypto}

/-- The self-owned member id of a feed owner. -/
def FeedOwner.memberId (owner : FeedOwner crypto) : String :=
  owner.stored.memberId

/-- The profile that domain functions match a member's action with. -/
def FeedOwner.profile (owner : FeedOwner crypto) (communityId : String) : MemberProfile :=
  ⟨owner.memberId, communityId, owner.memberId⟩

variable (crypto) in
/-- A listing that its owner created and published. -/
structure ListingPublication where
  owner : FeedOwner crypto
  kind : ListingKind
  input : CreateListingInput
  draft : Listing
  listing : Listing
  publishedAt : CanonicalTimestamp
  created : createListing kind input = .ok draft
  published : publishListing draft (owner.profile input.communityId) = .ok listing

variable (crypto) in
/-- An exchange that one of its participants proposed and the other one accepted, with the times of its
records and the participant who submits its settlement. -/
structure Exchange where
  id : String
  offer : ListingPublication crypto
  request : ListingPublication crypto
  creatorMemberId : String
  minutes : Int
  proposal : ExchangeProposal
  accepted : ExchangeProposal
  proposedAt : CanonicalTimestamp
  acceptedAt : CanonicalTimestamp
  providerAcknowledgedAt : CanonicalTimestamp
  receiverAcknowledgedAt : CanonicalTimestamp
  providerAttestedAt : CanonicalTimestamp
  receiverAttestedAt : CanonicalTimestamp
  settledAt : CanonicalTimestamp
  settledByProvider : Bool
  proposes : proposeExchange
    { id := id
      offer := offer.listing
      request := request.listing
      provider := offer.owner.profile offer.listing.communityId
      recipient := request.owner.profile request.listing.communityId
      creatorMemberId := creatorMemberId
      minutes := minutes } = .ok proposal
  accepts : acceptExchangeProposal
    { proposal := proposal
      offer := offer.listing
      request := request.listing
      provider := offer.owner.profile offer.listing.communityId
      recipient := request.owner.profile request.listing.communityId
      acceptedByMemberId := otherParticipant creatorMemberId offer.owner.memberId
        request.owner.memberId } = .ok accepted

/-- The member who proposes an exchange. -/
def Exchange.creator (exchange : Exchange crypto) : FeedOwner crypto :=
  if exchange.creatorMemberId = exchange.offer.owner.memberId then exchange.offer.owner
  else exchange.request.owner

/-- The member who accepts an exchange. -/
def Exchange.acceptor (exchange : Exchange crypto) : FeedOwner crypto :=
  if exchange.creatorMemberId = exchange.offer.owner.memberId then exchange.request.owner
  else exchange.offer.owner

/-- The member who submits the settlement of an exchange. -/
def Exchange.settler (exchange : Exchange crypto) : FeedOwner crypto :=
  if exchange.settledByProvider then exchange.offer.owner else exchange.request.owner

/-- An identifier that cannot be read as part of a derived record id. -/
def PlainId (id : String) : Prop :=
  Text.blank id = false ∧ '/' ∉ id.toList ∧ ':' ∉ id.toList

variable (crypto) in
/-- A community whose members follow the protocol. Root keys are distinct and SHA-256 does not collide
on them; ids of listings and of proposals are distinct and plain. -/
structure Community where
  communityId : String
  members : List (FeedOwner crypto)
  listings : List (ListingPublication crypto)
  exchanges : List (Exchange crypto)
  present : Text.blank communityId = false
  distinctRoots : ∀ left ∈ members, ∀ right ∈ members,
    crypto.exportSpkiDer left.stored.rootPublicKey.key =
      crypto.exportSpkiDer right.stored.rootPublicKey.key → left = right
  collisionFree : ∀ left ∈ members, ∀ right ∈ members,
    crypto.sha256 (crypto.exportSpkiDer left.stored.rootPublicKey.key) =
      crypto.sha256 (crypto.exportSpkiDer right.stored.rootPublicKey.key) →
    crypto.exportSpkiDer left.stored.rootPublicKey.key =
      crypto.exportSpkiDer right.stored.rootPublicKey.key
  distinctFeeds : ∀ left ∈ members, ∀ right ∈ members,
    left.feedPublicKey = right.feedPublicKey → left = right
  listingOwners : ∀ publication ∈ listings, publication.owner ∈ members ∧
    publication.input.communityId = communityId
  listed : ∀ exchange ∈ exchanges, exchange.offer ∈ listings ∧ exchange.request ∈ listings
  listingIds : ∀ left ∈ listings, ∀ right ∈ listings, left.listing.id = right.listing.id →
    left = right
  proposalIds : ∀ left ∈ exchanges, ∀ right ∈ exchanges, left.id = right.id → left = right
  plainListingIds : ∀ publication ∈ listings, PlainId publication.listing.id
  plainProposalIds : ∀ exchange ∈ exchanges, PlainId exchange.id

/-! ## Records -/

/-- The record that declares a member's feed. -/
def declareFeed (communityId : String) (owner : FeedOwner crypto) :
    Except String (FeedOwner crypto × JsonValue) := do
  let declaration ← createDeclaration owner.stored communityId owner.feedPublicKey owner.declaredAt
  let record ← memberFeedDeclarationToRecord declaration
  pure (owner, record.toJson)

/-- An author's signed record. -/
def publish (owner : FeedOwner crypto) (record : RecordEnvelope) :
    Except String (FeedOwner crypto × JsonValue) := do
  let source ← signRecord owner.stored record
  pure (owner, source)

/-- The record of a published listing. -/
def publishListingRecord (publication : ListingPublication crypto) :
    Except String (FeedOwner crypto × JsonValue) := do
  let record ← toPublishedListingRecord publication.listing
    ⟨publication.publishedAt, publication.owner.memberId⟩
  publish publication.owner record

/-- A participant's attestation of settlement terms under its root key. -/
def attestTransfer (owner : FeedOwner crypto) (terms : TimebankLedger.TransferTerms) :
    Except String TransferAttestation :=
  createParticipantTransferAttestation crypto
    { transfer := terms
      memberId := owner.memberId
      keyId := rootKeyIdForMember owner.memberId
      signCanonicalPayload := fun payload ↦ .ok (owner.stored.sign payload) }

/-- The records of one exchange, from its proposal to its settlement. -/
def exchangeRecords (localeCompare : String → String → Ordering) (exchange : Exchange crypto) :
    Except String (List (FeedOwner crypto × JsonValue)) := do
  let provider := exchange.offer.owner
  let receiver := exchange.request.owner
  let accepted := exchange.accepted
  let proposed ← toProposedExchangeProposalRecord exchange.proposal
    ⟨exchange.proposedAt, exchange.creator.memberId⟩
  let proposed ← publish exchange.creator proposed
  let acceptance ← toAcceptedExchangeProposalRecord accepted
    ⟨exchange.acceptedAt, exchange.acceptor.memberId⟩
  let acceptance ← publish exchange.acceptor acceptance
  let providerAcknowledgement ← createSettlementAcknowledgement accepted provider.memberId
  let receiverAcknowledgement ← createSettlementAcknowledgement accepted receiver.memberId
  let acknowledgements := [providerAcknowledgement, receiverAcknowledgement]
  let providerRecord ← toSettlementAcknowledgementRecord providerAcknowledgement
    ⟨exchange.providerAcknowledgedAt, provider.memberId⟩
  let providerRecord ← publish provider providerRecord
  let receiverRecord ← toSettlementAcknowledgementRecord receiverAcknowledgement
    ⟨exchange.receiverAcknowledgedAt, receiver.memberId⟩
  let receiverRecord ← publish receiver receiverRecord
  let terms ← createDualConfirmedSettlementTransferTerms localeCompare accepted acknowledgements
  let providerAttestation ← attestTransfer provider terms
  let receiverAttestation ← attestTransfer receiver terms
  let providerContainer ← createSettlementTransferAttestation crypto localeCompare accepted
    acknowledgements providerAttestation
  let receiverContainer ← createSettlementTransferAttestation crypto localeCompare accepted
    acknowledgements receiverAttestation
  let providerContainer ← toSettlementTransferAttestationRecord providerContainer
    ⟨exchange.providerAttestedAt, provider.memberId⟩
  let providerContainer ← publish provider providerContainer
  let receiverContainer ← toSettlementTransferAttestationRecord receiverContainer
    ⟨exchange.receiverAttestedAt, receiver.memberId⟩
  let receiverContainer ← publish receiver receiverContainer
  -- the submitter adds its own attestation to the one it received
  let attestations := if exchange.settledByProvider then [receiverAttestation, providerAttestation]
    else [providerAttestation, receiverAttestation]
  let settlement ← toDualConfirmedSettlementTransferRecord localeCompare accepted acknowledgements
    attestations ⟨exchange.settledAt, exchange.settler.memberId⟩
  let settlement ← publish exchange.settler settlement
  pure [proposed, acceptance, providerRecord, receiverRecord, providerContainer, receiverContainer,
    settlement]

/-- All records of a community, each with its author. -/
def communityRecords (localeCompare : String → String → Ordering) (community : Community crypto) :
    Except String (List (FeedOwner crypto × JsonValue)) := do
  let declarations ← community.members.mapM (declareFeed community.communityId)
  let listings ← community.listings.mapM publishListingRecord
  let exchanges ← community.exchanges.mapM (exchangeRecords localeCompare)
  pure (declarations ++ listings ++ exchanges.flatten)

/-- The feeds of a community: each member's feed holds the records it authored. -/
def memberFeeds (localeCompare : String → String → Ordering) (community : Community crypto) :
    Except String (List MemberFeedHistory) := do
  let published ← communityRecords localeCompare community
  pure (community.members.map fun owner ↦
    { feedPublicKey := owner.feedPublicKey
      records := (published.filter fun entry ↦
        decide (entry.1.feedPublicKey = owner.feedPublicKey)).map (·.2) })

end PeerHours.Exchanges
