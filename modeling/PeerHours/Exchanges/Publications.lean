import PeerHours.Exchanges.Community
import PeerHours.Settlement.Rules

/-!
# What a community publishes

The encoders never reject the values of a community that follows the protocol: each record of an
exchange carries the value that the exchange determines, signed by its author.
-/

namespace PeerHours.Exchanges

open Checked Json
open Desktop
open TimebankDomain
open TimebankIdentity (canonicalTerms createParticipantTransferAttestation_of_valid SignedBy)
open TimebankLedger (Transfer TransferAttestation)
open TimebankRecords
open TimebankSettlement

variable {crypto : Crypto}

/-! ## Listings and proposals -/

/-- A published listing is valid, and belongs to its owner in the community of its draft. -/
theorem ListingPublication.spec (publication : ListingPublication crypto) :
    ListingValid publication.listing ∧
      publication.listing.memberId = publication.owner.memberId ∧
      publication.listing.communityId = publication.input.communityId := by
  obtain ⟨hvalid, -, howner, hcommunity⟩ :=
    listingValid_of_published publication.created publication.published
  exact ⟨hvalid, howner, hcommunity⟩

/-- A published listing encodes to an envelope of its owner. -/
theorem ListingPublication.envelope (publication : ListingPublication crypto) :
    ∃ record, toPublishedListingRecord publication.listing
        ⟨publication.publishedAt, publication.owner.memberId⟩ = .ok record ∧
      publishedListingRecords.Carries record publication.listing ∧
      record.authorId = publication.owner.memberId ∧
      record.occurredAt = publication.publishedAt := by
  obtain ⟨hvalid, howner, -⟩ := publication.spec
  have hauthor : publishedListingRecords.mayAuthor publication.listing
      publication.owner.memberId = true := decide_eq_true howner.symm
  obtain ⟨record, hrecord, hcarries, hauthorId, htime⟩ := @RecordKind.Encodes.envelope _ _ _
    encodes_publishedListing _ hvalid ⟨publication.publishedAt, publication.owner.memberId⟩ hauthor
    publication.publishedAt.2
  exact ⟨record, (encodes_publishedListing.encode hvalid hauthor).trans hrecord, hcarries, hauthorId,
    htime⟩

/-- The terms that a proposal and its acceptance share. -/
structure Exchange.Agrees (exchange : Exchange crypto) (proposal : ExchangeProposal) : Prop where
  id : proposal.id = exchange.id
  community : proposal.communityId = exchange.offer.input.communityId
  offer : proposal.offerId = exchange.offer.listing.id
  request : proposal.requestId = exchange.request.listing.id
  provider : proposal.providerMemberId = exchange.offer.owner.memberId
  receiver : proposal.receiverMemberId = exchange.request.owner.memberId
  creator : proposal.creatorMemberId = exchange.creatorMemberId
  minutes : proposal.minutes = exchange.minutes

/-- What proposing checks. -/
theorem Exchange.proposal_spec (exchange : Exchange crypto) :
    exchange.Agrees exchange.proposal ∧ exchange.proposal.status = .proposed ∧
      exchange.proposal.acceptedByMemberId = none ∧ 0 < exchange.minutes ∧
      exchange.offer.owner.memberId ≠ exchange.request.owner.memberId ∧
      (exchange.creatorMemberId = exchange.offer.owner.memberId ∨
        exchange.creatorMemberId = exchange.request.owner.memberId) := by
  have h := exchange.proposes
  simp only [proposeExchange, assertMatchableListings, assertProposalParticipants,
    assertListingOwner, assertProposalCreator, TimebankDomain.assertPositiveWholeMinutes, bind_eq_ok,
    require_eq_ok, exists_const, pure_eq_ok] at h
  obtain ⟨⟨-, hcommunity, -, hdistinct, hpositive, -⟩, ⟨⟨hprovider, -⟩, hreceiver, -⟩, hcreator,
    hproposal⟩ := h
  rw [exchange.offer.spec.2.1, exchange.request.spec.2.1] at hdistinct
  rw [← hproposal]
  exact ⟨⟨rfl, exchange.offer.spec.2.2, rfl, rfl, rfl, rfl, rfl, rfl⟩, rfl, rfl, hpositive, hdistinct,
    hcreator⟩

/-- An acceptance keeps the proposal and names the acceptor. -/
theorem Exchange.accepted_eq (exchange : Exchange crypto) :
    exchange.accepted =
      { exchange.proposal with
        status := .accepted
        acceptedByMemberId := some (otherParticipant exchange.creatorMemberId
          exchange.offer.owner.memberId exchange.request.owner.memberId) } := by
  have h := exchange.accepts
  simp only [acceptExchangeProposal, bind_eq_ok, pure_eq_ok] at h
  obtain ⟨_, -, _, -, _, -, _, -, _, -, _, -, haccepted⟩ := h
  exact haccepted.symm

theorem Exchange.accepted_agrees (exchange : Exchange crypto) :
    exchange.Agrees exchange.accepted := by
  have h := exchange.proposal_spec.1
  rw [exchange.accepted_eq]
  exact ⟨h.id, h.community, h.offer, h.request, h.provider, h.receiver, h.creator, h.minutes⟩

/-- Proposals that agree with an exchange over valid listings have valid terms. -/
theorem Exchange.termsValid (exchange : Exchange crypto) (hid : Text.blank exchange.id = false)
    {proposal : ExchangeProposal} (h : exchange.Agrees proposal) : ProposalTermsValid proposal := by
  obtain ⟨-, -, -, hpositive, hdistinct, hcreator⟩ := exchange.proposal_spec
  obtain ⟨hoffer, hprovider, hcommunity⟩ := exchange.offer.spec
  obtain ⟨hrequest, hreceiver, -⟩ := exchange.request.spec
  have hproviderBlank := hoffer.memberId
  have hreceiverBlank := hrequest.memberId
  have hcommunityBlank := hoffer.communityId
  rw [hprovider] at hproviderBlank
  rw [hreceiver] at hreceiverBlank
  rw [hcommunity] at hcommunityBlank
  constructor
  · rw [h.id]; exact hid
  · rw [h.community]; exact hcommunityBlank
  · rw [h.offer]; exact hoffer.id
  · rw [h.request]; exact hrequest.id
  · rw [h.provider]; exact hproviderBlank
  · rw [h.receiver]; exact hreceiverBlank
  · rw [h.creator]
    rcases hcreator with hsame | hsame <;> rw [hsame]
    · exact hproviderBlank
    · exact hreceiverBlank
  · rw [h.minutes]; exact hpositive
  · rw [h.provider, h.receiver]; exact hdistinct
  · rw [h.creator, h.provider, h.receiver]; exact hcreator

theorem Exchange.proposedValid (exchange : Exchange crypto) (hid : Text.blank exchange.id = false) :
    ProposedValid exchange.proposal :=
  ⟨exchange.termsValid hid exchange.proposal_spec.1, exchange.proposal_spec.2.1,
    exchange.proposal_spec.2.2.1⟩

theorem Exchange.acceptedValid (exchange : Exchange crypto) (hid : Text.blank exchange.id = false) :
    AcceptedValid exchange.accepted := by
  have h := exchange.accepted_agrees
  refine ⟨exchange.termsValid hid h, ?_, ?_⟩
  · rw [exchange.accepted_eq]
  · rw [acceptorOf, h.creator, h.provider, h.receiver, exchange.accepted_eq]

theorem Exchange.settleable (exchange : Exchange crypto) (hid : Text.blank exchange.id = false) :
    Settleable exchange.accepted :=
  (exchange.acceptedValid hid).settleable

theorem Exchange.participates_provider (exchange : Exchange crypto) :
    Participates exchange.accepted exchange.offer.owner.memberId :=
  .inl exchange.accepted_agrees.provider.symm

theorem Exchange.participates_receiver (exchange : Exchange crypto) :
    Participates exchange.accepted exchange.request.owner.memberId :=
  .inr exchange.accepted_agrees.receiver.symm

theorem Exchange.creator_memberId (exchange : Exchange crypto) :
    exchange.creator.memberId = exchange.proposal.creatorMemberId := by
  obtain ⟨hagrees, -, -, -, -, hcreator⟩ := exchange.proposal_spec
  rw [hagrees.creator, creator]
  split
  · rename_i hsame
    exact hsame.symm
  · rename_i hne
    exact (hcreator.resolve_left hne).symm

theorem Exchange.acceptor_memberId (exchange : Exchange crypto) :
    exchange.accepted.acceptedByMemberId = some exchange.acceptor.memberId := by
  rw [exchange.accepted_eq, acceptor, otherParticipant]
  split <;> rfl

theorem Exchange.settler_eq (exchange : Exchange crypto) :
    exchange.settler = exchange.offer.owner ∨ exchange.settler = exchange.request.owner := by
  unfold settler
  split
  · exact .inl rfl
  · exact .inr rfl

/-! ## Attestations and the settlement -/

/-- The attestation that a participant makes of the settlement of a proposal. -/
def attestationBy (owner : FeedOwner crypto) (accepted : ExchangeProposal) : TransferAttestation :=
  { memberId := owner.memberId
    keyId := rootKeyIdForMember owner.memberId
    payloadDigest := settlementDigest crypto accepted
    signature := owner.stored.sign (jsonBytes (canonicalTerms (settlementTerms accepted)))
    rest := [] }

/-- The settlement that both participants of an exchange attest. -/
def Exchange.settlement (exchange : Exchange crypto) : Transfer :=
  { settlementTerms exchange.accepted with
    attestations := [attestationBy exchange.offer.owner exchange.accepted,
      attestationBy exchange.request.owner exchange.accepted] }

theorem attestTransfer_eq_ok {accepted : ExchangeProposal} (h : Settleable accepted)
    {owner : FeedOwner crypto} (howner : Participates accepted owner.memberId) :
    attestTransfer owner (settlementTerms accepted) = .ok (attestationBy owner accepted) := by
  have hkey : Text.blank (rootKeyIdForMember owner.memberId) = false := by
    rw [rootKeyIdForMember, Text.blank_append]
    rfl
  obtain ⟨bytes, hbytes, -⟩ :=
    owner.stored.complete (jsonBytes (canonicalTerms (settlementTerms accepted)))
  exact createParticipantTransferAttestation_of_valid h.settlementTerms_valid howner hkey rfl
    (by rw [hbytes]; rfl)

theorem attestationBy_valid {accepted : ExchangeProposal} (h : Settleable accepted)
    {owner : FeedOwner crypto} (howner : Participates accepted owner.memberId) :
    (attestationBy owner accepted).Valid where
  memberId := h.blank_participant howner
  keyId := by
    change Text.blank (rootKeyIdForMember owner.memberId) = false
    rw [rootKeyIdForMember, Text.blank_append]
    rfl
  payloadDigest := blank_encode_of_ne_nil (crypto.encode_sha256_ne_nil _)
  signature := blank_of_signedBy (owner.stored.complete _)
  rest := by simp [attestationBy]

theorem Exchange.settlement_valid (exchange : Exchange crypto)
    (hid : Text.blank exchange.id = false) : exchange.settlement.Valid := by
  have h := exchange.settleable hid
  exact ⟨h.settlementTerms_valid, _, _, rfl, attestationBy_valid h exchange.participates_provider,
    attestationBy_valid h exchange.participates_receiver, exchange.accepted_agrees.provider.symm,
    exchange.accepted_agrees.receiver.symm⟩

theorem Exchange.plainSettlement (exchange : Exchange crypto)
    (hid : Text.blank exchange.id = false) : PlainTransfer exchange.settlement where
  valid := exchange.settlement_valid hid
  ordinary := rfl
  plain := by
    change ∀ attestation ∈ [_, _], _
    simp [attestationBy]

theorem attestationContainer_valid {accepted : ExchangeProposal} (h : Settleable accepted)
    {owner : FeedOwner crypto} (howner : Participates accepted owner.memberId) :
    AttestationValid (attestationContainer accepted (attestationBy owner accepted)) where
  id := rfl
  communityId := h.communityId
  sourceProposalId := h.id
  attestation := attestationBy_valid h howner
  rest := rfl

theorem acknowledgementOf_valid {accepted : ExchangeProposal} (h : Settleable accepted)
    {memberId : String} (hmember : Participates accepted memberId) :
    AcknowledgementValid (acknowledgementOf accepted memberId) where
  id := rfl
  communityId := h.communityId
  sourceProposalId := h.id
  providerMemberId := h.providerMemberId
  recipientMemberId := h.receiverMemberId
  acknowledgedBy := h.blank_participant hmember
  positive := h.positive
  distinct := h.distinct
  participant := hmember

/-! ## Publications -/

variable (crypto) in
/-- A value with its author and the time of its record. -/
structure Publication where
  owner : FeedOwner crypto
  value : DomainValue
  occurredAt : TimebankIdentity.CanonicalTimestamp

/-- The envelope object of a value. -/
def envelopeOf (metadata : CreateTimebankRecordMetadata) : DomainValue → JsonValue
  | .publishedListing value => publishedListingRecords.envelope value metadata
  | .closedListing value => closedListingRecords.envelope value metadata
  | .proposedProposal value => proposedExchangeProposalRecords.envelope value metadata
  | .acceptedProposal value => acceptedExchangeProposalRecords.envelope value metadata
  | .acknowledgement value => settlementAcknowledgementRecords.envelope value metadata
  | .attestation value => settlementTransferAttestationRecords.envelope value metadata
  | .transfer value => ledgerTransferRecords.envelope value metadata

/-- The metadata of a publication. -/
def Publication.metadata (publication : Publication crypto) : CreateTimebankRecordMetadata :=
  ⟨publication.occurredAt, publication.owner.memberId⟩

/-- The source is the author's signed record of the publication. -/
structure Publication.Publishes (publication : Publication crypto) (record : RecordEnvelope)
    (source : JsonValue) : Prop where
  encoded : createRecordEnvelope (envelopeOf publication.metadata publication.value) = .ok record
  signed : signRecord publication.owner.stored record = .ok source
  rootSigned : RootSigned publication.owner.stored record source
  carried : publication.value.CarriedBy record
  author : record.authorId = publication.owner.memberId

/-- A publication has one record. -/
theorem Publication.Publishes.unique {publication : Publication crypto}
    {left right : RecordEnvelope} {leftSource rightSource : JsonValue}
    (hleft : publication.Publishes left leftSource)
    (hright : publication.Publishes right rightSource) :
    left = right ∧ leftSource = rightSource := by
  obtain rfl : left = right := Except.ok.inj (hleft.encoded.symm.trans hright.encoded)
  exact ⟨rfl, Except.ok.inj (hleft.signed.symm.trans hright.signed)⟩

/-- The entry is the author with the signed record of the publication. -/
def Publication.PublishedAs (publication : Publication crypto)
    (entry : FeedOwner crypto × JsonValue) : Prop :=
  entry.1 = publication.owner ∧ ∃ record, publication.Publishes record entry.2

/-- A valid value of a kind is encoded and published. -/
theorem publish_spec {α : Type} {kind : RecordKind α} {Valid : α → Prop}
    (h : kind.Encodes Valid) {make : α → DomainValue} (hmake : CarriesAs kind make) {value : α}
    (hvalid : Valid value) {owner : FeedOwner crypto} {occurredAt : TimebankIdentity.CanonicalTimestamp}
    (henvelope : ∀ metadata, envelopeOf metadata (make value) = kind.envelope value metadata)
    (hauthor : kind.mayAuthor value owner.memberId = true) :
    ∃ record entry, createRecordEnvelope (kind.envelope value ⟨occurredAt, owner.memberId⟩) =
        .ok record ∧
      (∀ message, kind.encode message value ⟨occurredAt, owner.memberId⟩ = .ok record) ∧
      publish owner record = .ok entry ∧
      (⟨owner, make value, occurredAt⟩ : Publication crypto).PublishedAs entry := by
  obtain ⟨record, hrecord, hcarries, hauthorId, -⟩ :=
    @RecordKind.Encodes.envelope _ kind Valid h value hvalid ⟨occurredAt, owner.memberId⟩ hauthor
      occurredAt.2
  obtain ⟨source, hsource, hsigned⟩ := signRecord_spec owner.stored record
  refine ⟨record, (owner, source), hrecord, fun message ↦ ?_, ?_, rfl, record, ?_⟩
  · rw [h.encode hvalid hauthor, hrecord]
  · rw [publish, hsource]
    rfl
  · exact ⟨(henvelope _).symm ▸ hrecord, hsource, hsigned, (hmake.carried _ _).mpr hcarries, hauthorId⟩

/-- The publication of a listing. -/
def ListingPublication.publication (publication : ListingPublication crypto) : Publication crypto :=
  ⟨publication.owner, .publishedListing publication.listing, publication.publishedAt⟩

theorem publishListingRecord_spec (publication : ListingPublication crypto) :
    ∃ entry, publishListingRecord publication = .ok entry ∧
      publication.publication.PublishedAs entry := by
  obtain ⟨hvalid, howner, -⟩ := publication.spec
  have hauthor : publishedListingRecords.mayAuthor publication.listing
      publication.owner.memberId = true := decide_eq_true howner.symm
  obtain ⟨record, entry, -, hrecord, hentry, hpublished⟩ := @publish_spec crypto _ _ _
    encodes_publishedListing _ carriesAs_publishedListing _ hvalid publication.owner
    publication.publishedAt (fun _ ↦ rfl) hauthor
  refine ⟨entry, ?_, hpublished⟩
  rw [publishListingRecord, toPublishedListingRecord, hrecord]
  exact hentry

/-- The publications of one exchange. -/
def Exchange.publications (exchange : Exchange crypto) : List (Publication crypto) :=
  let provider := exchange.offer.owner
  let receiver := exchange.request.owner
  let accepted := exchange.accepted
  [⟨exchange.creator, .proposedProposal exchange.proposal, exchange.proposedAt⟩,
    ⟨exchange.acceptor, .acceptedProposal accepted, exchange.acceptedAt⟩,
    ⟨provider, .acknowledgement (acknowledgementOf accepted provider.memberId),
      exchange.providerAcknowledgedAt⟩,
    ⟨receiver, .acknowledgement (acknowledgementOf accepted receiver.memberId),
      exchange.receiverAcknowledgedAt⟩,
    ⟨provider, .attestation (attestationContainer accepted (attestationBy provider accepted)),
      exchange.providerAttestedAt⟩,
    ⟨receiver, .attestation (attestationContainer accepted (attestationBy receiver accepted)),
      exchange.receiverAttestedAt⟩,
    ⟨exchange.settler, .transfer exchange.settlement, exchange.settledAt⟩]

/-- The encoder of an exchange's settlement checks it and creates its envelope. -/
theorem toDualConfirmedSettlementTransferRecord_eq {localeCompare : String → String → Ordering}
    (exchange : Exchange crypto) (hid : Text.blank exchange.id = false)
    {attestations : List TransferAttestation} {authorId occurredAt : String}
    (hattestations : attestations =
        [attestationBy exchange.offer.owner exchange.accepted,
          attestationBy exchange.request.owner exchange.accepted] ∨
      attestations = [attestationBy exchange.request.owner exchange.accepted,
        attestationBy exchange.offer.owner exchange.accepted])
    (hauthor : Participates exchange.accepted authorId) :
    toDualConfirmedSettlementTransferRecord localeCompare exchange.accepted
        [acknowledgementOf exchange.accepted exchange.offer.owner.memberId,
          acknowledgementOf exchange.accepted exchange.request.owner.memberId] attestations
        ⟨occurredAt, authorId⟩ =
      createRecordEnvelope (ledgerTransferRecords.envelope exchange.settlement
        ⟨occurredAt, authorId⟩) := by
  have h := exchange.settleable hid
  have hagrees := exchange.accepted_agrees
  have hcompose := @createDualConfirmedSettlementTransfer_of_valid _ localeCompare h
    [acknowledgementOf exchange.accepted exchange.offer.owner.memberId,
      acknowledgementOf exchange.accepted exchange.request.owner.memberId]
    (by
      simp only [List.forall_mem_cons]
      exact ⟨⟨exchange.participates_provider, rfl⟩, ⟨exchange.participates_receiver, rfl⟩, by simp⟩)
    (by simp [DualAcknowledged, hagrees.provider, hagrees.receiver]) _ _
    (attestationBy_valid h exchange.participates_provider)
    (attestationBy_valid h exchange.participates_receiver) hagrees.provider.symm
    hagrees.receiver.symm attestations hattestations
  have hmember : authorId = exchange.settlement.providerMemberId ∨
      authorId = exchange.settlement.recipientMemberId := hauthor
  rw [toDualConfirmedSettlementTransferRecord, hcompose, ok_bind]
  change require (authorId = exchange.settlement.providerMemberId ∨
    authorId = exchange.settlement.recipientMemberId) _ >>= _ = _
  rw [require, if_pos hmember, ok_bind]
  change toLedgerTransferRecord exchange.settlement _ = _
  rw [toLedgerTransferRecord, normalizeTransfer_eq_ok.mpr
    (TimebankLedger.createTransfer_toJson (exchange.settlement_valid hid)), ok_bind]

/-- Every record of an exchange is encoded and published. -/
theorem exchangeRecords_spec {localeCompare : String → String → Ordering}
    (exchange : Exchange crypto) (hid : Text.blank exchange.id = false) :
    ∃ entries, exchangeRecords localeCompare exchange = .ok entries ∧
      List.Forall₂ Publication.PublishedAs exchange.publications entries := by
  have h := exchange.settleable hid
  have hprovider := exchange.participates_provider
  have hreceiver := exchange.participates_receiver
  have hagrees := exchange.accepted_agrees
  -- the author checks of the seven encoders
  have hcreator : proposedExchangeProposalRecords.mayAuthor exchange.proposal
      exchange.creator.memberId = true := decide_eq_true exchange.creator_memberId
  have hacceptor : acceptedExchangeProposalRecords.mayAuthor exchange.accepted
      exchange.acceptor.memberId = true := decide_eq_true exchange.acceptor_memberId.symm
  have hack : ∀ owner : FeedOwner crypto, settlementAcknowledgementRecords.mayAuthor
      (acknowledgementOf exchange.accepted owner.memberId) owner.memberId = true :=
    fun _ ↦ decide_eq_true rfl
  have hcontainer : ∀ owner : FeedOwner crypto, settlementTransferAttestationRecords.mayAuthor
      (attestationContainer exchange.accepted (attestationBy owner exchange.accepted))
      owner.memberId = true := fun _ ↦ decide_eq_true rfl
  have hsettler : Participates exchange.accepted exchange.settler.memberId := by
    rcases exchange.settler_eq with hsettler | hsettler <;> rw [hsettler]
    · exact hprovider
    · exact hreceiver
  have hsubmits : ledgerTransferRecords.mayAuthor exchange.settlement exchange.settler.memberId =
      true := by
    have hmember : exchange.settler.memberId = exchange.settlement.providerMemberId ∨
        exchange.settler.memberId = exchange.settlement.recipientMemberId := hsettler
    simpa [ledgerTransferRecords] using hmember
  -- the records and the entries they are published as
  obtain ⟨r1, e1, -, hr1, he1, hp1⟩ := @publish_spec crypto _ _ _ encodes_proposedExchangeProposal _
    carriesAs_proposedProposal _ (exchange.proposedValid hid) exchange.creator exchange.proposedAt
    (fun _ ↦ rfl) hcreator
  obtain ⟨r2, e2, -, hr2, he2, hp2⟩ := @publish_spec crypto _ _ _ encodes_acceptedExchangeProposal _
    carriesAs_acceptedProposal _ (exchange.acceptedValid hid) exchange.acceptor exchange.acceptedAt
    (fun _ ↦ rfl) hacceptor
  obtain ⟨r3, e3, -, hr3, he3, hp3⟩ := @publish_spec crypto _ _ _ encodes_settlementAcknowledgement _
    carriesAs_acknowledgement _ (acknowledgementOf_valid h hprovider) exchange.offer.owner
    exchange.providerAcknowledgedAt (fun _ ↦ rfl) (hack _)
  obtain ⟨r4, e4, -, hr4, he4, hp4⟩ := @publish_spec crypto _ _ _ encodes_settlementAcknowledgement _
    carriesAs_acknowledgement _ (acknowledgementOf_valid h hreceiver) exchange.request.owner
    exchange.receiverAcknowledgedAt (fun _ ↦ rfl) (hack _)
  obtain ⟨r5, e5, -, hr5, he5, hp5⟩ := @publish_spec crypto _ _ _ encodes_settlementTransferAttestation
    _ carriesAs_attestation _ (attestationContainer_valid h hprovider) exchange.offer.owner
    exchange.providerAttestedAt (fun _ ↦ rfl) (hcontainer _)
  obtain ⟨r6, e6, -, hr6, he6, hp6⟩ := @publish_spec crypto _ _ _ encodes_settlementTransferAttestation
    _ carriesAs_attestation _ (attestationContainer_valid h hreceiver) exchange.request.owner
    exchange.receiverAttestedAt (fun _ ↦ rfl) (hcontainer _)
  obtain ⟨r7, e7, hr7, -, he7, hp7⟩ := @publish_spec crypto _ _ _ encodes_ledgerTransfer _
    carriesAs_transfer _ (exchange.plainSettlement hid) exchange.settler exchange.settledAt
    (fun _ ↦ rfl) hsubmits
  have hacks : ∀ owner : FeedOwner crypto, Participates exchange.accepted owner.memberId →
      createSettlementAcknowledgement exchange.accepted owner.memberId =
        .ok (acknowledgementOf exchange.accepted owner.memberId) := fun owner howner ↦
    (createSettlementAcknowledgement_eq_ok h).mpr ⟨howner, rfl⟩
  have hall : ∀ acknowledgement ∈
      [acknowledgementOf exchange.accepted exchange.offer.owner.memberId,
        acknowledgementOf exchange.accepted exchange.request.owner.memberId],
      Acknowledges exchange.accepted acknowledgement := by
    simp only [List.forall_mem_cons]
    exact ⟨⟨hprovider, rfl⟩, ⟨hreceiver, rfl⟩, by simp⟩
  have hdual : DualAcknowledged exchange.accepted
      [acknowledgementOf exchange.accepted exchange.offer.owner.memberId,
        acknowledgementOf exchange.accepted exchange.request.owner.memberId] := by
    simp [DualAcknowledged, hagrees.provider, hagrees.receiver]
  have hterms : createDualConfirmedSettlementTransferTerms localeCompare exchange.accepted _ =
      .ok (settlementTerms exchange.accepted) :=
    (createDualConfirmedSettlementTransferTerms_eq_ok h).mpr ⟨hall, hdual, rfl⟩
  have hcontainers : ∀ owner : FeedOwner crypto, Participates exchange.accepted owner.memberId →
      createSettlementTransferAttestation crypto localeCompare exchange.accepted _
        (attestationBy owner exchange.accepted) =
      .ok (attestationContainer exchange.accepted (attestationBy owner exchange.accepted)) :=
    fun owner howner ↦ (createSettlementTransferAttestation_eq_ok h).mpr
      ⟨hall, hdual, ⟨howner, rfl⟩, rfl⟩
  have hsettlement := @toDualConfirmedSettlementTransferRecord_eq crypto localeCompare exchange hid
    (if exchange.settledByProvider then
      [attestationBy exchange.request.owner exchange.accepted,
        attestationBy exchange.offer.owner exchange.accepted]
    else [attestationBy exchange.offer.owner exchange.accepted,
      attestationBy exchange.request.owner exchange.accepted]) exchange.settler.memberId
    exchange.settledAt (by split <;> simp) hsettler
  refine ⟨[e1, e2, e3, e4, e5, e6, e7], ?_, .cons hp1 (.cons hp2 (.cons hp3 (.cons hp4 (.cons hp5
    (.cons hp6 (.cons hp7 .nil))))))⟩
  simp only [exchangeRecords, toProposedExchangeProposalRecord, toAcceptedExchangeProposalRecord,
    toSettlementAcknowledgementRecord, toSettlementTransferAttestationRecord, hr1, he1, hr2, he2,
    hacks _ hprovider, hacks _ hreceiver, hr3, he3, hr4, he4, hterms,
    attestTransfer_eq_ok h hprovider, attestTransfer_eq_ok h hreceiver,
    hcontainers _ hprovider, hcontainers _ hreceiver, hr5, he5, hr6, he6, hsettlement, hr7, he7,
    ok_bind]
  rfl

end PeerHours.Exchanges
