import PeerHours.Identity.Transparent
import PeerHours.Records.RecordIds

/-!
# The namespace of record ids

Records of every kind share one namespace of ids. The id of each kind joins the ids of the domain with a
slash, which those ids may contain themselves.
-/

namespace PeerHours.TimebankRecords

open Checked
open TimebankDomain (ExchangeProposal Listing)
open TimebankIdentity (blank_ada blank_ben)
open TimebankLedger (Transfer TransferAttestation)
open TimebankSettlement

/-! ## Domain facts -/

/-- What one record of a community states, by the ids that it states it of. -/
inductive DomainFact where
  | publishedListing (listingId : String)
  | listingClosure (listingId : String)
  | proposedProposal (proposalId : String)
  | acceptedProposal (proposalId : String)
  | settlementAcknowledgement (proposalId memberId : String)
  | settlementAttestation (proposalId memberId : String)
  | settlementTransfer (proposalId : String)
deriving DecidableEq

namespace DomainFact

/-- The ids that a fact is stated of. -/
def ids : DomainFact → List String
  | publishedListing id | listingClosure id | proposedProposal id | acceptedProposal id
  | settlementTransfer id => [id]
  | settlementAcknowledgement proposalId memberId
  | settlementAttestation proposalId memberId => [proposalId, memberId]

/-- The id of the record that states a fact. -/
def recordId : DomainFact → Except String String
  | publishedListing listingId => .ok listingId
  | listingClosure listingId => .ok (closedListingRecordId listingId)
  | proposedProposal proposalId => .ok (proposalRecordId "proposed" proposalId)
  | acceptedProposal proposalId => .ok (proposalRecordId "accepted" proposalId)
  | settlementAcknowledgement proposalId memberId => settlementAcknowledgementId proposalId memberId
  | settlementAttestation proposalId memberId => settlementTransferAttestationId proposalId memberId
  | settlementTransfer proposalId => settlementTransferId proposalId

/-- None of the ids is blank. -/
def Present (fact : DomainFact) : Prop :=
  ∀ id ∈ fact.ids, Text.blank id = false

/-- The segments between the slashes that the encoders write. -/
def segments : DomainFact → List String
  | publishedListing listingId => [listingId]
  | listingClosure listingId => [listingId, "closed"]
  | proposedProposal proposalId => [proposalId, "proposed"]
  | acceptedProposal proposalId => [proposalId, "accepted"]
  | settlementAcknowledgement proposalId memberId => [proposalId, "settlement-ack", memberId]
  | settlementAttestation proposalId memberId => [proposalId, "settlement-attestation", memberId]
  | settlementTransfer proposalId => [proposalId, "settlement"]

end DomainFact

/-- The record is decoded as a statement of the fact. -/
inductive States (record : RecordEnvelope) : DomainFact → Prop where
  | publishedListing {listing : Listing} (h : publishedListingRecords.Carries record listing) :
      States record (.publishedListing listing.id)
  | listingClosure {closure : ClosedListing} (h : closedListingRecords.Carries record closure) :
      States record (.listingClosure closure.listingId)
  | proposedProposal {proposal : ExchangeProposal}
      (h : proposedExchangeProposalRecords.Carries record proposal) :
      States record (.proposedProposal proposal.id)
  | acceptedProposal {proposal : ExchangeProposal}
      (h : acceptedExchangeProposalRecords.Carries record proposal) :
      States record (.acceptedProposal proposal.id)
  | settlementAcknowledgement {acknowledgement : SettlementAcknowledgement}
      (h : settlementAcknowledgementRecords.Carries record acknowledgement) :
      States record (.settlementAcknowledgement acknowledgement.sourceProposalId
        acknowledgement.acknowledgedByMemberId)
  | settlementAttestation {container : SettlementTransferAttestation}
      (h : settlementTransferAttestationRecords.Carries record container) :
      States record (.settlementAttestation container.sourceProposalId container.attestation.memberId)
  | settlementTransfer {transfer : Transfer} {proposalId : String}
      (h : ledgerTransferRecords.Carries record transfer)
      (hordinary : transfer.reversesTransferId = none)
      (hsource : transfer.sourceProposalId = some (.str proposalId))
      (hid : settlementTransferId proposalId = .ok transfer.id) :
      States record (.settlementTransfer proposalId)

/-! ## The id of a stated fact -/

theorem settlementTransferId_eq_ok {proposalId id : String} :
    settlementTransferId proposalId = .ok id ↔
      Text.blank proposalId = false ∧ proposalId ++ "/settlement" = id := by
  simp only [settlementTransferId, bind_eq_ok, require_eq_ok, exists_const, pure_eq_ok]

theorem settlementTransferAttestationId_eq_ok {proposalId memberId id : String} :
    settlementTransferAttestationId proposalId memberId = .ok id ↔
      (Text.blank proposalId = false ∧ Text.blank memberId = false) ∧
        proposalId ++ "/settlement-attestation/" ++ memberId = id := by
  simp only [settlementTransferAttestationId, bind_eq_ok, require_eq_ok, exists_const, pure_eq_ok]

namespace DomainFact

/-- The id of a record is the text of its segments between slashes. -/
theorem recordId_eq_ok {fact : DomainFact} (h : fact.Present) :
    fact.recordId = .ok ("/".intercalate fact.segments) := by
  cases fact with
  | publishedListing listingId => rfl
  | listingClosure listingId =>
      simp [recordId, segments, closedListingRecordId, ← String.toList_inj]
  | proposedProposal proposalId =>
      simp [recordId, segments, proposalRecordId, ← String.toList_inj]
  | acceptedProposal proposalId =>
      simp [recordId, segments, proposalRecordId, ← String.toList_inj]
  | settlementAcknowledgement proposalId memberId =>
      have hproposal : Text.blank proposalId = false := h proposalId (by simp [ids])
      have hmember : Text.blank memberId = false := h memberId (by simp [ids])
      rw [recordId, settlementAcknowledgementId_eq_ok.mpr ⟨hproposal, hmember, rfl⟩]
      simp [segments, ← String.toList_inj]
  | settlementAttestation proposalId memberId =>
      have hproposal : Text.blank proposalId = false := h proposalId (by simp [ids])
      have hmember : Text.blank memberId = false := h memberId (by simp [ids])
      rw [recordId, settlementTransferAttestationId_eq_ok.mpr ⟨⟨hproposal, hmember⟩, rfl⟩]
      simp [segments, ← String.toList_inj]
  | settlementTransfer proposalId =>
      have hproposal : Text.blank proposalId = false := h proposalId (by simp [ids])
      rw [recordId, settlementTransferId_eq_ok.mpr ⟨hproposal, rfl⟩]
      simp [segments, ← String.toList_inj]

end DomainFact

/-- A record that states a fact has the id that the fact determines, and none of its ids is blank. -/
theorem States.spec {record : RecordEnvelope} {fact : DomainFact} (h : States record fact) :
    fact.Present ∧ record.id = "/".intercalate fact.segments := by
  have of_recordId (hpresent : fact.Present) (hid : fact.recordId = .ok record.id) :
      fact.Present ∧ record.id = "/".intercalate fact.segments :=
    ⟨hpresent, Except.ok.inj (hid.symm.trans (DomainFact.recordId_eq_ok hpresent))⟩
  cases h with
  | publishedListing h =>
      have hvalid := h.valid lawful_publishedListing
      exact of_recordId (by simpa [DomainFact.Present, DomainFact.ids] using hvalid.id)
        (congrArg Except.ok h.id.symm)
  | listingClosure h =>
      have hvalid := h.valid lawful_closedListing
      exact of_recordId (by simpa [DomainFact.Present, DomainFact.ids] using hvalid.listingId)
        (congrArg Except.ok (h.id.trans hvalid.id).symm)
  | proposedProposal h =>
      have hvalid := h.valid lawful_proposedExchangeProposal
      exact of_recordId (by simpa [DomainFact.Present, DomainFact.ids] using hvalid.id)
        (congrArg Except.ok h.id.symm)
  | acceptedProposal h =>
      have hvalid := h.valid lawful_acceptedExchangeProposal
      exact of_recordId (by simpa [DomainFact.Present, DomainFact.ids] using hvalid.id)
        (congrArg Except.ok h.id.symm)
  | settlementAcknowledgement h =>
      have hvalid := h.valid lawful_settlementAcknowledgement
      exact of_recordId
        (by simpa [DomainFact.Present, DomainFact.ids] using
          ⟨hvalid.sourceProposalId, hvalid.acknowledgedBy⟩)
        (settlementAcknowledgementId_eq_ok.mpr
          ⟨hvalid.sourceProposalId, hvalid.acknowledgedBy, (h.id.trans hvalid.id).symm⟩)
  | settlementAttestation h =>
      have hvalid := h.valid lawful_settlementTransferAttestation
      have hpresent := And.intro hvalid.sourceProposalId hvalid.attestation.memberId
      exact of_recordId (by simpa [DomainFact.Present, DomainFact.ids] using hpresent)
        (settlementTransferAttestationId_eq_ok.mpr ⟨hpresent, (h.id.trans hvalid.id).symm⟩)
  | settlementTransfer h hordinary hsource hid =>
      have hvalid := h.valid lawful_ledgerTransfer
      obtain ⟨proposalId, hproposal, hpresent⟩ := hvalid.settles hordinary
      rw [hsource, Option.some.injEq, Json.JsonValue.str.injEq] at hproposal
      refine of_recordId ?_ ?_
      · simpa [DomainFact.Present, DomainFact.ids, hproposal] using hpresent
      · exact hid.trans (congrArg Except.ok h.id.symm)

/-! ## A record for every fact -/

section Sample

variable (communityId : String)

/-- A listing of a member under any id. -/
def listingOf (listingId memberId : String) : Listing where
  id := listingId
  communityId := communityId
  memberId := memberId
  kind := .offer
  title := "Garden tools"
  description := "Lending garden tools."
  minutes := 30
  status := .published

/-- The closure of any listing by a member. -/
def closureOf (listingId : String) : ClosedListing where
  id := closedListingRecordId listingId
  communityId := communityId
  listingId := listingId
  memberId := "ada"

/-- An exchange that Ada proposes to Ben under any id. -/
def proposedOf (proposalId : String) : ExchangeProposal where
  id := proposalId
  communityId := communityId
  offerId := "offer"
  requestId := "request"
  providerMemberId := "ada"
  receiverMemberId := "ben"
  creatorMemberId := "ada"
  acceptedByMemberId := none
  minutes := 30
  status := .proposed

/-- The exchange of `proposedOf` after Ben accepted it. -/
def acceptedOf (proposalId : String) : ExchangeProposal :=
  { proposedOf communityId proposalId with
    acceptedByMemberId := some "ben"
    status := .accepted }

/-- A member's acknowledgement of an exchange with somebody else. -/
def acknowledgementOf (proposalId memberId : String) : SettlementAcknowledgement where
  id := proposalId ++ "/settlement-ack/" ++ memberId
  communityId := communityId
  sourceProposalId := proposalId
  providerMemberId := memberId
  recipientMemberId := memberId ++ "-partner"
  minutes := 30
  acknowledgedByMemberId := memberId

/-- A well-formed attestation by a member. -/
def attestationOf (memberId : String) : TransferAttestation where
  memberId := memberId
  keyId := "key"
  payloadDigest := "digest"
  signature := "signature"
  rest := []

/-- A member's attestation of the transfer of an exchange. -/
def containerOf (proposalId memberId : String) : SettlementTransferAttestation where
  id := proposalId ++ "/settlement-attestation/" ++ memberId
  communityId := communityId
  sourceProposalId := proposalId
  attestation := attestationOf memberId

/-- The transfer that settles an exchange between Ada and Ben. -/
def transferOf (proposalId : String) : Transfer where
  id := proposalId ++ "/settlement"
  communityId := communityId
  sourceProposalId := some (.str proposalId)
  providerMemberId := "ada"
  recipientMemberId := "ben"
  minutes := 30
  reversesTransferId := none
  attestations := [attestationOf "ada", attestationOf "ben"]

variable {communityId} {listingId proposalId memberId : String}

theorem listingValid_listingOf (hcommunity : Text.blank communityId = false)
    (hlisting : Text.blank listingId = false) (hmember : Text.blank memberId = false) :
    ListingValid (listingOf communityId listingId memberId) :=
  ⟨hlisting, hcommunity, hmember, (by decide : Text.blank "Garden tools" = false),
    (by decide : Text.blank "Lending garden tools." = false), by simp [listingOf], rfl⟩

theorem closureValid_closureOf (hcommunity : Text.blank communityId = false)
    (hlisting : Text.blank listingId = false) : ClosureValid (closureOf communityId listingId) :=
  ⟨rfl, hcommunity, hlisting, blank_ada⟩

theorem proposedValid_proposedOf (hcommunity : Text.blank communityId = false)
    (hproposal : Text.blank proposalId = false) : ProposedValid (proposedOf communityId proposalId) :=
  ⟨⟨hproposal, hcommunity, (by decide : Text.blank "offer" = false), (by decide : Text.blank "request" = false),
    blank_ada, blank_ben, blank_ada, by simp [proposedOf], by simp [proposedOf], .inl rfl⟩, rfl, rfl⟩

theorem acceptedValid_acceptedOf (hcommunity : Text.blank communityId = false)
    (hproposal : Text.blank proposalId = false) : AcceptedValid (acceptedOf communityId proposalId) :=
  { (proposedValid_proposedOf hcommunity hproposal).toProposalTermsValid with
    status := rfl
    acceptedBy := rfl }

theorem acknowledgementValid_acknowledgementOf (hcommunity : Text.blank communityId = false)
    (hproposal : Text.blank proposalId = false) (hmember : Text.blank memberId = false) :
    AcknowledgementValid (acknowledgementOf communityId proposalId memberId) where
  id := rfl
  communityId := hcommunity
  sourceProposalId := hproposal
  providerMemberId := hmember
  recipientMemberId := by simp [acknowledgementOf, hmember]
  acknowledgedBy := hmember
  positive := by simp [acknowledgementOf]
  distinct := by
    intro hsame
    have hlength := congrArg String.length hsame
    simp [acknowledgementOf] at hlength
  participant := .inl rfl

theorem valid_attestationOf (hmember : Text.blank memberId = false) :
    (attestationOf memberId).Valid :=
  ⟨hmember, (by decide : Text.blank "key" = false), (by decide : Text.blank "digest" = false),
    (by decide : Text.blank "signature" = false), by simp [attestationOf]⟩

theorem attestationValid_containerOf (hcommunity : Text.blank communityId = false)
    (hproposal : Text.blank proposalId = false) (hmember : Text.blank memberId = false) :
    AttestationValid (containerOf communityId proposalId memberId) :=
  ⟨rfl, hcommunity, hproposal, valid_attestationOf hmember, rfl⟩

theorem plainTransfer_transferOf (hcommunity : Text.blank communityId = false)
    (hproposal : Text.blank proposalId = false) : PlainTransfer (transferOf communityId proposalId) where
  valid :=
    { id := by simp [transferOf, hproposal]
      communityId := hcommunity
      providerMemberId := blank_ada
      recipientMemberId := blank_ben
      positive := by simp [transferOf]
      distinct := by simp [transferOf]
      reverses := fun reversed h ↦ by simp [transferOf] at h
      settles := fun _ ↦ ⟨proposalId, rfl, hproposal⟩
      attested := ⟨_, _, rfl, valid_attestationOf blank_ada, valid_attestationOf blank_ben, rfl, rfl⟩ }
  ordinary := rfl
  plain := by simp [transferOf, attestationOf]

/-- A valid value is carried by some record of any author who may publish it. -/
theorem RecordKind.Encodes.exists_carries {α : Type} {kind : RecordKind α} {Valid : α → Prop}
    (h : kind.Encodes Valid) {value : α} (hvalid : Valid value) (authorId : String)
    (hauthor : kind.mayAuthor value authorId = true) :
    ∃ record, kind.Carries record value ∧ record.authorId = authorId := by
  have htime : Timestamp.isCanonical "2026-01-01T00:00:00.000Z" = true := by decide
  obtain ⟨record, -, hcarries, hid, -⟩ := @RecordKind.Encodes.envelope _ _ _ h _ hvalid
    ⟨"2026-01-01T00:00:00.000Z", authorId⟩ hauthor htime
  exact ⟨record, hcarries, hid⟩

/-- Every member can publish a listing under any id that is not blank. -/
theorem exists_listing (hcommunity : Text.blank communityId = false)
    (hlisting : Text.blank listingId = false) (hmember : Text.blank memberId = false) :
    ∃ record, States record (.publishedListing listingId) ∧ record.communityId = communityId ∧
      record.authorId = memberId := by
  obtain ⟨record, hcarries, hauthor⟩ := encodes_publishedListing.exists_carries
    (listingValid_listingOf hcommunity hlisting hmember)
    memberId
    (decide_eq_true rfl)
  exact ⟨record, .publishedListing hcarries, hcarries.communityId, hauthor⟩

/-- Every fact without blank ids is stated by some record of any community. -/
theorem exists_record {fact : DomainFact} (hcommunity : Text.blank communityId = false)
    (h : fact.Present) : ∃ record, States record fact ∧ record.communityId = communityId := by
  cases fact with
  | publishedListing listingId =>
      have hlisting : Text.blank listingId = false := h listingId (by simp [DomainFact.ids])
      obtain ⟨record, hstates, hsame, -⟩ := exists_listing hcommunity hlisting blank_ada
      exact ⟨record, hstates, hsame⟩
  | listingClosure listingId =>
      have hlisting : Text.blank listingId = false := h listingId (by simp [DomainFact.ids])
      obtain ⟨record, hcarries, -⟩ := encodes_closedListing.exists_carries
        (closureValid_closureOf hcommunity hlisting)
        "ada" (by simp [closedListingRecords, ownedRecordKind, closureOf])
      exact ⟨record, .listingClosure hcarries, hcarries.communityId⟩
  | proposedProposal proposalId =>
      have hproposal : Text.blank proposalId = false := h proposalId (by simp [DomainFact.ids])
      obtain ⟨record, hcarries, -⟩ := encodes_proposedExchangeProposal.exists_carries
        (proposedValid_proposedOf hcommunity hproposal)
        "ada"
        (by simp [proposedExchangeProposalRecords, proposalRecordKind, proposedOf])
      exact ⟨record, .proposedProposal hcarries, hcarries.communityId⟩
  | acceptedProposal proposalId =>
      have hproposal : Text.blank proposalId = false := h proposalId (by simp [DomainFact.ids])
      obtain ⟨record, hcarries, -⟩ := encodes_acceptedExchangeProposal.exists_carries
        (acceptedValid_acceptedOf hcommunity hproposal)
        "ben"
        (by simp [acceptedExchangeProposalRecords, proposalRecordKind, acceptedOf])
      exact ⟨record, .acceptedProposal hcarries, hcarries.communityId⟩
  | settlementAcknowledgement proposalId memberId =>
      have hproposal : Text.blank proposalId = false := h proposalId (by simp [DomainFact.ids])
      have hmember : Text.blank memberId = false := h memberId (by simp [DomainFact.ids])
      obtain ⟨record, hcarries, -⟩ := encodes_settlementAcknowledgement.exists_carries
        (acknowledgementValid_acknowledgementOf hcommunity hproposal hmember)
        memberId
        (decide_eq_true rfl)
      exact ⟨record, .settlementAcknowledgement hcarries, hcarries.communityId⟩
  | settlementAttestation proposalId memberId =>
      have hproposal : Text.blank proposalId = false := h proposalId (by simp [DomainFact.ids])
      have hmember : Text.blank memberId = false := h memberId (by simp [DomainFact.ids])
      obtain ⟨record, hcarries, -⟩ := encodes_settlementTransferAttestation.exists_carries
        (attestationValid_containerOf hcommunity hproposal hmember)
        memberId
        (decide_eq_true rfl)
      exact ⟨record, .settlementAttestation hcarries, hcarries.communityId⟩
  | settlementTransfer proposalId =>
      have hproposal : Text.blank proposalId = false := h proposalId (by simp [DomainFact.ids])
      obtain ⟨record, hcarries, -⟩ := encodes_ledgerTransfer.exists_carries
        (plainTransfer_transferOf hcommunity hproposal)
        "ada" (by simp [ledgerTransferRecords, transferOf])
      exact ⟨record, .settlementTransfer hcarries rfl rfl
        (settlementTransferId_eq_ok.mpr ⟨hproposal, rfl⟩), hcarries.communityId⟩

end Sample

/-! ## Which ids identify one fact -/

/-- An id that ends like the ids derived from other ids: a word after a slash, possibly followed by the
id of a member. -/
inductive DerivedId : String → Prop where
  | stage {stem word : String} (hword : word ∈ ["closed", "proposed", "accepted", "settlement"])
      (hstem : Text.blank stem = false) : DerivedId ("/".intercalate [stem, word])
  | participant {stem word memberId : String}
      (hword : word ∈ ["settlement-ack", "settlement-attestation"])
      (hstem : Text.blank stem = false) (hmember : Text.blank memberId = false) :
      DerivedId ("/".intercalate [stem, word, memberId])

/-- The id of every fact other than a published listing is derived. -/
theorem derivedId_of_present {fact : DomainFact} (h : fact.Present)
    (hlisting : ∀ listingId, fact ≠ .publishedListing listingId) :
    DerivedId ("/".intercalate fact.segments) := by
  cases fact with
  | publishedListing listingId => exact absurd rfl (hlisting listingId)
  | listingClosure id => exact .stage (by simp) (h id (by simp [DomainFact.ids]))
  | proposedProposal id => exact .stage (by simp) (h id (by simp [DomainFact.ids]))
  | acceptedProposal id => exact .stage (by simp) (h id (by simp [DomainFact.ids]))
  | settlementTransfer id => exact .stage (by simp) (h id (by simp [DomainFact.ids]))
  | settlementAcknowledgement id memberId =>
      exact .participant (by simp) (h id (by simp [DomainFact.ids]))
        (h memberId (by simp [DomainFact.ids]))
  | settlementAttestation id memberId =>
      exact .participant (by simp) (h id (by simp [DomainFact.ids]))
        (h memberId (by simp [DomainFact.ids]))

/-- Every derived id is the id of some fact other than a published listing. -/
theorem exists_fact_of_derivedId {id : String} (h : DerivedId id) :
    ∃ fact : DomainFact, fact.Present ∧ (∀ listingId, fact ≠ .publishedListing listingId) ∧
      "/".intercalate fact.segments = id := by
  cases h with
  | stage hword hstem =>
      simp only [List.mem_cons, List.not_mem_nil, or_false] at hword
      rcases hword with rfl | rfl | rfl | rfl
      · exact ⟨.listingClosure _, by simpa [DomainFact.Present, DomainFact.ids] using hstem,
          by simp, rfl⟩
      · exact ⟨.proposedProposal _, by simpa [DomainFact.Present, DomainFact.ids] using hstem,
          by simp, rfl⟩
      · exact ⟨.acceptedProposal _, by simpa [DomainFact.Present, DomainFact.ids] using hstem,
          by simp, rfl⟩
      · exact ⟨.settlementTransfer _, by simpa [DomainFact.Present, DomainFact.ids] using hstem,
          by simp, rfl⟩
  | participant hword hstem hmember =>
      simp only [List.mem_cons, List.not_mem_nil, or_false] at hword
      rcases hword with rfl | rfl
      · exact ⟨.settlementAcknowledgement _ _,
          by simpa [DomainFact.Present, DomainFact.ids] using ⟨hstem, hmember⟩, by simp, rfl⟩
      · exact ⟨.settlementAttestation _ _,
          by simpa [DomainFact.Present, DomainFact.ids] using ⟨hstem, hmember⟩, by simp, rfl⟩

/-- The record id of a fact names no other fact of its community exactly when the fact is a published
listing under an id that is not derived. -/
theorem recordId_identifies_iff {record : RecordEnvelope} {fact : DomainFact}
    (h : States record fact) :
    (∀ other otherFact, States other otherFact → other.communityId = record.communityId →
      otherFact ≠ fact → other.id ≠ record.id) ↔
    ∃ listingId, fact = .publishedListing listingId ∧ ¬ DerivedId listingId := by
  obtain ⟨hpresent, hid⟩ := h.spec
  have hcommunity : Text.blank record.communityId = false := record.present _ (by simp)
  constructor
  · intro hunique
    -- A record of another fact under the same id would break uniqueness.
    have hno (otherFact : DomainFact) (hother : otherFact.Present) (hne : otherFact ≠ fact) :
        "/".intercalate otherFact.segments ≠ record.id := by
      obtain ⟨other, hstates, hsame⟩ := exists_record hcommunity hother
      rw [← hstates.spec.2]
      exact hunique other otherFact hstates hsame hne
    by_cases hlisting : ∃ listingId, fact = .publishedListing listingId
    · obtain ⟨listingId, rfl⟩ := hlisting
      refine ⟨listingId, rfl, ?_⟩
      intro hderived
      obtain ⟨otherFact, hother, hne, hsegments⟩ := exists_fact_of_derivedId hderived
      exact hno otherFact hother (hne listingId) (hsegments.trans hid.symm)
    · exfalso
      have hlistingPresent : (DomainFact.publishedListing record.id).Present := by
        simpa [DomainFact.Present, DomainFact.ids] using record.present record.id (by simp)
      refine hno (.publishedListing record.id) hlistingPresent ?_ rfl
      intro hsame
      exact hlisting ⟨record.id, hsame.symm⟩
  · intro hcondition
    obtain ⟨listingId, rfl, hderived⟩ := hcondition
    intro other otherFact hstates _ hne hsame
    obtain ⟨hotherPresent, hotherId⟩ := hstates.spec
    have hlistingId : other.id = listingId := hsame.trans hid
    by_cases hlisting : ∃ otherId, otherFact = .publishedListing otherId
    · obtain ⟨otherId, rfl⟩ := hlisting
      have hotherListing : other.id = otherId := hotherId
      exact hne (congrArg DomainFact.publishedListing (hotherListing.symm.trans hlistingId))
    · apply hderived
      rw [← hlistingId, hotherId]
      exact derivedId_of_present hotherPresent fun otherId hotherListing ↦
        hlisting ⟨otherId, hotherListing⟩

/-- A derived id contains a slash. -/
theorem DerivedId.slash_mem {id : String} (h : DerivedId id) : '/' ∈ id.toList := by
  cases h <;> simp

/-- The owner's closure of a valid listing names the listing. -/
theorem toClosedListingRecord_of_valid {listing : Listing} (hvalid : ListingValid listing)
    {metadata : CreateTimebankRecordMetadata} (hauthor : metadata.authorId = listing.memberId) :
    toClosedListingRecord listing metadata = createRecordEnvelope (closedListingRecords.envelope
      ⟨closedListingRecordId listing.id, listing.communityId, listing.id, listing.memberId⟩
      metadata) := by
  have hagain : normalizePublishedListing (listingToJson listing) = .ok listing :=
    encodes_publishedListing.again listing hvalid
  rw [toClosedListingRecord, hagain, ok_bind, require, if_pos hauthor]
  rfl

/-- Facts are told apart by their segments. -/
theorem DomainFact.segments_inj {fact otherFact : DomainFact}
    (h : fact.segments = otherFact.segments) : fact = otherFact := by
  cases fact <;> cases otherFact <;> simp_all [DomainFact.segments]

/-- The segments of a fact contain a slash only where its ids do. -/
theorem DomainFact.slash_not_mem_segments {fact : DomainFact}
    (h : ∀ id ∈ fact.ids, '/' ∉ id.toList) : ∀ segment ∈ fact.segments, '/' ∉ segment.toList := by
  cases fact <;> simp_all [DomainFact.ids, DomainFact.segments]

/-- Facts whose ids contain no slash have different record ids. -/
theorem recordId_ne_of_slash_free {record other : RecordEnvelope} {fact otherFact : DomainFact}
    (h : States record fact) (hother : States other otherFact)
    (hfree : ∀ id ∈ fact.ids, '/' ∉ id.toList) (hotherFree : ∀ id ∈ otherFact.ids, '/' ∉ id.toList)
    (hne : otherFact ≠ fact) : other.id ≠ record.id := by
  intro hsame
  have hjoined : "/".intercalate otherFact.segments = "/".intercalate fact.segments := by
    rw [← hother.spec.2, ← h.spec.2, hsame]
  have hsplit (fact : DomainFact) (hfree : ∀ id ∈ fact.ids, '/' ∉ id.toList) :
      ("/".intercalate fact.segments).toList.splitOn '/' = fact.segments.map String.toList := by
    rw [String.toList_intercalate]
    refine List.splitOn_intercalate '/' ?_ ?_
    · simpa using DomainFact.slash_not_mem_segments hfree
    · cases fact <;> simp [DomainFact.segments]
  have hsegments : otherFact.segments.map String.toList = fact.segments.map String.toList := by
    rw [← hsplit otherFact hotherFree, ← hsplit fact hfree, hjoined]
  exact hne (DomainFact.segments_inj
    ((List.map_injective_iff.mpr fun _ _ ↦ String.toList_inj.mp) hsegments))

/-- No other fact of the community has the record id of the listing "tools". -/
theorem recordId_identifies_tools :
    ∃ record, States record (.publishedListing "tools") ∧
      ∀ other otherFact, States other otherFact → other.communityId = record.communityId →
        otherFact ≠ .publishedListing "tools" → other.id ≠ record.id := by
  obtain ⟨record, hstates, -, -⟩ :=
    @exists_listing "garden" "tools" "ada" (by decide) (by decide) (by decide)
  refine ⟨record, hstates, (recordId_identifies_iff hstates).mpr ⟨"tools", rfl, ?_⟩⟩
  intro hderived
  exact absurd hderived.slash_mem (by decide)

/-- Eve publishes a listing under the id that Ada's closure of her own listing must have. -/
theorem closure_id_taken :
    ∃ taken closure,
      toPublishedListingRecord (listingOf "garden" "tools/closed" "eve")
        ⟨"2026-01-01T00:00:00.000Z", "eve"⟩ = .ok taken ∧
      toClosedListingRecord (listingOf "garden" "tools" "ada")
        ⟨"2026-01-01T00:00:00.000Z", "ada"⟩ = .ok closure ∧
      States taken (.publishedListing "tools/closed") ∧ States closure (.listingClosure "tools") ∧
      taken.communityId = closure.communityId ∧ taken.id = closure.id := by
  have htime : Timestamp.isCanonical "2026-01-01T00:00:00.000Z" = true := by decide
  have hcommunity : Text.blank "garden" = false := by decide
  have htaken := listingValid_listingOf hcommunity (by decide : Text.blank "tools/closed" = false)
    (by decide : Text.blank "eve" = false)
  have hlisting := listingValid_listingOf hcommunity (by decide : Text.blank "tools" = false) blank_ada
  have hauthor : publishedListingRecords.mayAuthor (listingOf "garden" "tools/closed" "eve") "eve" =
      true := by simp [publishedListingRecords, ownedRecordKind, listingOf]
  have hclosure := closureValid_closureOf hcommunity (by decide : Text.blank "tools" = false)
  obtain ⟨taken, htakenCreated, htakenCarries, -⟩ :=
    @RecordKind.Encodes.envelope _ _ _ encodes_publishedListing _ htaken
      ⟨"2026-01-01T00:00:00.000Z", "eve"⟩ hauthor htime
  obtain ⟨closure, hclosureCreated, hclosureCarries, -⟩ :=
    @RecordKind.Encodes.envelope _ _ _ encodes_closedListing _ hclosure
      ⟨"2026-01-01T00:00:00.000Z", "ada"⟩
      (by simp [closedListingRecords, ownedRecordKind, closureOf]) htime
  refine ⟨taken, closure, ?_, ?_, .publishedListing htakenCarries, .listingClosure hclosureCarries,
    htakenCarries.communityId.trans hclosureCarries.communityId.symm, ?_⟩
  · exact (encodes_publishedListing.encode htaken hauthor).trans htakenCreated
  · exact (toClosedListingRecord_of_valid hlisting rfl).trans hclosureCreated
  · exact htakenCarries.id.trans hclosureCarries.id.symm

end PeerHours.TimebankRecords
