import PeerHours.Records.Resolution

/-!
# Coherence record by record

A history is coherent when each record of a member's domain stands on its own: its author's active key
signed it, it carries a value of its kind, and the history holds what the value refers to.
-/

namespace PeerHours.TimebankRecords

open Checked Json KeyedMap
open TimebankDomain (ExchangeProposal Listing)
open TimebankIdentity
open TimebankLedger (Reverses Transfer)
open TimebankSettlement

/-- The value that a record of a member's domain carries. -/
inductive DomainValue where
  | publishedListing (listing : Listing)
  | closedListing (closure : ClosedListing)
  | proposedProposal (proposal : ExchangeProposal)
  | acceptedProposal (proposal : ExchangeProposal)
  | acknowledgement (acknowledgement : SettlementAcknowledgement)
  | attestation (container : SettlementTransferAttestation)
  | transfer (transfer : Transfer)

/-- The record kind that carries a value. -/
def DomainValue.kindName : DomainValue → String
  | .publishedListing _ => publishedListingRecordKind
  | .closedListing _ => closedListingRecordKind
  | .proposedProposal _ => proposedExchangeProposalRecordKind
  | .acceptedProposal _ => acceptedExchangeProposalRecordKind
  | .acknowledgement _ => settlementAcknowledgementRecordKind
  | .attestation _ => settlementTransferAttestationRecordKind
  | .transfer _ => ledgerTransferRecordKind

/-- The envelope carries the value. -/
def DomainValue.CarriedBy (record : RecordEnvelope) : DomainValue → Prop
  | .publishedListing value => publishedListingRecords.Carries record value
  | .closedListing value => closedListingRecords.Carries record value
  | .proposedProposal value => proposedExchangeProposalRecords.Carries record value
  | .acceptedProposal value => acceptedExchangeProposalRecords.Carries record value
  | .acknowledgement value => settlementAcknowledgementRecords.Carries record value
  | .attestation value => settlementTransferAttestationRecords.Carries record value
  | .transfer value => ledgerTransferRecords.Carries record value

variable {crypto : Crypto}

/-- The history holds what the value refers to, and nothing that contradicts it. -/
def DomainValue.Linked (records : List JsonValue) (communityId : String)
    (authorizations : List (MemberSigningKeyAuthorization crypto)) : DomainValue → Prop
  | .publishedListing _ | .proposedProposal _ => True
  | .closedListing closure =>
      ∃ listing, publishedListingRecords.Holds records communityId listing ∧
        listing.id = closure.listingId ∧ listing.memberId = closure.memberId
  | .acceptedProposal acceptance =>
      ∀ proposal, proposedExchangeProposalRecords.Holds records communityId proposal →
        proposal.id = acceptance.id → preservesPublishedTerms proposal acceptance
  | .acknowledgement value =>
      ∃ proposal, acceptedExchangeProposalRecords.Holds records communityId proposal ∧
        proposal.id = value.sourceProposalId ∧ Acknowledges proposal value
  | .attestation container =>
      ∃ proposal, acceptedExchangeProposalRecords.Holds records communityId proposal ∧
        proposal.id = container.sourceProposalId ∧ DualHeld records communityId proposal ∧
        AttestationOf crypto proposal container ∧
        VerifiesUnder authorizations
          (attestationInput (settlementTerms proposal) container.attestation)
  | .transfer value =>
      (value.reversesTransferId = none →
        ∃ proposal, acceptedExchangeProposalRecords.Holds records communityId proposal ∧
          DualHeld records communityId proposal ∧
          value.toTransferTerms = settlementTerms proposal) ∧
      (∀ attestation ∈ value.attestations,
        Attests authorizations value.toTransferTerms attestation) ∧
      (value.reversesTransferId ≠ none →
        ∃ original, ledgerTransferRecords.Holds records communityId original ∧
          Reverses value original)

/-- The record belongs to a member's domain in the community. -/
def IsDomainRecord (communityId : String) (source : JsonValue) : Prop :=
  source.field "communityId" = some (.str communityId) ∧ isMemberAuthoredDomainRecord source

/-- The record is signed by its author's active key and carries a linked value. -/
def Stands (records : List JsonValue) (communityId : String)
    (authorizations : List (MemberSigningKeyAuthorization crypto)) (source : JsonValue) : Prop :=
  ∃ record value, Authentic authorizations source record ∧
    DomainValue.CarriedBy record.toRecordEnvelope value ∧
    value.Linked records communityId authorizations

variable {records : List JsonValue} {communityId : String}
  {authorizations : List (MemberSigningKeyAuthorization crypto)}

theorem DomainValue.CarriedBy.kindName {record : RecordEnvelope} {value : DomainValue}
    (h : value.CarriedBy record) : record.kind = value.kindName := by
  cases value with
  | publishedListing | closedListing | proposedProposal | acceptedProposal | acknowledgement
  | attestation | transfer =>
      simp only [DomainValue.CarriedBy] at h
      exact h.kindName

theorem DomainValue.kindName_mem (value : DomainValue) :
    value.kindName ∈ memberAuthoredDomainRecordKinds := by
  cases value <;> simp [kindName, memberAuthoredDomainRecordKinds]

theorem isDomainRecord_iff {source : JsonValue} {record : RecordEnvelope}
    (hcreate : createRecordEnvelope source = .ok record) :
    IsDomainRecord communityId source ↔
      record.communityId = communityId ∧ record.kind ∈ memberAuthoredDomainRecordKinds := by
  have hdescribes := createRecordEnvelope_eq_ok.mp hcreate
  simp [IsDomainRecord, isMemberAuthoredDomainRecord, hdescribes.communityId, hdescribes.kind]

/-- The constructor makes the values that the records of one kind carry. -/
structure CarriesAs {α : Type} (kind : RecordKind α) (make : α → DomainValue) : Prop where
  named : ∀ value : DomainValue, value.kindName = kind.kind → ∃ content, value = make content
  carried : ∀ record content, (make content).CarriedBy record ↔ kind.Carries record content

theorem carriesAs_publishedListing : CarriesAs publishedListingRecords .publishedListing where
  named value h := by
    cases value with
    | publishedListing content => exact ⟨content, rfl⟩
    | _ => exact absurd h (by simp only [DomainValue.kindName]; decide)
  carried _ _ := Iff.rfl

theorem carriesAs_closedListing : CarriesAs closedListingRecords .closedListing where
  named value h := by
    cases value with
    | closedListing content => exact ⟨content, rfl⟩
    | _ => exact absurd h (by simp only [DomainValue.kindName]; decide)
  carried _ _ := Iff.rfl

theorem carriesAs_proposedProposal : CarriesAs proposedExchangeProposalRecords .proposedProposal where
  named value h := by
    cases value with
    | proposedProposal content => exact ⟨content, rfl⟩
    | _ => exact absurd h (by simp only [DomainValue.kindName]; decide)
  carried _ _ := Iff.rfl

theorem carriesAs_acceptedProposal : CarriesAs acceptedExchangeProposalRecords .acceptedProposal where
  named value h := by
    cases value with
    | acceptedProposal content => exact ⟨content, rfl⟩
    | _ => exact absurd h (by simp only [DomainValue.kindName]; decide)
  carried _ _ := Iff.rfl

theorem carriesAs_acknowledgement : CarriesAs settlementAcknowledgementRecords .acknowledgement where
  named value h := by
    cases value with
    | acknowledgement content => exact ⟨content, rfl⟩
    | _ => exact absurd h (by simp only [DomainValue.kindName]; decide)
  carried _ _ := Iff.rfl

theorem carriesAs_attestation : CarriesAs settlementTransferAttestationRecords .attestation where
  named value h := by
    cases value with
    | attestation content => exact ⟨content, rfl⟩
    | _ => exact absurd h (by simp only [DomainValue.kindName]; decide)
  carried _ _ := Iff.rfl

theorem carriesAs_transfer : CarriesAs ledgerTransferRecords .transfer where
  named value h := by
    cases value with
    | transfer content => exact ⟨content, rfl⟩
    | _ => exact absurd h (by simp only [DomainValue.kindName]; decide)
  carried _ _ := Iff.rfl

/-- When every record of a member's domain stands, an envelope of one kind carries a linked value of
that kind. -/
theorem CarriesAs.of_stands {α : Type} {kind : RecordKind α} {make : α → DomainValue}
    (hmake : CarriesAs kind make)
    (h : ∀ source ∈ records, IsDomainRecord communityId source →
      Stands records communityId authorizations source)
    {record : RecordEnvelope} (hcontains : Contains records record)
    (hcommunity : record.communityId = communityId) (hname : record.kind = kind.kind)
    (hmember : kind.kind ∈ memberAuthoredDomainRecordKinds) :
    ∃ content, kind.Carries record content ∧
      (make content).Linked records communityId authorizations := by
  obtain ⟨source, hsource, hcreate⟩ := hcontains
  obtain ⟨signed, value, hauthentic, hcarried, hlinked⟩ := h source hsource
    ((isDomainRecord_iff hcreate).mpr ⟨hcommunity, hname ▸ hmember⟩)
  have hsame := (createMemberSignedRecord_eq_ok.mp hauthentic.1).1
  rw [hcreate, Except.ok.injEq] at hsame
  rw [← hsame] at hcarried
  obtain ⟨content, rfl⟩ := hmake.named value (hcarried.kindName.symm.trans hname)
  exact ⟨content, (hmake.carried record content).mp hcarried, hlinked⟩

theorem CarriesAs.decodes {α : Type} {kind : RecordKind α} {make : α → DomainValue}
    (hmake : CarriesAs kind make)
    (h : ∀ source ∈ records, IsDomainRecord communityId source →
      Stands records communityId authorizations source)
    (hmember : kind.kind ∈ memberAuthoredDomainRecordKinds) : kind.Decodes records communityId :=
  fun _ hcontains hcommunity hname ↦
    have ⟨content, hcarries, _⟩ := hmake.of_stands h hcontains hcommunity hname hmember
    ⟨content, hcarries⟩

theorem CarriesAs.linked {α : Type} {kind : RecordKind α} {make : α → DomainValue}
    (hmake : CarriesAs kind make)
    (h : ∀ source ∈ records, IsDomainRecord communityId source →
      Stands records communityId authorizations source)
    (hmember : kind.kind ∈ memberAuthoredDomainRecordKinds) {content : α}
    (hheld : kind.Holds records communityId content) :
    (make content).Linked records communityId authorizations := by
  obtain ⟨hcommunity, record, hcontains, hcarries⟩ := hheld
  obtain ⟨other, hother, hlinked⟩ := hmake.of_stands h hcontains
    (hcarries.communityId.trans hcommunity) hcarries.kindName hmember
  rwa [hcarries.unique hother]

/-- A history is coherent exactly when every record of a member's domain stands. -/
theorem coherent_iff :
    Coherent records communityId authorizations ↔
      Text.blank communityId = false ∧ authorizations.Pairwise Compatible ∧
        ∀ source ∈ records, IsDomainRecord communityId source →
          Stands records communityId authorizations source := by
  constructor
  · intro h
    refine ⟨h.community, h.compatible, fun source hsource hdomain ↦ ?_⟩
    obtain ⟨record, hauthentic⟩ := h.signed source hsource hdomain.1 hdomain.2
    have hcreate := (createMemberSignedRecord_eq_ok.mp hauthentic.1).1
    have hcontains : Contains records record.toRecordEnvelope := ⟨source, hsource, hcreate⟩
    obtain ⟨hcommunity, hkind⟩ := (isDomainRecord_iff hcreate).mp hdomain
    -- the value is decoded by the kind that the record names
    have stand : ∀ {α : Type} {kind : RecordKind α} {make : α → DomainValue},
        CarriesAs kind make → kind.Decodes records communityId → record.kind = kind.kind →
        (∀ content, kind.Holds records communityId content →
          (make content).Linked records communityId authorizations) →
        Stands records communityId authorizations source := by
      intro α kind make hmake hdecodes hname hlinked
      obtain ⟨content, hcarries⟩ := hdecodes _ hcontains hcommunity hname
      exact ⟨record, make content, hauthentic, (hmake.carried _ _).mpr hcarries,
        hlinked content ⟨hcarries.communityId.symm.trans hcommunity, _, hcontains, hcarries⟩⟩
    simp only [memberAuthoredDomainRecordKinds, List.mem_cons, List.not_mem_nil, or_false] at hkind
    rcases hkind with hname | hname | hname | hname | hname | hname | hname
    · exact stand carriesAs_publishedListing h.decodes.publishedListings hname fun _ _ ↦ trivial
    · exact stand carriesAs_closedListing h.decodes.closedListings hname h.closures
    · exact stand carriesAs_proposedProposal h.decodes.proposedProposals hname fun _ _ ↦ trivial
    · exact stand carriesAs_acceptedProposal h.decodes.acceptedProposals hname
        fun acceptance hacceptance proposal hproposal ↦ h.terms proposal acceptance hproposal hacceptance
    · exact stand carriesAs_acknowledgement h.decodes.acknowledgements hname h.acknowledged
    · exact stand carriesAs_attestation h.decodes.attestations hname h.verified
    · exact stand carriesAs_transfer h.decodes.transfers hname fun transfer htransfer ↦
        ⟨h.settlements transfer htransfer, h.attested transfer htransfer,
          h.reversals transfer htransfer⟩
  · rintro ⟨hcommunity, hcompatible, h⟩
    exact
      { community := hcommunity
        compatible := hcompatible
        signed := fun source hsource hfield hmember ↦ by
          obtain ⟨record, _, hauthentic, _⟩ := h source hsource ⟨hfield, hmember⟩
          exact ⟨record, hauthentic⟩
        decodes :=
          { publishedListings := carriesAs_publishedListing.decodes h (by decide)
            closedListings := carriesAs_closedListing.decodes h (by decide)
            proposedProposals := carriesAs_proposedProposal.decodes h (by decide)
            acceptedProposals := carriesAs_acceptedProposal.decodes h (by decide)
            acknowledgements := carriesAs_acknowledgement.decodes h (by decide)
            attestations := carriesAs_attestation.decodes h (by decide)
            transfers := carriesAs_transfer.decodes h (by decide) }
        closures := fun _ hclosure ↦ carriesAs_closedListing.linked h (by decide) hclosure
        terms := fun proposal acceptance hproposal hacceptance ↦
          carriesAs_acceptedProposal.linked h (by decide) hacceptance proposal hproposal
        acknowledged := fun _ hack ↦ carriesAs_acknowledgement.linked h (by decide) hack
        verified := fun _ hcontainer ↦ carriesAs_attestation.linked h (by decide) hcontainer
        settlements := fun _ htransfer ↦
          (carriesAs_transfer.linked h (by decide) htransfer).1
        attested := fun _ htransfer ↦ (carriesAs_transfer.linked h (by decide) htransfer).2.1
        reversals := fun _ htransfer ↦ (carriesAs_transfer.linked h (by decide) htransfer).2.2 }

end PeerHours.TimebankRecords
