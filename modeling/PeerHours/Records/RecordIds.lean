import PeerHours.Records.Authorizations
import PeerHours.Records.Encoding

/-!
# The ids of encoded records

Every encoder derives the id of its envelope from the payload. The ids of a closure, an acceptance, an
attestation and a settlement are told apart by what follows their last slash.
-/

namespace PeerHours.TimebankRecords

open Checked Json
open TimebankDomain (ExchangeProposal Listing)
open TimebankIdentity
open TimebankLedger (Transfer TransferAttestation createTransfer_eq_ok createTransfer_toJson
  describes_properties normalizeAttestations_eq_ok readAttestation_eq_ok valid_of_createTransfer)
open TimebankSettlement

/-! ## What the encoders derive -/

section Derived

variable {α : Type} {kind : RecordKind α} {metadata : CreateTimebankRecordMetadata}
  {record : RecordEnvelope}

theorem RecordKind.envelope_id {value : α}
    (h : createRecordEnvelope (kind.envelope value metadata) = .ok record) :
    record.id = kind.recordId (kind.id value) := by
  have hid := (createRecordEnvelope_eq_ok.mp h).id
  simpa [RecordKind.envelope, JsonValue.field_obj, JsonValue.get_cons, eq_comm] using hid

theorem toClosedListingRecord_id {listing : Listing}
    (h : toClosedListingRecord listing metadata = .ok record) :
    record.id = closedListingRecordId listing.id := by
  simp only [toClosedListingRecord, bind_eq_ok, require_eq_ok] at h
  obtain ⟨normalized, hnormalized, -, -, hcreate⟩ := h
  have hproperties := (normalizePublishedListing_eq_ok.mp hnormalized).1
  have hid : (listingToJson listing).field "id" = some (.str normalized.id) :=
    hproperties ("id", .str normalized.id) List.mem_cons_self
  have hsame : listing.id = normalized.id := by
    simpa [listingToJson, JsonValue.field_obj, JsonValue.get_cons] using hid
  exact (RecordKind.envelope_id hcreate).trans (congrArg closedListingRecordId hsame.symm)

theorem toAcceptedExchangeProposalRecord_id {proposal : ExchangeProposal}
    (h : toAcceptedExchangeProposalRecord proposal metadata = .ok record) :
    record.id = proposalRecordId "accepted" proposal.id := by
  simp only [toAcceptedExchangeProposalRecord, RecordKind.encode, bind_eq_ok, require_eq_ok] at h
  obtain ⟨normalized, hnormalized, -, -, hcreate⟩ := h
  have hproperties := (normalizeAcceptedProposal_eq_ok.mp hnormalized).1
  have hid : (proposalToJson proposal).field "id" = some (.str normalized.id) :=
    hproperties ("id", .str normalized.id) List.mem_cons_self
  have hsame : proposal.id = normalized.id := by
    simpa [proposalToJson, JsonValue.field_obj, JsonValue.get_cons] using hid
  exact (RecordKind.envelope_id hcreate).trans (congrArg (proposalRecordId "accepted") hsame.symm)

theorem toSettlementTransferAttestationRecord_id {container : SettlementTransferAttestation}
    (h : toSettlementTransferAttestationRecord container metadata = .ok record) :
    record.id = container.id := by
  simp only [toSettlementTransferAttestationRecord, RecordKind.encode, bind_eq_ok, require_eq_ok] at h
  obtain ⟨normalized, hnormalized, -, -, hcreate⟩ := h
  have hproperties := (normalizeSettlementTransferAttestation_eq_ok.mp hnormalized).1
  have hid : container.toJson.field "id" = some (.str normalized.id) :=
    hproperties ("id", .str normalized.id) List.mem_cons_self
  have hsame : container.id = normalized.id := by
    simpa [SettlementTransferAttestation.toJson, JsonValue.field_obj, JsonValue.get_cons] using hid
  exact (RecordKind.envelope_id hcreate).trans hsame.symm

end Derived

/-! ## The settlement transfer record -/

/-- Attestations that are read from attestations with nothing beyond their four properties have nothing
beyond them either. -/
theorem rest_eq_nil_of_readAttestation {source attestation : TransferAttestation}
    (hrest : source.rest = []) (h : TimebankLedger.readAttestation source.toJson = .ok attestation) :
    attestation.rest = [] := by
  rw [← (readAttestation_eq_ok.mp h).2.2.2.2.2]
  simp [TransferAttestation.toJson, JsonValue.properties, hrest, TimebankLedger.attestationNames]

variable {localeCompare : String → String → Ordering} {proposal : ExchangeProposal}
  {acknowledgements : List SettlementAcknowledgement} {attestations : List TransferAttestation}

/-- A composed settlement transfer has the terms of its proposal and plain attestations. -/
theorem createDualConfirmedSettlementTransfer_spec (hsettleable : Settleable proposal)
    (hplain : ∀ attestation ∈ attestations, attestation.rest = []) {transfer : Transfer}
    (h : createDualConfirmedSettlementTransfer localeCompare proposal acknowledgements attestations =
      .ok transfer) :
    PlainTransfer transfer ∧ transfer.toTransferTerms = settlementTerms proposal := by
  simp only [createDualConfirmedSettlementTransfer, bind_eq_ok] at h
  obtain ⟨terms, -, created, hcreated, hvalidate⟩ := h
  have hvalid := valid_of_createTransfer hcreated
  obtain ⟨-, -, hterms, rfl⟩ :=
    (validateDualConfirmedSettlementTransfer_eq_ok hsettleable hvalid).mp hvalidate
  obtain ⟨-, hattestations⟩ := createTransfer_eq_ok.mp hcreated
  obtain ⟨first, second, p, r, hitems, hpair, -, -, hread⟩ :=
    (normalizeAttestations_eq_ok hvalid.distinct).mp hattestations
  have hfield : (Transfer.toJson { terms with attestations := attestations }).field "attestations" =
      some (.arr (attestations.map TransferAttestation.toJson)) :=
    (describes_properties terms (.arr (attestations.map TransferAttestation.toJson))).2.2
  rw [hfield, Option.some.injEq, JsonValue.arr.injEq] at hitems
  have hitem (item : JsonValue) (hitem : item ∈ [first, second]) :
      ∃ source ∈ attestations, source.toJson = item := by
    rw [← hitems] at hitem
    exact List.mem_map.mp hitem
  have hrest (item : JsonValue) (hmem : item ∈ [first, second]) (attestation : TransferAttestation)
      (hread : TimebankLedger.readAttestation item = .ok attestation) : attestation.rest = [] := by
    obtain ⟨source, hsource, rfl⟩ := hitem item hmem
    exact rest_eq_nil_of_readAttestation (hplain source hsource) hread
  refine ⟨⟨hvalid, ?_, ?_⟩, hterms⟩
  · rw [hterms]
    rfl
  · rw [hpair]
    intro attestation hmem
    simp only [List.mem_cons, List.not_mem_nil, or_false] at hmem
    rcases hread with ⟨hp, hr⟩ | ⟨hr, hp⟩ <;> rcases hmem with rfl | rfl
    · exact hrest first (by simp) _ hp
    · exact hrest second (by simp) _ hr
    · exact hrest second (by simp) _ hp
    · exact hrest first (by simp) _ hr

/-- The settlement transfer record of a proposal is named after it and decodes to its transfer. -/
theorem toDualConfirmedSettlementTransferRecord_spec (hsettleable : Settleable proposal)
    (hplain : ∀ attestation ∈ attestations, attestation.rest = [])
    {metadata : CreateTimebankRecordMetadata} {record : RecordEnvelope}
    (h : toDualConfirmedSettlementTransferRecord localeCompare proposal acknowledgements attestations
      metadata = .ok record) :
    ∃ transfer, ledgerTransferRecords.Carries record transfer ∧
      transfer.toTransferTerms = settlementTerms proposal := by
  simp only [toDualConfirmedSettlementTransferRecord, toLedgerTransferRecord, bind_eq_ok,
    require_eq_ok] at h
  obtain ⟨transfer, htransfer, -, hauthor, normalized, hnormalized, hcreate⟩ := h
  obtain ⟨hplainTransfer, hterms⟩ :=
    createDualConfirmedSettlementTransfer_spec hsettleable hplain htransfer
  have hagain := encodes_ledgerTransfer.again transfer hplainTransfer
  obtain rfl : transfer = normalized := Except.ok.inj (hagain.symm.trans hnormalized)
  have hmay : ledgerTransferRecords.mayAuthor transfer metadata.authorId = true := by
    simpa [ledgerTransferRecords] using hauthor
  have htime : Timestamp.isCanonical metadata.occurredAt = true := by
    have hoccurred := (createRecordEnvelope_eq_ok.mp hcreate).occurredAt
    have hsame : metadata.occurredAt = record.occurredAt := by
      simpa [RecordKind.envelope, JsonValue.field_obj, JsonValue.get_cons] using hoccurred
    rw [hsame]
    exact record.timestamp
  obtain ⟨encoded, hencoded, hcarries, -⟩ :=
    encodes_ledgerTransfer.envelope hplainTransfer hmay htime
  obtain rfl : encoded = record := Except.ok.inj (hencoded.symm.trans hcreate)
  exact ⟨transfer, hcarries, hterms⟩

/-! ## Last segments -/

/-- A record id by what stands before and after its last slash. -/
def Segments (id stem last : String) : Prop :=
  id = stem ++ (String.singleton '/' ++ last) ∧ '/' ∉ last.toList

theorem Segments.unique {id stem last stem' last' : String} (h : Segments id stem last)
    (h' : Segments id stem' last') : stem = stem' ∧ last = last' :=
  (Text.join_last_inj h.2 h'.2).mp (h.1.symm.trans h'.1)

theorem segments_closedListingRecordId (listingId : String) :
    Segments (closedListingRecordId listingId) listingId "closed" := ⟨rfl, by decide⟩

theorem segments_acceptedRecordId (proposalId : String) :
    Segments (proposalRecordId "accepted" proposalId) proposalId "accepted" := ⟨rfl, by decide⟩

theorem segments_settlementId (proposalId : String) :
    Segments (proposalId ++ "/settlement") proposalId "settlement" := ⟨rfl, by decide⟩

variable {crypto : Crypto}

/-- A self-owned member id contains no slash. -/
theorem slash_not_mem_selfOwnedMemberId (rootPublicKey : Ed25519PublicKey crypto) :
    '/' ∉ (selfOwnedMemberId rootPublicKey).toList := by
  intro h
  cases mem_selfOwnedMemberId h with
  | inl h => exact absurd h (by decide)
  | inr h => exact absurd h (by decide)

theorem segments_attestationId (proposalId : String) (rootPublicKey : Ed25519PublicKey crypto) :
    Segments (proposalId ++ "/settlement-attestation/" ++ selfOwnedMemberId rootPublicKey)
      (proposalId ++ "/settlement-attestation") (selfOwnedMemberId rootPublicKey) := by
  refine ⟨?_, slash_not_mem_selfOwnedMemberId rootPublicKey⟩
  simp [← String.toList_inj]

/-- A self-owned member id is none of the words that end the other record ids. -/
theorem selfOwnedMemberId_ne {word : String} (hword : word.toList.head? ≠ some 'p')
    (rootPublicKey : Ed25519PublicKey crypto) : selfOwnedMemberId rootPublicKey ≠ word := by
  intro hsame
  rw [← hsame, selfOwnedMemberId, String.toList_append] at hword
  exact hword rfl

end PeerHours.TimebankRecords
