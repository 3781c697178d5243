import PeerHours.Records.Rules

/-!
# What the record encoders produce

Normalizing the object of a valid value sorts its properties and keeps the value, so an encoder always
returns an envelope that carries the value it was given.
-/

namespace PeerHours.TimebankRecords

open Checked Json KeyedMap Sorting
open JsonValue (field_obj)
open TimebankDomain (ExchangeProposal Listing)
open TimebankLedger (Transfer TransferAttestation createTransfer_eq_ok createTransferTerms_eq_ok
  Describes normalizeAttestations_eq_ok readAttestation_eq_ok attestationNames)
open TimebankSettlement (SettlementAcknowledgement SettlementTransferAttestation)

variable {α : Type}

/-- Normalizing the object of a valid value keeps the value, and its envelope has no blank text. -/
structure RecordKind.Encodes (kind : RecordKind α) (Valid : α → Prop) : Prop where
  payload : ∀ value, Valid value → ∃ payload, normalizeJson (kind.toJson value) = .ok payload ∧
    kind.normalize payload = .ok value
  again : ∀ value, Valid value → kind.normalize (kind.toJson value) = .ok value
  kindPresent : Text.blank kind.kind = false
  idPresent : ∀ value, Valid value → Text.blank (kind.recordId (kind.id value)) = false
  communityPresent : ∀ value, Valid value → Text.blank (kind.communityId value) = false
  authorPresent : ∀ value author, Valid value → kind.mayAuthor value author = true →
    Text.blank author = false

variable {kind : RecordKind α} {Valid : α → Prop}

theorem RecordKind.Encodes.mono (h : kind.Encodes Valid) {Narrower : α → Prop}
    (hvalid : ∀ value, Narrower value → Valid value) : kind.Encodes Narrower where
  payload value hnarrow := h.payload value (hvalid value hnarrow)
  again value hnarrow := h.again value (hvalid value hnarrow)
  kindPresent := h.kindPresent
  idPresent value hnarrow := h.idPresent value (hvalid value hnarrow)
  communityPresent value hnarrow := h.communityPresent value (hvalid value hnarrow)
  authorPresent value author hnarrow := h.authorPresent value author (hvalid value hnarrow)

/-- The envelope object of a valid value creates an envelope that carries it. -/
theorem RecordKind.Encodes.envelope (h : kind.Encodes Valid) {value : α} (hvalid : Valid value)
    {metadata : CreateTimebankRecordMetadata}
    (hauthor : kind.mayAuthor value metadata.authorId = true)
    (htime : Timestamp.isCanonical metadata.occurredAt = true) :
    ∃ record, createRecordEnvelope (kind.envelope value metadata) = .ok record ∧
      kind.Carries record value ∧ record.authorId = metadata.authorId ∧
      record.occurredAt = metadata.occurredAt := by
  obtain ⟨payload, hpayload, hnormalize⟩ := h.payload value hvalid
  have hpresent : ∀ text ∈ [kind.recordId (kind.id value), timebankRecordSchema, kind.kind,
      kind.communityId value, metadata.authorId], Text.blank text = false := by
    simp only [List.forall_mem_cons]
    exact ⟨h.idPresent value hvalid, by decide, h.kindPresent, h.communityPresent value hvalid,
      h.authorPresent value _ hvalid hauthor, by simp⟩
  let record : RecordEnvelope :=
    { id := kind.recordId (kind.id value)
      schema := timebankRecordSchema
      version := timebankRecordVersion
      kind := kind.kind
      communityId := kind.communityId value
      occurredAt := metadata.occurredAt
      authorId := metadata.authorId
      payload := payload
      present := hpresent
      positive := by decide
      timestamp := htime
      normal := normalizeJson_idem hpayload }
  refine ⟨record, createRecordEnvelope_eq_ok.mpr ?_, ?_, rfl, rfl⟩
  · exact ⟨rfl, rfl, rfl, rfl, rfl, rfl, rfl, _, rfl, hpayload⟩
  · exact ⟨rfl, rfl, rfl, hnormalize, rfl, rfl, hauthor⟩

/-- Encoding a valid value for an allowed author creates its envelope. -/
theorem RecordKind.Encodes.encode (h : kind.Encodes Valid) {value : α} (hvalid : Valid value)
    {metadata : CreateTimebankRecordMetadata} {authorMessage : String}
    (hauthor : kind.mayAuthor value metadata.authorId = true) :
    kind.encode authorMessage value metadata =
      createRecordEnvelope (kind.envelope value metadata) := by
  rw [RecordKind.encode, h.again value hvalid, ok_bind, hauthor]
  rfl

/-- An object is normalized by normalizing its properties and sorting them. -/
theorem normalizeJson_obj_of_fields {fields normal : List (String × JsonValue)}
    (h : normalizeFields fields = .ok normal) :
    normalizeJson (.obj fields) = .ok (.obj (sortBy compareProperties normal)) := by
  rw [normalizeJson, h]
  rfl

/-- The object of normal properties with distinct names is normalized by sorting them. -/
theorem normalize_properties {properties : List (String × JsonValue)} (h : NormalFields properties)
    (hnodup : (properties.map Prod.fst).Nodup) :
    ∃ payload, normalizeJson (.obj properties) = .ok payload ∧ HasProperties payload properties ∧
      ∀ name, payload.field name = JsonValue.get name properties :=
  ⟨_, normalizeJson_obj_of_normal h, hasProperties_sorted hnodup, fun name ↦ by
    rw [field_obj, get_sortBy]⟩

/-- Texts and whole numbers under ordinary names are normal. -/
theorem normalFields_cons_str {name text : String} {rest : List (String × JsonValue)}
    (hname : name ≠ "__proto__") :
    NormalFields ((name, .str text) :: rest) ↔ NormalFields rest := by
  simp [NormalFields, normalizeJson, hname]

theorem normalFields_cons_int {name : String} {value : Int} {rest : List (String × JsonValue)}
    (hname : name ≠ "__proto__") :
    NormalFields ((name, .int value) :: rest) ↔ NormalFields rest := by
  simp [NormalFields, normalizeJson, hname, JsonValue.int]

theorem normalFields_nil : NormalFields [] := by simp [NormalFields]

theorem encodes_publishedListing : publishedListingRecords.Encodes ListingValid where
  payload listing hvalid := by
    obtain ⟨payload, hpayload, hproperties, -⟩ := @normalize_properties
      (listingToJson listing).properties
      (by simp [listingToJson, JsonValue.properties, normalFields_cons_str, normalFields_cons_int,
        normalFields_nil])
      (by simp [listingToJson, JsonValue.properties])
    exact ⟨payload, hpayload, normalizePublishedListing_eq_ok.mpr ⟨hproperties, hvalid⟩⟩
  again := lawful_publishedListing.again
  kindPresent := by decide
  idPresent _ hvalid := hvalid.id
  communityPresent _ hvalid := hvalid.communityId
  authorPresent _ _ hvalid hauthor := of_decide_eq_true hauthor ▸ hvalid.memberId

theorem encodes_closedListing : closedListingRecords.Encodes ClosureValid where
  payload closure hvalid := by
    obtain ⟨payload, hpayload, hproperties, -⟩ := @normalize_properties closure.toJson.properties
      (by simp [ClosedListing.toJson, JsonValue.properties, normalFields_cons_str, normalFields_nil])
      (by simp [ClosedListing.toJson, JsonValue.properties])
    exact ⟨payload, hpayload, normalizeClosedListing_eq_ok.mpr ⟨hproperties, hvalid⟩⟩
  again := lawful_closedListing.again
  kindPresent := by decide
  idPresent closure hvalid := by
    change Text.blank closure.id = false
    rw [hvalid.id, closedListingRecordId, Text.blank_append, hvalid.listingId]
    rfl
  communityPresent _ hvalid := hvalid.communityId
  authorPresent _ _ hvalid hauthor := of_decide_eq_true hauthor ▸ hvalid.memberId

theorem encodes_proposedExchangeProposal :
    proposedExchangeProposalRecords.Encodes ProposedValid where
  payload proposal hvalid := by
    obtain ⟨payload, hpayload, hproperties, hfield⟩ := @normalize_properties
      (proposalToJson proposal).properties
      (by simp [proposalToJson, JsonValue.properties, hvalid.acceptedBy, normalFields_cons_str,
        normalFields_cons_int, normalFields_nil])
      (by simp [proposalToJson, JsonValue.properties, hvalid.acceptedBy])
    refine ⟨payload, hpayload, normalizeProposedProposal_eq_ok.mpr ⟨hproperties, ?_, hvalid⟩⟩
    rw [hfield]
    simp [proposalToJson, JsonValue.properties, hvalid.acceptedBy]
  again := lawful_proposedExchangeProposal.again
  kindPresent := by decide
  idPresent proposal hvalid := by
    change Text.blank (proposalRecordId "proposed" proposal.id) = false
    rw [proposalRecordId, Text.blank_append, hvalid.id]
    rfl
  communityPresent _ hvalid := hvalid.communityId
  authorPresent _ _ hvalid hauthor := of_decide_eq_true hauthor ▸ hvalid.creatorMemberId

theorem encodes_acceptedExchangeProposal :
    acceptedExchangeProposalRecords.Encodes AcceptedValid where
  payload proposal hvalid := by
    obtain ⟨payload, hpayload, hproperties, -⟩ := @normalize_properties
      (proposalToJson proposal).properties
      (by simp [proposalToJson, JsonValue.properties, hvalid.acceptedBy, normalFields_cons_str,
        normalFields_cons_int, normalFields_nil])
      (by simp [proposalToJson, JsonValue.properties, hvalid.acceptedBy])
    exact ⟨payload, hpayload, normalizeAcceptedProposal_eq_ok.mpr ⟨hproperties, hvalid⟩⟩
  again := lawful_acceptedExchangeProposal.again
  kindPresent := by decide
  idPresent proposal hvalid := by
    change Text.blank (proposalRecordId "accepted" proposal.id) = false
    rw [proposalRecordId, Text.blank_append, hvalid.id]
    rfl
  communityPresent _ hvalid := hvalid.communityId
  authorPresent proposal author hvalid hauthor := by
    have hsome : some author = proposal.acceptedByMemberId := of_decide_eq_true hauthor
    rw [hvalid.acceptedBy, Option.some.injEq] at hsome
    exact hsome ▸ hvalid.blank_acceptor

theorem encodes_settlementAcknowledgement :
    settlementAcknowledgementRecords.Encodes AcknowledgementValid where
  payload acknowledgement hvalid := by
    obtain ⟨payload, hpayload, hproperties, -⟩ := @normalize_properties
      acknowledgement.toJson.properties
      (by simp [SettlementAcknowledgement.toJson, JsonValue.properties, normalFields_cons_str,
        normalFields_cons_int, normalFields_nil])
      (by simp [SettlementAcknowledgement.toJson, JsonValue.properties])
    exact ⟨payload, hpayload, normalizeSettlementAcknowledgement_eq_ok.mpr ⟨hproperties, hvalid⟩⟩
  again := lawful_settlementAcknowledgement.again
  kindPresent := by decide
  idPresent acknowledgement hvalid := by
    change Text.blank acknowledgement.id = false
    rw [hvalid.id, Text.blank_append, Text.blank_append, hvalid.sourceProposalId]
    rfl
  communityPresent _ hvalid := hvalid.communityId
  authorPresent _ _ hvalid hauthor := of_decide_eq_true hauthor ▸ hvalid.acknowledgedBy

/-- The object of an attestation without further properties is normalized by sorting it. -/
theorem normalize_attestation {attestation : TransferAttestation} (hrest : attestation.rest = []) :
    ∃ item, normalizeJson attestation.toJson = .ok item ∧
      HasProperties item attestation.toJson.properties ∧
      item.properties.filter (fun property ↦ property.1 ∉ attestationNames) = [] := by
  obtain ⟨member, key, digest, signature, rest⟩ := attestation
  obtain rfl : rest = [] := hrest
  have hnames : ∀ property ∈ (TransferAttestation.toJson
      ⟨member, key, digest, signature, []⟩).properties, property.1 ∈ attestationNames := by
    simp [TransferAttestation.toJson, JsonValue.properties, attestationNames]
  refine ⟨_, normalizeJson_obj_of_normal ?_, hasProperties_sorted ?_, ?_⟩
  · simp [normalFields_cons_str, normalFields_nil]
  · simp
  · refine List.filter_eq_nil_iff.mpr fun property hproperty ↦ ?_
    simpa using hnames property (mem_sortBy.mp hproperty)

theorem encodes_settlementTransferAttestation :
    settlementTransferAttestationRecords.Encodes AttestationValid where
  payload container hvalid := by
    obtain ⟨item, hitem, hproperties, -⟩ := normalize_attestation hvalid.rest
    have hfields : normalizeFields [("id", .str container.id),
        ("communityId", .str container.communityId),
        ("sourceProposalId", .str container.sourceProposalId),
        ("attestation", container.attestation.toJson)] =
        .ok [("id", .str container.id), ("communityId", .str container.communityId),
          ("sourceProposalId", .str container.sourceProposalId), ("attestation", item)] := by
      simp [normalizeFields, hitem, normalizeJson, require, pure, Except.pure]
    refine ⟨_, normalizeJson_obj_of_fields hfields,
      normalizeSettlementTransferAttestation_eq_ok.mpr ⟨?_, ?_, hvalid⟩⟩
    · simp [HasProperties, get_sortBy]
    · simpa [get_sortBy] using hproperties
  again := lawful_settlementTransferAttestation.again
  kindPresent := by decide
  idPresent container hvalid := by
    change Text.blank container.id = false
    rw [hvalid.id, Text.blank_append, Text.blank_append, hvalid.sourceProposalId]
    rfl
  communityPresent _ hvalid := hvalid.communityId
  authorPresent _ _ hvalid hauthor := of_decide_eq_true hauthor ▸ hvalid.attestation.memberId

/-- An ordinary transfer whose attestations have no further properties. -/
structure PlainTransfer (transfer : Transfer) : Prop where
  valid : transfer.Valid
  ordinary : transfer.reversesTransferId = none
  plain : ∀ attestation ∈ transfer.attestations, attestation.rest = []

/-- The normalized object of an attestation is read back as the attestation. -/
theorem readAttestation_of_hasProperties {attestation : TransferAttestation} {item : JsonValue}
    (hvalid : attestation.Valid) (hrest : attestation.rest = [])
    (hproperties : HasProperties item attestation.toJson.properties)
    (hnames : item.properties.filter (fun property ↦ property.1 ∉ attestationNames) = []) :
    TimebankLedger.readAttestation item = .ok attestation := by
  simp only [HasProperties, TransferAttestation.toJson, JsonValue.properties,
    List.forall_mem_cons] at hproperties
  obtain ⟨hmember, hkey, hdigest, hsignature, -⟩ := hproperties
  exact readAttestation_eq_ok.mpr ⟨hvalid, hmember, hkey, hdigest, hsignature, hrest ▸ hnames⟩

/-- A transfer whose source proposal, when it has one, is a text, and whose attestations have no further
properties. -/
structure TextualTransfer (transfer : Transfer) : Prop where
  valid : transfer.Valid
  source : ∀ source, transfer.sourceProposalId = some source → ∃ text, source = .str text
  plain : ∀ attestation ∈ transfer.attestations, attestation.rest = []

theorem PlainTransfer.textual {transfer : Transfer} (h : PlainTransfer transfer) :
    TextualTransfer transfer where
  valid := h.valid
  source source hsource := by
    obtain ⟨proposalId, hproposal, -⟩ := h.valid.settles h.ordinary
    exact ⟨proposalId, Option.some.inj (hsource.symm.trans hproposal)⟩
  plain := h.plain

theorem encodes_textualTransfer : ledgerTransferRecords.Encodes TextualTransfer where
  payload transfer h := by
    obtain ⟨provider, recipient, hpair, hprovider, hrecipient, hproviderId, hrecipientId⟩ :=
      h.valid.attested
    have hplain := h.plain
    rw [hpair] at hplain
    simp only [List.forall_mem_cons] at hplain
    obtain ⟨first, hfirst, hfirstProperties, hfirstRest⟩ := normalize_attestation hplain.1
    obtain ⟨second, hsecond, hsecondProperties, hsecondRest⟩ := normalize_attestation hplain.2.1
    have hfields : normalizeFields (transfer.properties ++
        [("attestations", .arr (transfer.attestations.map TransferAttestation.toJson))]) =
        .ok (transfer.properties ++ [("attestations", .arr [first, second])]) := by
      have hsource := h.source
      cases hproposal : transfer.sourceProposalId with
      | none =>
          cases hreverses : transfer.reversesTransferId <;>
            simp [TimebankLedger.TransferTerms.properties, hproposal, hreverses, hpair,
              normalizeFields, normalizeItems, normalizeJson, JsonValue.int, require, pure,
              Except.pure, hfirst, hsecond]
      | some source =>
          obtain ⟨text, rfl⟩ := hsource source hproposal
          cases hreverses : transfer.reversesTransferId <;>
            simp [TimebankLedger.TransferTerms.properties, hproposal, hreverses, hpair,
              normalizeFields, normalizeItems, normalizeJson, JsonValue.int, require, pure,
              Except.pure, hfirst, hsecond]
    obtain ⟨hdescribes, -, hattestations⟩ :=
      TimebankLedger.describes_properties transfer.toTransferTerms (.arr [first, second])
    refine ⟨_, normalizeJson_obj_of_fields hfields, normalizeTransfer_eq_ok.mpr
      (createTransfer_eq_ok.mpr ⟨createTransferTerms_eq_ok.mpr ⟨?_, h.valid.toValid⟩, ?_⟩)⟩
    · exact hdescribes.of_field fun name ↦ by rw [field_obj, field_obj, get_sortBy]
    · rw [field_obj, get_sortBy, hattestations, normalizeAttestations_eq_ok h.valid.distinct]
      exact ⟨first, second, provider, recipient, rfl, hpair, hproviderId, hrecipientId, .inl
        ⟨readAttestation_of_hasProperties hprovider hplain.1 hfirstProperties hfirstRest,
          readAttestation_of_hasProperties hrecipient hplain.2.1 hsecondProperties hsecondRest⟩⟩
  again _ h := lawful_ledgerTransfer.again _ h.valid
  kindPresent := by decide
  idPresent _ h := h.valid.id
  communityPresent _ h := h.valid.communityId
  authorPresent transfer author h hauthor := by
    have hmember : author = transfer.providerMemberId ∨ author = transfer.recipientMemberId := by
      simpa [ledgerTransferRecords] using hauthor
    rcases hmember with rfl | rfl
    · exact h.valid.providerMemberId
    · exact h.valid.recipientMemberId

theorem encodes_ledgerTransfer : ledgerTransferRecords.Encodes PlainTransfer :=
  encodes_textualTransfer.mono fun _ h ↦ h.textual

end PeerHours.TimebankRecords
