import PeerHours.Records.TransferPayloads

/-!
# The record codecs

An encoded record is decoded to the normalized value that was encoded, whichever form of it a replica holds, and
by the decoder of its own kind alone.
-/

namespace PeerHours.TimebankRecords

open Checked Json
open TimebankDomain (ExchangeProposal Listing)
open TimebankLedger (Transfer TransferAttestation)
open TimebankSettlement (SettlementAcknowledgement SettlementTransferAttestation)

/-! ## Decoders -/

/-- The seven timebank record codecs. -/
inductive Codec where
  | publishedListing
  | closedListing
  | proposedExchangeProposal
  | acceptedExchangeProposal
  | settlementAcknowledgement
  | settlementTransferAttestation
  | ledgerTransfer

/-- The kind that the records of a codec carry. -/
def Codec.kindName : Codec → String
  | .publishedListing => publishedListingRecordKind
  | .closedListing => closedListingRecordKind
  | .proposedExchangeProposal => proposedExchangeProposalRecordKind
  | .acceptedExchangeProposal => acceptedExchangeProposalRecordKind
  | .settlementAcknowledgement => settlementAcknowledgementRecordKind
  | .settlementTransferAttestation => settlementTransferAttestationRecordKind
  | .ledgerTransfer => ledgerTransferRecordKind

/-- The decoder of the codec accepts the record. -/
def Codec.Decodes : Codec → JsonValue → Prop
  | .publishedListing, source => Succeeds (decodePublishedListingRecord source)
  | .closedListing, source => Succeeds (decodeClosedListingRecord source)
  | .proposedExchangeProposal, source => Succeeds (decodeProposedExchangeProposalRecord source)
  | .acceptedExchangeProposal, source => Succeeds (decodeAcceptedExchangeProposalRecord source)
  | .settlementAcknowledgement, source => Succeeds (decodeSettlementAcknowledgementRecord source)
  | .settlementTransferAttestation, source =>
      Succeeds (decodeSettlementTransferAttestationRecord source)
  | .ledgerTransfer, source => Succeeds (decodeLedgerTransferRecord source)

theorem Codec.kindName_inj {left right : Codec} (h : left.kindName = right.kindName) :
    left = right := by
  cases left <;> cases right <;> first | rfl | exact absurd h (by decide)

variable {α : Type}

theorem RecordKind.kind_of_succeeds {kind : RecordKind α} {source : JsonValue}
    {record : RecordEnvelope} (hcreated : createRecordEnvelope source = .ok record)
    (h : Succeeds (kind.decode source)) : record.kind = kind.kind := by
  obtain ⟨value, hvalue⟩ := h
  exact ((RecordKind.decode_eq_ok hcreated).mp hvalue).kindName

/-- A decoder accepts only records of its kind. -/
theorem Codec.kind_of_decodes {codec : Codec} {source : JsonValue} {record : RecordEnvelope}
    (hcreated : createRecordEnvelope source = .ok record) (h : codec.Decodes source) :
    record.kind = codec.kindName := by
  cases codec with
  | publishedListing => exact publishedListingRecords.kind_of_succeeds hcreated h
  | closedListing => exact closedListingRecords.kind_of_succeeds hcreated h
  | proposedExchangeProposal => exact proposedExchangeProposalRecords.kind_of_succeeds hcreated h
  | acceptedExchangeProposal => exact acceptedExchangeProposalRecords.kind_of_succeeds hcreated h
  | settlementAcknowledgement => exact settlementAcknowledgementRecords.kind_of_succeeds hcreated h
  | settlementTransferAttestation =>
      exact settlementTransferAttestationRecords.kind_of_succeeds hcreated h
  | ledgerTransfer => exact ledgerTransferRecords.kind_of_succeeds hcreated h

/-! ## Round trips -/

/-- Every held form of the record is decoded to the value, by the codec's own decoder alone. A signature can be added,
and every held form can be stored as text and read back. -/
structure RoundTrips (codec : Codec) (decode : JsonValue → Except String α) (record : RecordEnvelope)
    (value : α) : Prop where
  decodes : ∀ source, Held record source → decode source = .ok value
  alone : ∀ source, Held record source → ∀ other : Codec, other.Decodes source ↔ other = codec
  signable : ∀ signingKeyId signature, Text.blank signingKeyId = false →
    Text.blank signature = false →
    ∃ signedRecord, createMemberSignedRecord (.obj (record.properties ++
      [("signingKeyId", .str signingKeyId), ("signature", .str signature)])) = .ok signedRecord
  storable : ∀ source, Held record source →
    ∃ read, parse (stringify source) = some read ∧ Held record read

variable {kind : RecordKind α} {Valid : α → Prop}

/-- An envelope that carries a value round-trips when its payload is well formed. -/
theorem RecordKind.Carries.roundTrips {codec : Codec} (hkind : kind.kind = codec.kindName)
    (hdecodes : ∀ source, codec.Decodes source ↔ Succeeds (kind.decode source))
    {record : RecordEnvelope} {value : α} (h : kind.Carries record value)
    (hpayload : WellFormed record.payload) : RoundTrips codec kind.decode record value where
  decodes source hheld := (RecordKind.decode_eq_ok (hheld.spec hpayload).2).mpr h
  alone source hheld other := by
    have hcreated := (hheld.spec hpayload).2
    constructor
    · intro hother
      exact Codec.kindName_inj ((Codec.kind_of_decodes hcreated hother).symm.trans
        (h.kindName.trans hkind))
    · rintro rfl
      exact (hdecodes source).mpr ⟨value, (RecordKind.decode_eq_ok hcreated).mpr h⟩
  signable signingKeyId signature hkey hsignature :=
    ⟨{ record with signingKeyId := signingKeyId, signature := signature, signed := ⟨hkey, hsignature⟩ },
      createMemberSignedRecord_eq_ok.mpr
        ⟨createRecordEnvelope_eq_ok.mpr (describesRecord_properties record _), rfl, rfl⟩⟩
  storable source hheld := hheld.readable hpayload

/-- The envelope created for an encoded value carries it in a well formed payload. -/
theorem RecordKind.Encodes.carries (h : kind.Encodes Valid) {value : α} (hvalid : Valid value)
    (hwell : WellFormed (kind.toJson value)) {metadata : CreateTimebankRecordMetadata}
    (hauthor : kind.mayAuthor value metadata.authorId = true) {record : RecordEnvelope}
    (hcreated : createRecordEnvelope (kind.envelope value metadata) = .ok record) :
    kind.Carries record value ∧ WellFormed record.payload := by
  obtain ⟨payload, hpayload, hnormalize⟩ := h.payload value hvalid
  have hrecord := createRecordEnvelope_eq_ok.mp hcreated
  obtain ⟨source, hsource, hnormal⟩ := hrecord.payload
  obtain rfl : kind.toJson value = source := Option.some.inj hsource
  have hsame : payload = record.payload := Except.ok.inj (hpayload.symm.trans hnormal)
  refine ⟨⟨?_, ?_, ?_, hsame ▸ hnormalize, ?_, ?_, ?_⟩, wellFormed_normalizeJson hwell hnormal⟩
  · exact (JsonValue.str.inj (Option.some.inj hrecord.schema)).symm
  · exact (JsonValue.int_inj.mp (Option.some.inj hrecord.version)).symm
  · exact (JsonValue.str.inj (Option.some.inj hrecord.kind)).symm
  · exact (JsonValue.str.inj (Option.some.inj hrecord.id)).symm
  · exact (JsonValue.str.inj (Option.some.inj hrecord.communityId)).symm
  · rw [← JsonValue.str.inj (Option.some.inj hrecord.authorId)]
    exact hauthor

/-- What an encoder accepted round-trips to the normalized value. -/
theorem RecordKind.Encodes.roundTrips (h : kind.Encodes Valid)
    (haccepts : ∀ payload value, kind.normalize payload = .ok value → Valid value)
    (hwell : ∀ value, Valid value → WellFormed (kind.toJson value)) {codec : Codec}
    (hkind : kind.kind = codec.kindName)
    (hdecodes : ∀ source, codec.Decodes source ↔ Succeeds (kind.decode source))
    {authorMessage : String} {value : α} {metadata : CreateTimebankRecordMetadata}
    {record : RecordEnvelope} (hencode : kind.encode authorMessage value metadata = .ok record) :
    ∃ normalized, kind.normalize (kind.toJson value) = .ok normalized ∧
      RoundTrips codec kind.decode record normalized := by
  obtain ⟨normalized, hnormalized, hencode⟩ := bind_eq_ok.mp hencode
  obtain ⟨_, hauthor, hcreated⟩ := bind_eq_ok.mp hencode
  have hvalid := haccepts _ _ hnormalized
  obtain ⟨hcarries, hpayload⟩ := h.carries hvalid (hwell normalized hvalid)
    (require_eq_ok.mp hauthor) hcreated
  exact ⟨normalized, hnormalized, hcarries.roundTrips hkind hdecodes hpayload⟩

/-- An encoder accepts a valid value from an allowed author. -/
theorem RecordKind.Encodes.exists_encode (h : kind.Encodes Valid) {value : α} (hvalid : Valid value)
    {metadata : CreateTimebankRecordMetadata} {authorMessage : String}
    (hauthor : kind.mayAuthor value metadata.authorId = true)
    (htime : Timestamp.isCanonical metadata.occurredAt = true) :
    ∃ record, kind.encode authorMessage value metadata = .ok record := by
  obtain ⟨record, hcreated, -⟩ := h.envelope hvalid hauthor htime
  exact ⟨record, (h.encode hvalid hauthor).trans hcreated⟩

theorem wellFormed_listing (listing : Listing) : WellFormed (listingToJson listing) :=
  ⟨.of_plainNames (by simp [plainNames, arrayIndex?]), trivial, trivial, trivial, trivial, trivial,
    trivial, trivial, trivial, trivial⟩

theorem wellFormed_closure (closure : ClosedListing) : WellFormed closure.toJson :=
  ⟨.of_plainNames (by simp [plainNames, arrayIndex?]), trivial, trivial, trivial, trivial, trivial⟩

theorem wellFormed_proposal (proposal : ExchangeProposal) : WellFormed (proposalToJson proposal) := by
  obtain ⟨id, community, offer, request, provider, receiver, creator, _ | acceptor, minutes, status⟩ :=
    proposal
  · exact ⟨.of_plainNames (by simp [plainNames, arrayIndex?]), trivial, trivial, trivial, trivial,
      trivial, trivial, trivial, trivial, trivial, trivial⟩
  · exact ⟨.of_plainNames (by simp [plainNames, arrayIndex?]), trivial, trivial, trivial, trivial,
      trivial, trivial, trivial, trivial, trivial, trivial, trivial⟩

theorem wellFormed_acknowledgement (acknowledgement : SettlementAcknowledgement) :
    WellFormed acknowledgement.toJson :=
  ⟨.of_plainNames (by simp [plainNames, arrayIndex?]), trivial, trivial, trivial, trivial, trivial,
    trivial, trivial, trivial⟩

theorem wellFormed_attestationContainer {container : SettlementTransferAttestation}
    (hrest : container.attestation.rest = []) : WellFormed container.toJson := by
  obtain ⟨id, community, source, member, key, digest, signature, rest⟩ := container
  obtain rfl : rest = [] := hrest
  exact ⟨.of_plainNames (by simp [plainNames, arrayIndex?]), trivial, trivial, trivial,
    ⟨.of_plainNames (by simp [plainNames, arrayIndex?]), trivial, trivial, trivial, trivial, trivial⟩, trivial⟩

/-- What the closure encoder accepted round-trips to the closure of the normalized listing. -/
theorem roundTrips_closedListing {listing : Listing} {metadata : CreateTimebankRecordMetadata}
    {record : RecordEnvelope} (hencode : toClosedListingRecord listing metadata = .ok record) :
    ∃ normalized, normalizePublishedListing (listingToJson listing) = .ok normalized ∧
      RoundTrips .closedListing decodeClosedListingRecord record
        ⟨closedListingRecordId normalized.id, normalized.communityId, normalized.id,
          normalized.memberId⟩ := by
  obtain ⟨normalized, hnormalized, hencode⟩ := bind_eq_ok.mp hencode
  obtain ⟨_, hauthor, hcreated⟩ := bind_eq_ok.mp hencode
  have hvalid := (normalizePublishedListing_eq_ok.mp hnormalized).2
  obtain ⟨hcarries, hpayload⟩ := encodes_closedListing.carries
    ⟨rfl, hvalid.communityId, hvalid.id, hvalid.memberId⟩ (wellFormed_closure _)
    (decide_eq_true (require_eq_ok.mp hauthor)) hcreated
  exact ⟨normalized, hnormalized, hcarries.roundTrips rfl (fun _ ↦ Iff.rfl) hpayload⟩

/-- The closure encoder accepts a published listing from its owner. -/
theorem exists_toClosedListingRecord {listing : Listing} (hvalid : ListingValid listing)
    {metadata : CreateTimebankRecordMetadata} (hauthor : metadata.authorId = listing.memberId)
    (htime : Timestamp.isCanonical metadata.occurredAt = true) :
    ∃ record, toClosedListingRecord listing metadata = .ok record := by
  obtain ⟨record, hcreated, -⟩ := @RecordKind.Encodes.envelope _ _ _ encodes_closedListing
    ⟨closedListingRecordId listing.id, listing.communityId, listing.id, listing.memberId⟩
    ⟨rfl, hvalid.communityId, hvalid.id, hvalid.memberId⟩ metadata (decide_eq_true hauthor) htime
  have hagain : normalizePublishedListing (listingToJson listing) = .ok listing :=
    lawful_publishedListing.again _ hvalid
  refine ⟨record, ?_⟩
  rw [toClosedListingRecord, hagain, ok_bind, require, if_pos hauthor, ok_bind]
  exact hcreated

/-- A transfer with the properties of its declared type alone. -/
structure DeclaredTransfer (transfer : Transfer) : Prop where
  source : ∀ source, transfer.sourceProposalId = some source → ∃ text, source = .str text
  plain : ∀ attestation ∈ transfer.attestations, attestation.rest = []

/-- What the transfer encoder accepted from a participant round-trips to the normalized transfer. -/
theorem roundTrips_ledgerTransfer {transfer : Transfer} (hwell : WellFormed transfer.toJson)
    {metadata : CreateTimebankRecordMetadata} {record : RecordEnvelope}
    (hencode : toLedgerTransferRecord transfer metadata = .ok record)
    (hauthor : metadata.authorId = transfer.providerMemberId ∨
      metadata.authorId = transfer.recipientMemberId) :
    ∃ normalized decoded, normalizeTransfer transfer.toJson = .ok normalized ∧
      RoundTrips .ledgerTransfer decodeLedgerTransferRecord record decoded ∧
      SameTransfer decoded normalized ∧
      decoded.attestations.map (·.memberId) = [decoded.providerMemberId, decoded.recipientMemberId] ∧
      (DeclaredTransfer transfer → decoded = normalized) := by
  obtain ⟨normalized, hnormalized, hcreated⟩ := bind_eq_ok.mp hencode
  have htransfer := normalizeTransfer_eq_ok.mp hnormalized
  have hvalid := TimebankLedger.valid_of_createTransfer htransfer
  obtain ⟨hterms, hperm⟩ := created_of_wellFormed hwell htransfer
  have hrecord := createRecordEnvelope_eq_ok.mp hcreated
  obtain ⟨source, hsource, hnormal⟩ := hrecord.payload
  obtain rfl : normalized.toJson = source := Option.some.inj hsource
  obtain ⟨decoded, hdecoded, hsame⟩ := normalizeTransfer_of_normalizeJson hvalid hnormal
  have hid : decoded.id = normalized.id := congrArg (·.id) hsame.terms
  have hcommunity : decoded.communityId = normalized.communityId :=
    congrArg (·.communityId) hsame.terms
  have hprovider : decoded.providerMemberId = normalized.providerMemberId :=
    congrArg (·.providerMemberId) hsame.terms
  have hrecipient : decoded.recipientMemberId = normalized.recipientMemberId :=
    congrArg (·.recipientMemberId) hsame.terms
  have hallowed : ledgerTransferRecords.mayAuthor decoded record.authorId = true := by
    rw [← JsonValue.str.inj (Option.some.inj hrecord.authorId)]
    show (decide (metadata.authorId = decoded.providerMemberId) ||
      decide (metadata.authorId = decoded.recipientMemberId)) = true
    rw [hprovider, hrecipient, hterms]
    simpa using hauthor
  have hcarries : ledgerTransferRecords.Carries record decoded := by
    refine ⟨?_, ?_, ?_, hdecoded, ?_, ?_, hallowed⟩
    · exact (JsonValue.str.inj (Option.some.inj hrecord.schema)).symm
    · exact (JsonValue.int_inj.mp (Option.some.inj hrecord.version)).symm
    · exact (JsonValue.str.inj (Option.some.inj hrecord.kind)).symm
    · exact (JsonValue.str.inj (Option.some.inj hrecord.id)).symm.trans hid.symm
    · exact (JsonValue.str.inj (Option.some.inj hrecord.communityId)).symm.trans hcommunity.symm
  have hpayload := wellFormed_normalizeJson (wellFormed_created hwell htransfer) hnormal
  refine ⟨normalized, decoded, hnormalized, hcarries.roundTrips rfl (fun _ ↦ Iff.rfl) hpayload, hsame,
    ?_, fun hdeclared ↦ ?_⟩
  · obtain ⟨p, r, hpair, -, -, hp, hr⟩ :=
      (TimebankLedger.valid_of_createTransfer (normalizeTransfer_eq_ok.mp hdecoded)).attested
    rw [hpair, ← hp, ← hr]
    rfl
  · have htextual : TextualTransfer normalized :=
      { valid := hvalid
        source := fun source hsource ↦ hdeclared.source source (by rw [← hsource, hterms])
        plain := fun attestation hmem ↦ hdeclared.plain attestation (hperm.mem_iff.mp hmem) }
    obtain ⟨payload, hsorted, hread⟩ := encodes_textualTransfer.payload normalized htextual
    obtain rfl : payload = record.payload := Except.ok.inj (hsorted.symm.trans hnormal)
    exact Except.ok.inj (hdecoded.symm.trans hread)

/-- What an encoder accepts, the matching decoder returns normalized and every other decoder rejects: from the record,
after adding a signature, and after storing either as JSON text. A transfer's participant is its author, and its JSON
values are such as objects have them, with each property listed once. -/
theorem record_codecs_round_trip :
    (∀ listing metadata record, toPublishedListingRecord listing metadata = .ok record →
      ∃ normalized, normalizePublishedListing (listingToJson listing) = .ok normalized ∧
        RoundTrips .publishedListing decodePublishedListingRecord record normalized) ∧
    (∀ listing metadata record, toClosedListingRecord listing metadata = .ok record →
      ∃ normalized, normalizePublishedListing (listingToJson listing) = .ok normalized ∧
        RoundTrips .closedListing decodeClosedListingRecord record
          ⟨closedListingRecordId normalized.id, normalized.communityId, normalized.id,
            normalized.memberId⟩) ∧
    (∀ proposal metadata record, toProposedExchangeProposalRecord proposal metadata = .ok record →
      ∃ normalized, normalizeProposedProposal (proposalToJson proposal) = .ok normalized ∧
        RoundTrips .proposedExchangeProposal decodeProposedExchangeProposalRecord record normalized) ∧
    (∀ proposal metadata record, toAcceptedExchangeProposalRecord proposal metadata = .ok record →
      ∃ normalized, normalizeAcceptedProposal (proposalToJson proposal) = .ok normalized ∧
        RoundTrips .acceptedExchangeProposal decodeAcceptedExchangeProposalRecord record normalized) ∧
    (∀ acknowledgement metadata record,
      toSettlementAcknowledgementRecord acknowledgement metadata = .ok record →
      ∃ normalized, normalizeSettlementAcknowledgement acknowledgement.toJson = .ok normalized ∧
        RoundTrips .settlementAcknowledgement decodeSettlementAcknowledgementRecord record
          normalized) ∧
    (∀ container metadata record, toSettlementTransferAttestationRecord container metadata = .ok record →
      ∃ normalized, normalizeSettlementTransferAttestation container.toJson = .ok normalized ∧
        RoundTrips .settlementTransferAttestation decodeSettlementTransferAttestationRecord record
          normalized) ∧
    (∀ (transfer : Transfer) metadata record, WellFormed transfer.toJson →
      toLedgerTransferRecord transfer metadata = .ok record →
      metadata.authorId = transfer.providerMemberId ∨
        metadata.authorId = transfer.recipientMemberId →
      ∃ normalized decoded, normalizeTransfer transfer.toJson = .ok normalized ∧
        RoundTrips .ledgerTransfer decodeLedgerTransferRecord record decoded ∧
        SameTransfer decoded normalized ∧
        decoded.attestations.map (·.memberId) =
          [decoded.providerMemberId, decoded.recipientMemberId] ∧
        (DeclaredTransfer transfer → decoded = normalized)) :=
  ⟨fun _ _ _ h ↦ encodes_publishedListing.roundTrips lawful_publishedListing.accepts
      (fun listing _ ↦ wellFormed_listing listing) rfl (fun _ ↦ Iff.rfl) h,
    fun _ _ _ h ↦ roundTrips_closedListing h,
    fun _ _ _ h ↦ encodes_proposedExchangeProposal.roundTrips
      lawful_proposedExchangeProposal.accepts (fun proposal _ ↦ wellFormed_proposal proposal) rfl
      (fun _ ↦ Iff.rfl) h,
    fun _ _ _ h ↦ encodes_acceptedExchangeProposal.roundTrips
      lawful_acceptedExchangeProposal.accepts (fun proposal _ ↦ wellFormed_proposal proposal) rfl
      (fun _ ↦ Iff.rfl) h,
    fun _ _ _ h ↦ encodes_settlementAcknowledgement.roundTrips
      lawful_settlementAcknowledgement.accepts
      (fun acknowledgement _ ↦ wellFormed_acknowledgement acknowledgement) rfl (fun _ ↦ Iff.rfl) h,
    fun _ _ _ h ↦ encodes_settlementTransferAttestation.roundTrips
      lawful_settlementTransferAttestation.accepts
      (fun _ hvalid ↦ wellFormed_attestationContainer hvalid.rest) rfl (fun _ ↦ Iff.rfl) h,
    fun _ _ _ hwell h hauthor ↦ roundTrips_ledgerTransfer hwell h hauthor⟩

/-! ## Sample values -/

/-- Ada offers an hour of raking. -/
def rakingOffer : Listing :=
  { id := "raking", communityId := "garden", memberId := "ada", kind := .offer, title := "Raking",
    description := "An hour of raking leaves.", minutes := 60, status := .published }

/-- Ada proposes to rake for Ben. -/
def rakingProposal : ExchangeProposal :=
  { id := "rake-for-ben", communityId := "garden", offerId := "raking", requestId := "leaves",
    providerMemberId := "ada", receiverMemberId := "ben", creatorMemberId := "ada",
    acceptedByMemberId := none, minutes := 60, status := .proposed }

/-- Ben accepts. -/
def acceptedRaking : ExchangeProposal :=
  { rakingProposal with acceptedByMemberId := some "ben", status := .accepted }

/-- Ben acknowledges that the leaves are raked. -/
def rakingAcknowledgement : SettlementAcknowledgement :=
  { id := "rake-for-ben/settlement-ack/ben", communityId := "garden",
    sourceProposalId := "rake-for-ben", providerMemberId := "ada", recipientMemberId := "ben",
    minutes := 60, acknowledgedByMemberId := "ben" }

/-- A participant's attestation with no further properties. -/
def attestedBy (memberId : String) : TransferAttestation :=
  { memberId := memberId, keyId := "root", payloadDigest := "digest", signature := "signature",
    rest := [] }

/-- Ben's attestation of the transfer. -/
def rakingAttestation : SettlementTransferAttestation :=
  { id := "rake-for-ben/settlement-attestation/ben", communityId := "garden",
    sourceProposalId := "rake-for-ben", attestation := attestedBy "ben" }

/-- The transfer of an hour, with Ben's attestation first. -/
def rakingTransfer : Transfer :=
  { id := "rake-for-ben/settlement", communityId := "garden",
    sourceProposalId := some (.str "rake-for-ben"), providerMemberId := "ada",
    recipientMemberId := "ben", minutes := 60, reversesTransferId := none,
    attestations := [attestedBy "ben", attestedBy "ada"] }

/-- A record published on the first day of the year. -/
def publishedBy (memberId : String) : CreateTimebankRecordMetadata :=
  { occurredAt := "2026-01-01T00:00:00.000Z", authorId := memberId }

theorem isCanonical_publishedBy (memberId : String) :
    Timestamp.isCanonical (publishedBy memberId).occurredAt = true := by
  show Timestamp.isCanonical "2026-01-01T00:00:00.000Z" = true
  decide

theorem valid_rakingOffer : ListingValid rakingOffer :=
  ⟨by decide, by decide, by decide, by decide, by decide, by decide, rfl⟩

theorem valid_rakingProposal : ProposalTermsValid rakingProposal :=
  ⟨by decide, by decide, by decide, by decide, by decide, by decide, by decide, by decide, by decide,
    .inl rfl⟩

theorem valid_attestedBy {memberId : String} (h : Text.blank memberId = false) :
    (attestedBy memberId).Valid :=
  ⟨h, show Text.blank "root" = false by decide, show Text.blank "digest" = false by decide,
    show Text.blank "signature" = false by decide, by simp [attestedBy]⟩

theorem valid_rakingTransfer : (rakingTransfer.toTransferTerms).Valid :=
  ⟨by decide, by decide, by decide, by decide, by decide, by decide, nofun,
    fun _ ↦ ⟨"rake-for-ben", rfl, by decide⟩⟩

theorem createTransfer_rakingTransfer :
    TimebankLedger.createTransfer rakingTransfer.toJson =
      .ok { rakingTransfer with attestations := [attestedBy "ada", attestedBy "ben"] } := by
  obtain ⟨hdescribes, -, hget⟩ := TimebankLedger.describes_properties rakingTransfer.toTransferTerms
    (.arr (rakingTransfer.attestations.map TransferAttestation.toJson))
  refine TimebankLedger.createTransfer_eq_ok.mpr
    ⟨TimebankLedger.createTransferTerms_eq_ok.mpr ⟨hdescribes, valid_rakingTransfer⟩, ?_⟩
  rw [Transfer.toJson, JsonValue.field_obj, hget,
    TimebankLedger.normalizeAttestations_eq_ok valid_rakingTransfer.distinct]
  exact ⟨_, _, _, _, rfl, rfl, rfl, rfl, .inr
    ⟨TimebankLedger.readAttestation_toJson (valid_attestedBy (by decide)),
      TimebankLedger.readAttestation_toJson (valid_attestedBy (by decide))⟩⟩

theorem wellFormed_rakingTransfer : WellFormed rakingTransfer.toJson := by
  refine wellFormed_transfer_iff.mpr ⟨fun source hsource ↦ ?_, fun attestation hmem ↦ ?_⟩
  · exact Option.some.inj hsource ▸ trivial
  · have hlisted : ∀ memberId, WellFormed (attestedBy memberId).toJson := fun memberId ↦
      ⟨.of_plainNames (by simp [attestedBy, plainNames, arrayIndex?]), trivial, trivial, trivial,
        trivial, trivial⟩
    rcases List.mem_pair.mp hmem with rfl | rfl <;> exact hlisted _

/-- Ben publishes the transfer. -/
theorem exists_toLedgerTransferRecord : ∃ record,
    toLedgerTransferRecord rakingTransfer (publishedBy "ben") = .ok record := by
  have hcreated := createTransfer_rakingTransfer
  have hplain : TextualTransfer
      { rakingTransfer with attestations := [attestedBy "ada", attestedBy "ben"] } :=
    { valid := TimebankLedger.valid_of_createTransfer hcreated
      source := fun _ hsource ↦ ⟨"rake-for-ben", (Option.some.inj hsource).symm⟩
      plain := fun attestation hmem ↦ by
        rcases List.mem_pair.mp hmem with rfl | rfl <;> rfl }
  obtain ⟨record, hrecord, -⟩ := @RecordKind.Encodes.envelope _ _ _ encodes_textualTransfer _ hplain
    (publishedBy "ben") rfl (isCanonical_publishedBy _)
  refine ⟨record, ?_⟩
  rw [toLedgerTransferRecord, normalizeTransfer_eq_ok.mpr hcreated, ok_bind]
  exact hrecord

/-- The seven records of the raking exchange round-trip. -/
theorem record_codecs_round_trip_raking :
    (∃ record normalized, toPublishedListingRecord rakingOffer (publishedBy "ada") = .ok record ∧
      normalizePublishedListing (listingToJson rakingOffer) = .ok normalized ∧
      RoundTrips .publishedListing decodePublishedListingRecord record normalized) ∧
    (∃ record normalized, toClosedListingRecord rakingOffer (publishedBy "ada") = .ok record ∧
      normalizePublishedListing (listingToJson rakingOffer) = .ok normalized ∧
      RoundTrips .closedListing decodeClosedListingRecord record
        ⟨closedListingRecordId normalized.id, normalized.communityId, normalized.id,
          normalized.memberId⟩) ∧
    (∃ record normalized,
      toProposedExchangeProposalRecord rakingProposal (publishedBy "ada") = .ok record ∧
      normalizeProposedProposal (proposalToJson rakingProposal) = .ok normalized ∧
      RoundTrips .proposedExchangeProposal decodeProposedExchangeProposalRecord record normalized) ∧
    (∃ record normalized,
      toAcceptedExchangeProposalRecord acceptedRaking (publishedBy "ben") = .ok record ∧
      normalizeAcceptedProposal (proposalToJson acceptedRaking) = .ok normalized ∧
      RoundTrips .acceptedExchangeProposal decodeAcceptedExchangeProposalRecord record normalized) ∧
    (∃ record normalized,
      toSettlementAcknowledgementRecord rakingAcknowledgement (publishedBy "ben") = .ok record ∧
      normalizeSettlementAcknowledgement rakingAcknowledgement.toJson = .ok normalized ∧
      RoundTrips .settlementAcknowledgement decodeSettlementAcknowledgementRecord record
        normalized) ∧
    (∃ record normalized,
      toSettlementTransferAttestationRecord rakingAttestation (publishedBy "ben") = .ok record ∧
      normalizeSettlementTransferAttestation rakingAttestation.toJson = .ok normalized ∧
      RoundTrips .settlementTransferAttestation decodeSettlementTransferAttestationRecord record
        normalized) ∧
    ∃ record normalized decoded, WellFormed rakingTransfer.toJson ∧
      toLedgerTransferRecord rakingTransfer (publishedBy "ben") = .ok record ∧
      (publishedBy "ben").authorId = rakingTransfer.recipientMemberId ∧
      normalizeTransfer rakingTransfer.toJson = .ok normalized ∧
      RoundTrips .ledgerTransfer decodeLedgerTransferRecord record decoded ∧
      SameTransfer decoded normalized ∧
      decoded.attestations.map (·.memberId) =
        [decoded.providerMemberId, decoded.recipientMemberId] ∧
      (DeclaredTransfer rakingTransfer → decoded = normalized) := by
  obtain ⟨hlistings, hclosures, hproposed, haccepted, hacknowledgements, hattestations, htransfers⟩ :=
    record_codecs_round_trip
  have hterms := valid_rakingProposal
  have htime := isCanonical_publishedBy
  have hoffer := valid_rakingOffer
  refine ⟨?_, ?_, ?_, ?_, ?_, ?_, ?_⟩
  · have hencoded : ∃ record,
        toPublishedListingRecord rakingOffer (publishedBy "ada") = .ok record :=
      encodes_publishedListing.exists_encode hoffer rfl (htime _)
    obtain ⟨record, hrecord⟩ := hencoded
    obtain ⟨normalized, hnormal, hround⟩ := hlistings _ _ record hrecord
    exact ⟨record, normalized, hrecord, hnormal, hround⟩
  · obtain ⟨record, hrecord⟩ := @exists_toClosedListingRecord _ hoffer (publishedBy "ada") rfl (htime _)
    obtain ⟨normalized, hnormal, hround⟩ := hclosures _ _ record hrecord
    exact ⟨record, normalized, hrecord, hnormal, hround⟩
  · have hencoded : ∃ record,
        toProposedExchangeProposalRecord rakingProposal (publishedBy "ada") = .ok record :=
      encodes_proposedExchangeProposal.exists_encode ⟨hterms, rfl, rfl⟩ rfl (htime _)
    obtain ⟨record, hrecord⟩ := hencoded
    obtain ⟨normalized, hnormal, hround⟩ := hproposed _ _ record hrecord
    exact ⟨record, normalized, hrecord, hnormal, hround⟩
  · have haccepts : AcceptedValid acceptedRaking :=
      ⟨⟨hterms.id, hterms.communityId, hterms.offerId, hterms.requestId, hterms.providerMemberId,
        hterms.receiverMemberId, hterms.creatorMemberId, hterms.positive, hterms.distinct,
        hterms.creator⟩, rfl, rfl⟩
    have hencoded : ∃ record,
        toAcceptedExchangeProposalRecord acceptedRaking (publishedBy "ben") = .ok record :=
      encodes_acceptedExchangeProposal.exists_encode haccepts rfl (htime _)
    obtain ⟨record, hrecord⟩ := hencoded
    obtain ⟨normalized, hnormal, hround⟩ := haccepted _ _ record hrecord
    exact ⟨record, normalized, hrecord, hnormal, hround⟩
  · have hvalid : AcknowledgementValid rakingAcknowledgement :=
      ⟨rfl, hterms.communityId, hterms.id, hterms.providerMemberId, hterms.receiverMemberId,
        hterms.receiverMemberId, hterms.positive, hterms.distinct, .inr rfl⟩
    have hencoded : ∃ record,
        toSettlementAcknowledgementRecord rakingAcknowledgement (publishedBy "ben") = .ok record :=
      encodes_settlementAcknowledgement.exists_encode hvalid rfl (htime _)
    obtain ⟨record, hrecord⟩ := hencoded
    obtain ⟨normalized, hnormal, hround⟩ := hacknowledgements _ _ record hrecord
    exact ⟨record, normalized, hrecord, hnormal, hround⟩
  · have hvalid : AttestationValid rakingAttestation :=
      ⟨rfl, hterms.communityId, hterms.id, valid_attestedBy hterms.receiverMemberId, rfl⟩
    have hencoded : ∃ record,
        toSettlementTransferAttestationRecord rakingAttestation (publishedBy "ben") = .ok record :=
      encodes_settlementTransferAttestation.exists_encode hvalid rfl (htime _)
    obtain ⟨record, hrecord⟩ := hencoded
    obtain ⟨normalized, hnormal, hround⟩ := hattestations _ _ record hrecord
    exact ⟨record, normalized, hrecord, hnormal, hround⟩
  · have hwell := wellFormed_rakingTransfer
    obtain ⟨record, hencoded⟩ := exists_toLedgerTransferRecord
    obtain ⟨normalized, decoded, hnormal, hround, hsame, hmembers, hdeclared⟩ :=
      htransfers _ _ record hwell hencoded (.inr rfl)
    exact ⟨record, normalized, decoded, hwell, hencoded, rfl, hnormal, hround, hsame, hmembers, hdeclared⟩

end PeerHours.TimebankRecords
