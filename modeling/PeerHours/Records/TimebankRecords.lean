import PeerHours.Domain
import PeerHours.Ledger.ApplyTransfers
import PeerHours.Records.Envelope
import PeerHours.Settlement.Exchange

/-!
# Timebank records

The record forms of listings, proposals, acknowledgements, attestations and transfers. A record kind
names its payload normalizer, the envelope id it requires and who may author it; encoding, decoding
and reduction are the same for all kinds.
-/

namespace PeerHours.TimebankRecords

open Checked Json KeyedMap Sorting
open TimebankDomain (ExchangeProposal Listing ListingKind)
open TimebankIdentity (PresentText assertPresent assertPresent_eq_ok)
open TimebankLedger (Transfer createTransfer)
open TimebankSettlement (SettlementAcknowledgement SettlementTransferAttestation
  settlementAcknowledgementId settlementTransferAttestationId createDualConfirmedSettlementTransfer)

/-! ## Record kinds -/

/-- The envelope schema shared by immutable Peer Hours timebank records. -/
def timebankRecordSchema : String := "peer-hours/timebank-record/v1"

/-- The current immutable envelope schema version for timebank records. -/
def timebankRecordVersion : Int := 1

/-- The record kind used to distribute accepted exchange proposals. -/
def acceptedExchangeProposalRecordKind : String := "peer-hours/accepted-exchange-proposal/v1"

/-- The record kind used to distribute a participant-created proposal awaiting acceptance. -/
def proposedExchangeProposalRecordKind : String := "peer-hours/proposed-exchange-proposal/v1"

/-- The record kind used to distribute member-published offers and requests. -/
def publishedListingRecordKind : String := "peer-hours/published-listing/v1"

/-- The record kind used when a listing owner withdraws a published listing. -/
def closedListingRecordKind : String := "peer-hours/closed-listing/v1"

/-- The record kind used to distribute attested ledger transfers. -/
def ledgerTransferRecordKind : String := "peer-hours/ledger-transfer/v1"

/-- The record kind used to distribute one participant's settlement acknowledgement. -/
def settlementAcknowledgementRecordKind : String := "peer-hours/settlement-acknowledgement/v1"

/-- The record kind used to distribute one participant transfer attestation. -/
def settlementTransferAttestationRecordKind : String :=
  "peer-hours/settlement-transfer-attestation/v1"

/-- The immutable public fact that an owner closed one of their published listings. -/
structure ClosedListing where
  id : String
  communityId : String
  listingId : String
  memberId : String
deriving DecidableEq

/-- Immutable transport metadata supplied when an application creates a timebank record. -/
structure CreateTimebankRecordMetadata where
  occurredAt : String
  authorId : String

/-! ## Payload objects -/

/-- The text of a listing kind. -/
def listingKindText : ListingKind → String
  | .offer => "offer"
  | .request => "request"

/-- The text of a listing status. -/
def listingStatusText : TimebankDomain.ListingStatus → String
  | .draft => "draft"
  | .published => "published"
  | .closed => "closed"

/-- The object of a listing. -/
def listingToJson (listing : Listing) : JsonValue :=
  .obj [("id", .str listing.id), ("communityId", .str listing.communityId),
    ("memberId", .str listing.memberId), ("kind", .str (listingKindText listing.kind)),
    ("title", .str listing.title), ("description", .str listing.description),
    ("minutes", .int listing.minutes), ("status", .str (listingStatusText listing.status))]

/-- The object of a listing closure. -/
def ClosedListing.toJson (closure : ClosedListing) : JsonValue :=
  .obj [("id", .str closure.id), ("communityId", .str closure.communityId),
    ("listingId", .str closure.listingId), ("memberId", .str closure.memberId)]

/-- The text of a proposal status. -/
def proposalStatusText : TimebankDomain.ExchangeProposalStatus → String
  | .proposed => "proposed"
  | .accepted => "accepted"

/-- The object of a proposal; before acceptance it names no acceptor. -/
def proposalToJson (proposal : ExchangeProposal) : JsonValue :=
  .obj ([("id", .str proposal.id), ("communityId", .str proposal.communityId),
    ("offerId", .str proposal.offerId), ("requestId", .str proposal.requestId),
    ("providerMemberId", .str proposal.providerMemberId),
    ("receiverMemberId", .str proposal.receiverMemberId),
    ("creatorMemberId", .str proposal.creatorMemberId)] ++
    (proposal.acceptedByMemberId.map fun memberId ↦
      ("acceptedByMemberId", JsonValue.str memberId)).toList ++
    [("minutes", .int proposal.minutes), ("status", .str (proposalStatusText proposal.status))])

/-! ## Normalizers -/

/-- Narrows unknown transport data to an object. -/
def assertRecord (value : JsonValue) (message : String) : Except String Unit :=
  require (value.isObject = true) message

/-- Requires a positive whole-minute amount at the record boundary. -/
def assertMinutes (value : Option JsonValue) (label : String) : Except String Int := do
  let minutes ← present (JsonValue.int? value) (label ++ " must be a positive whole number.")
  require (0 < minutes) (label ++ " must be a positive whole number.")
  pure minutes

/-- Normalizes only the immutable published listing shape that is safe to replicate publicly. -/
def normalizePublishedListing (listing : JsonValue) : Except String Listing := do
  assertRecord listing "A published listing payload must be an object."
  let id ← assertPresent (listing.field "id") "Listing id"
  let communityId ← assertPresent (listing.field "communityId") "Listing community id"
  let memberId ← assertPresent (listing.field "memberId") "Listing member id"
  let title ← assertPresent (listing.field "title") "Listing title"
  let description ← assertPresent (listing.field "description") "Listing description"
  let minutes ← assertMinutes (listing.field "minutes") "Listing minutes"
  let kind ← present
    (if listing.field "kind" = some (.str "offer") then some ListingKind.offer
      else if listing.field "kind" = some (.str "request") then some ListingKind.request
      else none)
    "A published listing must be an offer or request."
  require (listing.field "status" = some (.str "published"))
    "A replicated listing record must contain a published listing."
  pure
    { id := id
      communityId := communityId
      memberId := memberId
      kind := kind
      title := title
      description := description
      minutes := minutes
      status := .published }

/-- Derives the one deterministic immutable closure-record identity for a listing. -/
def closedListingRecordId (listingId : String) : String :=
  listingId ++ "/closed"

/-- Normalizes the minimal immutable closure fact while deferring listing linkage to resolution. -/
def normalizeClosedListing (closure : JsonValue) : Except String ClosedListing := do
  assertRecord closure "A closed listing payload must be an object."
  let id ← assertPresent (closure.field "id") "Closed listing id"
  let communityId ← assertPresent (closure.field "communityId") "Closed listing community id"
  let listingId ← assertPresent (closure.field "listingId") "Closed listing target id"
  let memberId ← assertPresent (closure.field "memberId") "Closed listing member id"
  require (id.1 = closedListingRecordId listingId)
    "A closed listing record id must name its target listing."
  pure ⟨id, communityId, listingId, memberId⟩

/-- The terms that pending and accepted proposals share. -/
def normalizeProposalTerms (proposal : JsonValue) : Except String ExchangeProposal := do
  let id ← assertPresent (proposal.field "id") "Proposal id"
  let communityId ← assertPresent (proposal.field "communityId") "Proposal community id"
  let offerId ← assertPresent (proposal.field "offerId") "Proposal offer id"
  let requestId ← assertPresent (proposal.field "requestId") "Proposal request id"
  let providerMemberId ← assertPresent (proposal.field "providerMemberId")
    "Proposal provider member id"
  let receiverMemberId ← assertPresent (proposal.field "receiverMemberId")
    "Proposal receiver member id"
  let creatorMemberId ← assertPresent (proposal.field "creatorMemberId")
    "Proposal creator member id"
  pure
    { id := id
      communityId := communityId
      offerId := offerId
      requestId := requestId
      providerMemberId := providerMemberId
      receiverMemberId := receiverMemberId
      creatorMemberId := creatorMemberId
      acceptedByMemberId := none
      minutes := 0
      status := .proposed }

/-- Normalizes and validates the immutable accepted-proposal form permitted in replicated
records. -/
def normalizeAcceptedProposal (proposal : JsonValue) : Except String ExchangeProposal := do
  assertRecord proposal "An accepted exchange proposal payload must be an object."
  let terms ← normalizeProposalTerms proposal
  let acceptedByMemberId ← assertPresent (proposal.field "acceptedByMemberId")
    "Proposal accepting member id"
  require (proposal.field "status" = some (.str "accepted"))
    "A proposal record must contain an accepted proposal."
  let minutes ← assertMinutes (proposal.field "minutes") "Proposal minutes"
  require (terms.providerMemberId ≠ terms.receiverMemberId)
    "An accepted proposal requires distinct provider and recipient members."
  require (terms.creatorMemberId = terms.providerMemberId ∨
      terms.creatorMemberId = terms.receiverMemberId)
    "An accepted proposal must be created by one of its participants."
  let expectedAcceptor := TimebankDomain.otherParticipant terms.creatorMemberId
    terms.providerMemberId terms.receiverMemberId
  require (acceptedByMemberId.1 = expectedAcceptor)
    "An accepted proposal must be accepted by the other participant."
  pure
    { terms with
      acceptedByMemberId := some acceptedByMemberId
      minutes := minutes
      status := .accepted }

/-- Normalizes the pending proposal form that may be replicated before another member accepts it. -/
def normalizeProposedProposal (proposal : JsonValue) : Except String ExchangeProposal := do
  assertRecord proposal "A proposed exchange proposal payload must be an object."
  let terms ← normalizeProposalTerms proposal
  require (proposal.field "status" = some (.str "proposed") ∧
      proposal.field "acceptedByMemberId" = none)
    "A proposal record must contain an unaccepted proposal."
  let minutes ← assertMinutes (proposal.field "minutes") "Proposal minutes"
  require (terms.providerMemberId ≠ terms.receiverMemberId ∧
      (terms.creatorMemberId = terms.providerMemberId ∨
        terms.creatorMemberId = terms.receiverMemberId))
    "A proposed exchange requires a participating creator and distinct members."
  pure { terms with minutes := minutes }

/-- Normalizes a transfer through the ledger contract. -/
def normalizeTransfer (value : JsonValue) : Except String Transfer := do
  assertRecord value "A ledger transfer payload must be an object."
  (createTransfer value).mapError ("Invalid ledger transfer payload: " ++ ·)

/-- Normalizes acknowledgement shape before proposal-specific rules run during resolution. -/
def normalizeSettlementAcknowledgement (acknowledgement : JsonValue) :
    Except String SettlementAcknowledgement := do
  assertRecord acknowledgement "A settlement acknowledgement payload must be an object."
  let id ← assertPresent (acknowledgement.field "id") "Settlement acknowledgement id"
  let communityId ← assertPresent (acknowledgement.field "communityId")
    "Settlement acknowledgement community id"
  let sourceProposalId ← assertPresent (acknowledgement.field "sourceProposalId")
    "Settlement acknowledgement source proposal id"
  let providerMemberId ← assertPresent (acknowledgement.field "providerMemberId")
    "Settlement acknowledgement provider member id"
  let recipientMemberId ← assertPresent (acknowledgement.field "recipientMemberId")
    "Settlement acknowledgement recipient member id"
  let acknowledgedByMemberId ← assertPresent (acknowledgement.field "acknowledgedByMemberId")
    "Settlement acknowledgement member id"
  let minutes ← assertMinutes (acknowledgement.field "minutes")
    "Settlement acknowledgement minutes"
  require (providerMemberId.1 ≠ recipientMemberId)
    "A settlement acknowledgement requires distinct provider and recipient members."
  require (acknowledgedByMemberId.1 = providerMemberId ∨
      acknowledgedByMemberId.1 = recipientMemberId)
    "Only an exchange participant may acknowledge a settlement."
  let expectedId ← settlementAcknowledgementId sourceProposalId acknowledgedByMemberId
  require (id.1 = expectedId)
    "A settlement acknowledgement record id must name its proposal and acknowledging participant."
  pure
    { id := id
      communityId := communityId
      sourceProposalId := sourceProposalId
      providerMemberId := providerMemberId
      recipientMemberId := recipientMemberId
      minutes := minutes
      acknowledgedByMemberId := acknowledgedByMemberId }

/-- Validates public attestation container shape before proposal-specific resolution checks. -/
def normalizeSettlementTransferAttestation (source : JsonValue) :
    Except String SettlementTransferAttestation := do
  assertRecord source "A settlement transfer attestation payload must be an object."
  let id ← assertPresent (source.field "id") "Settlement transfer attestation id"
  let communityId ← assertPresent (source.field "communityId")
    "Settlement transfer attestation community id"
  let sourceProposalId ← assertPresent (source.field "sourceProposalId")
    "Settlement transfer attestation source proposal id"
  let attestation := (source.field "attestation").getD .null
  assertRecord attestation "A settlement transfer attestation requires an attestation object."
  let memberId ← assertPresent (attestation.field "memberId")
    "Settlement transfer attesting member id"
  let keyId ← assertPresent (attestation.field "keyId") "Settlement transfer attestation key id"
  let payloadDigest ← assertPresent (attestation.field "payloadDigest")
    "Settlement transfer attestation payload digest"
  let signature ← assertPresent (attestation.field "signature")
    "Settlement transfer attestation signature"
  let expectedId ← settlementTransferAttestationId sourceProposalId memberId
  require (id.1 = expectedId)
    "A settlement transfer attestation record id must name its proposal and attesting participant."
  pure
    { id := id
      communityId := communityId
      sourceProposalId := sourceProposalId
      attestation :=
        { memberId := memberId
          keyId := keyId
          payloadDigest := payloadDigest
          signature := signature
          rest := [] } }

/-! ## The parameters of a record kind -/

/-- What distinguishes one record kind: its name, its payload, the id its envelope must have, and who
may author it. -/
structure RecordKind (α : Type) where
  kind : String
  label : String
  normalize : JsonValue → Except String α
  toJson : α → JsonValue
  id : α → String
  communityId : α → String
  recordId : String → String
  mayAuthor : α → String → Bool
  idMessage : String
  communityMessage : String
  authorMessage : String

/-- A kind whose envelope has the id of its payload and is authored by the payload's owner. -/
def ownedRecordKind {α : Type} (kind label : String) (normalize : JsonValue → Except String α)
    (toJson : α → JsonValue) (id communityId owner : α → String) : RecordKind α :=
  { kind := kind
    label := label
    normalize := normalize
    toJson := toJson
    id := id
    communityId := communityId
    recordId := fun payloadId ↦ payloadId
    mayAuthor := fun value authorId ↦ decide (authorId = owner value)
    idMessage := "A " ++ label ++ " record id must match its payload id."
    communityMessage := "A " ++ label ++ " record community must match its payload community."
    authorMessage := "A " ++ label ++ " record must be authored by its payload owner." }

/-- Published offers and requests. -/
def publishedListingRecords : RecordKind Listing :=
  ownedRecordKind publishedListingRecordKind "published listing" normalizePublishedListing
    listingToJson (·.id) (·.communityId) (·.memberId)

/-- Listing closures. -/
def closedListingRecords : RecordKind ClosedListing :=
  ownedRecordKind closedListingRecordKind "closed listing" normalizeClosedListing
    ClosedListing.toJson (·.id) (·.communityId) (·.memberId)

/-- Settlement acknowledgements. -/
def settlementAcknowledgementRecords : RecordKind SettlementAcknowledgement :=
  ownedRecordKind settlementAcknowledgementRecordKind "settlement acknowledgement"
    normalizeSettlementAcknowledgement SettlementAcknowledgement.toJson (·.id) (·.communityId)
    (·.acknowledgedByMemberId)

/-- Settlement transfer attestations. -/
def settlementTransferAttestationRecords : RecordKind SettlementTransferAttestation :=
  ownedRecordKind settlementTransferAttestationRecordKind "settlement transfer attestation"
    normalizeSettlementTransferAttestation SettlementTransferAttestation.toJson (·.id)
    (·.communityId) (·.attestation.memberId)

/-- Ledger transfers, submitted by either participant. -/
def ledgerTransferRecords : RecordKind Transfer :=
  { ownedRecordKind ledgerTransferRecordKind "ledger transfer" normalizeTransfer Transfer.toJson
      (·.id) (·.communityId) (·.providerMemberId) with
    mayAuthor := fun transfer authorId ↦
      decide (authorId = transfer.providerMemberId) || decide (authorId = transfer.recipientMemberId)
    authorMessage := "A ledger transfer record must be submitted by one of its participants." }

/-- Derives a lifecycle-specific transport identity so a pending proposal and its later acceptance
can coexist. -/
def proposalRecordId (lifecycle proposalId : String) : String :=
  proposalId ++ ("/" ++ lifecycle)

/-- A kind whose envelope names the lifecycle stage of its proposal. -/
def proposalRecordKind (kind label lifecycle : String)
    (normalize : JsonValue → Except String ExchangeProposal)
    (mayAuthor : ExchangeProposal → String → Bool) (authorMessage : String) :
    RecordKind ExchangeProposal :=
  { kind := kind
    label := label
    normalize := normalize
    toJson := proposalToJson
    id := (·.id)
    communityId := (·.communityId)
    recordId := proposalRecordId lifecycle
    mayAuthor := mayAuthor
    idMessage := "A " ++ lifecycle ++
      " exchange proposal record id must match its lifecycle-specific payload id."
    communityMessage := "A " ++ lifecycle ++
      " exchange proposal record community must match its payload community."
    authorMessage := authorMessage }

/-- Pending proposals, authored by their creator. -/
def proposedExchangeProposalRecords : RecordKind ExchangeProposal :=
  proposalRecordKind proposedExchangeProposalRecordKind "proposed exchange proposal" "proposed"
    normalizeProposedProposal (fun proposal authorId ↦ decide (authorId = proposal.creatorMemberId))
    "A proposed exchange proposal record must be authored by its payload owner."

/-- Accepted proposals, authored by the member who accepted. -/
def acceptedExchangeProposalRecords : RecordKind ExchangeProposal :=
  proposalRecordKind acceptedExchangeProposalRecordKind "accepted exchange proposal" "accepted"
    normalizeAcceptedProposal
    (fun proposal authorId ↦ decide (some authorId = proposal.acceptedByMemberId))
    "A proposal record must be signed by the member who accepted it."

/-! ## Decoding -/

/-- Re-validates unknown replicated input through the generic immutable envelope boundary. -/
def normalizeRecord (value : JsonValue) : Except String RecordEnvelope := do
  assertRecord value "A timebank record envelope must be an object."
  (createRecordEnvelope value).mapError ("Invalid timebank record envelope: " ++ ·)

/-- Ensures the envelope uses the timebank record schema. -/
def assertTimebankEnvelope (record : RecordEnvelope) : Except String Unit :=
  require (record.schema = timebankRecordSchema ∧ record.version = timebankRecordVersion)
    "A timebank record must use the current Peer Hours timebank envelope schema."

/-- Ensures the typed envelope has the immutable record kind expected by a decoder. -/
def assertRecordKind (record : RecordEnvelope) (kind label : String) : Except String Unit :=
  require (record.kind = kind) ("A " ++ label ++ " record must use kind " ++ kind ++ ".")

/-- Decodes one envelope after checking its kind, identity, community and author. -/
def RecordKind.decode {α : Type} (kind : RecordKind α) (record : JsonValue) : Except String α := do
  let normalizedRecord ← normalizeRecord record
  assertTimebankEnvelope normalizedRecord
  assertRecordKind normalizedRecord kind.kind kind.label
  let value ← kind.normalize normalizedRecord.payload
  require (normalizedRecord.id = kind.recordId (kind.id value)) kind.idMessage
  require (normalizedRecord.communityId = kind.communityId value) kind.communityMessage
  require (kind.mayAuthor value normalizedRecord.authorId = true) kind.authorMessage
  pure value

/-- Decodes one published-listing envelope after checking its kind and community ownership. -/
def decodePublishedListingRecord : JsonValue → Except String Listing :=
  publishedListingRecords.decode

/-- Decodes one immutable listing closure without deciding whether its listing exists. -/
def decodeClosedListingRecord : JsonValue → Except String ClosedListing :=
  closedListingRecords.decode

/-- Decodes a proposed exchange only when its terms still describe a pending proposal. -/
def decodeProposedExchangeProposalRecord : JsonValue → Except String ExchangeProposal :=
  proposedExchangeProposalRecords.decode

/-- Decodes one accepted-proposal envelope after checking its kind and community ownership. -/
def decodeAcceptedExchangeProposalRecord : JsonValue → Except String ExchangeProposal :=
  acceptedExchangeProposalRecords.decode

/-- Decodes one transfer envelope after checking its kind, community ownership and attestations. -/
def decodeLedgerTransferRecord : JsonValue → Except String Transfer :=
  ledgerTransferRecords.decode

/-- Decodes a structurally valid acknowledgement; proposal linkage is resolved separately. -/
def decodeSettlementAcknowledgementRecord : JsonValue → Except String SettlementAcknowledgement :=
  settlementAcknowledgementRecords.decode

/-- Decodes a structurally valid attestation; proposal linkage is resolved separately. -/
def decodeSettlementTransferAttestationRecord :
    JsonValue → Except String SettlementTransferAttestation :=
  settlementTransferAttestationRecords.decode

/-! ## Encoding -/

/-- The envelope object of an encoded payload. -/
def RecordKind.envelope {α : Type} (kind : RecordKind α) (value : α)
    (metadata : CreateTimebankRecordMetadata) : JsonValue :=
  .obj [("id", .str (kind.recordId (kind.id value))), ("schema", .str timebankRecordSchema),
    ("version", .int timebankRecordVersion), ("communityId", .str (kind.communityId value)),
    ("kind", .str kind.kind), ("occurredAt", .str metadata.occurredAt),
    ("authorId", .str metadata.authorId), ("payload", kind.toJson value)]

/-- Encodes a value after normalizing it and checking its author. -/
def RecordKind.encode {α : Type} (kind : RecordKind α) (authorMessage : String) (value : α)
    (metadata : CreateTimebankRecordMetadata) : Except String RecordEnvelope := do
  let normalized ← kind.normalize (kind.toJson value)
  require (kind.mayAuthor normalized metadata.authorId = true) authorMessage
  createRecordEnvelope (kind.envelope normalized metadata)

/-- Encodes a published member offer or request in its immutable community record envelope. -/
def toPublishedListingRecord :
    Listing → CreateTimebankRecordMetadata → Except String RecordEnvelope :=
  publishedListingRecords.encode "A published listing record must be authored by its member owner."

/-- Encodes an owner-authored immutable closure for one already published listing. -/
def toClosedListingRecord (listing : Listing) (metadata : CreateTimebankRecordMetadata) :
    Except String RecordEnvelope := do
  let normalized ← normalizePublishedListing (listingToJson listing)
  require (metadata.authorId = normalized.memberId)
    "A closed listing record must be authored by its member owner."
  let closure : ClosedListing :=
    { id := closedListingRecordId normalized.id
      communityId := normalized.communityId
      listingId := normalized.id
      memberId := normalized.memberId }
  createRecordEnvelope (closedListingRecords.envelope closure metadata)

/-- Encodes an accepted exchange proposal in its immutable community record envelope. -/
def toAcceptedExchangeProposalRecord :
    ExchangeProposal → CreateTimebankRecordMetadata → Except String RecordEnvelope :=
  acceptedExchangeProposalRecords.encode
    "An accepted proposal record must be authored by the member who accepted it."

/-- Encodes a proposed exchange only when the proposal creator authors its immutable record. -/
def toProposedExchangeProposalRecord :
    ExchangeProposal → CreateTimebankRecordMetadata → Except String RecordEnvelope :=
  proposedExchangeProposalRecords.encode
    "A proposed exchange record must be authored by its creator."

/-- Encodes a ledger transfer, including both participant attestations, in its record envelope. -/
def toLedgerTransferRecord (transfer : Transfer) (metadata : CreateTimebankRecordMetadata) :
    Except String RecordEnvelope := do
  let normalized ← normalizeTransfer transfer.toJson
  createRecordEnvelope (ledgerTransferRecords.envelope normalized metadata)

/-- Encodes one participant-owned acknowledgement of an accepted exchange's exact terms. -/
def toSettlementAcknowledgementRecord :
    SettlementAcknowledgement → CreateTimebankRecordMetadata → Except String RecordEnvelope :=
  settlementAcknowledgementRecords.encode
    "A settlement acknowledgement record must be authored by its acknowledging participant."

/-- Encodes one participant-owned signature over deterministic, dual-confirmed settlement terms. -/
def toSettlementTransferAttestationRecord :
    SettlementTransferAttestation → CreateTimebankRecordMetadata →
      Except String RecordEnvelope :=
  settlementTransferAttestationRecords.encode
    "A settlement transfer attestation record must be authored by its attesting participant."

/-- Encodes a normal settlement only after the accepted proposal and both participant
acknowledgements compose one deterministic, dual-attested transfer. -/
def toDualConfirmedSettlementTransferRecord (localeCompare : String → String → Ordering)
    (proposal : ExchangeProposal) (acknowledgements : List SettlementAcknowledgement)
    (attestations : List TimebankLedger.TransferAttestation)
    (metadata : CreateTimebankRecordMetadata) : Except String RecordEnvelope := do
  let transfer ← createDualConfirmedSettlementTransfer localeCompare proposal acknowledgements
    attestations
  require (metadata.authorId = transfer.providerMemberId ∨
      metadata.authorId = transfer.recipientMemberId)
    "A settlement transfer record must be authored by one of its participants."
  toLedgerTransferRecord transfer metadata

/-! ## Reduction -/

/-- Reads one record of a reduced community. -/
def RecordKind.read {α : Type} (kind : RecordKind α) (communityId : String)
    (record : RecordEnvelope) : Except String α := do
  let value ← kind.decode record.toJson
  require (kind.communityId value = communityId)
    ("A " ++ kind.label ++ " record belongs to a different community.")
  pure value

/-- Dedupe-reduces immutable records while rejecting same-id records carrying different content. -/
def RecordKind.reduceRecords {α : Type} (kind : RecordKind α)
    (localeCompare : String → String → Ordering) (records : List RecordEnvelope)
    (communityId : String) : Except String (List α) := do
  let _ ← assertPresent (some (.str communityId)) "Community id"
  let valuesById ← collect kind.id (fun value ↦ stringify (kind.toJson value))
    ("Conflicting " ++ kind.label ++ " records share the same id.") (kind.read communityId) records
  pure (sortBy (on localeCompare kind.id) valuesById)

section ReducedKinds

variable (localeCompare : String → String → Ordering)

/-- Reduces one community's unordered listing records into unique published offers and requests. -/
def reducePublishedListingRecords : List RecordEnvelope → String → Except String (List Listing) :=
  publishedListingRecords.reduceRecords localeCompare

/-- Reduces immutable listing closures by their deterministic listing-specific record identity. -/
def reduceClosedListingRecords :
    List RecordEnvelope → String → Except String (List ClosedListing) :=
  closedListingRecords.reduceRecords localeCompare

/-- Reduces one community's unordered pending proposal records into unique immutable proposals. -/
def reduceProposedExchangeProposalRecords :
    List RecordEnvelope → String → Except String (List ExchangeProposal) :=
  proposedExchangeProposalRecords.reduceRecords localeCompare

/-- Reduces one community's unordered proposal records into unique immutable accepted proposals. -/
def reduceAcceptedExchangeProposalRecords :
    List RecordEnvelope → String → Except String (List ExchangeProposal) :=
  acceptedExchangeProposalRecords.reduceRecords localeCompare

/-- Reduces one community's unordered transfer records into unique immutable attested transfers. -/
def reduceLedgerTransferRecords : List RecordEnvelope → String → Except String (List Transfer) :=
  ledgerTransferRecords.reduceRecords localeCompare

/-- Reduces one community's immutable settlement acknowledgements by their participant-specific
identity. -/
def reduceSettlementAcknowledgementRecords :
    List RecordEnvelope → String → Except String (List SettlementAcknowledgement) :=
  settlementAcknowledgementRecords.reduceRecords localeCompare

/-- Reduces one community's participant attestations by their proposal-and-member identity. -/
def reduceSettlementTransferAttestationRecords :
    List RecordEnvelope → String → Except String (List SettlementTransferAttestation) :=
  settlementTransferAttestationRecords.reduceRecords localeCompare

end ReducedKinds

end PeerHours.TimebankRecords
