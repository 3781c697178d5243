import PeerHours.Domain
import PeerHours.Identity.Verification

/-!
# Settlement of accepted exchanges

Both participants acknowledge an accepted exchange, both attest the one transfer that its terms
determine, and that transfer settles it.
-/

namespace PeerHours.TimebankSettlement

open Checked Json KeyedMap Sorting
open TimebankDomain (ExchangeProposal)
open TimebankIdentity (MemberSigningKeyAuthorization Attests Compatible transferPayloadDigest
  canonicalTerms assertAuthorizedTransferAttestations)
open TimebankLedger (TransferTerms Transfer TransferAttestation createTransfer)

/-! ## Acknowledgements -/

/-- One participant's immutable acknowledgement that an accepted exchange has been completed. -/
structure SettlementAcknowledgement where
  id : String
  communityId : String
  sourceProposalId : String
  providerMemberId : String
  recipientMemberId : String
  minutes : Int
  acknowledgedByMemberId : String
deriving DecidableEq

/-- The object of an acknowledgement. -/
def SettlementAcknowledgement.toJson (acknowledgement : SettlementAcknowledgement) : JsonValue :=
  .obj [("id", .str acknowledgement.id), ("communityId", .str acknowledgement.communityId),
    ("sourceProposalId", .str acknowledgement.sourceProposalId),
    ("providerMemberId", .str acknowledgement.providerMemberId),
    ("recipientMemberId", .str acknowledgement.recipientMemberId),
    ("minutes", .int acknowledgement.minutes),
    ("acknowledgedByMemberId", .str acknowledgement.acknowledgedByMemberId)]

/-- Progress of the acknowledgements of one accepted exchange. -/
inductive ConfirmationStatus where
  | awaitingCounterparty
  | dualConfirmed
deriving DecidableEq

/-- The resolved confirmation state for one accepted exchange. -/
structure SettlementConfirmationState where
  proposalId : String
  status : ConfirmationStatus
  acknowledgements : List SettlementAcknowledgement

/-- Ensures a protocol text field has meaningful content. -/
def assertText (value label : String) : Except String Unit :=
  require (Text.blank value = false) (label ++ " is required.")

/-- Ensures an acknowledgement amount remains a positive, whole minute value. -/
def assertPositiveWholeMinutes (minutes : Int) : Except String Unit :=
  require (0 < minutes) "Settlement acknowledgement minutes must be positive whole numbers."

/-- Derives the unique append-only identity for one participant acknowledgement. -/
def settlementAcknowledgementId (proposalId memberId : String) : Except String String := do
  assertText proposalId "Proposal id"
  assertText memberId "Acknowledging member id"
  pure (proposalId ++ "/settlement-ack/" ++ memberId)

/-- Ensures an acknowledgement can only be attached to an accepted exchange. -/
def assertAcceptedProposal (proposal : ExchangeProposal) : Except String Unit :=
  require (proposal.status = .accepted ∧ proposal.acceptedByMemberId ≠ none)
    "Only an accepted proposal can be acknowledged as settled."

/-- Ensures the acknowledging member is a participant in the source exchange. -/
def assertParticipant (proposal : ExchangeProposal) (memberId : String) : Except String Unit := do
  assertText memberId "Acknowledging member id"
  require (memberId = proposal.providerMemberId ∨ memberId = proposal.receiverMemberId)
    "Only an exchange participant may acknowledge its settlement."

/-- Creates one participant-owned acknowledgement for the exact terms of an accepted exchange. -/
def createSettlementAcknowledgement (proposal : ExchangeProposal)
    (acknowledgedByMemberId : String) : Except String SettlementAcknowledgement := do
  assertAcceptedProposal proposal
  assertParticipant proposal acknowledgedByMemberId
  let id ← settlementAcknowledgementId proposal.id acknowledgedByMemberId
  pure
    { id := id
      communityId := proposal.communityId
      sourceProposalId := proposal.id
      providerMemberId := proposal.providerMemberId
      recipientMemberId := proposal.receiverMemberId
      minutes := proposal.minutes
      acknowledgedByMemberId := acknowledgedByMemberId }

/-- Validates an acknowledgement against its source proposal without granting ledger finality. -/
def validateSettlementAcknowledgement (proposal : ExchangeProposal)
    (acknowledgement : SettlementAcknowledgement) : Except String SettlementAcknowledgement := do
  assertAcceptedProposal proposal
  assertText acknowledgement.id "Settlement acknowledgement id"
  assertText acknowledgement.communityId "Settlement acknowledgement community id"
  assertText acknowledgement.sourceProposalId "Settlement acknowledgement source proposal id"
  assertText acknowledgement.providerMemberId "Settlement acknowledgement provider member id"
  assertText acknowledgement.recipientMemberId "Settlement acknowledgement recipient member id"
  assertText acknowledgement.acknowledgedByMemberId "Settlement acknowledgement member id"
  assertPositiveWholeMinutes acknowledgement.minutes
  let id ← settlementAcknowledgementId proposal.id acknowledgement.acknowledgedByMemberId
  require (acknowledgement.id = id)
    "A settlement acknowledgement id must name its proposal and acknowledging participant."
  require (acknowledgement.communityId = proposal.communityId ∧
      acknowledgement.sourceProposalId = proposal.id ∧
      acknowledgement.providerMemberId = proposal.providerMemberId ∧
      acknowledgement.recipientMemberId = proposal.receiverMemberId ∧
      acknowledgement.minutes = proposal.minutes)
    "A settlement acknowledgement must preserve every accepted proposal term."
  assertParticipant proposal acknowledgement.acknowledgedByMemberId
  pure acknowledgement

/-- The valid acknowledgements of a proposal by participant. -/
def acknowledgementsByParticipant (proposal : ExchangeProposal)
    (acknowledgements : List SettlementAcknowledgement) :
    Except String (List SettlementAcknowledgement) :=
  collect (·.acknowledgedByMemberId) (fun acknowledgement ↦ stringify acknowledgement.toJson)
    "A participant cannot publish conflicting settlement acknowledgements."
    (validateSettlementAcknowledgement proposal) acknowledgements

/-- Both participants are among those who acknowledged. -/
def isDualConfirmed (proposal : ExchangeProposal) (byParticipant : List SettlementAcknowledgement) :
    Bool :=
  (lookup (·.acknowledgedByMemberId) proposal.providerMemberId byParticipant).isSome &&
    (lookup (·.acknowledgedByMemberId) proposal.receiverMemberId byParticipant).isSome

/-- Resolves acknowledgements without treating a one-sided claim as final settlement. -/
def resolveSettlementAcknowledgements (localeCompare : String → String → Ordering)
    (proposal : ExchangeProposal) (acknowledgements : List SettlementAcknowledgement) :
    Except String SettlementConfirmationState := do
  assertAcceptedProposal proposal
  let byParticipant ← acknowledgementsByParticipant proposal acknowledgements
  pure
    { proposalId := proposal.id
      status :=
        if isDualConfirmed proposal byParticipant then .dualConfirmed else .awaitingCounterparty
      acknowledgements := sortBy (on localeCompare (·.acknowledgedByMemberId)) byParticipant }

/-! ## The settlement transfer -/

/-- Derives the unique normal-transfer identity for one accepted proposal. -/
def settlementTransferId (proposalId : String) : Except String String := do
  require (Text.blank proposalId = false) "Proposal id is required."
  pure (proposalId ++ "/settlement")

/-- Derives the unique append-only identity for one participant transfer attestation. -/
def settlementTransferAttestationId (proposalId memberId : String) : Except String String := do
  require (Text.blank proposalId = false ∧ Text.blank memberId = false)
    "Proposal id and attesting member id are required."
  pure (proposalId ++ "/settlement-attestation/" ++ memberId)

/-- Validates that a non-reversal transfer is the exact settlement for one accepted proposal. -/
def validateSettlementTransfer (proposal : ExchangeProposal) (inputTransfer : Transfer) :
    Except String Transfer := do
  let transfer ← createTransfer inputTransfer.toJson
  require (proposal.status = .accepted ∧ proposal.acceptedByMemberId ≠ none)
    "Only an accepted proposal can produce a settlement transfer."
  require (transfer.reversesTransferId = none)
    "A compensating reversal cannot settle an exchange proposal."
  require (transfer.sourceProposalId = some (.str proposal.id))
    "A settlement transfer must reference its accepted proposal."
  require (transfer.communityId = proposal.communityId)
    "A settlement transfer must remain in its proposal community."
  require (transfer.providerMemberId = proposal.providerMemberId ∧
      transfer.recipientMemberId = proposal.receiverMemberId)
    "A settlement transfer must preserve its proposal participants."
  require (transfer.minutes = proposal.minutes)
    "A settlement transfer must preserve its proposal minute amount."
  pure transfer

/-- One participant's independently replicated signature over deterministic settlement terms. -/
structure SettlementTransferAttestation where
  id : String
  communityId : String
  sourceProposalId : String
  attestation : TransferAttestation
deriving DecidableEq

/-- The object of an attestation container. -/
def SettlementTransferAttestation.toJson (container : SettlementTransferAttestation) : JsonValue :=
  .obj [("id", .str container.id), ("communityId", .str container.communityId),
    ("sourceProposalId", .str container.sourceProposalId),
    ("attestation", container.attestation.toJson)]

/-- Confirmation and attestation progress; neither state establishes replication finality. -/
inductive AttestationStatus where
  | awaitingConfirmation
  | awaitingAttestations
  | dualAttested
deriving DecidableEq

/-- Resolved signature collection state for one accepted proposal. -/
structure SettlementAttestationState where
  proposalId : String
  status : AttestationStatus
  attestations : List SettlementTransferAttestation

section Composition

variable (crypto : Crypto) (localeCompare : String → String → Ordering)

/-- Derives the deterministic, attestation-free terms for one dual-confirmed settlement. -/
def createDualConfirmedSettlementTransferTerms (proposal : ExchangeProposal)
    (acknowledgements : List SettlementAcknowledgement) : Except String TransferTerms := do
  let confirmation ← resolveSettlementAcknowledgements localeCompare proposal acknowledgements
  require (confirmation.status = .dualConfirmed)
    "Both exchange participants must acknowledge completion before deriving settlement terms."
  let id ← settlementTransferId proposal.id
  pure
    { id := id
      communityId := proposal.communityId
      sourceProposalId := some (.str proposal.id)
      providerMemberId := proposal.providerMemberId
      recipientMemberId := proposal.receiverMemberId
      minutes := proposal.minutes
      reversesTransferId := none }

/-- Verifies that a normal settlement transfer was deterministically composed from an accepted
proposal after both participants acknowledged completion. -/
def validateDualConfirmedSettlementTransfer (proposal : ExchangeProposal)
    (acknowledgements : List SettlementAcknowledgement) (inputTransfer : Transfer) :
    Except String Transfer := do
  let confirmation ← resolveSettlementAcknowledgements localeCompare proposal acknowledgements
  require (confirmation.status = .dualConfirmed)
    "Both exchange participants must acknowledge completion before composing a settlement transfer."
  let transfer ← validateSettlementTransfer proposal inputTransfer
  let id ← settlementTransferId proposal.id
  require (transfer.id = id)
    "A settlement transfer must use its proposal's deterministic transfer id."
  pure transfer

/-- Composes the deterministic normal transfer for an accepted exchange. -/
def createDualConfirmedSettlementTransfer (proposal : ExchangeProposal)
    (acknowledgements : List SettlementAcknowledgement)
    (attestations : List TransferAttestation) : Except String Transfer := do
  let terms ← createDualConfirmedSettlementTransferTerms localeCompare proposal acknowledgements
  let transfer ← createTransfer (Transfer.toJson { terms with attestations := attestations })
  validateDualConfirmedSettlementTransfer localeCompare proposal acknowledgements transfer

/-- `terms.sourceProposalId ?? ""`. -/
def sourceProposalText (terms : TransferTerms) : String :=
  (JsonValue.text? terms.sourceProposalId).getD ""

/-- Creates one participant-owned attestation container for a dual-confirmed settlement. -/
def createSettlementTransferAttestation (proposal : ExchangeProposal)
    (acknowledgements : List SettlementAcknowledgement) (attestation : TransferAttestation) :
    Except String SettlementTransferAttestation := do
  let terms ← createDualConfirmedSettlementTransferTerms localeCompare proposal acknowledgements
  require (attestation.memberId = terms.providerMemberId ∨
      attestation.memberId = terms.recipientMemberId)
    "Only an exchange participant may attest deterministic settlement terms."
  let payloadDigest ← transferPayloadDigest crypto terms
  require (attestation.payloadDigest = payloadDigest)
    "A settlement attestation must name the deterministic transfer payload digest."
  let id ← settlementTransferAttestationId (sourceProposalText terms) attestation.memberId
  pure
    { id := id
      communityId := terms.communityId
      sourceProposalId := sourceProposalText terms
      attestation := attestation }

/-- Validates an attestation container against one accepted, dual-confirmed settlement. -/
def validateSettlementTransferAttestation (proposal : ExchangeProposal)
    (acknowledgements : List SettlementAcknowledgement)
    (settlementAttestation : SettlementTransferAttestation) :
    Except String SettlementTransferAttestation := do
  let expected ← createSettlementTransferAttestation crypto localeCompare proposal acknowledgements
    settlementAttestation.attestation
  require (settlementAttestation.id = expected.id ∧
      settlementAttestation.communityId = expected.communityId ∧
      settlementAttestation.sourceProposalId = expected.sourceProposalId)
    "A settlement attestation must preserve its proposal, community, and participant identity."
  pure expected

/-- Resolves independently replicated participant attestations without claiming finality. -/
def resolveSettlementTransferAttestations (proposal : ExchangeProposal)
    (acknowledgements : List SettlementAcknowledgement)
    (attestations : List SettlementTransferAttestation) :
    Except String SettlementAttestationState := do
  let confirmation ← resolveSettlementAcknowledgements localeCompare proposal acknowledgements
  if confirmation.status ≠ .dualConfirmed then
    require (attestations = [])
      "Settlement transfer attestations require both participant acknowledgements."
    pure ⟨proposal.id, .awaitingConfirmation, []⟩
  else
    let terms ← createDualConfirmedSettlementTransferTerms localeCompare proposal acknowledgements
    let byParticipant ← collect (·.attestation.memberId)
      (fun container : SettlementTransferAttestation ↦ stringify container.toJson)
      "A participant cannot publish conflicting settlement attestations."
      (validateSettlementTransferAttestation crypto localeCompare proposal acknowledgements)
      attestations
    let attested (memberId : String) : Bool :=
      (lookup (·.attestation.memberId) memberId byParticipant).isSome
    pure
      { proposalId := sourceProposalText terms
        status :=
          if attested terms.providerMemberId && attested terms.recipientMemberId then .dualAttested
          else .awaitingAttestations
        attestations := sortBy (on localeCompare (·.attestation.memberId)) byParticipant }

variable {crypto} in
/-- Admits a deterministic dual-confirmed settlement transfer only after both exact participant
attestations verify with currently supplied active authorizations. -/
def validateAuthorizedDualConfirmedSettlementTransfer (proposal : ExchangeProposal)
    (acknowledgements : List SettlementAcknowledgement) (inputTransfer : Transfer)
    (authorizations : List (MemberSigningKeyAuthorization crypto)) : Except String Transfer := do
  let transfer ← validateDualConfirmedSettlementTransfer localeCompare proposal acknowledgements
    inputTransfer
  assertAuthorizedTransferAttestations transfer authorizations

end Composition

end PeerHours.TimebankSettlement
