import PeerHours.Records.IdentityRecords
import PeerHours.Records.MemberSigned
import PeerHours.Records.TimebankRecords

/-!
# Resolving a record history

`resolveTimebankRecords` derives one community's authorizations, listings, proposals, settlements and
balances from a list of replicated records, or fails when the records form no coherent history.
-/

namespace PeerHours.TimebankRecords

open Checked Json KeyedMap
open TimebankDomain (ExchangeProposal Listing)
open TimebankIdentity (MemberSigningKeyAuthorization createEd25519MemberSignatureVerifier
  createEd25519SignatureVerifier canonicalTransferPayload)
open TimebankLedger (Ledger Transfer applyTransfers)
open TimebankSettlement

variable (crypto : Crypto)

/-- The deterministic local timebank view derived from one replicated record history. -/
structure ResolvedTimebankState where
  communityId : String
  authorizations : List (MemberSigningKeyAuthorization crypto)
  publishedListings : List Listing
  proposedProposals : List ExchangeProposal
  acceptedProposals : List ExchangeProposal
  settlementAcknowledgements : List SettlementAcknowledgement
  settlementConfirmations : List SettlementConfirmationState
  settlementAttestations : List SettlementAttestationState
  transfers : List Transfer
  ledger : Ledger

/-! ## Authorizations -/

/-- Narrows envelopes that carry member signing-key lifecycle actions. -/
def isIdentityRecord (kind : String) : Bool :=
  decide (kind = identityKeyActivationRecordKind) || decide (kind = identityKeyRevocationRecordKind)

/-- The records of one kind. -/
def recordsOfKind (kind : String) (records : List RecordEnvelope) : List RecordEnvelope :=
  records.filter fun record ↦ decide (record.kind = kind)

/-- Assembles the authorizations of a community from unsigned lifecycle records, feed declarations and
root-signed lifecycle records. -/
def resolveAuthorizations (localeCompare : String → String → Ordering)
    (communityRecords : List RecordEnvelope) :
    Except String (List (MemberSigningKeyAuthorization crypto)) := do
  let memberFeedDeclarationRecords :=
    recordsOfKind memberFeedDeclarationRecordKind communityRecords
  let selfOwnedMemberIds := memberFeedDeclarationRecords.map (·.authorId)
  let legacyIdentityRecords := communityRecords.filter fun record ↦ isIdentityRecord record.kind
  require (∀ record ∈ legacyIdentityRecords, record.authorId ∉ selfOwnedMemberIds)
    "Unsigned legacy key lifecycle records cannot alter a self-owned member identity."
  let legacyAuthorizations ←
    reduceMemberSigningKeyAuthorizationRecords crypto localeCompare legacyIdentityRecords
  let selfOwnedAuthorizations ←
    memberFeedDeclarationsToAuthorizations crypto localeCompare memberFeedDeclarationRecords
  let rootSignedLifecycleAuthorizations ←
    reduceProvenRootSignedMemberSigningKeyLifecycleRecords crypto localeCompare
      (communityRecords.filter fun record ↦ isRootSignedMemberSigningKeyLifecycleRecord record.kind)
      memberFeedDeclarationRecords
  pure (legacyAuthorizations ++ selfOwnedAuthorizations ++ rootSignedLifecycleAuthorizations)

/-! ## Signed domain records -/

/-- The kinds of records whose authorship has a defined member meaning. -/
def memberAuthoredDomainRecordKinds : List String :=
  [publishedListingRecordKind, closedListingRecordKind, proposedExchangeProposalRecordKind,
    acceptedExchangeProposalRecordKind, settlementAcknowledgementRecordKind,
    settlementTransferAttestationRecordKind, ledgerTransferRecordKind]

/-- Limits signature admission to record kinds whose authorship has a defined member meaning. -/
def isMemberAuthoredDomainRecord (record : JsonValue) : Prop :=
  ∃ kind ∈ memberAuthoredDomainRecordKinds, record.field "kind" = some (.str kind)

instance (record : JsonValue) : Decidable (isMemberAuthoredDomainRecord record) :=
  inferInstanceAs (Decidable (∃ kind ∈ memberAuthoredDomainRecordKinds, _))

/-- Ensures the author of a signed record is one its payload allows. -/
def RecordKind.assertAuthor {α : Type} (kind : RecordKind α) (message : String)
    (record : JsonValue) : Except String Unit := do
  let value ← kind.decode record
  let authorId := JsonValue.text? (record.field "authorId")
  require (authorId.any (kind.mayAuthor value) = true) message

/-- Ensures a signed record author performed the proposal acceptance or participates in the
transfer. -/
def assertRecordAuthorParticipates (record : JsonValue) : Except String Unit :=
  let hasKind (kind : String) : Prop := record.field "kind" = some (.str kind)
  if hasKind proposedExchangeProposalRecordKind then
    proposedExchangeProposalRecords.assertAuthor
      "A proposed exchange record must be signed by its creator." record
  else if hasKind acceptedExchangeProposalRecordKind then
    acceptedExchangeProposalRecords.assertAuthor
      "An accepted proposal record must be signed by the member who accepted it." record
  else if hasKind publishedListingRecordKind then
    publishedListingRecords.assertAuthor
      "A published listing record must be signed by its member owner." record
  else if hasKind closedListingRecordKind then
    closedListingRecords.assertAuthor
      "A closed listing record must be signed by its member owner." record
  else if hasKind settlementAcknowledgementRecordKind then
    settlementAcknowledgementRecords.assertAuthor
      "A settlement acknowledgement record must be signed by its acknowledging participant." record
  else if hasKind settlementTransferAttestationRecordKind then
    settlementTransferAttestationRecords.assertAuthor
      "A settlement transfer attestation record must be signed by its attesting participant." record
  else
    ledgerTransferRecords.assertAuthor
      "A ledger transfer record must be submitted by one of its participants." record

variable {crypto}

/-- Admits known member-authored domain records only when an active authorized key signed them. -/
def assertMemberSignedDomainRecords (records : List JsonValue) (communityId : String)
    (authorizations : List (MemberSigningKeyAuthorization crypto)) : Except String Unit :=
  records |> checkAll fun record ↦
    if record.field "communityId" = some (.str communityId) ∧ isMemberAuthoredDomainRecord record then
      do
        require (isMemberSignedRecord record = true)
          "A member-originated domain record must include an authorized member signature."
        let verified ← verifyMemberSignedRecord record authorizations
        require (verified = true)
          "A member-originated domain record signature is invalid or not authorized."
        assertRecordAuthorParticipates record
    else .ok ()

/-! ## Linked records -/

/-- Ensures that a closure names a published listing of its own author. -/
def assertClosesOwnListing (allPublishedListings : List Listing) (closure : ClosedListing) :
    Except String Unit :=
  let message :=
    "A listing closure must be signed by the owner of a published listing in the same community."
  match lookup (·.id) closure.listingId allPublishedListings with
  | none => .error message
  | some listing =>
      require (listing.memberId = closure.memberId ∧ listing.communityId = closure.communityId)
        message

/-- The terms that an acceptance must keep. -/
def preservesPublishedTerms (proposed accepted : ExchangeProposal) : Prop :=
  proposed.communityId = accepted.communityId ∧ proposed.offerId = accepted.offerId ∧
    proposed.requestId = accepted.requestId ∧
    proposed.providerMemberId = accepted.providerMemberId ∧
    proposed.receiverMemberId = accepted.receiverMemberId ∧
    proposed.creatorMemberId = accepted.creatorMemberId ∧ proposed.minutes = accepted.minutes

instance (proposed accepted : ExchangeProposal) :
    Decidable (preservesPublishedTerms proposed accepted) :=
  inferInstanceAs (Decidable (_ ∧ _ ∧ _ ∧ _ ∧ _ ∧ _ ∧ _))

/-- Rejects an acceptance that attempts to reinterpret a pending proposal already present in
replicated history. -/
def assertAcceptedProposalsPreservePublishedTerms
    (proposedProposals acceptedProposals : List ExchangeProposal) : Except String Unit :=
  acceptedProposals |> checkAll fun accepted ↦
    match lookup (·.id) accepted.id proposedProposals with
    | none => .ok ()
    | some proposed =>
        require (preservesPublishedTerms proposed accepted)
          "An accepted proposal must preserve every immutable term of its pending proposal."

/-- The values pushed under one key of a map of lists, in the order of the pushes. -/
def pushedUnder {α : Type} (key : String) (pushes : List (String × α)) : List α :=
  (pushes.filter fun push ↦ decide (push.1 = key)).map (·.2)

/-- Links an acknowledgement to its accepted proposal. -/
def linkAcknowledgement (acceptedProposals : List ExchangeProposal)
    (acknowledgement : SettlementAcknowledgement) :
    Except String (String × SettlementAcknowledgement) := do
  let proposal ← present (lookup (·.id) acknowledgement.sourceProposalId acceptedProposals)
    "A settlement acknowledgement must resolve its accepted proposal from replicated records."
  let _ ← validateSettlementAcknowledgement proposal acknowledgement
  pure (proposal.id, acknowledgement)

section Settlements

variable (localeCompare : String → String → Ordering)
  (authorizations : List (MemberSigningKeyAuthorization crypto))
  (acceptedProposals : List ExchangeProposal)
  (acknowledgementsByProposalId : List (String × SettlementAcknowledgement))

/-- Links an attestation to its accepted proposal after verifying its signature. -/
def linkAttestation (settlementAttestation : SettlementTransferAttestation) :
    Except String (String × SettlementTransferAttestation) := do
  let proposal ← present (lookup (·.id) settlementAttestation.sourceProposalId acceptedProposals)
    "A settlement transfer attestation must resolve its accepted proposal from replicated records."
  let acknowledgements := pushedUnder proposal.id acknowledgementsByProposalId
  let normalized ← validateSettlementTransferAttestation crypto localeCompare proposal
    acknowledgements settlementAttestation
  let terms ← createDualConfirmedSettlementTransferTerms localeCompare proposal acknowledgements
  let verifyMemberSignature ← createEd25519MemberSignatureVerifier authorizations
  let payload ← canonicalTransferPayload terms
  require (verifyMemberSignature
      { communityId := terms.communityId
        memberId := normalized.attestation.memberId
        keyId := normalized.attestation.keyId
        payload := payload
        signature := normalized.attestation.signature } = true)
    "A settlement transfer attestation must have a valid authorized participant signature."
  pure (proposal.id, normalized)

/-- Ensures that an ordinary transfer settles its accepted proposal. -/
def assertSettlesAcceptedProposal (transfer : Transfer) : Except String Unit :=
  if transfer.reversesTransferId.isSome then .ok ()
  else do
    let proposal ← present
      (lookup (·.id) (sourceProposalText transfer.toTransferTerms) acceptedProposals)
      "A settlement transfer must resolve its accepted proposal from replicated records."
    let _ ← validateAuthorizedDualConfirmedSettlementTransfer localeCompare proposal
      (pushedUnder proposal.id acknowledgementsByProposalId) transfer authorizations
    pure ()

end Settlements

/-! ## Resolution -/

variable (crypto) in
/-- Resolves one community's immutable record history into authorizations, accepted proposals,
verified transfers, and derived balances. -/
def resolveTimebankRecords (localeCompare : String → String → Ordering) (communityId : String)
    (records : List JsonValue) : Except String (ResolvedTimebankState crypto) := do
  let normalizedRecords ← reduceRecordEnvelopes localeCompare records
  let communityRecords := normalizedRecords.filter fun record ↦
    decide (record.communityId = communityId)
  let authorizations ← resolveAuthorizations crypto localeCompare communityRecords
  assertMemberSignedDomainRecords records communityId authorizations
  let allPublishedListings ← reducePublishedListingRecords localeCompare
    (recordsOfKind publishedListingRecordKind communityRecords) communityId
  let closedListings ← reduceClosedListingRecords localeCompare
    (recordsOfKind closedListingRecordKind communityRecords) communityId
  checkAll (assertClosesOwnListing allPublishedListings) closedListings
  let closedListingIds := closedListings.map (·.listingId)
  let publishedListings := allPublishedListings.filter fun listing : Listing ↦
    decide (listing.id ∉ closedListingIds)
  let acceptedProposals ← reduceAcceptedExchangeProposalRecords localeCompare
    (recordsOfKind acceptedExchangeProposalRecordKind communityRecords) communityId
  let proposedProposals ← reduceProposedExchangeProposalRecords localeCompare
    (recordsOfKind proposedExchangeProposalRecordKind communityRecords) communityId
  let settlementAcknowledgements ← reduceSettlementAcknowledgementRecords localeCompare
    (recordsOfKind settlementAcknowledgementRecordKind communityRecords) communityId
  let transfers ← reduceLedgerTransferRecords localeCompare
    (recordsOfKind ledgerTransferRecordKind communityRecords) communityId
  let transferAttestations ← reduceSettlementTransferAttestationRecords localeCompare
    (recordsOfKind settlementTransferAttestationRecordKind communityRecords) communityId
  assertAcceptedProposalsPreservePublishedTerms proposedProposals acceptedProposals
  let acknowledgementsByProposalId ←
    settlementAcknowledgements.mapM (linkAcknowledgement acceptedProposals)
  let settlementConfirmations ← acceptedProposals.mapM fun proposal ↦
    resolveSettlementAcknowledgements localeCompare proposal
      (pushedUnder proposal.id acknowledgementsByProposalId)
  let transferAttestationsByProposalId ← transferAttestations.mapM
    (linkAttestation localeCompare authorizations acceptedProposals acknowledgementsByProposalId)
  let settlementAttestations ← acceptedProposals.mapM fun proposal ↦
    resolveSettlementTransferAttestations crypto localeCompare proposal
      (pushedUnder proposal.id acknowledgementsByProposalId)
      (pushedUnder proposal.id transferAttestationsByProposalId)
  transfers |> checkAll (assertSettlesAcceptedProposal localeCompare authorizations acceptedProposals
    acknowledgementsByProposalId)
  let verifyAttestation ← createEd25519SignatureVerifier authorizations
  let ledger ← applyTransfers localeCompare communityId (transfers.map Transfer.toJson)
    verifyAttestation
  pure
    { communityId := communityId
      authorizations := authorizations
      publishedListings := publishedListings
      proposedProposals := proposedProposals
      acceptedProposals := acceptedProposals
      settlementAcknowledgements := settlementAcknowledgements
      settlementConfirmations := settlementConfirmations
      settlementAttestations := settlementAttestations
      transfers := transfers
      ledger := ledger }

end PeerHours.TimebankRecords
