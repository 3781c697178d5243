import PeerHours.Desktop.MemberIdentity
import PeerHours.Desktop.ResolvedMemberState
import PeerHours.Library.Interleaving
import PeerHours.Records.Rules

/-!
# Pending calls of the member identity service

The operations that read the stored identity, append to the feed or read the feed back give way to each
other wherever they wait for one of these. Each operation is cut at its waits: what it does between two
waits is one computation over the state that the calls share.
-/

namespace PeerHours.Desktop

open Checked Json Stateful
open TimebankDomain (ExchangeProposal Listing acceptExchangeProposal createMemberProfile)
open TimebankIdentity (createParticipantTransferAttestation)
open TimebankLedger (TransferTerms)
open TimebankRecords
open TimebankSettlement (SettlementTransferAttestation createDualConfirmedSettlementTransferTerms
  createSettlementTransferAttestation)

variable (crypto : Crypto)

/-! ## Inputs -/

/-- A verified active listing supplied by the main process for owner-authorized withdrawal. -/
structure CloseListingInput where
  listing : Listing

/-- A verified proposal and its listings. -/
structure AcceptProposalInput where
  proposal : ExchangeProposal
  offer : Listing
  request : Listing

/-- Verified replicated evidence: the proposal is one that an acceptance record carries, and the
attestations are ones that attestation records carry. -/
structure VerifiedSettlementInput extends AdvanceSettlementInput where
  accepted : AcceptedValid proposal
  plain : ∀ container ∈ attestations, container.attestation.rest = []

/-! ## Where calls wait -/

/-- The service and the sets that guard its operations. -/
structure GuardedService extends MemberIdentityService crypto where
  listingClosuresInProgress : List String
  settlementAdvancementsInProgress : List String

/-- What `advanceSettlement` knows once it has an attestation of its own. -/
structure Advancement where
  input : VerifiedSettlementInput
  stored : IdentityMaterial crypto
  terms : TransferTerms
  ownAttestation : SettlementTransferAttestation

/-- An operation with its input. -/
inductive GuardedOperation where
  | closeListing (input : CloseListingInput)
  | acceptProposal (input : AcceptProposalInput)
  | advanceSettlement (input : VerifiedSettlementInput)

/-- How a call goes on once the feed has taken its record or refused it. -/
inductive AfterAppend where
  | closed (listingId : String)
  | accepted (proposalId : String)
  | attested (advancement : Advancement crypto)
  | transferred (proposalId : String)

/-- Where a call waits. -/
inductive Waiting where
  | readIdentity (communityId : Option String) (operation : GuardedOperation)
  | append (record : JsonValue) (next : AfterAppend crypto)
  | appended (succeeded : Bool) (next : AfterAppend crypto)
  | readRecords (advancement : Advancement crypto)
  | recordsRead (records : List JsonValue) (advancement : Advancement crypto)

variable {crypto}

/-- A call begins by reading the stored identity. -/
inductive Begins : Waiting crypto → Prop where
  | intro (communityId : Option String) (operation : GuardedOperation) :
      Begins (.readIdentity communityId operation)

/-! ## Between two waits -/

/-- The identity and the community that a guarded operation requires. -/
def protectedIdentity (context : CallContext crypto) (communityId : Option String)
    (identityStore : Option (IdentityMaterial crypto)) (action : String) :
    Except String (IdentityMaterial crypto × String) := do
  let message := "A protected identity and community scope are required to " ++ action ++ "."
  let communityId ← selectedCommunity { context with communityId := communityId } message
  let stored ← present identityStore message
  require (context.isEncryptionAvailable = true) message
  assertStoredIdentity stored
  pure (stored, communityId)

/-- `finally` of `closeListing`. -/
def finishClosure (listingId : String) (service : GuardedService crypto) : GuardedService crypto :=
  { service with
    listingClosuresInProgress := service.listingClosuresInProgress.filter fun other ↦
      decide (other ≠ listingId) }

/-- `finally` of `advanceSettlement`. -/
def finishAdvancement (proposalId : String) (service : GuardedService crypto) :
    GuardedService crypto :=
  { service with
    settlementAdvancementsInProgress := service.settlementAdvancementsInProgress.filter fun other ↦
      decide (other ≠ proposalId) }

/-- Root-signs an immutable closure for this member's currently published listing, up to its append. -/
def closeListing (context : CallContext crypto) (communityId : Option String)
    (input : CloseListingInput) : Action (GuardedService crypto) (Option (Waiting crypto)) := do
  let service ← get
  let (stored, communityId) ← check (protectedIdentity context communityId service.identityStore
    "close a listing")
  let memberId := stored.root.memberId
  check (require (input.listing.communityId = communityId)
    "The listing is outside the current community scope.")
  let owner ← check (createMemberProfile ⟨memberId, communityId, memberId⟩)
  let _ ← check (TimebankDomain.closeListing input.listing owner)
  check (require (input.listing.id ∉ service.listingClosuresInProgress)
    "This listing is already being closed.")
  modify fun service ↦ { service with
    listingClosuresInProgress := input.listing.id :: service.listingClosuresInProgress }
  onFailure (finishClosure input.listing.id) do
    let record ← check (toClosedListingRecord input.listing ⟨context.now, memberId⟩)
    let signed ← check (signRecord stored.root record)
    pure (some (.append signed (.closed input.listing.id)))

/-- Accepts a verified proposal only as its other participant, up to the append of the acceptance. -/
def acceptProposal (context : CallContext crypto) (communityId : Option String)
    (input : AcceptProposalInput) : Action (GuardedService crypto) (Option (Waiting crypto)) := do
  let service ← get
  let (stored, communityId) ← check (protectedIdentity context communityId service.identityStore
    "accept a proposal")
  let memberId := stored.root.memberId
  let provider ← check (createMemberProfile
    ⟨input.offer.memberId, communityId, input.offer.memberId⟩)
  let recipient ← check (createMemberProfile
    ⟨input.request.memberId, communityId, input.request.memberId⟩)
  let accepted ← check (acceptExchangeProposal
    ⟨input.proposal, input.offer, input.request, provider, recipient, memberId⟩)
  let record ← check (toAcceptedExchangeProposalRecord accepted ⟨context.now, memberId⟩)
  let signed ← check (signRecord stored.root record)
  pure (some (.append signed (.accepted input.proposal.id)))

/-- The attestations that a settlement goes on with. -/
def Advancement.attestations (advancement : Advancement crypto) : List SettlementTransferAttestation :=
  (advancement.input.attestations.filter fun container ↦
    decide (container.attestation.memberId ≠ advancement.stored.root.memberId)) ++
    [advancement.ownAttestation]

/-- Goes on to publication only with the attestations of both participants. -/
def awaitParticipants (advancement : Advancement crypto) :
    Action (GuardedService crypto) (Option (Waiting crypto)) := do
  let participantIds := advancement.attestations.map fun container ↦ container.attestation.memberId
  let proposal := advancement.input.proposal
  if proposal.providerMemberId ∉ participantIds ∨ proposal.receiverMemberId ∉ participantIds then
    modify (finishAdvancement proposal.id)
    pure none
  else pure (some (.readRecords advancement))

/-- The member's own signature over the settlement terms. -/
def attestSettlement (localeCompare : String → String → Ordering) (stored : IdentityMaterial crypto)
    (input : VerifiedSettlementInput) (terms : TransferTerms) :
    Except String SettlementTransferAttestation := do
  let attestation ← createParticipantTransferAttestation crypto
    { transfer := terms
      memberId := stored.root.memberId
      keyId := rootKeyIdForMember stored.root.memberId
      signCanonicalPayload := fun payload ↦ .ok (stored.root.sign payload) }
  createSettlementTransferAttestation crypto localeCompare input.proposal input.acknowledgements
    attestation

/-- The settlement terms and the member's attestation of them: the one that is supplied, or a new one with
its record to append. -/
def attestOnce (localeCompare : String → String → Ordering) (context : CallContext crypto)
    (stored : IdentityMaterial crypto) (input : VerifiedSettlementInput) :
    Action (GuardedService crypto) (Option (Waiting crypto)) := do
  let memberId := stored.root.memberId
  let terms ← check (createDualConfirmedSettlementTransferTerms localeCompare input.proposal
    input.acknowledgements)
  match input.attestations.find? fun container ↦
      decide (container.attestation.memberId = memberId) with
  | some ownExisting => awaitParticipants ⟨input, stored, terms, ownExisting⟩
  | none => do
      let ownAttestation ← check (attestSettlement localeCompare stored input terms)
      let record ← check (toSettlementTransferAttestationRecord ownAttestation
        ⟨context.now, memberId⟩)
      let signed ← check (signRecord stored.root record)
      pure (some (.append signed (.attested ⟨input, stored, terms, ownAttestation⟩)))

/-- Signs this participant's deterministic transfer terms, up to the append of the attestation. -/
def advanceSettlement (localeCompare : String → String → Ordering) (context : CallContext crypto)
    (communityId : Option String) (input : VerifiedSettlementInput) :
    Action (GuardedService crypto) (Option (Waiting crypto)) := do
  let service ← get
  let (stored, communityId) ← check (protectedIdentity context communityId service.identityStore
    "advance a settlement")
  let memberId := stored.root.memberId
  check (require (input.proposal.communityId = communityId)
    "The accepted proposal is outside the current community scope.")
  check (require (memberId = input.proposal.providerMemberId ∨
      memberId = input.proposal.receiverMemberId)
    "Only an exchange participant may attest or publish its settlement.")
  check (require (input.proposal.id ∉ service.settlementAdvancementsInProgress)
    "This settlement is already being advanced.")
  modify fun service ↦ { service with
    settlementAdvancementsInProgress :=
      input.proposal.id :: service.settlementAdvancementsInProgress }
  onFailure (finishAdvancement input.proposal.id) (attestOnce localeCompare context stored input)

/-- Checks this feed for an already published deterministic transfer before appending again. -/
def hasLedgerTransfer (records : List JsonValue) (transferId : String) : Bool :=
  records.any fun record ↦
    match decodeLedgerTransferRecord record with
    | .ok transfer => decide (transfer.id = transferId)
    | .error _ => false

/-- Publishes the one settlement transfer unless the feed already has it, up to its append. -/
def publishTransfer (localeCompare : String → String → Ordering) (context : CallContext crypto)
    (records : List JsonValue) (advancement : Advancement crypto) :
    Action (GuardedService crypto) (Option (Waiting crypto)) := do
  let input := advancement.input
  if hasLedgerTransfer records advancement.terms.id = true then
    modify (finishAdvancement input.proposal.id)
    pure none
  else
    onFailure (finishAdvancement input.proposal.id) do
      let record ← check (toDualConfirmedSettlementTransferRecord localeCompare input.proposal
        input.acknowledgements (advancement.attestations.map (·.attestation))
        ⟨context.now, advancement.stored.root.memberId⟩)
      let signed ← check (signRecord advancement.stored.root record)
      pure (some (.append signed (.transferred input.proposal.id)))

/-- How a call goes on once the feed has taken its record or refused it. -/
def afterAppend (succeeded : Bool) :
    AfterAppend crypto → Action (GuardedService crypto) (Option (Waiting crypto))
  | .closed listingId => do
      modify (finishClosure listingId)
      pure none
  | .accepted _ => pure none
  | .attested advancement =>
      if succeeded = true then awaitParticipants advancement
      else do
        modify (finishAdvancement advancement.input.proposal.id)
        pure none
  | .transferred proposalId => do
      modify (finishAdvancement proposalId)
      pure none

/-- A call goes on from where it waits: with the identity that was read, with the feed's answer to its
append, or with the records that were read. -/
def goOn (localeCompare : String → String → Ordering) (context : CallContext crypto) :
    Waiting crypto → Action (GuardedService crypto) (Option (Waiting crypto))
  | .readIdentity communityId (.closeListing input) => closeListing context communityId input
  | .readIdentity communityId (.acceptProposal input) => acceptProposal context communityId input
  | .readIdentity communityId (.advanceSettlement input) =>
      advanceSettlement localeCompare context communityId input
  | .append record next => do
      if context.feedWritable = true then
        modify fun service ↦ { service with records := service.records ++ [record] }
        pure (some (.appended true next))
      else pure (some (.appended false next))
  | .appended succeeded next => afterAppend succeeded next
  | .readRecords advancement => do
      let service ← get
      pure (some (.recordsRead service.records advancement))
  | .recordsRead records advancement => publishTransfer localeCompare context records advancement

/-- Where a call waits next, if it has not returned or stopped, and the service it leaves behind. -/
def resumeCall (localeCompare : String → String → Ordering) :
    Interleaving.Resume (CallContext crypto) (Waiting crypto) (GuardedService crypto) :=
  fun context waiting service ↦
    match outcome (goOn localeCompare context waiting) service with
    | (.ok next, after) => (next, after)
    | (.error _, after) => (none, after)

/-- A call that goes on waits where its computation says. -/
theorem resumeCall_of_ok {localeCompare : String → String → Ordering} {context : CallContext crypto}
    {waiting : Waiting crypto} {service after : GuardedService crypto}
    {next : Option (Waiting crypto)}
    (h : outcome (goOn localeCompare context waiting) service = (.ok next, after)) :
    resumeCall localeCompare context waiting service = (next, after) := by
  unfold resumeCall
  rw [h]

end PeerHours.Desktop
