import PeerHours.Records.FeedResolution
import PeerHours.Records.Resolution

/-!
# The member's view of settlements

What the desktop shows of a resolved state, and what it checks of it before a settlement is advanced. The
label, the durability report and the check all read the source proposal of every transfer in the ledger,
whatever kind of transfer it is.
-/

namespace PeerHours.Desktop

open Checked Json KeyedMap
open TimebankDomain (ExchangeProposal Listing ListingKind)
open TimebankLedger (Transfer)
open TimebankRecords
open TimebankSettlement

variable {crypto : Crypto}

/-- A published listing in the renderer's view. -/
structure RendererListing where
  id : String
  memberId : String
  kind : ListingKind
  title : String
  description : String
  minutes : Int

/-- A proposal in the renderer's view. -/
structure RendererProposal where
  id : String
  providerMemberId : String
  receiverMemberId : String
  minutes : Int

/-- A pending proposal in the renderer's view, which names its creator. -/
structure RendererPendingProposal extends RendererProposal where
  creatorMemberId : String

/-- The verified receipts for the settlement of a proposal. -/
structure SettlementDurability where
  proposalId : String
  verifiedPinnedReceiptCount : Nat

/-- The verified state that may cross into the untrusted renderer. -/
structure RendererResolvedMemberState where
  publishedListings : List RendererListing
  proposedProposals : List RendererPendingProposal
  acceptedProposals : List RendererProposal
  settlementConfirmations : List (String × ConfirmationStatus × List String)
  settlementAttestations : List (String × List String)
  settledProposalIds : List JsonValue
  settlementDurability : List SettlementDurability
  transferCount : Nat

/-- A proposal as the renderer sees it. -/
def rendererProposal (proposal : ExchangeProposal) : RendererProposal :=
  { id := proposal.id
    providerMemberId := proposal.providerMemberId
    receiverMemberId := proposal.receiverMemberId
    minutes := proposal.minutes }

/-- Projects verified domain data into a deliberately small renderer-safe view. -/
def presentResolvedMemberState (resolved : ResolvedTimebankState crypto)
    (settlementDurability : List SettlementDurability) : RendererResolvedMemberState :=
  { publishedListings := resolved.publishedListings.map fun listing ↦
      { id := listing.id
        memberId := listing.memberId
        kind := listing.kind
        title := listing.title
        description := listing.description
        minutes := listing.minutes }
    proposedProposals := resolved.proposedProposals.map fun proposal ↦
      { rendererProposal proposal with creatorMemberId := proposal.creatorMemberId }
    acceptedProposals := resolved.acceptedProposals.map rendererProposal
    settlementConfirmations := resolved.settlementConfirmations.map fun confirmation ↦
      (confirmation.proposalId, confirmation.status,
        confirmation.acknowledgements.map (·.acknowledgedByMemberId))
    settlementAttestations := resolved.settlementAttestations.map fun state ↦
      (state.proposalId, state.attestations.map (·.attestation.memberId))
    settledProposalIds := resolved.ledger.transfers.filterMap (·.sourceProposalId)
    settlementDurability := settlementDurability
    transferCount := resolved.ledger.transfers.length }

/-- Verified replicated evidence needed to advance one settlement. -/
structure AdvanceSettlementInput where
  proposal : ExchangeProposal
  acknowledgements : List SettlementAcknowledgement
  attestations : List SettlementTransferAttestation

/-- Validates a compact renderer identifier before it is used to resolve a signed record. -/
def parseRecordId (value : JsonValue) (label : String) : Except String String :=
  match value with
  | .str text =>
      if Text.blank text = true ∨ 512 < (Text.utf16 text).length then .error (label ++ " is invalid.")
      else .ok text
  | _ => .error (label ++ " is invalid.")

/-- The refusal to advance a settlement that the local ledger already holds. -/
def alreadyAdmittedMessage : String :=
  "This settlement is already locally admitted; it is not a claim of network finality."

/-- The handler of `member:advance-settlement` in a discovery scope, up to its call of the identity service: it
checks the renderer's id, looks the proposal up in the resolved state and refuses one that a transfer of the
ledger names. -/
def advanceSettlementRequest (resolved : ResolvedTimebankState crypto) (proposalId : JsonValue) :
    Except String AdvanceSettlementInput := do
  let settlementProposalId ← parseRecordId proposalId "Proposal id"
  let proposal ← present (lookup (·.id) settlementProposalId resolved.acceptedProposals)
    "Choose a locally accepted proposal before advancing its settlement."
  require (¬ ∃ transfer ∈ resolved.ledger.transfers,
      transfer.sourceProposalId = some (.str proposal.id)) alreadyAdmittedMessage
  let confirmation ← present
    ((lookup (·.proposalId) proposal.id resolved.settlementConfirmations).filter fun confirmation ↦
      decide (confirmation.status = .dualConfirmed))
    "Both participants must acknowledge completion before signing settlement terms."
  let attestationState := lookup (·.proposalId) proposal.id resolved.settlementAttestations
  pure
    { proposal := proposal
      acknowledgements := confirmation.acknowledgements
      attestations := (attestationState.map (·.attestations)).getD [] }

/-- An ordinary transfer of the ledger settles the proposal. -/
def Settles (resolved : ResolvedTimebankState crypto) (proposalId : String) : Prop :=
  ∃ transfer ∈ resolved.ledger.transfers, transfer.reversesTransferId = none ∧
    transfer.sourceProposalId = some (.str proposalId)

/-- The proposal is shown as settled exactly when it settled, and refused as settled exactly then. -/
def ShownAsItSettled (resolved : ResolvedTimebankState crypto)
    (settlementDurability : List SettlementDurability) (proposalId : String) : Prop :=
  (.str proposalId ∈ (presentResolvedMemberState resolved settlementDurability).settledProposalIds ↔
    Settles resolved proposalId) ∧
  (advanceSettlementRequest resolved (.str proposalId) = .error alreadyAdmittedMessage ↔
    Settles resolved proposalId)

variable {resolved : ResolvedTimebankState crypto} {proposalId : String}

theorem mem_settledProposalIds {settlementDurability : List SettlementDurability} :
    .str proposalId ∈
        (presentResolvedMemberState resolved settlementDurability).settledProposalIds ↔
      ∃ transfer ∈ resolved.ledger.transfers, transfer.sourceProposalId = some (.str proposalId) :=
  List.mem_filterMap

/-- A record id from the renderer is a text with a visible character and at most 512 code units. -/
theorem parseRecordId_eq_ok {value : JsonValue} {label text : String} :
    parseRecordId value label = .ok text ↔
      value = .str text ∧ Text.blank text = false ∧ (Text.utf16 text).length ≤ 512 := by
  cases value with
  | str own =>
      by_cases hbad : Text.blank own = true ∨ 512 < (Text.utf16 own).length
      · rw [parseRecordId, if_pos hbad]
        refine iff_of_false (by simp) ?_
        rintro ⟨hsame, hblank, hlength⟩
        cases hsame
        rw [hblank] at hbad
        exact absurd hbad (by simpa using hlength)
      · rw [parseRecordId, if_neg hbad]
        obtain ⟨hblank, hlength⟩ := not_or.mp hbad
        refine ⟨fun h ↦ ?_, fun h ↦ ?_⟩
        · cases h
          exact ⟨rfl, by simpa using hblank, not_lt.mp hlength⟩
        · rw [JsonValue.str.inj h.1]
  | _ => simp [parseRecordId]

/-- The handler refuses a proposal as settled when its id passes the check, it is accepted and a transfer
names it. -/
theorem advanceSettlementRequest_eq_alreadyAdmitted :
    advanceSettlementRequest resolved (.str proposalId) = .error alreadyAdmittedMessage ↔
      (Text.blank proposalId = false ∧ (Text.utf16 proposalId).length ≤ 512) ∧
      (∃ proposal ∈ resolved.acceptedProposals, proposal.id = proposalId) ∧
        ∃ transfer ∈ resolved.ledger.transfers,
          transfer.sourceProposalId = some (.str proposalId) := by
  by_cases hbad : Text.blank proposalId = true ∨ 512 < (Text.utf16 proposalId).length
  · rw [advanceSettlementRequest, parseRecordId, if_pos hbad]
    refine iff_of_false (fun h ↦ absurd (Except.error.inj h) (by decide)) ?_
    rintro ⟨⟨hblank, hlength⟩, -⟩
    rw [hblank] at hbad
    exact absurd hbad (by simpa using hlength)
  have hpasses : Text.blank proposalId = false ∧ (Text.utf16 proposalId).length ≤ 512 := by
    simpa using hbad
  rw [advanceSettlementRequest, parseRecordId_eq_ok.mpr ⟨rfl, hpasses⟩, ok_bind,
    and_iff_right hpasses]
  cases hfound : lookup (fun proposal : ExchangeProposal ↦ proposal.id) proposalId
      resolved.acceptedProposals with
  | none =>
      constructor
      · intro h
        exact absurd (Except.error.inj h) (by decide)
      · intro ⟨⟨proposal, hproposal, hid⟩, _⟩
        exact absurd hid (lookup_eq_none.mp hfound proposal hproposal)
  | some proposal =>
      obtain ⟨hproposal, hid⟩ := lookup_eq_some hfound
      subst hid
      by_cases hnamed : ∃ transfer ∈ resolved.ledger.transfers,
          transfer.sourceProposalId = some (.str proposal.id)
      · have hrefused : require (¬ ∃ transfer ∈ resolved.ledger.transfers,
            transfer.sourceProposalId = some (.str proposal.id)) alreadyAdmittedMessage =
              .error alreadyAdmittedMessage := if_neg (not_not.mpr hnamed)
        exact iff_of_true (by simp only [present, hrefused, ok_bind, error_bind])
          ⟨⟨proposal, hproposal, rfl⟩, hnamed⟩
      · have hpassed : require (¬ ∃ transfer ∈ resolved.ledger.transfers,
            transfer.sourceProposalId = some (.str proposal.id)) alreadyAdmittedMessage = .ok () :=
          if_pos hnamed
        refine iff_of_false ?_ fun h ↦ hnamed h.2
        simp only [present, hpassed, ok_bind]
        -- past this check only the missing confirmation is refused, with another message
        split
        · simp [pure, Except.pure]
        · intro h
          exact absurd (Except.error.inj h) (by decide)

end PeerHours.Desktop
