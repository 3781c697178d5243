import PeerHours.Ledger.Transfer
import PeerHours.Library.Sorting

/-!
# Deriving the ledger

`applyTransfers` collects the verified transfers of one community, orders them by id and accepts
settlements in that order while they keep their recipient within the credit limit. Reversals are
accepted in rounds, once the transfer they reverse is.
-/

namespace PeerHours.TimebankLedger

open Checked Json KeyedMap Sorting

/-- One derived balance movement from a finalized transfer. -/
structure LedgerPosting where
  transferId : String
  memberId : String
  minutes : Int
deriving DecidableEq

/-- Why a transfer is excluded from the resolved ledger. -/
inductive RejectionReason where
  | minimumBalance
  | unacceptedReversal
deriving DecidableEq

/-- A replicated transfer excluded from the resolved ledger by an explicit settlement rule. -/
structure RejectedTransfer where
  transfer : Transfer
  reason : RejectionReason
deriving DecidableEq

/-- Defines a deterministic credit limit for ordinary settlement transfers. -/
structure LedgerPolicy where
  minimumBalanceMinutes : Int

/-- Peer Hours' initial open-credit boundary: members may receive down to negative fifty hours. -/
def defaultPeerHoursLedgerPolicy : LedgerPolicy :=
  { minimumBalanceMinutes := -50 * 60 }

/-- Validates the public policy input before it becomes a deterministic protocol rule. -/
def normalizeLedgerPolicy (policy : LedgerPolicy) : Except String LedgerPolicy := do
  require (policy.minimumBalanceMinutes ≤ 0)
    "Minimum balance minutes must be a whole number at or below zero."
  pure policy

/-! ## Balances

The balances are a plain object. A member id that names a property every object inherits reads that
property's value, which is no number: adding minutes to it appends their digits to its text, and
comparing it with the limit is false. Assigning a text to `__proto__` has no effect. -/

/-- The value an object holds for one member. -/
inductive Balance where
  | minutes (value : Int)
  | text (value : String)
deriving DecidableEq

/-- The text of a property that every object inherits. -/
def inheritedText (name : String) : Option String :=
  if name = "constructor" then some "function Object() \x7b [native code] \x7d"
  else if name = "__proto__" then some "[object Object]"
  else if name ∈ ["__defineGetter__", "__defineSetter__", "hasOwnProperty", "__lookupGetter__",
      "__lookupSetter__", "isPrototypeOf", "propertyIsEnumerable", "toString", "valueOf",
      "toLocaleString"] then
    some ("function " ++ name ++ "() \x7b [native code] \x7d")
  else none

/-- The own properties of the balances object. -/
abbrev Balances := List (String × Balance)

/-- `balances[memberId] ?? 0`. -/
def balanceOf (balances : Balances) (memberId : String) : Balance :=
  match lookup Prod.fst memberId balances, inheritedText memberId with
  | some (_, balance), _ => balance
  | none, some text => .text text
  | none, none => .minutes 0

/-- `balance + minutes`. -/
def Balance.add (balance : Balance) (minutes : Int) : Balance :=
  match balance with
  | .minutes value => .minutes (value + minutes)
  | .text value => .text (value ++ toString minutes)

/-- `balances[memberId] = balance`. -/
def setBalance (balances : Balances) (memberId : String) (balance : Balance) : Balances :=
  if memberId = "__proto__" then balances else upsert Prod.fst (memberId, balance) balances

/-- Applies one posting to the accumulated balances. -/
def applyPosting (balances : Balances) (posting : LedgerPosting) : Balances :=
  setBalance balances posting.memberId
    ((balanceOf balances posting.memberId).add posting.minutes)

/-- Applies postings to the accumulator used only while deriving one ledger view. -/
def applyPostings (balances : Balances) (postings : List LedgerPosting) : Balances :=
  postings.foldl applyPosting balances

/-- Whether an ordinary settlement would take its recipient below the shared credit boundary. -/
def wouldCrossMinimumBalance (transfer : Transfer) (balances : Balances) (policy : LedgerPolicy) :
    Bool :=
  match balanceOf balances transfer.recipientMemberId with
  | .minutes value => decide (value - transfer.minutes < policy.minimumBalanceMinutes)
  | .text _ => false

/-! ## Acceptance -/

/-- Derives the two equal-and-opposite postings for one structurally valid transfer. Creating the
transfer again returns it unchanged (`createTransfer_toJson`). -/
def derivePostings (transfer : Transfer) : List LedgerPosting :=
  [⟨transfer.id, transfer.providerMemberId, transfer.minutes⟩,
    ⟨transfer.id, transfer.recipientMemberId, -transfer.minutes⟩]

/-- The ledger under construction. -/
structure LedgerState where
  acceptedTransfers : List Transfer
  rejectedTransfers : List RejectedTransfer
  postings : List LedgerPosting
  balances : Balances

/-- The ledger before any transfer. -/
def LedgerState.empty : LedgerState := ⟨[], [], [], []⟩

/-- Applies one accepted transfer's immutable postings to the ledger under construction. -/
def acceptTransfer (state : LedgerState) (transfer : Transfer) : LedgerState :=
  { state with
    acceptedTransfers := state.acceptedTransfers ++ [transfer]
    postings := state.postings ++ derivePostings transfer
    balances := applyPostings state.balances (derivePostings transfer) }

/-- Records a transfer that a settlement rule excludes. -/
def rejectTransfer (reason : RejectionReason) (state : LedgerState) (transfer : Transfer) :
    LedgerState :=
  { state with rejectedTransfers := state.rejectedTransfers ++ [⟨transfer, reason⟩] }

/-- Accepts or rejects one ordinary settlement; reversals wait for the rounds that follow. -/
def settleTransfer (policy : LedgerPolicy) (state : LedgerState) (transfer : Transfer) :
    LedgerState :=
  if transfer.reversesTransferId.isSome then state
  else if wouldCrossMinimumBalance transfer state.balances policy then
    rejectTransfer .minimumBalance state transfer
  else acceptTransfer state transfer

/-- The reversal reverses an accepted transfer. -/
def reversesAccepted (acceptedTransferIds : List String) (reversal : Transfer) : Bool :=
  match reversal.reversesTransferId with
  | some reversed => decide (reversed ∈ acceptedTransferIds)
  | none => false

/-- The pending reversals that one round accepts. -/
def acceptedReversals (acceptedTransferIds : List String) (pendingReversals : List Transfer) :
    List Transfer :=
  pendingReversals.filter (reversesAccepted acceptedTransferIds)

/-- The reversals still pending after one round. -/
def nextPendingReversals (acceptedTransferIds : List String) (pendingReversals : List Transfer) :
    List Transfer :=
  pendingReversals.filter fun reversal ↦ !reversesAccepted acceptedTransferIds reversal

theorem length_nextPendingReversals {ids : List String} {pending : List Transfer}
    (h : acceptedReversals ids pending ≠ []) :
    (nextPendingReversals ids pending).length < pending.length := by
  obtain ⟨reversal, hmem⟩ := List.exists_mem_of_ne_nil _ h
  obtain ⟨hpending, haccepted⟩ := List.mem_filter.mp hmem
  exact List.length_filter_lt_length_iff_exists.mpr ⟨reversal, hpending, by simp [haccepted]⟩

/-- The ids of the transfers accepted so far. -/
def LedgerState.acceptedTransferIds (state : LedgerState) : List String :=
  state.acceptedTransfers.map (·.id)

/-- Accepts pending reversals in rounds until a round accepts none; the rest is rejected. -/
def applyReversals (pendingReversals : List Transfer) (state : LedgerState) : LedgerState :=
  if pendingReversals = [] then state
  else
    let accepted := acceptedReversals state.acceptedTransferIds pendingReversals
    let next := accepted.foldl acceptTransfer state
    let stillPending := nextPendingReversals state.acceptedTransferIds pendingReversals
    if _haccepted : accepted = [] then
      stillPending.foldl (rejectTransfer .unacceptedReversal) next
    else applyReversals stillPending next
termination_by pendingReversals.length
decreasing_by exact length_nextPendingReversals _haccepted

/-- The deterministic, local view derived from a set of verified transfers. -/
structure Ledger where
  communityId : String
  transfers : List Transfer
  rejectedTransfers : List RejectedTransfer
  postings : List LedgerPosting
  balances : Balances

/-- Accepts settlements in the order given, then reversals in rounds. -/
def resolveTransfers (policy : LedgerPolicy) (transfers : List Transfer) : LedgerState :=
  applyReversals (transfers.filter (·.reversesTransferId.isSome))
    (transfers.foldl (settleTransfer policy) .empty)

/-! ## Checks -/

/-- Verifies that an attestation belongs to its participant and the exact transfer supplied. -/
abbrev SignatureVerifier := Transfer → TransferAttestation → Except String Bool

/-- Delegates the attestations of a transfer to the supplied verifier. -/
def verifyTransfer (transfer : Transfer) (verifyAttestation : SignatureVerifier) :
    Except String Unit :=
  transfer.attestations |> checkAll fun attestation ↦
    match verifyAttestation transfer attestation with
    | .ok verified =>
        require (verified = true)
          "Each participant attestation must verify before a transfer settles."
    | .error _ => .error "A participant attestation could not be verified."

/-- Ensures one accepted proposal can produce at most one settlement transfer. -/
def assertUniqueSettlements (settlementIds : List JsonValue) : List Transfer → Except String Unit
  | [] => .ok ()
  | transfer :: rest =>
      if transfer.reversesTransferId.isSome then assertUniqueSettlements settlementIds rest
      else do
        let proposalId ← present transfer.sourceProposalId
          "A settlement transfer must reference an accepted proposal."
        require (proposalId ∉ settlementIds) "An accepted proposal can settle only once."
        assertUniqueSettlements (proposalId :: settlementIds) rest

/-- Ensures a correction exactly cancels an earlier transfer's participants and minutes. -/
def assertValidReversal (transfersById : List Transfer) (transfer : Transfer) :
    Except String Unit :=
  match transfer.reversesTransferId with
  | none => .ok ()
  | some reversed => do
      let original ← present (lookup (·.id) reversed transfersById)
        "A compensating transfer must reference a transfer in the same ledger."
      require (transfer.providerMemberId = original.recipientMemberId ∧
          transfer.recipientMemberId = original.providerMemberId ∧
          transfer.minutes = original.minutes)
        "A compensating transfer must reverse the original participants and minute amount."

/-- Reads one supplied transfer and checks its community and attestations. -/
def readTransfer (communityId : String) (verifyAttestation : SignatureVerifier)
    (sourceTransfer : JsonValue) : Except String Transfer := do
  let transfer ← createTransfer sourceTransfer
  require (transfer.communityId = communityId)
    "A ledger can only apply transfers from its own community."
  verifyTransfer transfer verifyAttestation
  pure transfer

/-- The text that `sameTransfer` compares. -/
def transferContent (transfer : Transfer) : String :=
  stringify transfer.toJson

/-- The verified transfers by their id. -/
def collectTransfers (communityId : String) (verifyAttestation : SignatureVerifier)
    (transfers : List JsonValue) : Except String (List Transfer) :=
  collect (·.id) transferContent "A transfer id cannot identify different transfer content."
    (readTransfer communityId verifyAttestation) transfers

/-- Derives verified transfers, balanced postings, and member balances. -/
def applyTransfers (localeCompare : String → String → Ordering) (communityId : String)
    (inputTransfers : List JsonValue) (verifyAttestation : SignatureVerifier) :
    Except String Ledger := do
  let _ ← assertPresent (some (.str communityId)) "Community id"
  let policy ← normalizeLedgerPolicy defaultPeerHoursLedgerPolicy
  let transfersById ← collectTransfers communityId verifyAttestation inputTransfers
  let transfers := sortBy (on localeCompare (·.id)) transfersById
  assertUniqueSettlements [] transfers
  checkAll (assertValidReversal transfersById) transfers
  let state := resolveTransfers policy transfers
  pure
    { communityId := communityId
      transfers := sortBy (on localeCompare (·.id)) state.acceptedTransfers
      rejectedTransfers := state.rejectedTransfers
      postings := state.postings
      balances := state.balances }

end PeerHours.TimebankLedger
