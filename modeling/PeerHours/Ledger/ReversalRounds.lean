import PeerHours.Ledger.Reversals

/-!
# The rounds of pending reversals

The loop over pending reversals ends after at most one round for each of them. It loses no transfer and repeats
none, and it accepts a reversal exactly when the chain of transfers that it reverses ends in an accepted
settlement.
-/

namespace PeerHours.TimebankLedger

open Checked Json KeyedMap Sorting

/-! ## Termination -/

/-- The loop over pending reversals, for at most this many rounds. -/
def reversalRounds : Nat → List Transfer → LedgerState → Option LedgerState
  | _, [], state => some state
  | 0, _ :: _, _ => none
  | rounds + 1, pending, state =>
      let accepted := acceptedReversals state.acceptedTransferIds pending
      let next := accepted.foldl acceptTransfer state
      let stillPending := nextPendingReversals state.acceptedTransferIds pending
      if accepted = [] then some (stillPending.foldl (rejectTransfer .unacceptedReversal) next)
      else reversalRounds rounds stillPending next

/-- One round for each pending reversal is enough. -/
theorem reversalRounds_of_length_le {rounds : Nat} {pending : List Transfer}
    (h : pending.length ≤ rounds) (state : LedgerState) :
    reversalRounds rounds pending state = some (applyReversals pending state) := by
  induction rounds generalizing pending state with
  | zero =>
      obtain rfl := List.eq_nil_of_length_eq_zero (Nat.le_zero.mp h)
      rw [reversalRounds, applyReversals, if_pos rfl]
  | succ rounds ih =>
      cases pending with
      | nil => rw [reversalRounds, applyReversals, if_pos rfl]
      | cons reversal rest =>
          rw [reversalRounds, applyReversals, if_neg (List.cons_ne_nil _ _)]
          by_cases haccepted : acceptedReversals state.acceptedTransferIds (reversal :: rest) = []
          · rw [if_pos haccepted, dif_pos haccepted]
          · rw [if_neg haccepted, dif_neg haccepted]
            have hless := length_nextPendingReversals haccepted
            exact ih (by omega) _
          · simp

/-! ## Chains and cycles -/

/-- The first transfer reverses the second one, and both are held. -/
def Follows (holds : Transfer → Prop) (reversal original : Transfer) : Prop :=
  holds reversal ∧ holds original ∧ reversal.reversesTransferId = some original.id

/-- A transfer that traces to a settlement is on no cycle. -/
theorem TracesTo.not_cyclic {holds : Transfer → Prop}
    (hunique : ∀ left right, holds left → holds right → left.id = right.id → left = right)
    {transfer settlement : Transfer} (h : TracesTo holds transfer settlement) :
    ¬ Relation.TransGen (Follows holds) transfer transfer := by
  induction h with
  | settlement held hordinary =>
      intro hcycle
      obtain ⟨next, ⟨-, -, hreverses⟩, -⟩ := Relation.TransGen.head'_iff.mp hcycle
      rw [hordinary] at hreverses
      cases hreverses
  | @reversal transfer original settlement held hreverses htraces ih =>
      intro hcycle
      -- The cycle leaves the reversal for what it reverses, which is on the cycle as well.
      obtain ⟨next, hfollows, hreaches⟩ := Relation.TransGen.head'_iff.mp hcycle
      have hid := Option.some.inj (hreverses.symm.trans hfollows.2.2)
      obtain rfl : original = next := hunique _ _ htraces.held hfollows.2.1 hid
      exact ih (Relation.TransGen.tail' hreaches hfollows)

theorem TracesTo.ordinary {holds : Transfer → Prop} {transfer settlement : Transfer}
    (h : TracesTo holds transfer settlement) : settlement.reversesTransferId = none := by
  induction h with
  | settlement _ hordinary => exact hordinary
  | reversal _ _ _ ih => exact ih

/-! ## Outcome -/

/-- What a ledger does with the transfers it is derived from. -/
structure Partitions (holds : Transfer → Prop) (ledger : Ledger) : Prop where
  complete : ∀ transfer, holds transfer ↔
    transfer ∈ ledger.transfers ++ ledger.rejectedTransfers.map (·.transfer)
  once : (ledger.transfers ++ ledger.rejectedTransfers.map (·.transfer)).Nodup
  accepted : ∀ reversal, holds reversal → reversal.reversesTransferId ≠ none →
    (reversal ∈ ledger.transfers ↔ ∃ settlement ∈ ledger.transfers,
      settlement.reversesTransferId = none ∧ TracesTo holds reversal settlement)
  rejected : ∀ reversal, holds reversal → reversal.reversesTransferId ≠ none →
    (⟨reversal, .unacceptedReversal⟩ ∈ ledger.rejectedTransfers ↔ reversal ∉ ledger.transfers)
  cycles : ∀ reversal, Relation.TransGen (Follows holds) reversal reversal →
    ⟨reversal, .unacceptedReversal⟩ ∈ ledger.rejectedTransfers

section Ledger

variable {localeCompare : String → String → Ordering} {communityId : String}
  {transfers : List Transfer}

theorem traces_accepted_iff {transfer : Transfer} :
    transfer ∈ (ledgerOf localeCompare communityId transfers).transfers ↔
      ∃ settlement ∈ (ledgerOf localeCompare communityId transfers).transfers,
        settlement.reversesTransferId = none ∧ TracesTo (· ∈ transfers) transfer settlement := by
  rw [mem_ledgerOf_iff_grounded]
  constructor
  · rintro ⟨settlement, htraces, haccepted⟩
    exact ⟨settlement, (mem_ledgerOf_iff htraces.ordinary).mpr haccepted, htraces.ordinary, htraces⟩
  · rintro ⟨settlement, haccepted, hordinary, htraces⟩
    exact ⟨settlement, htraces, (mem_ledgerOf_iff hordinary).mp haccepted⟩

theorem partitions_ledgerOf (hids : (transfers.map (·.id)).Nodup) :
    Partitions (· ∈ transfers) (ledgerOf localeCompare communityId transfers) := by
  obtain ⟨hperm, hreasons⟩ := accounts_ledgerOf localeCompare communityId transfers
  have honce := hperm.nodup_iff.mpr hids.of_map
  have hunique : ∀ left right, left ∈ transfers → right ∈ transfers → left.id = right.id →
      left = right := fun left right hleft hright ↦ List.inj_on_of_nodup_map hids hleft hright
  have hrejected (reversal : Transfer) (hmem : reversal ∈ transfers)
      (hreversal : reversal.reversesTransferId ≠ none) :
      ⟨reversal, .unacceptedReversal⟩ ∈
          (ledgerOf localeCompare communityId transfers).rejectedTransfers ↔
        reversal ∉ (ledgerOf localeCompare communityId transfers).transfers := by
    constructor
    · intro hrejected haccepted
      exact List.disjoint_of_nodup_append honce haccepted
        (List.mem_map.mpr ⟨_, hrejected, rfl⟩)
    · intro hnot
      have hrest := (List.mem_append.mp (hperm.mem_iff.mpr hmem)).resolve_left hnot
      obtain ⟨⟨transfer, reason⟩, hin, rfl⟩ := List.mem_map.mp hrest
      have hreason := hreasons _ hin
      cases reason with
      | minimumBalance => exact absurd (hreason.mp rfl) hreversal
      | unacceptedReversal => exact hin
  refine ⟨fun transfer ↦ hperm.mem_iff.symm, honce, fun _ _ _ ↦ traces_accepted_iff, hrejected, ?_⟩
  intro reversal hcycle
  obtain ⟨next, ⟨hmem, -, hreverses⟩, -⟩ := Relation.TransGen.head'_iff.mp hcycle
  refine (hrejected reversal hmem (by rw [hreverses]; exact Option.some_ne_none _)).mpr ?_
  intro haccepted
  obtain ⟨settlement, -, -, htraces⟩ := traces_accepted_iff.mp haccepted
  exact htraces.not_cyclic hunique hcycle

end Ledger

/-- The loop over pending reversals ends within one round for each of them; every distinct transfer is
accepted or rejected, and only once; and a reversal is accepted exactly when the chain of transfers it
reverses ends in an accepted settlement, which no reversal on a cycle does. -/
theorem applyTransfers_partitions {localeCompare : String → String → Ordering} {communityId : String}
    {inputs : List JsonValue} {verifyAttestation : SignatureVerifier} {ledger : Ledger}
    (h : applyTransfers localeCompare communityId inputs verifyAttestation = .ok ledger) :
    (∀ pending state,
      reversalRounds pending.length pending state = some (applyReversals pending state)) ∧
    Partitions (Admitted communityId verifyAttestation inputs) ledger := by
  obtain ⟨transfersById, hids, hadmitted, rfl⟩ := ledger_of_applyTransfers h
  refine ⟨fun _ _ ↦ reversalRounds_of_length_le le_rfl _, ?_⟩
  have hsame : (· ∈ sortBy (on localeCompare (·.id)) transfersById) =
      Admitted communityId verifyAttestation inputs :=
    funext fun transfer ↦ propext (mem_sortBy.trans (hadmitted transfer))
  rw [← hsame]
  exact partitions_ledgerOf ((nodup_map_sortBy _).mpr hids)

/-- An hour reversed once is partitioned. -/
theorem applyTransfers_partitions_reversedHour :
    ∃ ledger, applyTransfers compare "garden" reversedHour (fun _ _ ↦ .ok true) = .ok ledger ∧
      Partitions (Admitted "garden" (fun _ _ ↦ .ok true) reversedHour) ledger := by
  have hsucceeds : Succeeds (applyTransfers compare "garden" reversedHour
      (fun _ _ ↦ .ok true)) := by decide +kernel
  obtain ⟨ledger, hledger⟩ := hsucceeds
  exact ⟨ledger, hledger, (applyTransfers_partitions hledger).2⟩

end PeerHours.TimebankLedger
