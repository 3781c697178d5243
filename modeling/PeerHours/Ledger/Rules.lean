import PeerHours.Ledger.ApplyTransfers
import Mathlib.Data.List.Pairwise

/-!
# What `applyTransfers` accepts

Whether a ledger can be derived depends on the set of admitted transfers alone, and its contents are
a function of those transfers in id order. Every admitted transfer is either accepted or rejected:
a settlement for the credit limit, a reversal for reversing nothing accepted.
-/

namespace PeerHours.TimebankLedger

open Checked Json KeyedMap Sorting

/-! ## Admitted transfers -/

/-- The object is admitted as the transfer: valid, of the community, and attested. -/
def Admits (communityId : String) (verifyAttestation : SignatureVerifier) (input : JsonValue)
    (transfer : Transfer) : Prop :=
  createTransfer input = .ok transfer ∧ transfer.communityId = communityId ∧
    ∀ attestation ∈ transfer.attestations, verifyAttestation transfer attestation = .ok true

theorem verifyTransfer_eq_ok {transfer : Transfer} {verifyAttestation : SignatureVerifier}
    {result : Unit} :
    verifyTransfer transfer verifyAttestation = .ok result ↔
      ∀ attestation ∈ transfer.attestations, verifyAttestation transfer attestation = .ok true := by
  rw [verifyTransfer, checkAll_eq_ok]
  refine forall₂_congr fun attestation _ ↦ ?_
  cases verifyAttestation transfer attestation with
  | ok verified => simp
  | error message => simp

theorem readTransfer_eq_ok {communityId : String} {verifyAttestation : SignatureVerifier}
    {input : JsonValue} {transfer : Transfer} :
    readTransfer communityId verifyAttestation input = .ok transfer ↔
      Admits communityId verifyAttestation input transfer := by
  simp only [readTransfer, bind_eq_ok, require_eq_ok, exists_const, verifyTransfer_eq_ok, pure_eq_ok]
  constructor
  · rintro ⟨_, hcreate, hcommunity, hverified, rfl⟩
    exact ⟨hcreate, hcommunity, hverified⟩
  · rintro ⟨hcreate, hcommunity, hverified⟩
    exact ⟨transfer, hcreate, hcommunity, hverified, rfl⟩

/-- The object of a valid transfer determines it. -/
theorem transferContent_inj {left right : Transfer} (hleft : left.Valid) (hright : right.Valid)
    (h : transferContent left = transferContent right) : left = right := by
  have hagain := createTransfer_toJson hleft
  rw [stringify_inj.mp h, createTransfer_toJson hright] at hagain
  exact Except.ok.inj hagain.symm

theorem determines_transfers (communityId : String) (verifyAttestation : SignatureVerifier) :
    Determines (·.id) transferContent (readTransfer communityId verifyAttestation) := by
  intro left right leftTransfer rightTransfer hleft hright _ hcontent
  exact transferContent_inj (valid_of_createTransfer (readTransfer_eq_ok.mp hleft).1)
    (valid_of_createTransfer (readTransfer_eq_ok.mp hright).1) hcontent

/-! ## The rules between transfers -/

/-- The reversal returns the minutes of the original between the same two members. -/
def Reverses (reversal original : Transfer) : Prop :=
  reversal.reversesTransferId = some original.id ∧
    reversal.providerMemberId = original.recipientMemberId ∧
    reversal.recipientMemberId = original.providerMemberId ∧ reversal.minutes = original.minutes

/-- The rules that one set of transfers keeps: an id names one transfer, a proposal settles once, and
a reversal reverses a transfer of the set. -/
structure LedgerRules (holds : Transfer → Prop) : Prop where
  unique : ∀ left right, holds left → holds right → left.id = right.id → left = right
  settlesOnce : ∀ left right, holds left → holds right → left.reversesTransferId = none →
    right.reversesTransferId = none → left.sourceProposalId = right.sourceProposalId → left = right
  reverses : ∀ reversal, holds reversal → reversal.reversesTransferId ≠ none →
    ∃ original, holds original ∧ Reverses reversal original

/-- Two transfers do not settle one proposal. -/
def SettleApart (left right : Transfer) : Prop :=
  left.reversesTransferId = none → right.reversesTransferId = none →
    left.sourceProposalId ≠ right.sourceProposalId

instance : Std.Symm SettleApart where
  symm _ _ h hleft hright hsame := h hright hleft hsame.symm

theorem assertUniqueSettlements_eq_ok {settled : List JsonValue} {transfers : List Transfer}
    {result : Unit} :
    assertUniqueSettlements settled transfers = .ok result ↔
      (∀ transfer ∈ transfers, transfer.reversesTransferId = none →
        ∃ proposalId, transfer.sourceProposalId = some proposalId ∧ proposalId ∉ settled) ∧
      transfers.Pairwise SettleApart := by
  induction transfers generalizing settled with
  | nil => simp [assertUniqueSettlements]
  | cons transfer rest ih =>
      rw [assertUniqueSettlements, List.forall_mem_cons, List.pairwise_cons]
      cases hreverses : transfer.reversesTransferId with
      | some reversed => simp [ih, SettleApart, hreverses]
      | none =>
          simp only [Option.isSome_none, Bool.false_eq_true, if_false, bind_eq_ok, present_eq_ok,
            require_eq_ok, exists_const, ih, List.mem_cons, not_or, forall_const, SettleApart,
            hreverses]
          constructor
          · rintro ⟨proposalId, hsource, hfresh, hall, hpairs⟩
            refine ⟨⟨⟨proposalId, hsource, hfresh⟩, fun other hother hordinary ↦ ?_⟩, ?_, hpairs⟩
            · obtain ⟨otherId, hotherSource, -, hotherFresh⟩ := hall other hother hordinary
              exact ⟨otherId, hotherSource, hotherFresh⟩
            · intro other hother hordinary hsame
              obtain ⟨otherId, hotherSource, hne, -⟩ := hall other hother hordinary
              rw [hsource, hotherSource, Option.some.injEq] at hsame
              exact hne hsame.symm
          · rintro ⟨⟨⟨proposalId, hsource, hfresh⟩, hall⟩, hhead, hpairs⟩
            refine ⟨proposalId, hsource, hfresh, fun other hother hordinary ↦ ?_, hpairs⟩
            obtain ⟨otherId, hotherSource, hotherFresh⟩ := hall other hother hordinary
            refine ⟨otherId, hotherSource, ?_, hotherFresh⟩
            rintro rfl
            exact hhead other hother hordinary (hsource.trans hotherSource.symm)

theorem assertValidReversal_eq_ok {transfersById : List Transfer}
    (hnodup : (transfersById.map (·.id)).Nodup) {transfer : Transfer} {result : Unit} :
    assertValidReversal transfersById transfer = .ok result ↔
      (transfer.reversesTransferId ≠ none →
        ∃ original ∈ transfersById, Reverses transfer original) := by
  unfold assertValidReversal
  split
  · rename_i hnone
    simp [hnone]
  · rename_i reversed hreversed
    simp only [bind_eq_ok, present_eq_ok, require_eq_ok, hreversed, ne_eq, reduceCtorEq,
      not_false_eq_true, forall_const, Reverses, Option.some.injEq]
    constructor
    · rintro ⟨original, hlookup, hrules⟩
      obtain ⟨hmem, hid⟩ := lookup_eq_some hlookup
      exact ⟨original, hmem, hid.symm, hrules⟩
    · rintro ⟨original, hmem, rfl, hrules⟩
      exact ⟨original, lookup_of_mem hnodup hmem, hrules⟩

/-! ## The ledger of a sorted list of transfers -/

/-- The ledger derived from the transfers of a community in id order. -/
def ledgerOf (localeCompare : String → String → Ordering) (communityId : String)
    (transfers : List Transfer) : Ledger :=
  let state := resolveTransfers defaultPeerHoursLedgerPolicy transfers
  { communityId := communityId
    transfers := sortBy (on localeCompare (·.id)) state.acceptedTransfers
    rejectedTransfers := state.rejectedTransfers
    postings := state.postings
    balances := state.balances }

/-- The transfers admitted from a list of objects. -/
def Admitted (communityId : String) (verifyAttestation : SignatureVerifier)
    (inputs : List JsonValue) (transfer : Transfer) : Prop :=
  ∃ input ∈ inputs, Admits communityId verifyAttestation input transfer

theorem normalizeLedgerPolicy_default :
    normalizeLedgerPolicy defaultPeerHoursLedgerPolicy = .ok defaultPeerHoursLedgerPolicy := rfl

section Success

variable {localeCompare : String → String → Ordering} {communityId : String}
  {verifyAttestation : SignatureVerifier} {inputs : List JsonValue}

theorem applyTransfers_eq_ok {ledger : Ledger} :
    applyTransfers localeCompare communityId inputs verifyAttestation = .ok ledger ↔
      Text.blank communityId = false ∧ ∃ transfersById,
        collectTransfers communityId verifyAttestation inputs = .ok transfersById ∧
        assertUniqueSettlements [] (sortBy (on localeCompare (·.id)) transfersById) = .ok () ∧
        (∀ transfer ∈ transfersById, assertValidReversal transfersById transfer = .ok ()) ∧
        ledgerOf localeCompare communityId (sortBy (on localeCompare (·.id)) transfersById) =
          ledger := by
  simp only [applyTransfers, bind_eq_ok, assertPresent_eq_ok, normalizeLedgerPolicy_default,
    Except.ok.injEq, exists_eq_left', checkAll_eq_ok, mem_sortBy, pure_eq_ok, Option.some.injEq,
    JsonValue.str.injEq]
  constructor
  · rintro ⟨_, ⟨rfl, hblank⟩, byId, hbyId, _, hunique, _, hreversals, rfl⟩
    exact ⟨hblank, byId, hbyId, hunique, hreversals, rfl⟩
  · rintro ⟨hblank, byId, hbyId, hunique, hreversals, rfl⟩
    exact ⟨communityId, ⟨rfl, hblank⟩, byId, hbyId, (), hunique, (), hreversals, rfl⟩

/-- The collected transfers keep the rules between transfers exactly when both checks pass. -/
theorem ledgerRules_iff {transfersById transfers : List Transfer}
    (hnodup : (transfersById.map (·.id)).Nodup) (hperm : transfers.Perm transfersById)
    (hvalid : ∀ transfer ∈ transfersById, transfer.Valid) :
    assertUniqueSettlements [] transfers = .ok () ∧
        (∀ transfer ∈ transfersById, assertValidReversal transfersById transfer = .ok ()) ↔
      LedgerRules (· ∈ transfersById) := by
  simp only [assertUniqueSettlements_eq_ok, assertValidReversal_eq_ok hnodup]
  have hpairs : transfers.Pairwise SettleApart ↔
      ∀ left ∈ transfersById, ∀ right ∈ transfersById, left.reversesTransferId = none →
        right.reversesTransferId = none → left.sourceProposalId = right.sourceProposalId →
        left = right := by
    constructor
    · intro h left hleft right hright hl hr hsame
      by_contra hne
      exact h.forall (hperm.mem_iff.mpr hleft) (hperm.mem_iff.mpr hright) hne hl hr hsame
    · intro h
      have hdistinct : transfers.Nodup := hperm.nodup_iff.mpr hnodup.of_map
      refine hdistinct.pairwise_of_forall_ne fun left hleft right hright hne hl hr hsame ↦ ?_
      exact hne (h left (hperm.mem_iff.mp hleft) right (hperm.mem_iff.mp hright) hl hr hsame)
  rw [hpairs]
  constructor
  · rintro ⟨⟨-, honce⟩, hreversals⟩
    exact ⟨fun left right hleft hright hid ↦ List.inj_on_of_nodup_map hnodup hleft hright hid,
      fun left right hleft hright ↦ honce left hleft right hright, hreversals⟩
  · intro h
    refine ⟨⟨fun transfer htransfer hordinary ↦ ?_, fun left hleft right hright ↦
      h.settlesOnce left right hleft hright⟩, h.reverses⟩
    obtain ⟨proposalId, hsource, -⟩ := (hvalid transfer (hperm.mem_iff.mp htransfer)).settles hordinary
    exact ⟨_, hsource, by simp⟩

/-- The ledger exists exactly for admitted transfers that keep the rules between transfers. -/
theorem succeeds_applyTransfers :
    Succeeds (applyTransfers localeCompare communityId inputs verifyAttestation) ↔
      Text.blank communityId = false ∧
        (∀ input ∈ inputs, ∃ transfer, Admits communityId verifyAttestation input transfer) ∧
        LedgerRules (Admitted communityId verifyAttestation inputs) := by
  have hdet := determines_transfers communityId verifyAttestation
  have hmem : ∀ {transfersById : List Transfer},
      collectTransfers communityId verifyAttestation inputs = .ok transfersById →
      (transfersById.map (·.id)).Nodup ∧
        (· ∈ transfersById) = Admitted communityId verifyAttestation inputs := by
    intro transfersById hcollect
    refine ⟨nodup_collect hdet hcollect, funext fun transfer ↦ propext ?_⟩
    rw [mem_collect hdet hcollect]
    simp only [readTransfer_eq_ok, Admitted]
  have hvalid : ∀ {transfersById : List Transfer},
      collectTransfers communityId verifyAttestation inputs = .ok transfersById →
      ∀ transfer ∈ transfersById, transfer.Valid := by
    intro transfersById hcollect transfer htransfer
    obtain ⟨_, -, hread⟩ := (mem_collect hdet hcollect transfer).mp htransfer
    exact valid_of_createTransfer (readTransfer_eq_ok.mp hread).1
  simp only [Succeeds, applyTransfers_eq_ok]
  constructor
  · rintro ⟨_, hblank, byId, hbyId, hunique, hreversals, -⟩
    have hread := ((succeeds_collect hdet).mp ⟨byId, hbyId⟩).1
    simp only [Succeeds, readTransfer_eq_ok] at hread
    refine ⟨hblank, hread, ?_⟩
    rw [← (hmem hbyId).2]
    exact (ledgerRules_iff (hmem hbyId).1 (perm_sortBy byId) (hvalid hbyId)).mp ⟨hunique, hreversals⟩
  · rintro ⟨hblank, hread, hrules⟩
    have hcollect : Succeeds (collectTransfers communityId verifyAttestation inputs) := by
      refine (succeeds_collect hdet).mpr ⟨?_, ?_⟩
      · simpa only [Succeeds, readTransfer_eq_ok] using hread
      · intro input hinput transfer htransfer other hother otherTransfer hotherTransfer hid
        exact hrules.unique _ _ ⟨other, hother, readTransfer_eq_ok.mp hotherTransfer⟩
          ⟨input, hinput, readTransfer_eq_ok.mp htransfer⟩ hid
    obtain ⟨byId, hbyId⟩ := hcollect
    rw [← (hmem hbyId).2] at hrules
    obtain ⟨hunique, hreversals⟩ :=
      (ledgerRules_iff (hmem hbyId).1 (perm_sortBy byId) (hvalid hbyId)).mpr hrules
    exact ⟨_, hblank, byId, hbyId, hunique, hreversals, rfl⟩

/-- A derived ledger is the ledger of the admitted transfers, each once, in id order. -/
theorem ledger_of_applyTransfers {ledger : Ledger}
    (h : applyTransfers localeCompare communityId inputs verifyAttestation = .ok ledger) :
    ∃ transfersById, (transfersById.map (·.id)).Nodup ∧
      (∀ transfer, transfer ∈ transfersById ↔
        Admitted communityId verifyAttestation inputs transfer) ∧
      ledger = ledgerOf localeCompare communityId (sortBy (on localeCompare (·.id)) transfersById) := by
  obtain ⟨-, byId, hbyId, -, -, rfl⟩ := applyTransfers_eq_ok.mp h
  have hdet := determines_transfers communityId verifyAttestation
  refine ⟨byId, nodup_collect hdet hbyId, fun transfer ↦ ?_, rfl⟩
  rw [mem_collect hdet hbyId]
  simp only [readTransfer_eq_ok, Admitted]

end Success

/-! ## Every transfer is accepted or rejected -/

/-- The state accounts for the transfers: each is accepted or rejected, a rejected settlement for the
credit limit and a rejected reversal for its missing original. -/
structure Accounts (state : LedgerState) (transfers : List Transfer) : Prop where
  complete : (state.acceptedTransfers ++ state.rejectedTransfers.map (·.transfer)).Perm transfers
  reasons : ∀ rejected ∈ state.rejectedTransfers,
    rejected.reason = .minimumBalance ↔ rejected.transfer.reversesTransferId = none

theorem Accounts.accept {state : LedgerState} {transfers : List Transfer}
    (h : Accounts state transfers) (transfer : Transfer) :
    Accounts (acceptTransfer state transfer) (transfers ++ [transfer]) := by
  refine ⟨?_, h.reasons⟩
  have hperm := h.complete.append_right [transfer]
  refine List.Perm.trans ?_ hperm
  simp only [acceptTransfer, List.append_assoc]
  exact List.perm_append_comm.append_left state.acceptedTransfers

theorem Accounts.reject {state : LedgerState} {transfers : List Transfer} {transfer : Transfer}
    {reason : RejectionReason} (h : Accounts state transfers)
    (hreason : reason = .minimumBalance ↔ transfer.reversesTransferId = none) :
    Accounts (rejectTransfer reason state transfer) (transfers ++ [transfer]) := by
  constructor
  · simpa [rejectTransfer] using h.complete.append_right [transfer]
  · simp only [rejectTransfer, List.forall_mem_append, List.forall_mem_singleton]
    exact ⟨h.reasons, hreason⟩

theorem Accounts.perm {state : LedgerState} {left right : List Transfer} (h : Accounts state left)
    (hperm : left.Perm right) : Accounts state right :=
  ⟨h.complete.trans hperm, h.reasons⟩

/-- The pass over the settlements accounts for them. -/
theorem Accounts.settle {policy : LedgerPolicy} {state : LedgerState} {done : List Transfer}
    (h : Accounts state done) (transfers : List Transfer) :
    Accounts (transfers.foldl (settleTransfer policy) state)
      (done ++ transfers.filter (·.reversesTransferId.isNone)) := by
  induction transfers generalizing state done with
  | nil => simpa using h
  | cons transfer rest ih =>
      rw [List.foldl_cons, List.filter_cons]
      cases hreverses : transfer.reversesTransferId with
      | some reversed =>
          have hstep : settleTransfer policy state transfer = state := by
            simp [settleTransfer, hreverses]
          simpa [hstep] using ih h
      | none =>
          have hstep : Accounts (settleTransfer policy state transfer) (done ++ [transfer]) := by
            unfold settleTransfer
            split
            · simp_all
            · split
              · exact h.reject (by simp [hreverses])
              · exact h.accept transfer
          simpa using ih hstep

theorem Accounts.acceptAll {state : LedgerState} {done : List Transfer} (h : Accounts state done)
    (transfers : List Transfer) :
    Accounts (transfers.foldl acceptTransfer state) (done ++ transfers) := by
  induction transfers generalizing state done with
  | nil => simpa using h
  | cons transfer rest ih => simpa using ih (h.accept transfer)

theorem Accounts.rejectAll {state : LedgerState} {done : List Transfer} (h : Accounts state done)
    (transfers : List Transfer)
    (hreversals : ∀ transfer ∈ transfers, transfer.reversesTransferId ≠ none) :
    Accounts (transfers.foldl (rejectTransfer .unacceptedReversal) state) (done ++ transfers) := by
  induction transfers generalizing state done with
  | nil => simpa using h
  | cons transfer rest ih =>
      rw [List.forall_mem_cons] at hreversals
      simpa using ih (h.reject (by simp [hreversals.1])) hreversals.2

/-- A round splits the pending reversals. -/
theorem perm_reversals (ids : List String) (pending : List Transfer) :
    (acceptedReversals ids pending ++ nextPendingReversals ids pending).Perm pending :=
  List.filter_append_perm _ _

/-- A round that accepts none rejects all that is pending. -/
theorem applyReversals_stop {pending : List Transfer} {state : LedgerState}
    (h : acceptedReversals state.acceptedTransferIds pending = []) :
    applyReversals pending state = pending.foldl (rejectTransfer .unacceptedReversal) state := by
  rw [applyReversals]
  split
  · rename_i hpending
    rw [hpending, List.foldl_nil]
  · have hnext : nextPendingReversals state.acceptedTransferIds pending = pending :=
      List.filter_eq_self.mpr fun reversal hreversal ↦ by
        simpa using List.filter_eq_nil_iff.mp h reversal hreversal
    dsimp only
    rw [dif_pos h, h, hnext, List.foldl_nil]

/-- A round that accepts some continues with the rest. -/
theorem applyReversals_round {pending : List Transfer} {state : LedgerState}
    (h : acceptedReversals state.acceptedTransferIds pending ≠ []) :
    applyReversals pending state =
      applyReversals (nextPendingReversals state.acceptedTransferIds pending)
        ((acceptedReversals state.acceptedTransferIds pending).foldl acceptTransfer state) := by
  rw [applyReversals, if_neg (fun hpending ↦ h (by rw [hpending]; rfl))]
  dsimp only
  rw [dif_neg h]

/-- What holds when a round accepts none, and of a round when it holds of the next, always holds. -/
theorem rounds_induction {motive : List Transfer → LedgerState → Prop}
    (stop : ∀ pending state, acceptedReversals state.acceptedTransferIds pending = [] →
      motive pending state)
    (round : ∀ pending state, acceptedReversals state.acceptedTransferIds pending ≠ [] →
      motive (nextPendingReversals state.acceptedTransferIds pending)
        ((acceptedReversals state.acceptedTransferIds pending).foldl acceptTransfer state) →
      motive pending state) (pending : List Transfer) (state : LedgerState) :
    motive pending state := by
  by_cases h : acceptedReversals state.acceptedTransferIds pending = []
  · exact stop pending state h
  · exact round pending state h (rounds_induction stop round _ _)
termination_by pending.length
decreasing_by exact length_nextPendingReversals h

/-- The rounds over the reversals account for them. -/
theorem Accounts.reverse {state : LedgerState} {done : List Transfer} (h : Accounts state done)
    (pending : List Transfer) (hreversals : ∀ transfer ∈ pending, transfer.reversesTransferId ≠ none) :
    Accounts (applyReversals pending state) (done ++ pending) := by
  induction pending, state using rounds_induction generalizing done with
  | stop pending state hnone =>
      rw [applyReversals_stop hnone]
      exact h.rejectAll pending hreversals
  | round pending state hsome ih =>
      rw [applyReversals_round hsome]
      refine (ih (h.acceptAll _) ?_).perm ?_
      · exact fun transfer htransfer ↦ hreversals transfer (List.mem_filter.mp htransfer).1
      · rw [List.append_assoc]
        exact List.Perm.append_left done (perm_reversals state.acceptedTransferIds pending)

/-- The resolved state accounts for all transfers. -/
theorem accounts_resolveTransfers (policy : LedgerPolicy) (transfers : List Transfer) :
    Accounts (resolveTransfers policy transfers) transfers := by
  have hsettled := @Accounts.settle policy .empty []
    ⟨List.Perm.nil, by simp [LedgerState.empty]⟩ transfers
  refine (hsettled.reverse (transfers.filter (·.reversesTransferId.isSome)) ?_).perm ?_
  · intro transfer htransfer
    have hsome := (List.mem_filter.mp htransfer).2
    exact Option.isSome_iff_ne_none.mp hsome
  · rw [List.nil_append]
    have hsplit := List.filter_append_perm (fun t : Transfer ↦ t.reversesTransferId.isNone) transfers
    simpa [Option.not_isNone] using hsplit

/-- The ledger of some transfers accounts for them. -/
theorem accounts_ledgerOf (localeCompare : String → String → Ordering) (communityId : String)
    (transfers : List Transfer) :
    ((ledgerOf localeCompare communityId transfers).transfers ++
        (ledgerOf localeCompare communityId transfers).rejectedTransfers.map (·.transfer)).Perm
      transfers ∧
    ∀ rejected ∈ (ledgerOf localeCompare communityId transfers).rejectedTransfers,
      rejected.reason = .minimumBalance ↔ rejected.transfer.reversesTransferId = none := by
  obtain ⟨hcomplete, hreasons⟩ := accounts_resolveTransfers defaultPeerHoursLedgerPolicy transfers
  refine ⟨List.Perm.trans ?_ hcomplete, hreasons⟩
  exact (perm_sortBy _).append_right _

/-- A settlement of the ledger's transfers is accepted, or rejected for the credit limit. -/
theorem accepted_or_rejected {localeCompare : String → String → Ordering} {communityId : String}
    {transfers : List Transfer} {transfer : Transfer} (h : transfer ∈ transfers)
    (hordinary : transfer.reversesTransferId = none) :
    transfer ∈ (ledgerOf localeCompare communityId transfers).transfers ∨
      ⟨transfer, .minimumBalance⟩ ∈
        (ledgerOf localeCompare communityId transfers).rejectedTransfers := by
  obtain ⟨hcomplete, hreasons⟩ := accounts_ledgerOf localeCompare communityId transfers
  cases List.mem_append.mp (hcomplete.mem_iff.mpr h) with
  | inl haccepted => exact .inl haccepted
  | inr hrejected =>
      obtain ⟨⟨other, reason⟩, hmem, rfl⟩ := List.mem_map.mp hrejected
      obtain rfl : reason = .minimumBalance := (hreasons _ hmem).mpr hordinary
      exact .inr hmem

end PeerHours.TimebankLedger
