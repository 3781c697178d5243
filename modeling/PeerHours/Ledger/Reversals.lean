import PeerHours.Ledger.Conservation

/-!
# What reversals undo

A transfer is accepted exactly when the chain of reversals below it ends in a settlement that kept the
credit limit at its turn. Nothing keeps two accepted reversals from undoing the same transfer.
-/

namespace PeerHours.TimebankLedger

open Checked Json KeyedMap Sorting

/-! ## Chains of reversals -/

/-- The transfer is the settlement, or reverses a transfer that traces to it. -/
inductive TracesTo (holds : Transfer → Prop) : Transfer → Transfer → Prop where
  | settlement {transfer : Transfer} (held : holds transfer)
      (ordinary : transfer.reversesTransferId = none) : TracesTo holds transfer transfer
  | reversal {transfer original settlement : Transfer} (held : holds transfer)
      (reverses : transfer.reversesTransferId = some original.id)
      (traces : TracesTo holds original settlement) : TracesTo holds transfer settlement

theorem TracesTo.held {holds : Transfer → Prop} {transfer settlement : Transfer}
    (h : TracesTo holds transfer settlement) : holds transfer := by
  cases h with
  | settlement held => exact held
  | reversal held => exact held

variable {policy : LedgerPolicy} {transfers : List Transfer}

theorem reversesAccepted_eq_true {ids : List String} {reversal : Transfer} :
    reversesAccepted ids reversal = true ↔
      ∃ reversed, reversal.reversesTransferId = some reversed ∧ reversed ∈ ids := by
  unfold reversesAccepted
  split
  · rename_i reversed hreversed
    simp [hreversed]
  · rename_i hnone
    simp [hnone]

/-- What is accepted traces to a settlement that the pass accepted. -/
def Grounded (policy : LedgerPolicy) (transfers : List Transfer) (transfer : Transfer) : Prop :=
  ∃ settlement, TracesTo (· ∈ transfers) transfer settlement ∧
    settlement ∈ (settled policy (settlementsOf transfers)).acceptedTransfers

/-- The rounds accept exactly the pending reversals of what they accept. -/
structure Closed (policy : LedgerPolicy) (transfers pending : List Transfer) (state : LedgerState) :
    Prop where
  grounded : ∀ transfer ∈ state.acceptedTransfers, Grounded policy transfers transfer
  pendingHeld : ∀ reversal ∈ pending, reversal ∈ transfers
  remaining : ∀ reversal ∈ transfers, reversal.reversesTransferId ≠ none →
    reversal ∈ state.acceptedTransfers ∨ reversal ∈ pending

/-- One round keeps what the rounds accept. -/
theorem Closed.round {pending : List Transfer} {state : LedgerState}
    (h : Closed policy transfers pending state) :
    Closed policy transfers (nextPendingReversals state.acceptedTransferIds pending)
      ((acceptedReversals state.acceptedTransferIds pending).foldl acceptTransfer state) := by
  have haccepts := foldl_acceptTransfer (acceptedReversals state.acceptedTransferIds pending) state
  constructor
  · intro transfer hmem
    rw [haccepts, List.mem_append] at hmem
    cases hmem with
    | inl hmem => exact h.grounded transfer hmem
    | inr hmem =>
        obtain ⟨hpending, hreverses⟩ := List.mem_filter.mp hmem
        obtain ⟨reversed, hreversed, hid⟩ := reversesAccepted_eq_true.mp hreverses
        obtain ⟨original, horiginal, rfl⟩ := List.mem_map.mp hid
        obtain ⟨settlement, htraces, hsettled⟩ := h.grounded original horiginal
        exact ⟨settlement, .reversal (h.pendingHeld transfer hpending) hreversed htraces, hsettled⟩
  · exact fun reversal hmem ↦ h.pendingHeld reversal (List.mem_filter.mp hmem).1
  · intro reversal hmem hreversal
    rw [haccepts, List.mem_append]
    cases h.remaining reversal hmem hreversal with
    | inl haccepted => exact .inl (.inl haccepted)
    | inr hpending =>
        by_cases hreverses : reversesAccepted state.acceptedTransferIds reversal = true
        · exact .inl (.inr (List.mem_filter.mpr ⟨hpending, hreverses⟩))
        · exact .inr (List.mem_filter.mpr ⟨hpending, by simpa using hreverses⟩)

/-- After the rounds, what is accepted is grounded, and no reversal of an accepted transfer is left. -/
theorem Closed.applyReversals {pending : List Transfer} {state : LedgerState}
    (h : Closed policy transfers pending state) :
    (∀ transfer ∈ (applyReversals pending state).acceptedTransfers,
      Grounded policy transfers transfer) ∧
    ∀ reversal ∈ transfers, ∀ original ∈ (TimebankLedger.applyReversals pending state).acceptedTransfers,
      reversal.reversesTransferId = some original.id →
      reversal ∈ (TimebankLedger.applyReversals pending state).acceptedTransfers := by
  induction pending, state using rounds_induction with
  | stop pending state hnone =>
      rw [applyReversals_stop hnone, foldl_rejectTransfer]
      refine ⟨h.grounded, fun reversal hmem original horiginal hreverses ↦ ?_⟩
      refine (h.remaining reversal hmem (by simp [hreverses])).resolve_right fun hpending ↦ ?_
      have haccepted : reversesAccepted state.acceptedTransferIds reversal = true :=
        reversesAccepted_eq_true.mpr ⟨original.id, hreverses, List.mem_map_of_mem horiginal⟩
      exact absurd haccepted (List.filter_eq_nil_iff.mp hnone reversal hpending)
  | round pending state hsome ih =>
      rw [applyReversals_round hsome]
      exact ih h.round

/-- A transfer is accepted exactly when it traces to a settlement that the pass accepted. -/
theorem mem_resolveTransfers_iff {transfer : Transfer} :
    transfer ∈ (resolveTransfers policy transfers).acceptedTransfers ↔
      Grounded policy transfers transfer := by
  have hpass : transfers.foldl (settleTransfer policy) .empty =
      settled policy (settlementsOf transfers) := foldl_settleTransfer transfers .empty
  have hclosed : Closed policy transfers (transfers.filter (·.reversesTransferId.isSome))
      (transfers.foldl (settleTransfer policy) .empty) := by
    constructor
    · intro settlement hmem
      rw [hpass] at hmem
      obtain ⟨hheld, hordinary⟩ := List.mem_filter.mp (mem_settled hmem)
      exact ⟨settlement, .settlement hheld (Option.isNone_iff_eq_none.mp hordinary), hmem⟩
    · exact fun reversal hmem ↦ (List.mem_filter.mp hmem).1
    · exact fun reversal hmem hreversal ↦
        .inr (List.mem_filter.mpr ⟨hmem, Option.isSome_iff_ne_none.mpr hreversal⟩)
  obtain ⟨hgrounded, hall⟩ := hclosed.applyReversals
  constructor
  · exact hgrounded transfer
  · intro ⟨settlement, htraces, hsettled⟩
    induction htraces with
    | settlement held ordinary =>
        obtain ⟨reversals, haccepted, -⟩ := exists_resolveTransfers policy transfers
        rw [haccepted]
        exact List.mem_append_left _ hsettled
    | reversal held reverses traces ih => exact hall _ held _ (ih hsettled) reverses

/-! ## Undoing a transfer exactly -/

/-- The accepted reversals of a transfer. -/
def reversalsOf (ledger : Ledger) (transfer : Transfer) : List Transfer :=
  ledger.transfers.filter fun reversal ↦ decide (reversal.reversesTransferId = some transfer.id)

/-- The minutes that a transfer and its accepted reversals post to a member together. -/
def netMinutes (ledger : Ledger) (transfer : Transfer) (memberId : String) : Int :=
  postedMinutes ((transfer :: reversalsOf ledger transfer).flatMap derivePostings) memberId

/-- Reversals undo exactly: an accepted transfer has at most one accepted reversal, and together they
post nothing. -/
def UndoesExactly (ledger : Ledger) : Prop :=
  ∀ transfer ∈ ledger.transfers, (reversalsOf ledger transfer).length ≤ 1 ∧
    ((∀ memberId, netMinutes ledger transfer memberId =
        postedMinutes (derivePostings transfer) memberId) ∨
      ∀ memberId, netMinutes ledger transfer memberId = 0)

/-- The settlement keeps the credit limit at its turn among the transfers. -/
def KeepsLimit (transfers : List Transfer) (settlement : Transfer) : Prop :=
  ∃ before after, settlementsOf transfers = before ++ settlement :: after ∧
    crosses defaultPeerHoursLedgerPolicy before settlement = false

/-- No two reversals of the list reverse one transfer that traces to a settlement within the limit. -/
def RepeatsNoReversal (transfers : List Transfer) : Prop :=
  ∀ first ∈ transfers, ∀ second ∈ transfers, ∀ original settlement,
    first.reversesTransferId = some original.id → second.reversesTransferId = some original.id →
    TracesTo (· ∈ transfers) original settlement → KeepsLimit transfers settlement → first = second

theorem keepsLimit_iff (hnodup : transfers.Nodup) {settlement : Transfer} :
    KeepsLimit transfers settlement ↔
      settlement ∈ (settled defaultPeerHoursLedgerPolicy
        (settlementsOf transfers)).acceptedTransfers := by
  have hordinary : ∀ other ∈ settlementsOf transfers, other.reversesTransferId = none :=
    fun other hother ↦ Option.isNone_iff_eq_none.mp (List.mem_filter.mp hother).2
  constructor
  · intro ⟨before, after, hsplit, hkeeps⟩
    exact (settled_split hordinary (hnodup.filter _) hsplit).1.mpr hkeeps
  · intro hmem
    obtain ⟨before, after, hsplit⟩ := List.append_of_mem (mem_settled hmem)
    exact ⟨before, after, hsplit, (settled_split hordinary (hnodup.filter _) hsplit).1.mp hmem⟩

/-- A reversal and its original post nothing together. -/
theorem postedMinutes_reverses {reversal original : Transfer} (h : Reverses reversal original)
    (memberId : String) :
    postedMinutes (derivePostings original) memberId +
      postedMinutes (derivePostings reversal) memberId = 0 := by
  obtain ⟨-, hprovider, hrecipient, hminutes⟩ := h
  rw [postedMinutes_derivePostings, postedMinutes_derivePostings, hprovider, hrecipient, hminutes]
  omega

section Ledger

variable {localeCompare : String → String → Ordering} {communityId : String}

theorem mem_ledgerOf_iff_grounded {transfer : Transfer} :
    transfer ∈ (ledgerOf localeCompare communityId transfers).transfers ↔
      Grounded defaultPeerHoursLedgerPolicy transfers transfer :=
  mem_sortBy.trans mem_resolveTransfers_iff

/-- Reversals undo exactly when no reversal is repeated. -/
theorem undoesExactly_ledgerOf_iff (hnodup : transfers.Nodup)
    (hrules : LedgerRules (· ∈ transfers)) :
    UndoesExactly (ledgerOf localeCompare communityId transfers) ↔ RepeatsNoReversal transfers := by
  have haccepted : ((ledgerOf localeCompare communityId transfers).transfers).Nodup :=
    (List.nodup_append.mp
      ((accounts_ledgerOf localeCompare communityId transfers).1.nodup_iff.mpr hnodup)).1
  have hmem : ∀ {transfer : Transfer},
      transfer ∈ (ledgerOf localeCompare communityId transfers).transfers ↔
        Grounded defaultPeerHoursLedgerPolicy transfers transfer := mem_ledgerOf_iff_grounded
  generalize ledgerOf localeCompare communityId transfers = ledger at haccepted hmem
  have hreversal : ∀ {transfer reversal : Transfer}, reversal ∈ reversalsOf ledger transfer ↔
      reversal ∈ ledger.transfers ∧ reversal.reversesTransferId = some transfer.id := by
    intro transfer reversal
    rw [reversalsOf, List.mem_filter, decide_eq_true_eq]
  constructor
  · intro h first hfirst second hsecond original settlement hfirstReverses hsecondReverses htraces
      hkeeps
    have hsettled := (keepsLimit_iff hnodup).mp hkeeps
    have hlength := (h original (hmem.mpr ⟨settlement, htraces, hsettled⟩)).1
    have hin : ∀ reversal ∈ transfers, reversal.reversesTransferId = some original.id →
        reversal ∈ reversalsOf ledger original := fun reversal hheld hreverses ↦
      hreversal.mpr ⟨hmem.mpr ⟨settlement, .reversal hheld hreverses htraces, hsettled⟩, hreverses⟩
    have hfirstIn := hin first hfirst hfirstReverses
    have hsecondIn := hin second hsecond hsecondReverses
    generalize reversalsOf ledger original = reversals at hlength hfirstIn hsecondIn
    match reversals, hlength with
    | [only], _ =>
        rw [List.mem_singleton.mp hfirstIn, List.mem_singleton.mp hsecondIn]
  · intro h transfer htransfer
    obtain ⟨settlement, htraces, hsettled⟩ := hmem.mp htransfer
    have hkeeps := (keepsLimit_iff hnodup).mpr hsettled
    have hsame : ∀ first ∈ reversalsOf ledger transfer, ∀ second ∈ reversalsOf ledger transfer,
        first = second := by
      intro first hfirst second hsecond
      obtain ⟨hfirst, hfirstReverses⟩ := hreversal.mp hfirst
      obtain ⟨hsecond, hsecondReverses⟩ := hreversal.mp hsecond
      obtain ⟨_, hfirstTraces, -⟩ := hmem.mp hfirst
      obtain ⟨_, hsecondTraces, -⟩ := hmem.mp hsecond
      exact h first hfirstTraces.held second hsecondTraces.held transfer settlement hfirstReverses
        hsecondReverses htraces hkeeps
    have hdistinct : (reversalsOf ledger transfer).Nodup := haccepted.filter _
    have hreverses : ∀ reversal ∈ reversalsOf ledger transfer, Reverses reversal transfer := by
      intro reversal hin
      obtain ⟨haccepts, hreverses⟩ := hreversal.mp hin
      obtain ⟨_, hreversalTraces, -⟩ := hmem.mp haccepts
      obtain ⟨original, horiginal, hrules'⟩ :=
        hrules.reverses reversal hreversalTraces.held (by simp [hreverses])
      have hid : original.id = transfer.id :=
        Option.some.inj (hrules'.1.symm.trans hreverses)
      rwa [← hrules.unique original transfer horiginal htraces.held hid]
    unfold netMinutes
    generalize reversalsOf ledger transfer = reversals at hsame hdistinct hreverses
    match reversals with
    | [] => exact ⟨by simp, .inl fun memberId ↦ by simp⟩
    | [only] =>
        refine ⟨by simp, .inr fun memberId ↦ ?_⟩
        have hzero := postedMinutes_reverses (hreverses only List.mem_cons_self) memberId
        simpa using hzero
    | first :: second :: rest =>
        have heq := hsame first List.mem_cons_self second (by simp)
        have hne := (List.nodup_cons.mp hdistinct).1
        exact absurd (heq ▸ List.mem_cons_self) hne

end Ledger

/-- The ledger of the transfers that `applyTransfers` accepts undoes exactly when no two of them reverse
one transfer that traces to a settlement within the credit limit. -/
theorem applyTransfers_undoesExactly_iff {localeCompare : String → String → Ordering}
    {communityId : String} {inputs : List JsonValue} {verifyAttestation : SignatureVerifier}
    {ledger : Ledger}
    (h : applyTransfers localeCompare communityId inputs verifyAttestation = .ok ledger) :
    ∃ transfersById, collectTransfers communityId verifyAttestation inputs = .ok transfersById ∧
      (UndoesExactly ledger ↔
        RepeatsNoReversal (sortBy (on localeCompare (·.id)) transfersById)) := by
  obtain ⟨-, transfersById, hcollect, hunique, hreversals, rfl⟩ := applyTransfers_eq_ok.mp h
  have hdet := determines_transfers communityId verifyAttestation
  have hnodup := nodup_collect hdet hcollect
  have hvalid : ∀ transfer ∈ transfersById, transfer.Valid := by
    intro transfer htransfer
    obtain ⟨_, -, hread⟩ := (mem_collect hdet hcollect transfer).mp htransfer
    exact valid_of_createTransfer (readTransfer_eq_ok.mp hread).1
  have hrules := (ledgerRules_iff hnodup (perm_sortBy transfersById) hvalid).mp ⟨hunique, hreversals⟩
  have hsorted : (· ∈ sortBy (on localeCompare (·.id)) transfersById) = (· ∈ transfersById) :=
    funext fun transfer ↦ propext mem_sortBy
  exact ⟨transfersById, hcollect, undoesExactly_ledgerOf_iff (nodup_sortBy.mpr hnodup.of_map)
    (hsorted ▸ hrules)⟩

/-- A reversal of an hour between two members. -/
def hourReversal (id provider recipient reversed : String) : Transfer :=
  { hourTransfer id provider recipient "p" with
    sourceProposalId := none, reversesTransferId := some reversed }

/-- An hour that is reversed once. -/
def reversedHour : List JsonValue :=
  [(hourTransfer "p/settlement" "ada" "ben" "p").toJson,
    (hourReversal "r1" "ben" "ada" "p/settlement").toJson]

/-- An hour reversed once is undone exactly when the list repeats no reversal. -/
theorem applyTransfers_undoesExactly_iff_reversedHour :
    ∃ ledger, applyTransfers compare "garden" reversedHour (fun _ _ ↦ .ok true) = .ok ledger ∧
      ∃ transfersById,
        collectTransfers "garden" (fun _ _ ↦ .ok true) reversedHour = .ok transfersById ∧
        (UndoesExactly ledger ↔ RepeatsNoReversal (sortBy (on compare (·.id)) transfersById)) := by
  have hsucceeds : Succeeds (applyTransfers compare "garden" reversedHour
      (fun _ _ ↦ .ok true)) := by decide +kernel
  obtain ⟨ledger, hledger⟩ := hsucceeds
  exact ⟨ledger, hledger, applyTransfers_undoesExactly_iff hledger⟩

/-- An hour that is reversed twice leaves its provider an hour short. -/
theorem reversed_twice :
    ∃ ledger, applyTransfers compare "garden"
        (reversedHour ++ [(hourReversal "r2" "ben" "ada" "p/settlement").toJson])
        (fun _ _ ↦ .ok true) = .ok ledger ∧
      lookup Prod.fst "ada" ledger.balances = some ("ada", .minutes (-60)) ∧
      ¬ UndoesExactly ledger := by
  have hrun : (applyTransfers compare "garden"
      (reversedHour ++ [(hourReversal "r2" "ben" "ada" "p/settlement").toJson])
      (fun _ _ ↦ .ok true)).toOption.map (fun ledger ↦ (lookup Prod.fst "ada" ledger.balances,
        decide (hourTransfer "p/settlement" "ada" "ben" "p" ∈ ledger.transfers),
        (reversalsOf ledger (hourTransfer "p/settlement" "ada" "ben" "p")).length)) =
      some (some ("ada", .minutes (-60)), true, 2) := by decide +kernel
  cases hledger : applyTransfers compare "garden"
      (reversedHour ++ [(hourReversal "r2" "ben" "ada" "p/settlement").toJson])
      (fun _ _ ↦ .ok true) with
  | error message =>
      rw [hledger] at hrun
      cases hrun
  | ok ledger =>
      rw [hledger] at hrun
      simp only [Except.toOption, Option.map_some, Option.some.injEq, Prod.mk.injEq,
        decide_eq_true_eq] at hrun
      obtain ⟨hbalance, hmem, hlength⟩ := hrun
      refine ⟨ledger, rfl, hbalance, fun hundoes ↦ ?_⟩
      have honce := (hundoes _ hmem).1
      omega

end PeerHours.TimebankLedger
