import PeerHours.Ledger.Balances
import Mathlib.Algebra.BigOperators.Group.List.Basic

/-!
# Conservation and the credit floor

A ledger moves minutes and never makes them: its balances are the sums of its postings and add up to
zero. Settlements are accepted in ledger order by the credit limit alone, so without reversals no
balance ends below it.
-/

namespace PeerHours.TimebankLedger

open Checked Json KeyedMap Sorting

/-! ## Sums -/

theorem sum_map_ite {keys : List String} (hnodup : keys.Nodup) {wanted : String}
    (hmem : wanted ∈ keys) (minutes : Int) :
    (keys.map fun key ↦ if wanted = key then minutes else 0).sum = minutes := by
  induction keys with
  | nil => cases hmem
  | cons key rest ih =>
      obtain ⟨hfresh, hrest⟩ := List.nodup_cons.mp hnodup
      rw [List.map_cons, List.sum_cons]
      by_cases hsame : wanted = key
      · have hzero : (rest.map fun other ↦ if wanted = other then minutes else 0).sum = 0 := by
          refine List.sum_eq_zero fun value hvalue ↦ ?_
          obtain ⟨other, hother, rfl⟩ := List.mem_map.mp hvalue
          have hne : wanted ≠ other := fun h ↦ hfresh (hsame ▸ h ▸ hother)
          rw [if_neg hne]
        rw [if_pos hsame, hzero, add_zero]
      · rw [if_neg hsame, zero_add, ih hrest (List.mem_of_ne_of_mem hsame hmem)]

theorem postedMinutes_cons (posting : LedgerPosting) (rest : List LedgerPosting)
    (memberId : String) :
    postedMinutes (posting :: rest) memberId =
      (if posting.memberId = memberId then posting.minutes else 0) +
        postedMinutes rest memberId := by
  unfold postedMinutes memberPostings
  by_cases hsame : posting.memberId = memberId <;> simp [hsame]

/-- The minutes posted to all members are the minutes posted. -/
theorem sum_postedMinutes {keys : List String} (hnodup : keys.Nodup)
    {postings : List LedgerPosting} (hkeys : ∀ posting ∈ postings, posting.memberId ∈ keys) :
    (keys.map (postedMinutes postings)).sum = (postings.map (·.minutes)).sum := by
  induction postings with
  | nil =>
      refine List.sum_eq_zero fun value hvalue ↦ ?_
      obtain ⟨key, -, rfl⟩ := List.mem_map.mp hvalue
      rfl
  | cons posting rest ih =>
      rw [List.forall_mem_cons] at hkeys
      have hstep : keys.map (postedMinutes (posting :: rest)) = keys.map fun key ↦
          (if posting.memberId = key then posting.minutes else 0) + postedMinutes rest key :=
        List.map_congr_left fun key _ ↦ postedMinutes_cons posting rest key
      rw [hstep, List.sum_map_add, sum_map_ite hnodup hkeys.1, ih hkeys.2, List.map_cons,
        List.sum_cons]

/-- The postings of a transfer cancel. -/
theorem sum_derivePostings (transfers : List Transfer) :
    ((transfers.flatMap derivePostings).map (·.minutes)).sum = 0 := by
  induction transfers with
  | nil => rfl
  | cons transfer rest ih => simpa [derivePostings] using ih

/-- The minutes that one transfer posts to a member. -/
theorem postedMinutes_derivePostings (transfer : Transfer) (memberId : String) :
    postedMinutes (derivePostings transfer) memberId =
      (if transfer.providerMemberId = memberId then transfer.minutes else 0) -
        (if transfer.recipientMemberId = memberId then transfer.minutes else 0) := by
  rw [derivePostings, postedMinutes_cons, postedMinutes_cons, postedMinutes_nil]
  split_ifs <;> simp

/-! ## The credit limit -/

/-- The provider and the recipient are not named after a property that every object inherits. -/
def PlainMembers (transfer : Transfer) : Prop :=
  inheritedText transfer.providerMemberId = none ∧ inheritedText transfer.recipientMemberId = none

instance (transfer : Transfer) : Decidable (PlainMembers transfer) :=
  inferInstanceAs (Decidable (_ ∧ _))

theorem posted_settled (policy : LedgerPolicy) (transfers : List Transfer) :
    Posted (settled policy transfers) := by
  have hpass : ∀ state, Posted state → Posted (transfers.foldl (settleTransfer policy) state) := by
    induction transfers with
    | nil => exact fun _ h ↦ h
    | cons transfer rest ih =>
        intro state h
        refine ih _ ?_
        unfold settleTransfer
        split
        · exact h
        · split
          · exact h.reject _ _
          · exact h.accept _
  exact hpass .empty ⟨rfl, rfl⟩

/-- A settlement crosses the limit when its recipient's minutes, less its own, fall below it. -/
theorem crosses_iff {before : List Transfer} {transfer : Transfer}
    (hplain : inheritedText transfer.recipientMemberId = none) :
    crosses defaultPeerHoursLedgerPolicy before transfer = true ↔
      postedMinutes ((settled defaultPeerHoursLedgerPolicy before).acceptedTransfers.flatMap
        derivePostings) transfer.recipientMemberId - transfer.minutes < -3000 := by
  obtain ⟨hpostings, hbalances⟩ := posted_settled defaultPeerHoursLedgerPolicy before
  unfold crosses wouldCrossMinimumBalance
  rw [hbalances, balanceOf_applyPostings _ (ne_proto_of_plain hplain), accumulated_of_plain hplain,
    hpostings]
  exact decide_eq_true_iff

/-- Settling keeps every member at or above the limit. -/
theorem floor_settled {settlements : List Transfer}
    (hordinary : ∀ transfer ∈ settlements, transfer.reversesTransferId = none)
    (hvalid : ∀ transfer ∈ settlements, transfer.Valid)
    (hplain : ∀ transfer ∈ settlements, PlainMembers transfer) (memberId : String) :
    -3000 ≤ postedMinutes ((settled defaultPeerHoursLedgerPolicy settlements).acceptedTransfers.flatMap
      derivePostings) memberId := by
  induction settlements using List.reverseRecOn with
  | nil =>
      show -3000 ≤ postedMinutes [] memberId
      rw [postedMinutes_nil]
      decide
  | append_singleton before transfer ih =>
      simp only [List.forall_mem_append, List.forall_mem_singleton] at hordinary hvalid hplain
      have hbefore := ih hordinary.1 hvalid.1 hplain.1
      have hpass : settled defaultPeerHoursLedgerPolicy (before ++ [transfer]) =
          settleTransfer defaultPeerHoursLedgerPolicy (settled defaultPeerHoursLedgerPolicy before)
            transfer := by
        simp [settled]
      rw [hpass, acceptedTransfers_settleTransfer hordinary.2]
      split
      · exact hbefore
      · rename_i hkeeps
        have hlimit := mt (crosses_iff hplain.2.2).mpr hkeeps
        have hpositive : 0 < transfer.minutes := hvalid.2.positive
        rw [List.flatMap_append, postedMinutes_append, List.flatMap_singleton,
          postedMinutes_derivePostings]
        by_cases hrecipient : transfer.recipientMemberId = memberId
        · subst hrecipient
          have hdistinct : transfer.providerMemberId ≠ transfer.recipientMemberId :=
            hvalid.2.distinct
          rw [if_neg hdistinct, if_pos rfl]
          omega
        · rw [if_neg hrecipient]
          split <;> omega

/-! ## Conservation -/

/-- What a ledger conserves: its postings are one pair for each accepted transfer, its balances are
their sums and add up to zero, and the credit limit alone decides each settlement at its turn. -/
structure Conserves (ledger : Ledger) (settlements : List Transfer) : Prop where
  postings : ledger.postings.Perm (ledger.transfers.flatMap derivePostings)
  distinct : (ledger.balances.map Prod.fst).Nodup
  balances : ∀ entry ∈ ledger.balances,
    entry.2 = .minutes (postedMinutes ledger.postings entry.1)
  complete : ∀ posting ∈ ledger.postings, posting.memberId ∈ ledger.balances.map Prod.fst
  zero : (ledger.balances.map fun entry ↦ postedMinutes ledger.postings entry.1).sum = 0
  replayed : ∀ transfer ∈ ledger.transfers, transfer.reversesTransferId = none →
    transfer ∈ settlements
  replay : ∀ before transfer after, settlements = before ++ transfer :: after →
    (transfer ∈ ledger.transfers ↔
      -3000 ≤ postedMinutes ((before.filter fun earlier ↦ decide (earlier ∈ ledger.transfers)).flatMap
        derivePostings) transfer.recipientMemberId - transfer.minutes) ∧
    (⟨transfer, .minimumBalance⟩ ∈ ledger.rejectedTransfers ↔
      postedMinutes ((before.filter fun earlier ↦ decide (earlier ∈ ledger.transfers)).flatMap
        derivePostings) transfer.recipientMemberId - transfer.minutes < -3000)
  floor : (∀ transfer ∈ ledger.transfers, transfer.reversesTransferId = none) →
    ∀ memberId, -3000 ≤ postedMinutes ledger.postings memberId

section Ledger

variable {localeCompare : String → String → Ordering} {communityId : String}
  {transfers : List Transfer}

/-- A settlement is in the ledger exactly when the pass accepted it. -/
theorem mem_ledgerOf_iff {transfer : Transfer} (hordinary : transfer.reversesTransferId = none) :
    transfer ∈ (ledgerOf localeCompare communityId transfers).transfers ↔
      transfer ∈ (settled defaultPeerHoursLedgerPolicy (settlementsOf transfers)).acceptedTransfers := by
  obtain ⟨reversals, haccepted, hreversals⟩ :=
    exists_resolveTransfers defaultPeerHoursLedgerPolicy transfers
  show transfer ∈ sortBy _ (resolveTransfers _ transfers).acceptedTransfers ↔ _
  rw [mem_sortBy, haccepted, List.mem_append, or_iff_left]
  exact fun hmem ↦ (hreversals transfer hmem).2 hordinary

/-- A settlement of distinct transfers is rejected for the limit exactly when it is not accepted. -/
theorem rejected_ledgerOf_iff (hnodup : transfers.Nodup) {transfer : Transfer}
    (hmem : transfer ∈ transfers) (hordinary : transfer.reversesTransferId = none) :
    ⟨transfer, .minimumBalance⟩ ∈ (ledgerOf localeCompare communityId transfers).rejectedTransfers ↔
      transfer ∉ (ledgerOf localeCompare communityId transfers).transfers := by
  obtain ⟨hcomplete, -⟩ := accounts_ledgerOf localeCompare communityId transfers
  constructor
  · intro hrejected haccepted
    have hdisjoint := (List.nodup_append.mp (hcomplete.nodup_iff.mpr hnodup)).2.2
    exact hdisjoint transfer haccepted transfer (List.mem_map_of_mem hrejected) rfl
  · intro hnot
    exact (accepted_or_rejected hmem hordinary).resolve_left hnot

theorem accepts_ledgerOf {transfer : Transfer}
    (hmem : transfer ∈ (ledgerOf localeCompare communityId transfers).transfers) : transfer ∈ transfers :=
  (accounts_ledgerOf localeCompare communityId transfers).1.subset (List.mem_append_left _ hmem)

/-- The ledger has the postings of its transfers. -/
theorem postings_ledgerOf : (ledgerOf localeCompare communityId transfers).postings.Perm
    ((ledgerOf localeCompare communityId transfers).transfers.flatMap derivePostings) := by
  show (resolveTransfers _ transfers).postings.Perm _
  rw [(posted_resolveTransfers defaultPeerHoursLedgerPolicy transfers).postings]
  exact ((perm_sortBy _).symm).flatMap_right _

/-- The balances are those of the postings. -/
theorem applied_ledgerOf : (ledgerOf localeCompare communityId transfers).balances =
    applyPostings [] (ledgerOf localeCompare communityId transfers).postings :=
  (posted_resolveTransfers defaultPeerHoursLedgerPolicy transfers).balances

/-- The entry of a member in the balances: what was posted to it, unless the name keeps no balance. -/
theorem lookup_balances_ledgerOf (name : String) :
    lookup Prod.fst name (ledgerOf localeCompare communityId transfers).balances =
      if name ≠ "__proto__" ∧
        memberPostings (ledgerOf localeCompare communityId transfers).postings name ≠ [] then
        some (name, accumulated (ledgerOf localeCompare communityId transfers).postings name)
      else none := by
  rw [applied_ledgerOf]
  exact lookup_applyPostings _ name

theorem nodup_balances_ledgerOf :
    ((ledgerOf localeCompare communityId transfers).balances.map Prod.fst).Nodup := by
  rw [applied_ledgerOf]
  exact nodup_applyPostings _

/-- The turn of a settlement: it is in the ledger exactly when the settlements before it that are in the ledger
leave its recipient enough, and it is rejected for the limit otherwise. -/
theorem replay_ledgerOf (hnodup : transfers.Nodup) {before after : List Transfer} {transfer : Transfer}
    (hplain : PlainMembers transfer) (hsplit : settlementsOf transfers = before ++ transfer :: after) :
    (transfer ∈ (ledgerOf localeCompare communityId transfers).transfers ↔
      -3000 ≤ postedMinutes ((before.filter fun earlier ↦
        decide (earlier ∈ (ledgerOf localeCompare communityId transfers).transfers)).flatMap
          derivePostings) transfer.recipientMemberId - transfer.minutes) ∧
    (⟨transfer, .minimumBalance⟩ ∈ (ledgerOf localeCompare communityId transfers).rejectedTransfers ↔
      postedMinutes ((before.filter fun earlier ↦
        decide (earlier ∈ (ledgerOf localeCompare communityId transfers).transfers)).flatMap
          derivePostings) transfer.recipientMemberId - transfer.minutes < -3000) := by
  have hordinary : ∀ settlement ∈ settlementsOf transfers,
      settlement.reversesTransferId = none := fun settlement hsettlement ↦
    Option.isNone_iff_eq_none.mp (List.mem_filter.mp hsettlement).2
  have hin : transfer ∈ settlementsOf transfers := hsplit ▸ by simp
  have htransfer : transfer ∈ transfers := (List.mem_filter.mp hin).1
  have hrejected := @rejected_ledgerOf_iff localeCompare communityId transfers hnodup transfer
    htransfer (hordinary transfer hin)
  have hmem : ∀ settlement ∈ settlementsOf transfers,
      (settlement ∈ (ledgerOf localeCompare communityId transfers).transfers ↔
        settlement ∈ (settled defaultPeerHoursLedgerPolicy
          (settlementsOf transfers)).acceptedTransfers) := fun settlement hsettlement ↦
    mem_ledgerOf_iff (hordinary settlement hsettlement)
  generalize ledgerOf localeCompare communityId transfers = ledger at *
  obtain ⟨hturn, hearlier⟩ := @settled_split defaultPeerHoursLedgerPolicy _ _ _ _ hordinary
    (hnodup.filter _) hsplit
  -- the pass had accepted, before this turn, those of the earlier settlements that end in the ledger
  have hbefore : (settled defaultPeerHoursLedgerPolicy before).acceptedTransfers =
      before.filter fun earlier ↦ decide (earlier ∈ ledger.transfers) :=
    hearlier.trans (List.filter_congr fun earlier hmemEarlier ↦
      decide_eq_decide.mpr (hmem earlier (hsplit ▸ List.mem_append_left _ hmemEarlier)).symm)
  have hcrosses := @crosses_iff before transfer hplain.2
  rw [hbefore] at hcrosses
  have haccepted : transfer ∈ ledger.transfers ↔ ¬ (postedMinutes ((before.filter fun earlier ↦
      decide (earlier ∈ ledger.transfers)).flatMap derivePostings) transfer.recipientMemberId -
        transfer.minutes < -3000) := by
    rw [hmem transfer hin, hturn, ← hcrosses, Bool.not_eq_true]
  refine ⟨haccepted.trans not_lt, ?_⟩
  rw [hrejected, haccepted, not_not]

/-- The postings of a ledger without reversals are those of the settlements that the pass accepted. -/
theorem postings_ledgerOf_of_ordinary
    (hnone : ∀ transfer ∈ (ledgerOf localeCompare communityId transfers).transfers,
      transfer.reversesTransferId = none) :
    (ledgerOf localeCompare communityId transfers).postings =
      (settled defaultPeerHoursLedgerPolicy (settlementsOf transfers)).acceptedTransfers.flatMap
        derivePostings := by
  obtain ⟨reversals, haccepted, hreversals⟩ :=
    exists_resolveTransfers defaultPeerHoursLedgerPolicy transfers
  have hempty : reversals = [] := by
    refine List.eq_nil_iff_forall_not_mem.mpr fun transfer hmem ↦ ?_
    refine (hreversals transfer hmem).2 (hnone transfer (mem_sortBy.mpr ?_))
    show transfer ∈ (resolveTransfers _ transfers).acceptedTransfers
    rw [haccepted]
    exact List.mem_append_right _ hmem
  show (resolveTransfers _ transfers).postings = _
  rw [(posted_resolveTransfers defaultPeerHoursLedgerPolicy transfers).postings, haccepted, hempty,
    List.append_nil]

section Plain

variable (hplain : ∀ transfer ∈ transfers, PlainMembers transfer)

include hplain

/-- A posted member is plain, so its balance is a number. -/
theorem plain_of_posted {posting : LedgerPosting}
    (hposting : posting ∈ (ledgerOf localeCompare communityId transfers).postings) :
    inheritedText posting.memberId = none := by
  obtain ⟨transfer, htransfer, hposting⟩ := List.mem_flatMap.mp (postings_ledgerOf.subset hposting)
  have hnames := hplain transfer (accepts_ledgerOf htransfer)
  rw [derivePostings] at hposting
  cases List.mem_pair.mp hposting with
  | inl h => exact h ▸ hnames.1
  | inr h => exact h ▸ hnames.2

/-- Every posted member has a balance. -/
theorem complete_ledgerOf {posting : LedgerPosting}
    (hposting : posting ∈ (ledgerOf localeCompare communityId transfers).postings) :
    posting.memberId ∈ (ledgerOf localeCompare communityId transfers).balances.map Prod.fst := by
  have hown : memberPostings (ledgerOf localeCompare communityId transfers).postings
      posting.memberId ≠ [] :=
    List.ne_nil_of_mem (List.mem_filter.mpr ⟨hposting, decide_eq_true rfl⟩)
  have hentry := @lookup_balances_ledgerOf localeCompare communityId transfers posting.memberId
  rw [if_pos ⟨ne_proto_of_plain (plain_of_posted hplain hposting), hown⟩] at hentry
  exact List.mem_map_of_mem (f := Prod.fst) (lookup_eq_some hentry).1

/-- Every balance is the minutes that were posted to its member. -/
theorem balances_ledgerOf {entry : String × Balance}
    (hentry : entry ∈ (ledgerOf localeCompare communityId transfers).balances) :
    entry.2 = .minutes (postedMinutes (ledgerOf localeCompare communityId transfers).postings entry.1) := by
  obtain ⟨name, balance⟩ := entry
  have hfound := @lookup_balances_ledgerOf localeCompare communityId transfers name
  rw [(lookup_eq_some_iff nodup_balances_ledgerOf).mpr ⟨hentry, rfl⟩] at hfound
  split at hfound
  · rename_i hown
    obtain ⟨posting, hposting⟩ := List.exists_mem_of_ne_nil _ hown.2
    obtain ⟨hposting, hname⟩ := List.mem_filter.mp hposting
    have hplainName := plain_of_posted hplain hposting
    rw [of_decide_eq_true hname] at hplainName
    rw [accumulated_of_plain hplainName] at hfound
    exact congrArg Prod.snd (Option.some.inj hfound)
  · cases hfound

/-- The ledger of valid transfers between plain members conserves. -/
theorem conserves_ledgerOf (hnodup : transfers.Nodup)
    (hvalid : ∀ transfer ∈ transfers, transfer.Valid) :
    Conserves (ledgerOf localeCompare communityId transfers) (settlementsOf transfers) where
  postings := postings_ledgerOf
  distinct := nodup_balances_ledgerOf
  balances _ := balances_ledgerOf hplain
  complete _ := complete_ledgerOf hplain
  zero := by
    have hsum := sum_postedMinutes (@nodup_balances_ledgerOf localeCompare communityId transfers)
      fun _ ↦ complete_ledgerOf hplain
    rw [List.map_map] at hsum
    calc ((ledgerOf localeCompare communityId transfers).balances.map fun entry ↦
            postedMinutes (ledgerOf localeCompare communityId transfers).postings entry.1).sum
        = ((ledgerOf localeCompare communityId transfers).postings.map (·.minutes)).sum := hsum
      _ = (((ledgerOf localeCompare communityId transfers).transfers.flatMap derivePostings).map
            (·.minutes)).sum := (postings_ledgerOf.map _).sum_eq
      _ = 0 := sum_derivePostings _
  replayed _ hmem hordinary :=
    List.mem_filter.mpr ⟨accepts_ledgerOf hmem, Option.isNone_iff_eq_none.mpr hordinary⟩
  replay before transfer after hsplit := by
    have hin : transfer ∈ settlementsOf transfers := hsplit ▸ by simp
    exact replay_ledgerOf hnodup (hplain transfer (List.mem_filter.mp hin).1) hsplit
  floor hnone memberId := by
    rw [postings_ledgerOf_of_ordinary hnone]
    have hin : ∀ transfer ∈ settlementsOf transfers, transfer ∈ transfers :=
      fun _ hmem ↦ (List.mem_filter.mp hmem).1
    exact floor_settled
      (fun transfer hmem ↦ Option.isNone_iff_eq_none.mp (List.mem_filter.mp hmem).2)
      (fun transfer hmem ↦ hvalid transfer (hin transfer hmem))
      (fun transfer hmem ↦ hplain transfer (hin transfer hmem)) memberId

end Plain

end Ledger

/-- The ledger of the transfers that `applyTransfers` accepts conserves, with the settlements in ledger
order, when no member is named after a property that every object inherits. -/
theorem applyTransfers_conserves {localeCompare : String → String → Ordering} {communityId : String}
    {inputs : List JsonValue} {verifyAttestation : SignatureVerifier} {ledger : Ledger}
    (h : applyTransfers localeCompare communityId inputs verifyAttestation = .ok ledger)
    (hplain : ∀ transfer, Admitted communityId verifyAttestation inputs transfer →
      PlainMembers transfer) :
    ∃ transfersById, collectTransfers communityId verifyAttestation inputs = .ok transfersById ∧
      Conserves ledger (settlementsOf (sortBy (on localeCompare (·.id)) transfersById)) := by
  obtain ⟨-, transfersById, hcollect, -, -, rfl⟩ := applyTransfers_eq_ok.mp h
  have hdet := determines_transfers communityId verifyAttestation
  have hread : ∀ transfer ∈ transfersById, Admitted communityId verifyAttestation inputs transfer := by
    intro transfer htransfer
    obtain ⟨input, hinput, hread⟩ := (mem_collect hdet hcollect transfer).mp htransfer
    exact ⟨input, hinput, readTransfer_eq_ok.mp hread⟩
  refine ⟨transfersById, hcollect, conserves_ledgerOf ?_ ?_ ?_⟩
  · exact fun transfer htransfer ↦ hplain transfer (hread transfer (mem_sortBy.mp htransfer))
  · exact nodup_sortBy.mpr (nodup_collect hdet hcollect).of_map
  · intro transfer htransfer
    obtain ⟨_, -, hadmits⟩ := hread transfer (mem_sortBy.mp htransfer)
    exact valid_of_createTransfer hadmits.1

/-- An attested settlement of an hour. -/
def hourTransfer (id provider recipient proposalId : String) : Transfer :=
  { id := id
    communityId := "garden"
    sourceProposalId := some (.str proposalId)
    providerMemberId := provider
    recipientMemberId := recipient
    minutes := 60
    reversesTransferId := none
    attestations := [⟨provider, "key", "digest", "signature", []⟩,
      ⟨recipient, "key", "digest", "signature", []⟩] }

/-- An hour from ada to ben that ben returns, and fifty hours from cy that ben has no credit for. -/
def returnedHour : List Transfer :=
  [hourTransfer "p/settlement" "ada" "ben" "p",
    { hourTransfer "q/settlement" "cy" "ben" "q" with minutes := 3000 },
    { hourTransfer "r" "ben" "ada" "p" with
      sourceProposalId := none, reversesTransferId := some "p/settlement" }]

/-- The ledger of the returned hour, which rejects a settlement and accepts a reversal, conserves. -/
theorem applyTransfers_conserves_returnedHour :
    ∃ ledger, applyTransfers compare "garden" (returnedHour.map Transfer.toJson)
        (fun _ _ ↦ .ok true) = .ok ledger ∧
      ledger.transfers.map (·.id) = ["p/settlement", "r"] ∧
      ledger.rejectedTransfers.map (fun rejected ↦ (rejected.transfer.id, rejected.reason)) =
        [("q/settlement", .minimumBalance)] ∧
      ∃ transfersById, collectTransfers "garden" (fun _ _ ↦ .ok true)
          (returnedHour.map Transfer.toJson) = .ok transfersById ∧
        Conserves ledger (settlementsOf (sortBy (on compare (·.id)) transfersById)) := by
  have hrun : (applyTransfers compare "garden" (returnedHour.map Transfer.toJson)
      (fun _ _ ↦ .ok true)).map (fun ledger ↦ (ledger.transfers.map (·.id),
        ledger.rejectedTransfers.map fun rejected ↦ (rejected.transfer.id, rejected.reason))) =
      .ok (["p/settlement", "r"], [("q/settlement", .minimumBalance)]) := by decide +kernel
  have hcreates : ∀ transfer ∈ returnedHour, createTransfer transfer.toJson = .ok transfer := by
    decide +kernel
  have hplain : ∀ transfer ∈ returnedHour, PlainMembers transfer := by decide
  cases hledger : applyTransfers compare "garden" (returnedHour.map Transfer.toJson)
      (fun _ _ ↦ .ok true) with
  | error message =>
      rw [hledger] at hrun
      cases hrun
  | ok ledger =>
      rw [hledger] at hrun
      obtain ⟨haccepted, hrejected⟩ := Prod.mk.inj (Except.ok.inj hrun)
      refine ⟨ledger, rfl, haccepted, hrejected, applyTransfers_conserves hledger ?_⟩
      intro transfer hadmitted
      obtain ⟨input, hinput, hcreate, -⟩ := hadmitted
      obtain ⟨own, hown, rfl⟩ := List.mem_map.mp hinput
      rw [← Except.ok.inj ((hcreates own hown).symm.trans hcreate)]
      exact hplain own hown

end PeerHours.TimebankLedger
