import PeerHours.Ledger.Rules
import Mathlib.Data.List.Induction

/-!
# Balances are sums of postings

The balances of a ledger are a function of its postings, and its postings are those of the accepted
transfers. The pass over the settlements is a replay: each settlement is accepted or rejected by the
balance that the settlements accepted before it left to its recipient.
-/

namespace PeerHours.TimebankLedger

open Checked Json KeyedMap Sorting

/-! ## Accumulated postings -/

/-- The postings of one member. -/
def memberPostings (postings : List LedgerPosting) (memberId : String) : List LedgerPosting :=
  postings.filter fun posting ↦ decide (posting.memberId = memberId)

/-- The minutes posted to one member. -/
def postedMinutes (postings : List LedgerPosting) (memberId : String) : Int :=
  ((memberPostings postings memberId).map (·.minutes)).sum

/-- The balance that the postings of one member add up to. -/
def accumulated (postings : List LedgerPosting) (memberId : String) : Balance :=
  (memberPostings postings memberId).foldl (fun balance posting ↦ balance.add posting.minutes)
    (balanceOf [] memberId)

@[simp] theorem memberPostings_append (left right : List LedgerPosting) (memberId : String) :
    memberPostings (left ++ right) memberId =
      memberPostings left memberId ++ memberPostings right memberId :=
  List.filter_append _ _

@[simp] theorem postedMinutes_append (left right : List LedgerPosting) (memberId : String) :
    postedMinutes (left ++ right) memberId =
      postedMinutes left memberId + postedMinutes right memberId := by
  simp [postedMinutes]

@[simp] theorem postedMinutes_nil (memberId : String) : postedMinutes [] memberId = 0 := rfl

/-- The balances hold the accumulated postings of each member that has any; a text under `__proto__`
is never kept. -/
theorem lookup_applyPostings (postings : List LedgerPosting) (memberId : String) :
    lookup Prod.fst memberId (applyPostings [] postings) =
      if memberId ≠ "__proto__" ∧ memberPostings postings memberId ≠ [] then
        some (memberId, accumulated postings memberId)
      else none := by
  induction postings using List.reverseRecOn generalizing memberId with
  | nil => simp [applyPostings, memberPostings]
  | append_singleton postings posting ih =>
      have hread : ∀ name, name ≠ "__proto__" →
          balanceOf (applyPostings [] postings) name = accumulated postings name := by
        intro name hname
        unfold balanceOf
        rw [ih name]
        by_cases hnone : memberPostings postings name = []
        · simp [hnone, accumulated, balanceOf]
        · simp [hname, hnone]
      have hstep : applyPostings [] (postings ++ [posting]) =
          applyPosting (applyPostings [] postings) posting := by
        simp [applyPostings]
      rw [hstep, applyPosting, setBalance]
      by_cases hproto : posting.memberId = "__proto__"
      · rw [if_pos hproto, ih memberId]
        by_cases hname : memberId = "__proto__"
        · simp [hname]
        · have hother : memberPostings [posting] memberId = [] := by
            simp [memberPostings, hproto, Ne.symm hname]
          simp [accumulated, hother]
      · rw [if_neg hproto, lookup_upsert, hread _ hproto]
        by_cases hsame : posting.memberId = memberId
        · subst hsame
          have hown : memberPostings [posting] posting.memberId = [posting] := by
            simp [memberPostings]
          simp [hproto, accumulated, hown]
        · have hother : memberPostings [posting] memberId = [] := by
            simp [memberPostings, hsame]
          rw [if_neg hsame, ih memberId]
          simp [accumulated, hother]

/-- What is read for a member is what its postings add up to, except under `__proto__`. -/
theorem balanceOf_applyPostings (postings : List LedgerPosting) {memberId : String}
    (hname : memberId ≠ "__proto__") :
    balanceOf (applyPostings [] postings) memberId = accumulated postings memberId := by
  unfold balanceOf
  rw [lookup_applyPostings]
  by_cases hnone : memberPostings postings memberId = []
  · simp [hnone, accumulated, balanceOf]
  · simp [hname, hnone]

theorem nodup_applyPostings (postings : List LedgerPosting) :
    ((applyPostings [] postings).map Prod.fst).Nodup := by
  induction postings using List.reverseRecOn with
  | nil => simp [applyPostings]
  | append_singleton postings posting ih =>
      have hstep : applyPostings [] (postings ++ [posting]) =
          applyPosting (applyPostings [] postings) posting := by
        simp [applyPostings]
      rw [hstep, applyPosting, setBalance]
      split
      · exact ih
      · exact nodup_upsert ih

/-- A name that no object inherits holds a number. -/
theorem accumulated_of_plain {memberId : String} (hplain : inheritedText memberId = none)
    (postings : List LedgerPosting) :
    accumulated postings memberId = .minutes (postedMinutes postings memberId) := by
  have hfold : ∀ (own : List LedgerPosting) (start : Int),
      own.foldl (fun balance posting ↦ balance.add posting.minutes) (Balance.minutes start) =
        .minutes (start + (own.map (·.minutes)).sum) := by
    intro own
    induction own with
    | nil => simp
    | cons posting rest ih =>
        intro start
        rw [List.foldl_cons, Balance.add, ih, List.map_cons, List.sum_cons, add_assoc]
  have hstart : balanceOf [] memberId = .minutes 0 := by simp [balanceOf, hplain]
  rw [accumulated, hstart, hfold, zero_add]
  rfl

theorem ne_proto_of_plain {memberId : String} (hplain : inheritedText memberId = none) :
    memberId ≠ "__proto__" := by
  intro hsame
  rw [hsame] at hplain
  exact absurd hplain (by decide)

/-! ## The postings of accepted transfers -/

/-- The postings are those of the accepted transfers, and the balances are theirs. -/
structure Posted (state : LedgerState) : Prop where
  postings : state.postings = state.acceptedTransfers.flatMap derivePostings
  balances : state.balances = applyPostings [] state.postings

theorem Posted.accept {state : LedgerState} (h : Posted state) (transfer : Transfer) :
    Posted (acceptTransfer state transfer) where
  postings := by simp [acceptTransfer, h.postings]
  balances := by simp [acceptTransfer, h.balances, applyPostings]

theorem Posted.reject {state : LedgerState} (h : Posted state) (reason : RejectionReason)
    (transfer : Transfer) : Posted (rejectTransfer reason state transfer) :=
  ⟨h.postings, h.balances⟩

/-- What accepting and rejecting keep holds of the resolved state. -/
theorem resolveTransfers_induction {motive : LedgerState → Prop} (empty : motive .empty)
    (accept : ∀ state transfer, motive state → motive (acceptTransfer state transfer))
    (reject : ∀ reason state transfer, motive state → motive (rejectTransfer reason state transfer))
    (policy : LedgerPolicy) (transfers : List Transfer) :
    motive (resolveTransfers policy transfers) := by
  have hsettled : ∀ state, motive state →
      motive (transfers.foldl (settleTransfer policy) state) := by
    induction transfers with
    | nil => exact fun _ h ↦ h
    | cons transfer rest ih =>
        intro state h
        refine ih _ ?_
        unfold settleTransfer
        split
        · exact h
        · split
          · exact reject _ _ _ h
          · exact accept _ _ h
  have hall : ∀ (step : LedgerState → Transfer → LedgerState),
      (∀ state transfer, motive state → motive (step state transfer)) →
      ∀ (list : List Transfer) state, motive state → motive (list.foldl step state) := by
    intro step hstep list
    induction list with
    | nil => exact fun _ h ↦ h
    | cons transfer rest ih => exact fun state h ↦ ih _ (hstep _ _ h)
  have hrounds : ∀ pending state, motive state → motive (applyReversals pending state) := by
    intro pending state
    induction pending, state using rounds_induction with
    | stop pending state hnone =>
        rw [applyReversals_stop hnone]
        exact hall _ (reject _) pending state
    | round pending state hsome ih =>
        rw [applyReversals_round hsome]
        exact fun h ↦ ih (hall _ accept _ _ h)
  exact hrounds _ _ (hsettled _ empty)

theorem posted_resolveTransfers (policy : LedgerPolicy) (transfers : List Transfer) :
    Posted (resolveTransfers policy transfers) :=
  resolveTransfers_induction ⟨rfl, rfl⟩ (fun _ transfer h ↦ h.accept transfer)
    (fun reason _ transfer h ↦ h.reject reason transfer) policy transfers

/-! ## Replaying the settlements -/

/-- The ordinary settlements of some transfers, in their order. -/
def settlementsOf (transfers : List Transfer) : List Transfer :=
  transfers.filter (·.reversesTransferId.isNone)

/-- The ledger after a pass over some settlements. -/
def settled (policy : LedgerPolicy) (transfers : List Transfer) : LedgerState :=
  transfers.foldl (settleTransfer policy) .empty

/-- The settlement would cross the limit after the settlements before it. -/
def crosses (policy : LedgerPolicy) (before : List Transfer) (transfer : Transfer) : Bool :=
  wouldCrossMinimumBalance transfer (settled policy before).balances policy

variable {policy : LedgerPolicy}

/-- The pass skips the reversals. -/
theorem foldl_settleTransfer (transfers : List Transfer) (state : LedgerState) :
    transfers.foldl (settleTransfer policy) state =
      (settlementsOf transfers).foldl (settleTransfer policy) state := by
  induction transfers generalizing state with
  | nil => rfl
  | cons transfer rest ih =>
      rw [List.foldl_cons, ih]
      unfold settlementsOf
      rw [List.filter_cons]
      cases hreverses : transfer.reversesTransferId with
      | some reversed =>
          have hskip : settleTransfer policy state transfer = state := by
            simp [settleTransfer, hreverses]
          simp [hskip]
      | none => simp

/-- Settling one more transfer accepts it unless it crosses the limit. -/
theorem acceptedTransfers_settleTransfer {state : LedgerState} {transfer : Transfer}
    (hordinary : transfer.reversesTransferId = none) :
    (settleTransfer policy state transfer).acceptedTransfers =
      if wouldCrossMinimumBalance transfer state.balances policy then state.acceptedTransfers
      else state.acceptedTransfers ++ [transfer] := by
  unfold settleTransfer
  rw [hordinary]
  split
  · simp_all
  · split <;> rfl

/-- A pass adds some of its transfers to those accepted, and keeps their order. -/
theorem exists_foldl_settleTransfer (transfers : List Transfer) (state : LedgerState) :
    ∃ added, (transfers.foldl (settleTransfer policy) state).acceptedTransfers =
      state.acceptedTransfers ++ added ∧ added.Sublist transfers := by
  induction transfers generalizing state with
  | nil => exact ⟨[], by simp, .slnil⟩
  | cons transfer rest ih =>
      obtain ⟨added, hadded, hsublist⟩ := ih (settleTransfer policy state transfer)
      rw [List.foldl_cons, hadded]
      cases hreverses : transfer.reversesTransferId with
      | some reversed =>
          have hskip : settleTransfer policy state transfer = state := by
            simp [settleTransfer, hreverses]
          exact ⟨added, by rw [hskip], hsublist.cons transfer⟩
      | none =>
          rw [acceptedTransfers_settleTransfer hreverses]
          split
          · exact ⟨added, rfl, hsublist.cons transfer⟩
          · exact ⟨transfer :: added, by simp, hsublist.cons_cons transfer⟩

theorem foldl_acceptTransfer (transfers : List Transfer) (state : LedgerState) :
    (transfers.foldl acceptTransfer state).acceptedTransfers =
      state.acceptedTransfers ++ transfers := by
  induction transfers generalizing state with
  | nil => simp
  | cons transfer rest ih =>
      rw [List.foldl_cons, ih]
      simp [acceptTransfer]

theorem foldl_rejectTransfer (transfers : List Transfer) (state : LedgerState) :
    (transfers.foldl (rejectTransfer .unacceptedReversal) state).acceptedTransfers =
      state.acceptedTransfers := by
  induction transfers generalizing state with
  | nil => rfl
  | cons transfer rest ih => exact ih _

/-- Rounds add reversals to the transfers accepted. -/
theorem exists_applyReversals (pending : List Transfer) (state : LedgerState) :
    ∃ added, (applyReversals pending state).acceptedTransfers = state.acceptedTransfers ++ added ∧
      ∀ transfer ∈ added, transfer ∈ pending := by
  induction pending, state using rounds_induction with
  | stop pending state hnone =>
      rw [applyReversals_stop hnone, foldl_rejectTransfer]
      exact ⟨[], by simp, by simp⟩
  | round pending state hsome ih =>
      obtain ⟨added, hadded, hmem⟩ := ih
      rw [applyReversals_round hsome, hadded, foldl_acceptTransfer, List.append_assoc]
      refine ⟨_, rfl, fun transfer htransfer ↦ ?_⟩
      cases List.mem_append.mp htransfer with
      | inl h => exact (List.mem_filter.mp h).1
      | inr h => exact (List.mem_filter.mp (hmem transfer h)).1

/-- The accepted transfers are the settlements accepted in the pass and some reversals. -/
theorem exists_resolveTransfers (policy : LedgerPolicy) (transfers : List Transfer) :
    ∃ reversals, (resolveTransfers policy transfers).acceptedTransfers =
        (settled policy (settlementsOf transfers)).acceptedTransfers ++ reversals ∧
      ∀ transfer ∈ reversals, transfer ∈ transfers ∧ transfer.reversesTransferId ≠ none := by
  obtain ⟨reversals, hreversals, hmem⟩ := exists_applyReversals
    (transfers.filter (·.reversesTransferId.isSome))
    (transfers.foldl (settleTransfer policy) .empty)
  refine ⟨reversals, ?_, fun transfer htransfer ↦ ?_⟩
  · rw [resolveTransfers, hreversals, foldl_settleTransfer]
    rfl
  · obtain ⟨htransfers, hsome⟩ := List.mem_filter.mp (hmem transfer htransfer)
    exact ⟨htransfers, Option.isSome_iff_ne_none.mp hsome⟩

theorem mem_settled {transfers : List Transfer} {transfer : Transfer}
    (h : transfer ∈ (settled policy transfers).acceptedTransfers) : transfer ∈ transfers := by
  obtain ⟨added, hadded, hsublist⟩ := @exists_foldl_settleTransfer policy transfers .empty
  rw [settled, hadded] at h
  exact hsublist.subset (by simpa [LedgerState.empty] using h)

/-- A sublist of distinct values keeps the values that it contains. -/
theorem eq_filter_of_sublist {α : Type} [DecidableEq α] {part full : List α}
    (h : part.Sublist full) (hnodup : full.Nodup) :
    part = full.filter fun value ↦ decide (value ∈ part) := by
  induction h with
  | slnil => rfl
  | @cons part full value h ih =>
      obtain ⟨hfresh, hrest⟩ := List.nodup_cons.mp hnodup
      have hnot : value ∉ part := fun hmem ↦ hfresh (h.subset hmem)
      rw [List.filter_cons_of_neg (by simpa using hnot)]
      exact ih hrest
  | @cons_cons part full value h ih =>
      obtain ⟨hfresh, hrest⟩ := List.nodup_cons.mp hnodup
      rw [List.filter_cons_of_pos (by simp)]
      congr 1
      refine (ih hrest).trans (List.filter_congr fun other hother ↦ decide_eq_decide.mpr ?_)
      have hne : other ≠ value := fun hsame ↦ hfresh (hsame ▸ hother)
      simp [hne]

/-- At its turn a settlement is accepted unless it crosses the limit, and the settlements accepted
before it are those accepted at the end. -/
theorem settled_split {settlements before after : List Transfer} {transfer : Transfer}
    (hordinary : ∀ settlement ∈ settlements, settlement.reversesTransferId = none)
    (hnodup : settlements.Nodup) (hsplit : settlements = before ++ transfer :: after) :
    (transfer ∈ (settled policy settlements).acceptedTransfers ↔
        crosses policy before transfer = false) ∧
      (settled policy before).acceptedTransfers =
        before.filter (fun earlier ↦ decide (earlier ∈ (settled policy settlements).acceptedTransfers))
    := by
  obtain ⟨hbefore, hrest, hdisjoint⟩ := List.nodup_append.mp (hsplit ▸ hnodup)
  obtain ⟨hfresh, -⟩ := List.nodup_cons.mp hrest
  have hnot : transfer ∉ before := fun hmem ↦ hdisjoint _ hmem _ List.mem_cons_self rfl
  have hpass : settled policy settlements =
      (transfer :: after).foldl (settleTransfer policy) (settled policy before) := by
    rw [settled, hsplit, List.foldl_append]
    rfl
  obtain ⟨added, hadded, hsublist⟩ :=
    @exists_foldl_settleTransfer policy after (settleTransfer policy (settled policy before) transfer)
  have hturn := @acceptedTransfers_settleTransfer policy (settled policy before) transfer
    (hordinary transfer (hsplit ▸ by simp))
  have haccepted : (settled policy settlements).acceptedTransfers =
      (settleTransfer policy (settled policy before) transfer).acceptedTransfers ++ added := by
    rw [hpass, List.foldl_cons, hadded]
  have hlate : ∀ earlier ∈ before, earlier ∉ added := fun earlier hearlier hmem ↦
    hdisjoint earlier hearlier earlier (List.mem_cons_of_mem _ (hsublist.subset hmem)) rfl
  constructor
  · rw [haccepted, hturn, List.mem_append]
    unfold crosses
    have hnotBefore : transfer ∉ (settled policy before).acceptedTransfers :=
      fun hmem ↦ hnot (mem_settled hmem)
    have hnotAdded : transfer ∉ added := fun hmem ↦ hfresh (hsublist.subset hmem)
    split
    · simp_all
    · simp_all
  · obtain ⟨early, hearly, hearlySublist⟩ := @exists_foldl_settleTransfer policy before .empty
    have hsame : (settled policy before).acceptedTransfers = early := by
      rw [settled, hearly]
      rfl
    have hmem : ∀ earlier ∈ before,
        (earlier ∈ (settled policy settlements).acceptedTransfers ↔ earlier ∈ early) := by
      intro earlier hearlier
      have hne : earlier ≠ transfer := fun h ↦ hnot (h ▸ hearlier)
      rw [haccepted, hturn, hsame]
      split <;> simp [hlate earlier hearlier, hne]
    calc (settled policy before).acceptedTransfers
        = before.filter (fun earlier ↦ decide (earlier ∈ early)) :=
          hsame.trans (eq_filter_of_sublist hearlySublist hbefore)
      _ = _ := List.filter_congr fun earlier hearlier ↦
          decide_eq_decide.mpr (hmem earlier hearlier).symm

end PeerHours.TimebankLedger
