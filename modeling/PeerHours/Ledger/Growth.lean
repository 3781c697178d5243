import PeerHours.Ledger.Reversals

/-!
# Ledgers of growing lists

When transfers arrive, the pass over the settlements is run again. What was accepted stays accepted
unless a new settlement that comes earlier in ledger order is accepted first.
-/

namespace PeerHours.TimebankLedger

open Checked Json KeyedMap Sorting

variable {policy : LedgerPolicy}

/-- A pass is decided by the transfers accepted before. -/
theorem crosses_congr {left right : List Transfer} {transfer : Transfer}
    (h : (settled policy left).acceptedTransfers = (settled policy right).acceptedTransfers) :
    crosses policy left transfer = crosses policy right transfer := by
  have hleft := posted_settled policy left
  have hright := posted_settled policy right
  unfold crosses
  rw [hleft.balances, hleft.postings, hright.balances, hright.postings, h]

theorem settled_append_singleton {before : List Transfer} {transfer : Transfer}
    (hordinary : transfer.reversesTransferId = none) :
    (settled policy (before ++ [transfer])).acceptedTransfers =
      if crosses policy before transfer then (settled policy before).acceptedTransfers
      else (settled policy before).acceptedTransfers ++ [transfer] := by
  have hstep : settled policy (before ++ [transfer]) =
      settleTransfer policy (settled policy before) transfer := by simp [settled]
  rw [hstep, acceptedTransfers_settleTransfer hordinary]
  rfl

/-- Settlements that are rejected at their turn leave no trace in the pass. -/
theorem settled_filter {keep : Transfer → Bool} {settlements before after : List Transfer}
    (hordinary : ∀ settlement ∈ settlements, settlement.reversesTransferId = none)
    (hnodup : settlements.Nodup) (hsplit : settlements = before ++ after)
    (hrejected : ∀ settlement ∈ before, keep settlement = false →
      settlement ∉ (settled policy settlements).acceptedTransfers) :
    (settled policy before).acceptedTransfers =
      (settled policy (before.filter keep)).acceptedTransfers := by
  induction before using List.reverseRecOn generalizing after with
  | nil => rfl
  | append_singleton before transfer ih =>
      have hsplit' : settlements = before ++ transfer :: after := by
        rw [hsplit, List.append_assoc]
        rfl
      have hbefore := ih hsplit' fun settlement hmem ↦
        hrejected settlement (List.mem_append_left _ hmem)
      have htransfer := hordinary transfer (hsplit' ▸ by simp)
      rw [settled_append_singleton htransfer, List.filter_append]
      cases hkeep : keep transfer with
      | true =>
          rw [List.filter_cons_of_pos hkeep, List.filter_nil, settled_append_singleton htransfer,
            crosses_congr hbefore, hbefore]
      | false =>
          have hcrosses : crosses policy before transfer = true := by
            have hnot := hrejected transfer (by simp) hkeep
            rw [(settled_split hordinary hnodup hsplit').1] at hnot
            simpa using hnot
          rw [if_pos hcrosses, List.filter_cons_of_neg (by simp [hkeep]), List.filter_nil,
            List.append_nil, hbefore]

theorem TracesTo.mono {holds larger : Transfer → Prop} (h : ∀ transfer, holds transfer →
    larger transfer) {transfer settlement : Transfer} (htraces : TracesTo holds transfer settlement) :
    TracesTo larger transfer settlement := by
  induction htraces with
  | settlement held ordinary => exact .settlement (h _ held) ordinary
  | reversal held reverses _ ih => exact .reversal (h _ held) reverses ih

theorem TracesTo.settlement_held {holds : Transfer → Prop} {transfer settlement : Transfer}
    (h : TracesTo holds transfer settlement) :
    holds settlement ∧ settlement.reversesTransferId = none := by
  induction h with
  | settlement held ordinary => exact ⟨held, ordinary⟩
  | reversal _ _ _ ih => exact ih

section Growth

variable {localeCompare : String → String → Ordering} [Std.TransCmp localeCompare]
  [Std.LawfulEqCmp localeCompare] {communityId : String}

/-- The transfer is overtaken: an accepted settlement that is new sorts before the settlement that it
traces to. -/
def Overtaken (localeCompare : String → String → Ordering) (ledger : Ledger)
    (old : List Transfer) (transfer : Transfer) : Prop :=
  ∃ settlement newer, TracesTo (· ∈ old) transfer settlement ∧ newer ∈ ledger.transfers ∧
    newer.reversesTransferId = none ∧ newer ∉ old ∧
    localeCompare newer.id settlement.id = .lt

/-- The settlements of the older list, in ledger order, are among those of the larger one. -/
theorem settlementsOf_growth {old new : List Transfer} (hold : (old.map (·.id)).Nodup)
    (hnew : (new.map (·.id)).Nodup) (hsubset : old ⊆ new) :
    settlementsOf (sortBy (on localeCompare (·.id)) old) =
      (settlementsOf (sortBy (on localeCompare (·.id)) new)).filter
        fun transfer ↦ decide (transfer ∈ old) := by
  unfold settlementsOf
  rw [filter_sortBy, filter_sortBy, filter_sortBy]
  refine sortBy_eq_of_mem_iff (hold.of_map.filter _) ((hnew.of_map.filter _).filter _) ?_ ?_
  · intro transfer
    simp only [List.mem_filter, decide_eq_true_eq]
    constructor
    · exact fun ⟨hmem, hordinary⟩ ↦ ⟨⟨hsubset hmem, hordinary⟩, hmem⟩
    · exact fun ⟨⟨_, hordinary⟩, hmem⟩ ↦ ⟨hmem, hordinary⟩
  · intro left hleft right hright hcompare
    have hid : left.id = right.id := Std.LawfulEqCmp.eq_of_compare hcompare
    exact List.inj_on_of_nodup_map hold (List.mem_filter.mp hleft).1 (List.mem_filter.mp hright).1 hid

/-- When a list of transfers grows, an accepted transfer stays accepted unless it is overtaken. -/
theorem accepted_of_growth {old new : List Transfer} (hold : (old.map (·.id)).Nodup)
    (hnew : (new.map (·.id)).Nodup) (hsubset : old ⊆ new) {transfer : Transfer}
    (h : transfer ∈ (ledgerOf localeCompare communityId
      (sortBy (on localeCompare (·.id)) old)).transfers) :
    transfer ∈ (ledgerOf localeCompare communityId
        (sortBy (on localeCompare (·.id)) new)).transfers ∨
      Overtaken localeCompare (ledgerOf localeCompare communityId
        (sortBy (on localeCompare (·.id)) new)) old transfer := by
  obtain ⟨settlement, htraces, hsettled⟩ := mem_ledgerOf_iff_grounded.mp h
  have htracesOld : TracesTo (· ∈ old) transfer settlement :=
    htraces.mono fun _ hmem ↦ mem_sortBy.mp hmem
  obtain ⟨hheld, hordinary⟩ := htracesOld.settlement_held
  have hgrowth := @settlementsOf_growth localeCompare _ _ _ _ hold hnew hsubset
  have hall : ∀ other ∈ settlementsOf (sortBy (on localeCompare (·.id)) new),
      other.reversesTransferId = none := fun other hother ↦
    Option.isNone_iff_eq_none.mp (List.mem_filter.mp hother).2
  have hnodup : (settlementsOf (sortBy (on localeCompare (·.id)) new)).Nodup :=
    (nodup_sortBy.mpr hnew.of_map).filter _
  have hin : settlement ∈ settlementsOf (sortBy (on localeCompare (·.id)) new) :=
    List.mem_filter.mpr ⟨mem_sortBy.mpr (hsubset hheld), by rw [hordinary]; rfl⟩
  have hsorted := (@pairwise_sortBy _ (on localeCompare (·.id)) _ new).filter
    (·.reversesTransferId.isNone)
  obtain ⟨before, after, hsplit⟩ := List.append_of_mem hin
  by_cases hovertaken : ∃ newer ∈ before, newer ∉ old ∧ newer ∈ (settled
      defaultPeerHoursLedgerPolicy
      (settlementsOf (sortBy (on localeCompare (·.id)) new))).acceptedTransfers
  · obtain ⟨newer, hbefore, hfresh, haccepted⟩ := hovertaken
    refine .inr ⟨settlement, newer, htracesOld, ?_, hall newer (mem_settled haccepted), hfresh, ?_⟩
    · exact (mem_ledgerOf_iff (hall newer (mem_settled haccepted))).mpr haccepted
    · -- ids are distinct, so the order is strict
      have hle : (localeCompare newer.id settlement.id).isLE = true := by
        change (settlementsOf _).Pairwise _ at hsorted
        rw [hsplit] at hsorted
        exact (List.pairwise_append.mp hsorted).2.2 newer hbefore settlement List.mem_cons_self
      have hne : localeCompare newer.id settlement.id ≠ .eq := by
        intro heq
        have hid : newer.id = settlement.id := Std.LawfulEqCmp.eq_of_compare heq
        have hnewer : newer ∈ new :=
          mem_sortBy.mp (List.mem_filter.mp (mem_settled haccepted)).1
        have hsame := List.inj_on_of_nodup_map hnew hnewer (hsubset hheld) hid
        exact hfresh (hsame ▸ hheld)
      cases hcompare : localeCompare newer.id settlement.id with
      | lt => rfl
      | eq => exact absurd hcompare hne
      | gt =>
          rw [hcompare] at hle
          cases hle
  · refine .inl (mem_ledgerOf_iff_grounded.mpr ⟨settlement, ?_, ?_⟩)
    · exact htracesOld.mono fun _ hmem ↦ mem_sortBy.mpr (hsubset hmem)
    · have hrejected : ∀ other ∈ before, decide (other ∈ old) = false → other ∉ (settled
          defaultPeerHoursLedgerPolicy
          (settlementsOf (sortBy (on localeCompare (·.id)) new))).acceptedTransfers :=
        fun other hbefore hfresh haccepted ↦
          hovertaken ⟨other, hbefore, of_decide_eq_false hfresh, haccepted⟩
      have hpass := settled_filter hall hnodup hsplit hrejected
      rw [(settled_split hall hnodup hsplit).1, crosses_congr hpass]
      have hsplitOld : settlementsOf (sortBy (on localeCompare (·.id)) old) =
          before.filter (fun other ↦ decide (other ∈ old)) ++
            settlement :: after.filter (fun other ↦ decide (other ∈ old)) := by
        rw [hgrowth, hsplit, List.filter_append, List.filter_cons_of_pos (by simpa using hheld)]
      refine (settled_split ?_ ?_ hsplitOld).1.mp hsettled
      · exact fun other hother ↦ Option.isNone_iff_eq_none.mp (List.mem_filter.mp hother).2
      · exact (nodup_sortBy.mpr hold.of_map).filter _

end Growth

end PeerHours.TimebankLedger
