import PeerHours.Exchanges.Garden
import PeerHours.Ledger.Growth

/-!
# Growing histories

A record that arrives later can move a settlement out of the balances: the ledger is derived again from
all transfers in id order. What was admitted stays in the history, and leaves the balances only when a
new settlement with an earlier id is admitted.
-/

namespace PeerHours.Exchanges

open Checked Json
open TimebankLedger (Overtaken RejectedTransfer Transfer accepted_of_growth accounts_ledgerOf)
open TimebankRecords

variable {crypto : Crypto} {localeCompare : String → String → Ordering} {communityId : String}

/-- What a state resolved from more records says about a transfer that a state had admitted: it is
still admitted, or it is rejected, for the credit limit when it is a settlement and for its rejected
original when it is a reversal, and an admitted new settlement overtook it. -/
def StaysOrOvertaken (localeCompare : String → String → Ordering)
    (state larger : ResolvedTimebankState crypto) (transfer : Transfer) : Prop :=
  transfer ∈ larger.ledger.transfers ∨
    (∃ rejected ∈ larger.ledger.rejectedTransfers, rejected.transfer = transfer ∧
      (rejected.reason = .minimumBalance ↔ transfer.reversesTransferId = none)) ∧
    Overtaken localeCompare larger.ledger state.transfers transfer

/-- Admission under growth of the history: an admitted transfer stays admitted unless it is
overtaken. -/
theorem admitted_of_growth [Std.TransCmp localeCompare] [Std.LawfulEqCmp localeCompare]
    {records larger : List JsonValue} (hsubset : records ⊆ larger)
    {state largerState : ResolvedTimebankState crypto}
    (hstate : resolveTimebankRecords crypto localeCompare communityId records = .ok state)
    (hlarger : resolveTimebankRecords crypto localeCompare communityId larger = .ok largerState)
    {transfer : Transfer} (htransfer : transfer ∈ state.ledger.transfers) :
    StaysOrOvertaken localeCompare state largerState transfer := by
  obtain ⟨-, -, hresolved⟩ := resolved_of_eq_ok hstate
  obtain ⟨-, -, hlargerResolved⟩ := resolved_of_eq_ok hlarger
  have hgrows : state.transfers ⊆ largerState.transfers := fun other hother ↦
    (hlargerResolved.transfers.mem other).mpr (((hresolved.transfers.mem other).mp hother).mono hsubset)
  rw [hresolved.ledger] at htransfer
  have hheld : transfer ∈ state.transfers :=
    Sorting.mem_sortBy.mp ((accounts_ledgerOf _ _ _).1.subset (List.mem_append_left _ htransfer))
  have hgrowth := accepted_of_growth hresolved.transfers.nodup hlargerResolved.transfers.nodup hgrows
    htransfer
  rw [← hlargerResolved.ledger] at hgrowth
  by_cases haccepted : transfer ∈ largerState.ledger.transfers
  · exact .inl haccepted
  · refine .inr ⟨?_, hgrowth.resolve_left haccepted⟩
    rw [hlargerResolved.ledger] at haccepted ⊢
    obtain ⟨hcomplete, hreasons⟩ := accounts_ledgerOf localeCompare communityId
      (Sorting.sortBy (Sorting.on localeCompare (·.id)) largerState.transfers)
    have hmem := hcomplete.mem_iff.mpr (Sorting.mem_sortBy.mpr (hgrows hheld))
    obtain ⟨rejected, hrejected, rfl⟩ :=
      List.mem_map.mp ((List.mem_append.mp hmem).resolve_left haccepted)
    exact ⟨rejected, hrejected, rfl, hreasons rejected hrejected⟩

/-! ## A settlement that is overtaken -/

namespace Garden

/-- The feeds of the garden resolve to the settlements of its exchanges. -/
theorem garden_resolves (exchanges : List (Exchange transparentCrypto))
    (h : ∀ exchange ∈ exchanges, exchange = adaExchange ∨ exchange = cyExchange) :
    ∃ histories state, PublishedIn "garden" [ada, ben, cy] (garden exchanges h).Published histories ∧
      resolveTimebankMemberFeeds transparentCrypto compare "garden" histories = .ok state ∧
      (state.transfers.map (·.id)).Nodup ∧
      (∀ transfer, transfer ∈ state.transfers ↔
        ∃ exchange ∈ exchanges, transfer = exchange.settlement) ∧
      state.ledger = TimebankLedger.ledgerOf compare "garden"
        (Sorting.sortBy (Sorting.on compare (·.id)) state.transfers) := by
  obtain ⟨built, -, hpublished⟩ :=
    @publishedIn_of_memberFeeds transparentCrypto compare (garden exchanges h)
  have hin := hpublished built ⟨fun _ ↦ Iff.rfl, fun _ _ ↦ Iff.rfl⟩
  obtain ⟨state, hstate⟩ := @Community.resolves _ compare (garden exchanges h) built hin
  obtain ⟨-, -, -, hrecords⟩ := resolveTimebankMemberFeeds_eq_ok.mp hstate
  obtain ⟨-, -, hresolved⟩ := resolved_of_eq_ok hrecords
  refine ⟨built, state, hin, hstate, hresolved.transfers.nodup, fun transfer ↦ ?_, hresolved.ledger⟩
  exact (hresolved.transfers.mem transfer).trans
    (@Community.transfer_held_iff _ (garden exchanges h) built hin transfer)

/-- The feeds of a garden with Ada's hours with Ben alone settle them. -/
theorem garden_settles : ∃ histories state,
    PublishedIn "garden" [ada, ben, cy] (garden [adaExchange] (by simp)).Published histories ∧
      resolveTimebankMemberFeeds transparentCrypto compare "garden" histories = .ok state ∧
      state.ledger.transfers = [adaExchange.settlement] := by
  obtain ⟨histories, state, hpublished, hstate, hnodup, hmem, hledger⟩ :=
    garden_resolves [adaExchange] (by simp)
  have hsorted : Sorting.sortBy (Sorting.on compare (·.id)) state.transfers =
      [adaExchange.settlement] :=
    sortBy_transfers hnodup (List.nodup_singleton _) fun transfer ↦ by
      rw [hmem]
      simp
  refine ⟨histories, state, hpublished, hstate, ?_⟩
  rw [hledger, hsorted]
  have hone : (TimebankLedger.ledgerOf compare "garden" [adaExchange.settlement]).transfers.length = 1 := by
    decide +kernel
  refine List.eq_replicate_iff.mpr ⟨hone, fun transfer htransfer ↦ ?_⟩
  exact List.mem_singleton.mp
    ((accounts_ledgerOf compare "garden" _).1.subset (List.mem_append_left _ htransfer))

/-- Where both exchanges are settled, Ben may no longer owe for Ada's hours. -/
theorem garden_rejects {ledger : TimebankLedger.Ledger}
    (hledger : ledger = TimebankLedger.ledgerOf compare "garden"
      [cyExchange.settlement, adaExchange.settlement]) :
    adaExchange.settlement ∉ ledger.transfers ∧
      ⟨adaExchange.settlement, .minimumBalance⟩ ∈ ledger.rejectedTransfers := by
  subst hledger
  -- the ledger is evaluated on the ids only
  have hids : (∀ transfer ∈ (TimebankLedger.ledgerOf compare "garden"
        [cyExchange.settlement, adaExchange.settlement]).transfers, transfer.id ≠ "p2/settlement") ∧
      ∃ rejected ∈ (TimebankLedger.ledgerOf compare "garden"
        [cyExchange.settlement, adaExchange.settlement]).rejectedTransfers,
        rejected.transfer.id = "p2/settlement" ∧ rejected.reason = .minimumBalance := by
    decide +kernel
  obtain ⟨hadmitted, ⟨transfer, reason⟩, hrejected, hid, rfl⟩ := hids
  refine ⟨fun hmem ↦ hadmitted _ hmem rfl, ?_⟩
  have hmem := (accounts_ledgerOf compare "garden" _).1.subset
    (List.mem_append_right _ (List.mem_map_of_mem hrejected))
  rcases List.mem_pair.mp hmem with hcy | hada
  · exact absurd ((congrArg (·.id) hcy).symm.trans hid) (by decide)
  · exact hada ▸ hrejected

/-- Ada's hours with Ben are admitted until Cy's minute with Ben, which has an earlier id, arrives. -/
theorem garden_grows :
    ∃ records larger state largerState, records ⊆ larger ∧
      resolveTimebankRecords transparentCrypto compare "garden" records = .ok state ∧
      resolveTimebankRecords transparentCrypto compare "garden" larger = .ok largerState ∧
      adaExchange.settlement ∈ state.ledger.transfers ∧
      adaExchange.settlement ∉ largerState.ledger.transfers ∧
      ⟨adaExchange.settlement, .minimumBalance⟩ ∈ largerState.ledger.rejectedTransfers := by
  have hboth : ∀ exchange ∈ [adaExchange, cyExchange],
      exchange = adaExchange ∨ exchange = cyExchange := by simp
  obtain ⟨histories, state, hpublished, hstate, hadmitted⟩ := garden_settles
  obtain ⟨larger, largerState, hlargerPublished, hlargerState, hlargerNodup, hlargerMem,
    hlargerLedger⟩ := garden_resolves [adaExchange, cyExchange] hboth
  obtain ⟨-, -, -, hrecords⟩ := resolveTimebankMemberFeeds_eq_ok.mp hstate
  obtain ⟨-, -, -, hlargerRecords⟩ := resolveTimebankMemberFeeds_eq_ok.mp hlargerState
  have hlargerSorted : Sorting.sortBy (Sorting.on compare (·.id)) largerState.transfers =
      [cyExchange.settlement, adaExchange.settlement] := by
    rw [@sortBy_transfers _ [adaExchange.settlement, cyExchange.settlement] hlargerNodup
      (by decide +kernel) fun transfer ↦ by rw [hlargerMem]; simp]
    rfl
  refine ⟨_, _, state, largerState, ?_, hrecords, hlargerRecords, hadmitted ▸ List.mem_singleton_self _,
    garden_rejects (hlargerSorted ▸ hlargerLedger)⟩
  refine hpublished.subset (garden _ hboth).protocol hlargerPublished fun publication h ↦ ?_
  cases h with
  | inl hlisting => exact .inl hlisting
  | inr hexchange =>
      obtain ⟨exchange, hexchange, hpublication⟩ := hexchange
      exact .inr ⟨exchange, List.mem_cons.mpr (.inl (List.mem_singleton.mp hexchange)), hpublication⟩

/-- An admitted settlement can be rejected when the history grows. -/
theorem settlement_overtaken :
    ¬ ∀ (records larger : List JsonValue) (state largerState : ResolvedTimebankState transparentCrypto),
      records ⊆ larger →
      resolveTimebankRecords transparentCrypto compare "garden" records = .ok state →
      resolveTimebankRecords transparentCrypto compare "garden" larger = .ok largerState →
      ∀ transfer ∈ state.ledger.transfers, transfer ∈ largerState.ledger.transfers := by
  intro h
  obtain ⟨records, larger, state, largerState, hsubset, hstate, hlarger, hadmitted, hrejected, -⟩ :=
    garden_grows
  exact hrejected (h records larger state largerState hsubset hstate hlarger _ hadmitted)

/-- Ada's hours with Ben are admitted, and leave the balances of a larger history that overtakes them. -/
theorem admitted_of_growth_garden :
    ∃ (records larger : List JsonValue) (state largerState : ResolvedTimebankState transparentCrypto),
      records ⊆ larger ∧
      resolveTimebankRecords transparentCrypto compare "garden" records = .ok state ∧
      resolveTimebankRecords transparentCrypto compare "garden" larger = .ok largerState ∧
      adaExchange.settlement ∈ state.ledger.transfers ∧
      adaExchange.settlement ∉ largerState.ledger.transfers ∧
      StaysOrOvertaken compare state largerState adaExchange.settlement := by
  obtain ⟨records, larger, state, largerState, hsubset, hstate, hlarger, hadmitted, hleft, -⟩ :=
    garden_grows
  exact ⟨records, larger, state, largerState, hsubset, hstate, hlarger, hadmitted, hleft,
    admitted_of_growth hsubset hstate hlarger hadmitted⟩

end Garden

end PeerHours.Exchanges
