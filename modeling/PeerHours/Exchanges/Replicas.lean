import PeerHours.Exchanges.Garden

/-!
# Replicas

A community's feeds reach each replica in an order of their own, and some records more than once. Every replica
resolves them to one state.
-/

namespace PeerHours.Exchanges

open Json
open TimebankRecords

/-- Both resolvers fail together or give equal states on the same records, in any order and with any repetitions,
whatever the community. -/
theorem replicas_converge (crypto : Crypto) (localeCompare : String → String → Ordering)
    [Std.TransCmp localeCompare] [Std.LawfulEqCmp localeCompare] (communityId : String) :
    (∀ left right : List JsonValue, SameRecords left right →
      (resolveTimebankRecords crypto localeCompare communityId left).toOption =
        (resolveTimebankRecords crypto localeCompare communityId right).toOption) ∧
    ∀ left right : List MemberFeedHistory, SameHistories left right →
      (resolveTimebankMemberFeeds crypto localeCompare communityId left).toOption =
        (resolveTimebankMemberFeeds crypto localeCompare communityId right).toOption :=
  ⟨fun _ _ ↦ resolveTimebankRecords_convergent, fun _ _ ↦ resolveTimebankMemberFeeds_convergent⟩

namespace Garden

/-- A replica that received the garden's feeds twice, in reverse, resolves them as the members did, and so does a
node that holds the records of all feeds in one list. -/
theorem replicas_converge_garden : ∃ built state,
    memberFeeds compare (garden [adaExchange, cyExchange] (by simp)) = .ok built ∧
    resolveTimebankMemberFeeds transparentCrypto compare "garden" built = .ok state ∧
    (resolveTimebankMemberFeeds transparentCrypto compare "garden" (redelivered built)).toOption =
      some state ∧
    (resolveTimebankRecords transparentCrypto compare "garden"
      ((redelivered built).flatMap (·.records))).toOption = some state ∧
    (adaExchange.settlement ∈ state.ledger.transfers ∨
      ⟨adaExchange.settlement, .minimumBalance⟩ ∈ state.ledger.rejectedTransfers) := by
  have hconverge := replicas_converge transparentCrypto compare "garden"
  obtain ⟨built, hbuilt, hpublished⟩ :=
    @publishedIn_of_memberFeeds _ compare (garden [adaExchange, cyExchange] (by simp))
  obtain ⟨state, hstate, hexchanges⟩ :=
    Community.settles compare _ (hpublished built ⟨fun _ ↦ Iff.rfl, fun _ _ ↦ Iff.rfl⟩)
  have hsame := sameHistories_redelivered built
  obtain ⟨-, -, -, hrecords⟩ := resolveTimebankMemberFeeds_eq_ok.mp hstate
  refine ⟨built, state, hbuilt, hstate, ?_, ?_,
    (hexchanges adaExchange (by simp [garden])).2.2⟩
  · rw [← hconverge.2 built _ hsame]
    exact congrArg Except.toOption hstate
  · rw [← hconverge.1 _ _ hsame.sameRecords]
    exact congrArg Except.toOption hrecords

end Garden

end PeerHours.Exchanges
