import PeerHours.Desktop.ResolvedMemberState
import PeerHours.Exchanges.Garden
import PeerHours.Exchanges.Reversal

/-!
# Proposals shown as settled

A reversal may name a source proposal of its own choice. While its reversed settlement stays in the
ledger, so does the reversal, and the proposal that it names is shown as settled and cannot be settled.
A proposal id too long for the renderer's requests is shown as settled, but never refused as settled.
-/

namespace PeerHours.Exchanges

open Checked Json
open Desktop
open TimebankLedger (Transfer)
open TimebankRecords

variable {crypto : Crypto} {resolved : ResolvedTimebankState crypto} {proposalId : String}

/-- A resolved state shows a proposal as it settled exactly when every reversal in the ledger that names
the proposal comes with its settlement, and a settled proposal has an id that the handler takes. -/
theorem shownAsItSettled_iff {localeCompare : String → String → Ordering} {communityId : String}
    {histories : List MemberFeedHistory}
    (h : resolveTimebankMemberFeeds crypto localeCompare communityId histories = .ok resolved)
    (settlementDurability : List SettlementDurability) :
    ShownAsItSettled resolved settlementDurability proposalId ↔
      (∀ reversal ∈ resolved.ledger.transfers, reversal.reversesTransferId ≠ none →
        reversal.sourceProposalId = some (.str proposalId) → Settles resolved proposalId) ∧
      (Settles resolved proposalId → (Text.utf16 proposalId).length ≤ 512) := by
  obtain ⟨-, -, -, hresolve⟩ := resolveTimebankMemberFeeds_eq_ok.mp h
  obtain ⟨-, hcoherent, hresolved⟩ := resolved_of_eq_ok hresolve
  rw [ShownAsItSettled, mem_settledProposalIds, advanceSettlementRequest_eq_alreadyAdmitted]
  constructor
  · intro ⟨hshown, hrefused⟩
    exact ⟨fun reversal hreversal _ hsource ↦ hshown.mp ⟨reversal, hreversal, hsource⟩,
      fun hsettles ↦ (hrefused.mpr hsettles).1.2⟩
  · intro ⟨hreversals, hlength⟩
    have hnamed : (∃ transfer ∈ resolved.ledger.transfers,
        transfer.sourceProposalId = some (.str proposalId)) ↔ Settles resolved proposalId := by
      constructor
      · intro ⟨transfer, htransfer, hsource⟩
        by_cases hordinary : transfer.reversesTransferId = none
        · exact ⟨transfer, htransfer, hordinary, hsource⟩
        · exact hreversals transfer htransfer hordinary hsource
      · intro ⟨transfer, htransfer, _, hsource⟩
        exact ⟨transfer, htransfer, hsource⟩
    refine ⟨hnamed, fun hrefused ↦ hnamed.mp hrefused.2.2, fun hsettles ↦ ?_⟩
    -- the settlement's own proposal is accepted in the state, under an id that is not blank
    obtain ⟨transfer, htransfer, hordinary, hsource⟩ := id hsettles
    obtain ⟨proposal, hheld, -, hterms⟩ :=
      hcoherent.settlements transfer (hresolved.ledger_held htransfer) hordinary
    have hnames : transfer.sourceProposalId = some (.str proposal.id) :=
      congrArg TimebankLedger.TransferTerms.sourceProposalId hterms
    rw [hnames, Option.some.injEq, JsonValue.str.injEq] at hsource
    have hpresent := (RecordKind.Holds.valid lawful_acceptedExchangeProposal hheld).toProposalTermsValid.id
    exact ⟨⟨hsource ▸ hpresent, hlength hsettles⟩,
      ⟨proposal, (hresolved.accepted.mem proposal).mpr hheld, hsource⟩, hnamed.mpr hsettles⟩

namespace Garden

open TimebankSettlement

/-- Ada and Ben settle their exchange, Cy and Ben have only attested theirs, and the reversal of the
first exchange names the proposal of the second. -/
def mislabelled : List (Publication transparentCrypto) :=
  [adaOffer.publication, cyOffer.publication, benRequest.publication] ++
    adaExchange.publications ++ cyExchange.publications.take 6 ++
    [adaExchange.reversalPublication (some "p1")]

theorem both_exchanges : ∀ exchange ∈ [adaExchange, cyExchange],
    exchange = adaExchange ∨ exchange = cyExchange := by simp

theorem published_of_mislabelled {publication : Publication transparentCrypto}
    (h : publication ∈ mislabelled) :
    (garden [adaExchange, cyExchange] both_exchanges).Published publication ∨
      publication = adaExchange.reversalPublication (some "p1") := by
  simp only [mislabelled, List.mem_append, List.mem_cons, List.not_mem_nil, or_false] at h
  rcases h with ((h | h) | h) | h
  · refine .inl (.inl ?_)
    rcases h with rfl | rfl | rfl
    · exact ⟨adaOffer, by simp [garden], rfl⟩
    · exact ⟨cyOffer, by simp [garden], rfl⟩
    · exact ⟨benRequest, by simp [garden], rfl⟩
  · exact .inl (.inr ⟨adaExchange, by simp [garden], h⟩)
  · exact .inl (.inr ⟨cyExchange, by simp [garden], List.mem_of_mem_take h⟩)
  · exact .inr h

/-- No other record of the garden has the id of the reversal. -/
theorem recordId_ne_reversal {publication : Publication transparentCrypto}
    (h : (garden [adaExchange, cyExchange] both_exchanges).Published publication) :
    recordIdOf publication.value ≠
      recordIdOf (adaExchange.reversalPublication (some "p1")).value := by
  obtain ⟨listing, hlisting, rfl⟩ | ⟨exchange, hexchange, hpublication⟩ := h
  · simp only [garden, List.mem_cons, List.not_mem_nil, or_false] at hlisting
    rcases hlisting with rfl | rfl | rfl <;> decide
  · obtain ⟨suffix, hsuffix, hid⟩ := exchange.recordId hpublication
    rw [hid]
    have hne : ∀ exchange ∈ [adaExchange, cyExchange], ∀ suffix ∈ exchange.suffixes,
        exchange.id ++ suffix ≠ "p2-reversal" := by decide +kernel
    exact hne exchange hexchange suffix hsuffix

theorem mislabelled_protocol : Protocol "garden" [ada, ben, cy] (· ∈ mislabelled) where
  toDistinctMembers := (garden [adaExchange, cyExchange] both_exchanges).distinctMembers
  present := by decide
  owners publication hpublication := by
    cases published_of_mislabelled hpublication with
    | inl h => exact (garden [adaExchange, cyExchange] both_exchanges).protocol.owners _ h
    | inr h =>
        subst h
        exact ⟨by simp [Exchange.reversalPublication, adaExchange, exchangeOf, benRequest,
          publicationOf], rfl⟩
  ids left right hleft hright hid := by
    cases published_of_mislabelled hleft with
    | inl hleft =>
        cases published_of_mislabelled hright with
        | inl hright => exact Community.publication_inj _ hleft hright hid
        | inr hright => exact absurd (hright ▸ hid) (recordId_ne_reversal hleft)
    | inr hleft =>
        cases published_of_mislabelled hright with
        | inl hright => exact absurd (hleft ▸ hid).symm (recordId_ne_reversal hright)
        | inr hright => exact hleft.trans hright.symm
  undeclared publication hpublication owner howner := by
    cases published_of_mislabelled hpublication with
    | inl h => exact (garden [adaExchange, cyExchange] both_exchanges).protocol.undeclared _ h _ howner
    | inr h =>
        subst h
        intro hid
        exact absurd (congrArg (·.toList.head?) hid) (by
          show "p2-reversal".toList.head? ≠ _
          simp [memberFeedRecordId])

theorem mislabelled_publishable {publication : Publication transparentCrypto}
    (h : publication ∈ mislabelled) :
    ∃ source, publication.PublishedAs (publication.owner, source) := by
  have hids : ∀ exchange ∈ [adaExchange, cyExchange], Text.blank exchange.id = false := by decide
  cases published_of_mislabelled h with
  | inl h =>
      obtain ⟨listing, -, rfl⟩ | ⟨exchange, hexchange, hpublication⟩ := h
      · exact listing.publishable
      · exact exchange.publishable (hids exchange hexchange) publication hpublication
  | inr h => exact h ▸ adaExchange.reversal_publishable (by decide) (some "p1")

section Histories

variable {histories : List MemberFeedHistory}
  (h : PublishedIn "garden" [ada, ben, cy] (· ∈ mislabelled) histories)

include h

/-- The records of an exchange refer to each other when all but its settlement are published. -/
theorem mislabelled_linked {exchange : Exchange transparentCrypto}
    (hpublished : ∀ publication ∈ exchange.publications.take 6, publication ∈ mislabelled)
    {authorizations : List (TimebankIdentity.MemberSigningKeyAuthorization transparentCrypto)}
    (hroots : ∀ owner ∈ [ada, ben, cy], RootAuthorized owner.stored "garden" authorizations) :
    ∀ publication ∈ exchange.publications,
      publication.value.Linked (histories.flatMap (·.records)) "garden" authorizations := by
  simp only [Exchange.publications, List.take_succ_cons, List.take_zero, List.forall_mem_cons]
    at hpublished
  obtain ⟨hproposed, haccepted, hprovider, hreceiver, -⟩ := hpublished
  have hagrees := exchange.accepted_agrees
  refine exchange.linked (mislabelled_protocol.owners _ haccepted).2
    ((h.holds_iff mislabelled_protocol carriesAs_acceptedProposal (by decide)).mpr
      ⟨_, haccepted, rfl⟩) ⟨?_, ?_⟩ ?_
    (hroots _ (mislabelled_protocol.owners _ hprovider).1)
    (hroots _ (mislabelled_protocol.owners _ hreceiver).1)
  · rw [hagrees.provider]
    exact (h.holds_iff mislabelled_protocol carriesAs_acknowledgement (by decide)).mpr
      ⟨_, hprovider, rfl⟩
  · rw [hagrees.receiver]
    exact (h.holds_iff mislabelled_protocol carriesAs_acknowledgement (by decide)).mpr
      ⟨_, hreceiver, rfl⟩
  · intro proposal hother hid
    exact RecordKind.Holds.unique (h.consistent mislabelled_protocol) hother
      ((h.holds_iff mislabelled_protocol carriesAs_proposedProposal (by decide)).mpr
        ⟨_, hproposed, rfl⟩) (hid.trans exchange.proposal_spec.1.id.symm)

theorem mislabelled_resolves :
    Succeeds (resolveTimebankMemberFeeds transparentCrypto compare "garden" histories) := by
  have hada : ∀ publication ∈ adaExchange.publications, publication ∈ mislabelled := by
    intro publication hmem
    simp [mislabelled, hmem]
  have hcy : ∀ publication ∈ cyExchange.publications.take 6, publication ∈ mislabelled := by
    intro publication hmem
    simp [mislabelled, hmem]
  refine h.resolves mislabelled_protocol fun authorizations hroots publication hpublication ↦ ?_
  cases published_of_mislabelled hpublication with
  | inl hpublished =>
      obtain ⟨listing, -, rfl⟩ | ⟨exchange, hexchange, hmem⟩ := hpublished
      · trivial
      · simp only [garden, List.mem_cons, List.not_mem_nil, or_false] at hexchange
        rcases hexchange with rfl | rfl
        · exact mislabelled_linked h (fun _ hmem ↦ hada _ (List.mem_of_mem_take hmem)) hroots _ hmem
        · exact mislabelled_linked h hcy hroots _ hmem
  | inr hreversal =>
      subst hreversal
      refine adaExchange.reversal_linked (some "p1") rfl ?_ (hroots ada (by simp))
        (hroots ben (by simp))
      have hsettled : ⟨adaExchange.settler, .transfer adaExchange.settlement, adaExchange.settledAt⟩ ∈
          mislabelled := hada _ (by simp [Exchange.publications])
      exact (h.holds_iff mislabelled_protocol carriesAs_transfer (by decide)).mpr
        ⟨_, hsettled, rfl⟩

/-- The ledger has the settlement of the first exchange and its reversal. -/
theorem mislabelled_transfer_iff {transfer : Transfer} :
    ledgerTransferRecords.Holds (histories.flatMap (·.records)) "garden" transfer ↔
      transfer ∈ [adaExchange.reversal (some "p1"), adaExchange.settlement] := by
  rw [h.holds_iff mislabelled_protocol carriesAs_transfer (by decide)]
  simp [mislabelled, Exchange.publications, ListingPublication.publication,
    Exchange.reversalPublication]
  tauto

end Histories

theorem shownAsItSettled_iff_garden :
    ∃ built state, memberFeeds compare (garden [adaExchange] (by simp)) = .ok built ∧
      resolveTimebankMemberFeeds transparentCrypto compare "garden" built = .ok state ∧
      (ShownAsItSettled state [] "p2" ↔
        (∀ reversal ∈ state.ledger.transfers, reversal.reversesTransferId ≠ none →
          reversal.sourceProposalId = some (.str "p2") → Settles state "p2") ∧
        (Settles state "p2" → (Text.utf16 "p2").length ≤ 512)) := by
  obtain ⟨built, hbuilt, hpublished⟩ :=
    @publishedIn_of_memberFeeds transparentCrypto compare (garden [adaExchange] (by simp))
  obtain ⟨state, hstate⟩ := @Community.resolves _ compare (garden [adaExchange] (by simp)) built
    (hpublished built ⟨fun _ ↦ Iff.rfl, fun _ _ ↦ Iff.rfl⟩)
  exact ⟨built, state, hbuilt, hstate, shownAsItSettled_iff hstate []⟩

/-- Feeds with these publications resolve, and the ledger has the settlement and its reversal. -/
theorem exists_mislabelled : ∃ histories state,
    PublishedIn "garden" [ada, ben, cy] (· ∈ mislabelled) histories ∧
      resolveTimebankMemberFeeds transparentCrypto compare "garden" histories = .ok state ∧
      ∀ transfer ∈ [adaExchange.reversal (some "p1"), adaExchange.settlement],
        transfer ∈ state.ledger.transfers := by
  obtain ⟨histories, hin⟩ := exists_publishedIn mislabelled_protocol fun _ ↦ mislabelled_publishable
  obtain ⟨state, hstate⟩ := mislabelled_resolves hin
  obtain ⟨-, -, -, hresolve⟩ := resolveTimebankMemberFeeds_eq_ok.mp hstate
  obtain ⟨hrecords, -, hresolved⟩ := resolved_of_eq_ok hresolve
  have hmem : ∀ transfer, transfer ∈ state.transfers ↔
      transfer ∈ [adaExchange.reversal (some "p1"), adaExchange.settlement] := fun transfer ↦
    (hresolved.transfers.mem transfer).trans (mislabelled_transfer_iff hin)
  -- the ledger is evaluated on the ids only, and an id has one transfer
  have hids : ∀ transfer ∈ [adaExchange.reversal (some "p1"), adaExchange.settlement],
      ∃ admitted ∈ state.ledger.transfers, admitted.id = transfer.id := by
    rw [hresolved.ledger, sortBy_transfers hresolved.transfers.nodup (by decide +kernel) hmem]
    decide +kernel
  refine ⟨histories, state, hin, hstate, fun transfer htransfer ↦ ?_⟩
  obtain ⟨admitted, hadmitted, hid⟩ := hids transfer htransfer
  have hsame : admitted = transfer := RecordKind.Holds.unique hrecords (hresolved.ledger_held hadmitted)
    ((mislabelled_transfer_iff hin).mpr htransfer) hid
  exact hsame ▸ hadmitted

/-- The reversal of the exchange of Ada and Ben marks the proposal of Cy and Ben as settled, and blocks
its settlement. -/
theorem reversal_shown_as_settlement :
    ∃ histories state,
      resolveTimebankMemberFeeds transparentCrypto compare "garden" histories = .ok state ∧
      .str "p1" ∈ (presentResolvedMemberState state []).settledProposalIds ∧
      advanceSettlementRequest state (.str "p1") = .error alreadyAdmittedMessage ∧
      ¬ Settles state "p1" := by
  obtain ⟨histories, state, hin, hstate, hadmitted⟩ := exists_mislabelled
  obtain ⟨-, -, -, hresolve⟩ := resolveTimebankMemberFeeds_eq_ok.mp hstate
  obtain ⟨-, -, hresolved⟩ := resolved_of_eq_ok hresolve
  have hnamed : ∃ transfer ∈ state.ledger.transfers,
      transfer.sourceProposalId = some (.str "p1") :=
    ⟨_, hadmitted _ List.mem_cons_self, rfl⟩
  refine ⟨histories, state, hstate, mem_settledProposalIds.mpr hnamed,
    advanceSettlementRequest_eq_alreadyAdmitted.mpr
      ⟨by decide, ⟨cyExchange.accepted, ?_, rfl⟩, hnamed⟩, ?_⟩
  · have haccepted : ⟨cyExchange.acceptor, .acceptedProposal cyExchange.accepted,
        cyExchange.acceptedAt⟩ ∈ mislabelled := by
      simp [mislabelled, Exchange.publications]
    exact (hresolved.accepted.mem _).mpr ((hin.holds_iff mislabelled_protocol
      carriesAs_acceptedProposal (by decide)).mpr ⟨_, haccepted, rfl⟩)
  · rintro ⟨transfer, htransfer, hordinary, hsource⟩
    have hheld := (mislabelled_transfer_iff hin).mp (hresolved.ledger_held htransfer)
    simp only [List.mem_cons, List.not_mem_nil, or_false] at hheld
    rcases hheld with rfl | rfl
    · exact absurd hordinary (by simp [Exchange.reversal, Exchange.reversalTerms])
    · exact absurd hsource (by decide)

end Garden

end PeerHours.Exchanges
