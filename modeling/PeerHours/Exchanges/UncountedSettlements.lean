import PeerHours.Exchanges.ReceiptLookups

/-!
# Settlements that are never counted

The id of a settlement is that of its proposal with a suffix, and the suffix has a slash, which a node refuses in the
id of a receipt. Whatever a desktop collects from nodes that run this software, it counts nothing for a settlement;
only the receipt of a reversal can count, whose id its author chooses.
-/

namespace PeerHours.Exchanges

open Checked Json
open Desktop Node PeerRuntime
open TimebankLedger (Transfer)
open TimebankRecords
open TimebankSettlement (settlementTerms)

variable {crypto : ReceiptCrypto} {localeCompare : String → String → Ordering}

/-- An entry that counts something was counted for a transfer and a pinned node whose lookup was answered so that it
counts. -/
theorem exists_counted_lookup {urls : LookupUrls} {fetchReceipt : String → Except String JsonValue → Prop}
    {community : CommunityManifest} (hnodup : (community.receiptNodes.map (·.nodeId)).Nodup)
    {transfers : List SettlementTransfer} {answers : Nat → Nat → Option (Except String JsonValue)}
    {entries : List VerifiedSettlementDurability}
    (hcollect : CollectVerifiedSettlementDurability crypto urls fetchReceipt (some community) transfers answers
      entries) {entry : VerifiedSettlementDurability} (hentry : entry ∈ entries)
    (hcounts : 0 < entry.verifiedPinnedReceiptCount) :
    ∃ shown ∈ transfers, shown.sourceProposalId = some entry.proposalId ∧ ∃ node ∈ community.receiptNodes,
      ∃ answer, lookupAnswers fetchReceipt (receiptLookupUrl urls node.receiptUrl shown.id) answer ∧
        countsFor crypto community shown node answer = true := by
  cases hcollect with
  | unavailable hnodes => exact absurd hentry List.not_mem_nil
  | @gathered manifest _ state hsome hnodes hrun hdone hentries =>
      cases hsome
      have hresult : some entry ∈ (List.range (settlementTransfers transfers).length).map state.results :=
        hentries ▸ List.mem_map_of_mem hentry
      obtain ⟨index, hindex, hstored⟩ := List.mem_map.mp hresult
      have hconsistent := WorkerPool.consistent_of_run (by decide) hrun
      obtain ⟨⟨shown, proposalId⟩, responses, hsettlement, hanswered, rfl⟩ :=
        hconsistent.stored index entry hstored
      have hshown := (List.take_subset _ _) (List.mem_of_getElem? hsettlement)
      obtain ⟨same, htransfer, hsource⟩ := List.mem_filterMap.mp hshown
      obtain ⟨_, hproposal, hpair⟩ := Option.map_eq_some_iff.mp hsource
      obtain ⟨rfl, rfl⟩ := Prod.mk.inj hpair
      -- a counted node has its place among the lookups of the transfer
      have hcount : 0 < (countedNodes crypto community same community.receiptNodes responses).length :=
        verifiedReceiptCount_eq hnodup same responses ▸ hcounts
      obtain ⟨node, hcounted⟩ := List.exists_mem_of_length_pos hcount
      obtain ⟨⟨_, answer⟩, hlookup, rfl⟩ := List.mem_map.mp hcounted
      obtain ⟨hzip, hanswer⟩ := List.mem_filter.mp hlookup
      obtain ⟨position, hposition⟩ := List.mem_iff_getElem?.mp hzip
      obtain ⟨hnode, hresponse⟩ := List.getElem?_zip_eq_some.mp hposition
      obtain ⟨hbound, rfl⟩ := List.getElem?_eq_some_iff.mp hresponse
      obtain ⟨input, request, hinput, hrequest, hfetch⟩ :=
        hconsistent.answered index position _ (hanswered.2 position hbound)
      obtain rfl := Option.some.inj (hsettlement.symm.trans hinput)
      have hrequested : (community.receiptNodes.map fun node ↦
          receiptLookupUrl urls node.receiptUrl same.id)[position]? = some request := hrequest
      rw [List.getElem?_map, hnode] at hrequested
      obtain rfl := Option.some.inj hrequested
      exact ⟨same, htransfer, hproposal, _, List.mem_of_getElem? hnode, _, hfetch, hanswer⟩

/-- Every fetched answer comes from the software of a node, or is a failure. -/
def AnsweredByNodes (crypto : ReceiptCrypto) (network : ReceiptNetwork)
    (localeCompare : String → String → Ordering) (fetchReceipt : String → Except String JsonValue → Prop) : Prop :=
  ∀ url answer, fetchReceipt url answer → (∃ message, answer = .error message) ∨
    ∃ provider : Option (ReplicationReceiptIssuer crypto),
      Serves provider localeCompare network.decoder (network.requestPath url) answer

/-- Where nodes answer, what counts for a transfer has an id that an issuer takes. -/
theorem validTransferId_of_countsFor {network : ReceiptNetwork} {payload : JsonValue}
    {community : CommunityManifest}
    (hmanifest : parseCommunityManifest crypto network.toUrlParser payload = .ok community)
    {fetchReceipt : String → Except String JsonValue → Prop}
    (hnodes : AnsweredByNodes crypto network localeCompare fetchReceipt) {shown : SettlementTransfer}
    {node : CommunityReceiptNode} (hnode : node ∈ community.receiptNodes) {answer : Except String JsonValue}
    (hanswer : lookupAnswers fetchReceipt (receiptLookupUrl network.toLookupUrls node.receiptUrl shown.id) answer)
    (hcounts : countsFor crypto community shown node answer = true) : validTransferId shown.id = true := by
  obtain ⟨hpinned, hnodup⟩ := pinned_of_parseCommunityManifest hmanifest
  obtain ⟨_, rfl, hattests⟩ := attests_of_countsFor hpinned hnodup hnode hcounts
  cases hurl : receiptLookupUrl network.toLookupUrls node.receiptUrl shown.id with
  | none =>
      rw [hurl] at hanswer
      obtain ⟨message, herror⟩ := hanswer
      cases herror
  | some url =>
      rw [hurl] at hanswer
      rcases hnodes url _ hanswer with ⟨message, herror⟩ | ⟨provider, hserves⟩
      · cases herror
      · obtain ⟨path, -, transferId, -, issuer, -, receipt, hreceipt, -, hsame⟩ :=
          receipt_of_serves hserves hcounts
        obtain rfl := Except.ok.inj hsame
        obtain ⟨hvalid, _, -, _, transfer, -, -, rfl, hcreated⟩ := exists_of_receiptFor hreceipt
        obtain ⟨-, rfl⟩ := createReplicationReceipt_receiptInput.mp hcreated
        have hid : transfer.id = shown.id := JsonValue.str.inj (Option.some.inj hattests.transfer)
        exact hid ▸ hvalid

/-- Whatever nodes retain and answer, and in whichever order, a desktop counts no receipt for a proposal that it
shows settled: an entry that counts something is about a reversal. -/
theorem settlements_uncounted {network : ReceiptNetwork} {payload : JsonValue} {community : CommunityManifest}
    (hmanifest : parseCommunityManifest crypto network.toUrlParser payload = .ok community)
    {fetchReceipt : String → Except String JsonValue → Prop}
    (hnodes : AnsweredByNodes crypto network localeCompare fetchReceipt)
    {communityId : String} {records : List JsonValue} {state : ResolvedTimebankState crypto.toCrypto}
    (hstate : resolveTimebankRecords crypto.toCrypto localeCompare communityId records = .ok state)
    {transfers : List SettlementTransfer}
    (htransfers : ∀ shown ∈ transfers, ∃ transfer ∈ state.ledger.transfers, shown.json = transfer.toJson)
    {answers : Nat → Nat → Option (Except String JsonValue)} {entries : List VerifiedSettlementDurability}
    (hcollect : CollectVerifiedSettlementDurability crypto network.toLookupUrls fetchReceipt (some community)
      transfers answers entries) {entry : VerifiedSettlementDurability} (hentry : entry ∈ entries)
    (hordinary : ∀ transfer ∈ state.ledger.transfers,
      transfer.sourceProposalId = some (.str entry.proposalId) → transfer.reversesTransferId = none) :
    entry.verifiedPinnedReceiptCount = 0 := by
  obtain ⟨-, hnodup⟩ := pinned_of_parseCommunityManifest hmanifest
  by_contra hpositive
  obtain ⟨shown, hshown, hproposal, node, hnode, answer, hanswer, hcounts⟩ :=
    exists_counted_lookup hnodup hcollect hentry (Nat.pos_of_ne_zero hpositive)
  have hvalid := validTransferId_of_countsFor hmanifest hnodes hnode hanswer hcounts
  obtain ⟨transfer, htransfer, hjson⟩ := htransfers shown hshown
  have hdescribes := (TimebankLedger.describes_properties transfer.toTransferTerms
    (.arr (transfer.attestations.map TimebankLedger.TransferAttestation.toJson))).1
  have hid : shown.id = transfer.id := by
    have hnamed := shown.id_eq
    rw [hjson] at hnamed
    exact JsonValue.str.inj (Option.some.inj (hnamed.symm.trans hdescribes.id))
  have hsource : transfer.sourceProposalId = some (.str entry.proposalId) := by
    have hnamed := shown.sourceProposalId_eq
    rw [hjson, hproposal] at hnamed
    exact hdescribes.sourceProposalId.symm.trans hnamed
  -- what settles a proposal has the suffix, and the suffix has a slash
  obtain ⟨-, hcoherent, hresolved⟩ := resolved_of_eq_ok hstate
  obtain ⟨proposal, -, -, hterms⟩ := hcoherent.settlements transfer (hresolved.ledger_held htransfer)
    (hordinary transfer htransfer hsource)
  have hslash : '/' ∈ shown.id.toList := by
    rw [hid, hterms, settlementTerms, String.toList_append]
    exact List.mem_append_right _ (by decide)
  exact (validTransferId_eq_true.mp hvalid).2.2.1 hslash

/-! ## A sample collection -/

/-- A desktop that shows one settlement asks one node, and is answered. -/
theorem collect_single {urls : LookupUrls} {fetchReceipt : String → Except String JsonValue → Prop}
    {community : CommunityManifest} {node : CommunityReceiptNode} (hnode : community.receiptNodes = [node])
    {shown : SettlementTransfer} {proposalId : String} (hproposal : shown.sourceProposalId = some proposalId)
    {answer : Except String JsonValue}
    (hanswer : lookupAnswers fetchReceipt (receiptLookupUrl urls node.receiptUrl shown.id) answer) :
    ∃ answers entry, CollectVerifiedSettlementDurability crypto urls fetchReceipt (some community) [shown] answers
      [entry] ∧ entry.proposalId = proposalId := by
  have hsettlements : settlementTransfers [shown] = [(shown, proposalId)] := by
    simp [settlementTransfers, hproposal, maxReceiptLookups]
  have hrequests : (durabilityTask crypto urls community).requests (shown, proposalId) =
      [receiptLookupUrl urls node.receiptUrl shown.id] := by
    show community.receiptNodes.map _ = _
    rw [hnode]
    rfl
  let started := @WorkerPool.initial (Except String JsonValue) VerifiedSettlementDurability 1 4
  let entry := (durabilityTask crypto urls community).settle (shown, proposalId) [answer]
  have hrespond : WorkerPool.Step (durabilityTask crypto urls community) (lookupAnswers fetchReceipt)
      (settlementTransfers [shown]) started (started.answer 0 0 answer) := by
    rw [hsettlements]
    exact .respond List.mem_cons_self rfl (by rw [hrequests]; rfl) hanswer rfl
  have hfinish : WorkerPool.Step (durabilityTask crypto urls community) (lookupAnswers fetchReceipt)
      (settlementTransfers [shown]) (started.answer 0 0 answer)
      ((started.answer 0 0 answer).store 1 0 0 entry) := by
    rw [hsettlements]
    refine @WorkerPool.Step.finish _ _ _ _ _ _ _ (started.answer 0 0 answer) 0 0 (shown, proposalId) [answer]
      rfl rfl ⟨by rw [hrequests]; rfl, fun position hposition ↦ ?_⟩
    obtain rfl : position = 0 := Nat.lt_one_iff.mp hposition
    rfl
  have hrun : WorkerPool.Run (durabilityTask crypto urls community) (lookupAnswers fetchReceipt)
      (settlementTransfers [shown]) receiptTransferLookupConcurrency
      ((started.answer 0 0 answer).store 1 0 0 entry) := by
    have hlength : (settlementTransfers [shown]).length = 1 := by rw [hsettlements]; rfl
    rw [WorkerPool.Run, hlength]
    exact .tail (.single hrespond) hfinish
  refine ⟨_, entry, .gathered rfl (by rw [hnode]; exact List.cons_ne_nil _ _) hrun
    (fun worker hworker ↦ List.mem_singleton.mp hworker) ?_, rfl⟩
  rw [hsettlements]
  rfl

/-- A node that is asked answers the lookup. -/
theorem lookupAnswers_of_looksUp {network : ReceiptNetwork} {provider : Option (ReplicationReceiptIssuer crypto)}
    {receiptUrl transferId : String} {answer : Except String JsonValue}
    (h : LooksUp network provider localeCompare receiptUrl transferId answer) :
    lookupAnswers (fun url answer ↦
        Serves provider localeCompare network.decoder (network.requestPath url) answer)
      (receiptLookupUrl network.toLookupUrls receiptUrl transferId) answer := by
  unfold LooksUp at h
  cases hurl : receiptLookupUrl network.toLookupUrls receiptUrl transferId with
  | none =>
      rw [hurl] at h
      exact h
  | some url =>
      rw [hurl] at h
      exact h

/-- A desktop that shows one settlement collects something from one node. -/
theorem exists_collected {network : ReceiptNetwork} (provider : Option (ReplicationReceiptIssuer crypto))
    {community : CommunityManifest} {node : CommunityReceiptNode} (hnode : community.receiptNodes = [node])
    {shown : SettlementTransfer} {proposalId : String} (hproposal : shown.sourceProposalId = some proposalId) :
    ∃ answers entry, CollectVerifiedSettlementDurability crypto network.toLookupUrls
      (fun url answer ↦ Serves provider localeCompare network.decoder (network.requestPath url) answer)
      (some community) [shown] answers [entry] := by
  obtain ⟨answer, hanswer⟩ := @exists_looksUp _ localeCompare network provider node.receiptUrl shown.id
  obtain ⟨answers, entry, hcollect, -⟩ :=
    @collect_single crypto _ _ _ _ hnode _ _ hproposal _ (lookupAnswers_of_looksUp hanswer)
  exact ⟨answers, entry, hcollect⟩

namespace Garden

/-- Ada's hours with Ben stay uncounted although the only pinned node retains them. -/
theorem settlements_uncounted_garden : ∃ (records : List JsonValue) (shown : SettlementTransfer)
    (localeCompare : String → String → Ordering) (answers : Nat → Nat → Option (Except String JsonValue))
    (entry : VerifiedSettlementDurability), shown.json = adaExchange.settlement.toJson ∧
      CollectVerifiedSettlementDurability sampleCrypto sampleLookupUrls
        (fun url answer ↦ Serves (some (gardenIssuer records)) localeCompare sampleDecoder (samplePath url) answer)
        (some (sampleManifest receiptsPath)) [shown] answers [entry] ∧
      entry.verifiedPinnedReceiptCount = 0 := by
  obtain ⟨histories, state, -, hfeeds, hledger⟩ := garden_settles
  obtain ⟨-, -, -, hstate⟩ := resolveTimebankMemberFeeds_eq_ok.mp hfeeds
  obtain ⟨records, hrecords⟩ : ∃ records, records = histories.flatMap (·.records) := ⟨_, rfl⟩
  rw [← hrecords] at hstate
  obtain ⟨shown, hjson, -, hproposal⟩ := exists_shown_settlement
  obtain ⟨answers, entry, hcollect⟩ := @exists_collected sampleCrypto compare sampleNetwork
    (some (gardenIssuer records)) (sampleManifest receiptsPath) _ rfl shown _ hproposal
  have hnodes : AnsweredByNodes sampleCrypto sampleNetwork compare fun url answer ↦
      Serves (some (gardenIssuer records)) compare sampleDecoder (samplePath url) answer :=
    fun _ _ hserves ↦ .inr ⟨_, hserves⟩
  have hshown (other : SettlementTransfer) (hother : other ∈ [shown]) :
      ∃ transfer ∈ state.ledger.transfers, other.json = transfer.toJson :=
    ⟨_, hledger ▸ List.mem_singleton_self _, List.mem_singleton.mp hother ▸ hjson⟩
  have hcount := @settlements_uncounted sampleCrypto compare sampleNetwork _ _ parse_gardenManifest _ hnodes
    "garden" records state hstate _ hshown _ _ hcollect entry List.mem_cons_self fun transfer htransfer _ ↦ by
      rw [hledger] at htransfer
      rw [List.mem_singleton.mp htransfer]
      rfl
  exact ⟨records, shown, compare, answers, entry, hjson, hcollect, hcount⟩

end Garden

end PeerHours.Exchanges
