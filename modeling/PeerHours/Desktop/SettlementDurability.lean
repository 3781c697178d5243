import Mathlib.Data.List.Dedup
import PeerHours.Library.WorkerPool
import PeerHours.Runtime.BootstrapAgreement

/-!
# Durability of settlements

The desktop asks every pinned node of its community for a receipt of each settlement, a few settlements at a
time, and counts the receipts that verify. What the nodes answer, and in which order, is not trusted.
-/

namespace PeerHours.Desktop

open Checked Json PeerRuntime

/-! ## Lookup addresses -/

/-- The WHATWG parser, and the serialization of an address with another path and no query. -/
structure LookupUrls extends UrlParser where
  withPath : WebUrl → String → String

/-- A character that `encodeURIComponent` keeps. -/
def isUnreserved (c : Char) : Bool :=
  c.isAlphanum || "-_.!~*'()".toList.contains c

/-- `encodeURIComponent`. -/
def encodeURIComponent (text : String) : String :=
  String.ofList (text.toList.flatMap fun c ↦
    if isUnreserved c then [c] else Hex.percentEncode (utf8 (String.singleton c)))

/-- The path without a slash at its end. -/
def withoutTrailingSlash (path : String) : String :=
  if Text.endsWith path "/" then String.ofList path.toList.dropLast else path

variable (crypto : ReceiptCrypto) (urls : LookupUrls)

/-- Appends a transfer identifier to the pinned read-only receipt collection URL. -/
def receiptLookupUrl (receiptUrl transferId : String) : Option String := do
  let url ← urls.parse receiptUrl
  pure (urls.withPath url (withoutTrailingSlash url.pathname ++ "/" ++ encodeURIComponent transferId))

/-! ## Counting -/

/-- The transfer shape used for lookup selection, with all the terms that a receipt is bound to. -/
structure SettlementTransfer where
  json : JsonValue
  id : String
  sourceProposalId : Option String
  id_eq : json.field "id" = some (.str id)
  sourceProposalId_eq : json.field "sourceProposalId" = sourceProposalId.map .str

/-- The receipt outcome of one settlement. -/
structure VerifiedSettlementDurability where
  proposalId : String
  verifiedPinnedReceiptCount : Nat

def maxReceiptLookups : Nat := 256

def receiptTransferLookupConcurrency : Nat := 4

/-- The transfers that settle a proposal, with the proposal, up to the limit. -/
def settlementTransfers (transfers : List SettlementTransfer) : List (SettlementTransfer × String) :=
  (transfers.filterMap fun transfer ↦
    transfer.sourceProposalId.map (transfer, ·)).take maxReceiptLookups

/-- Ensures one receipt URL cannot replay another pinned node's valid availability statement. -/
def receiptClaimsPinnedNode (receipt : JsonValue) (nodeId : String) : Bool :=
  receipt.isObject && decide (receipt.field "nodeId" = some (.str nodeId))

/-- The answer to one lookup counts for the node. -/
def countsFor (community : CommunityManifest) (transfer : SettlementTransfer)
    (node : CommunityReceiptNode) : Except String JsonValue → Bool
  | .ok receipt => receiptClaimsPinnedNode receipt node.nodeId &&
      verifyReplicationReceipt crypto receipt community.receiptNodes community.communityId transfer.id
        (replicationReceiptTransferDigest crypto transfer.json)
  | .error _ => false

/-- The number of distinct nodes whose answers count. -/
def verifiedReceiptCount (community : CommunityManifest) (transfer : SettlementTransfer)
    (answers : List (Except String JsonValue)) : Nat :=
  let receipts := List.zipWith (fun node answer ↦
    if countsFor crypto community transfer node answer then some node.nodeId else none)
    community.receiptNodes answers
  (receipts.filterMap id).dedup.length

/-- The lookups of one settlement, and what they add up to. -/
def durabilityTask (community : CommunityManifest) : WorkerPool.Task (SettlementTransfer × String)
    (Option String) (Except String JsonValue) VerifiedSettlementDurability where
  requests settlement := community.receiptNodes.map fun node ↦
    receiptLookupUrl urls node.receiptUrl settlement.1.id
  settle settlement answers :=
    ⟨settlement.2, verifiedReceiptCount crypto community settlement.1 answers⟩

/-- What a lookup may be answered: what the fetcher may return for its address, or the failure to build
one. -/
def lookupAnswers (fetchReceipt : String → Except String JsonValue → Prop) :
    Option String → Except String JsonValue → Prop
  | some url, answer => fetchReceipt url answer
  | none, answer => ∃ message, answer = .error message

/-- The answers to the lookups, by settlement and node, and the durability that
`collectVerifiedSettlementDurability` returns for them. -/
inductive CollectVerifiedSettlementDurability (fetchReceipt : String → Except String JsonValue → Prop)
    (community : Option CommunityManifest) (transfers : List SettlementTransfer) :
    (Nat → Nat → Option (Except String JsonValue)) → List VerifiedSettlementDurability → Prop where
  | unavailable (hnodes : ∀ manifest ∈ community, manifest.receiptNodes = []) :
      CollectVerifiedSettlementDurability fetchReceipt community transfers (fun _ _ ↦ none) []
  | gathered {manifest : CommunityManifest} {entries : List VerifiedSettlementDurability}
      {state : WorkerPool.State (Except String JsonValue) VerifiedSettlementDurability}
      (hcommunity : community = some manifest) (hnodes : manifest.receiptNodes ≠ [])
      (hrun : WorkerPool.Run (durabilityTask crypto urls manifest) (lookupAnswers fetchReceipt)
        (settlementTransfers transfers) receiptTransferLookupConcurrency state)
      (hdone : state.Done)
      (hentries : entries.map some =
        (List.range (settlementTransfers transfers).length).map state.results) :
      CollectVerifiedSettlementDurability fetchReceipt community transfers state.responses entries

variable {crypto urls}

/-! ## Exact counts -/

variable (crypto) in
/-- The nodes whose answers count. -/
def countedNodes (community : CommunityManifest) (transfer : SettlementTransfer)
    (nodes : List CommunityReceiptNode) (answers : List (Except String JsonValue)) :
    List CommunityReceiptNode :=
  ((nodes.zip answers).filter fun lookup ↦ countsFor crypto community transfer lookup.1 lookup.2).map
    (·.1)

theorem countedNodes_sublist (community : CommunityManifest) (transfer : SettlementTransfer)
    (nodes : List CommunityReceiptNode) (answers : List (Except String JsonValue)) :
    (countedNodes crypto community transfer nodes answers).Sublist nodes := by
  have hzip : ((nodes.zip answers).map (·.1)).Sublist nodes := by
    induction nodes generalizing answers with
    | nil => exact List.nil_sublist _
    | cons node rest ih =>
        cases answers with
        | nil => exact List.nil_sublist _
        | cons answer others => exact (ih others).cons_cons node
  exact (List.filter_sublist.map _).trans hzip

/-- The counted identifiers are those of the counted nodes. -/
theorem filterMap_zipWith (community : CommunityManifest) (transfer : SettlementTransfer)
    (nodes : List CommunityReceiptNode) (answers : List (Except String JsonValue)) :
    (List.zipWith (fun node answer ↦
        if countsFor crypto community transfer node answer then some node.nodeId else none)
      nodes answers).filterMap id =
      (countedNodes crypto community transfer nodes answers).map (·.nodeId) := by
  induction nodes generalizing answers with
  | nil => rfl
  | cons node rest ih =>
      cases answers with
      | nil => rfl
      | cons answer others =>
          rw [List.zipWith_cons_cons]
          unfold countedNodes at ih ⊢
          by_cases hcounts : countsFor crypto community transfer node answer = true
          · simpa [hcounts] using ih others
          · simpa [hcounts] using ih others

/-- Nodes with identities of their own are counted once each. -/
theorem verifiedReceiptCount_eq {community : CommunityManifest}
    (hnodup : (community.receiptNodes.map (·.nodeId)).Nodup) (transfer : SettlementTransfer)
    (answers : List (Except String JsonValue)) :
    verifiedReceiptCount crypto community transfer answers =
      (countedNodes crypto community transfer community.receiptNodes answers).length := by
  have hcounted := (@countedNodes_sublist crypto community transfer
    community.receiptNodes answers).map (·.nodeId)
  show ((List.zipWith _ community.receiptNodes answers).filterMap id).dedup.length = _
  rw [filterMap_zipWith, (hnodup.sublist hcounted).dedup, List.length_map]

/-- A node is counted exactly when the answer to its own lookup counts. -/
theorem mem_countedNodes {community : CommunityManifest} {transfer : SettlementTransfer}
    {nodes : List CommunityReceiptNode} {answers : List (Except String JsonValue)}
    (hnodup : nodes.Nodup) {position : Nat} {node : CommunityReceiptNode}
    {answer : Except String JsonValue} (hnode : nodes[position]? = some node)
    (hanswer : answers[position]? = some answer) :
    node ∈ countedNodes crypto community transfer nodes answers ↔
      countsFor crypto community transfer node answer = true := by
  constructor
  · intro hmem
    obtain ⟨⟨same, other⟩, hlookup, rfl⟩ := List.mem_map.mp hmem
    obtain ⟨hzip, hcounts⟩ := List.mem_filter.mp hlookup
    obtain ⟨position', hposition'⟩ := List.mem_iff_getElem?.mp hzip
    rw [List.getElem?_zip_eq_some] at hposition'
    obtain ⟨hbound, -⟩ := List.getElem?_eq_some_iff.mp hnode
    obtain rfl : position = position' :=
      (List.getElem?_inj hbound hnodup).mp (hnode.trans hposition'.1.symm)
    cases hanswer.symm.trans hposition'.2
    exact hcounts
  · intro hcounts
    refine List.mem_map.mpr ⟨(node, answer), List.mem_filter.mpr ⟨?_, hcounts⟩, rfl⟩
    exact List.mem_iff_getElem?.mpr ⟨position, List.getElem?_zip_eq_some.mpr ⟨hnode, hanswer⟩⟩

/-! ## Soundness -/

variable (crypto) in
/-- The digest tells the two contents apart. -/
def CollisionFree (left right : JsonValue) : Prop :=
  crypto.sha256 (utf8 (canonicalJson left)) = crypto.sha256 (utf8 (canonicalJson right)) →
    utf8 (canonicalJson left) = utf8 (canonicalJson right)

/-- Contents with one digest are the same data, up to the order of properties. -/
theorem sortKeys_eq_of_digest {left right : JsonValue}
    (h : replicationReceiptTransferDigest crypto left = replicationReceiptTransferDigest crypto right)
    (hcollision : CollisionFree crypto left right) : sortKeys left = sortKeys right := by
  have hbytes := hcollision (Hex.encode_inj.mp h)
  exact stringify_inj.mp (utf8_inj.mp hbytes)

/-- An answer that counts for a pinned node attests for it. -/
theorem attests_of_countsFor {community : CommunityManifest} {transfer : SettlementTransfer}
    {node : CommunityReceiptNode} {answer : Except String JsonValue}
    (hpinned : ∀ node ∈ community.receiptNodes, PinnedNode crypto urls.toUrlParser node)
    (hnodup : (community.receiptNodes.map (·.nodeId)).Nodup) (hnode : node ∈ community.receiptNodes)
    (h : countsFor crypto community transfer node answer = true) :
    ∃ receipt, answer = .ok receipt ∧ Attests crypto receipt node community.communityId transfer.id
      (replicationReceiptTransferDigest crypto transfer.json) := by
  cases answer with
  | error message => exact absurd h (by simp [countsFor])
  | ok receipt =>
      obtain ⟨hclaims, hverify⟩ := Bool.and_eq_true_iff.mp h
      have hnames := of_decide_eq_true (Bool.and_eq_true_iff.mp hclaims).2
      have hattests := attests_of_verifies hpinned hnodup hnode hnames hverify
      rw [replicationReceiptTransferDigest, Hex.toLower_encode] at hattests
      exact ⟨receipt, rfl, hattests⟩

/-- A receipt that the node created for the settlement counts for it. -/
theorem countsFor_created {community : CommunityManifest} {transfer : SettlementTransfer}
    {node : CommunityReceiptNode} (hnode : node ∈ community.receiptNodes)
    (hpinned : PinnedNode crypto urls.toUrlParser node)
    {input : CreateReplicationReceiptInput} {receipt : SignedReplicationReceipt crypto}
    (hcreated : createReplicationReceipt input = .ok receipt)
    (hcommunity : input.communityId = community.communityId) (htransfer : input.transferId = transfer.id)
    (hdigest : input.transferDigest = replicationReceiptTransferDigest crypto transfer.json)
    (hkey : receipt.key.publicKey = node.publicKey) (hsign : SignsFor receipt.key input.sign) :
    countsFor crypto community transfer node (.ok receipt.toJson) = true := by
  obtain ⟨⟨key, hid, hpublic⟩, -⟩ := hpinned
  have hsame : receipt.key = key := publicKey_inj.mp (hkey.trans hpublic)
  have hnodeId : receipt.key.nodeId = node.nodeId := by rw [hsame, hid]
  have hverify := verifies_created hcreated hsign hnode hnodeId hkey
  rw [hcommunity, htransfer, hdigest] at hverify
  refine Bool.and_eq_true_iff.mpr ⟨Bool.and_eq_true_iff.mpr ⟨rfl, decide_eq_true ?_⟩, hverify⟩
  exact congrArg (fun text ↦ some (JsonValue.str text)) hnodeId

variable (crypto urls) in
/-- What a count says about the answers to the lookups of one settlement: which pinned nodes it counts, what
each of them returned, and that it misses none that returned a receipt of its own. -/
structure SoundCount (fetchReceipt : String → Except String JsonValue → Prop)
    (community : CommunityManifest) (transfer : SettlementTransfer)
    (answers : Nat → Option (Except String JsonValue)) (counted : List CommunityReceiptNode) :
    Prop where
  pinned : counted.Sublist community.receiptNodes
  distinct : (counted.map (·.nodeId)).Nodup
  attested : ∀ node ∈ counted, ∃ url receipt,
    receiptLookupUrl urls node.receiptUrl transfer.id = some url ∧ fetchReceipt url (.ok receipt) ∧
      Attests crypto receipt node community.communityId transfer.id
        (replicationReceiptTransferDigest crypto transfer.json) ∧
      ∀ other otherNode communityId transferId, CollisionFree crypto other transfer.json →
        Attests crypto receipt otherNode communityId transferId
          (replicationReceiptTransferDigest crypto other) →
        otherNode.nodeId = node.nodeId ∧ communityId = community.communityId ∧
          transferId = transfer.id ∧ sortKeys other = sortKeys transfer.json
  complete : ∀ position node, community.receiptNodes[position]? = some node →
    ∀ (input : CreateReplicationReceiptInput) (receipt : SignedReplicationReceipt crypto),
      createReplicationReceipt input = .ok receipt → input.communityId = community.communityId →
      input.transferId = transfer.id →
      input.transferDigest = replicationReceiptTransferDigest crypto transfer.json →
      receipt.key.publicKey = node.publicKey → SignsFor receipt.key input.sign →
      answers position = some (.ok receipt.toJson) → node ∈ counted

/-- The counts of a finished run are sound. -/
theorem soundCount_of_run {fetchReceipt : String → Except String JsonValue → Prop}
    {community : CommunityManifest}
    (hpinned : ∀ node ∈ community.receiptNodes, PinnedNode crypto urls.toUrlParser node)
    (hnodup : (community.receiptNodes.map (·.nodeId)).Nodup)
    {settlements : List (SettlementTransfer × String)}
    {state : WorkerPool.State (Except String JsonValue) VerifiedSettlementDurability}
    (hrun : WorkerPool.Run (durabilityTask crypto urls community) (lookupAnswers fetchReceipt)
      settlements receiptTransferLookupConcurrency state)
    {index : Nat} {settlement : SettlementTransfer × String}
    (hsettlement : settlements[index]? = some settlement) {responses : List (Except String JsonValue)}
    (hanswered : WorkerPool.Answered (durabilityTask crypto urls community) state index settlement
      responses) :
    SoundCount crypto urls fetchReceipt community settlement.1 (state.responses index)
      (countedNodes crypto community settlement.1 community.receiptNodes responses) := by
  have hsublist := @countedNodes_sublist crypto community settlement.1 community.receiptNodes responses
  have hlength : responses.length = community.receiptNodes.length :=
    hanswered.1.trans (List.length_map _)
  -- the answer that the pool gave to the lookup of a node
  have hlookup {position : Nat} {node : CommunityReceiptNode}
      (hnode : community.receiptNodes[position]? = some node) : ∃ answer,
      state.responses index position = some answer ∧
        (node ∈ countedNodes crypto community settlement.1 community.receiptNodes responses ↔
          countsFor crypto community settlement.1 node answer = true) := by
    obtain ⟨hbound, -⟩ := List.getElem?_eq_some_iff.mp hnode
    have hposition : position < responses.length := hlength ▸ hbound
    exact ⟨responses[position], hanswered.2 position hposition,
      mem_countedNodes hnodup.of_map hnode (List.getElem?_eq_getElem hposition)⟩
  refine ⟨hsublist, hnodup.sublist (hsublist.map _), fun node hnode ↦ ?_,
    fun position node hnode input receipt hcreated hcommunity htransfer hdigest hkey hsign hreturned ↦ ?_⟩
  · have hmem := hsublist.subset hnode
    obtain ⟨position, hposition⟩ := List.mem_iff_getElem?.mp hmem
    obtain ⟨answer, hanswer, hcounted⟩ := hlookup hposition
    obtain ⟨receipt, rfl, hattests⟩ := attests_of_countsFor hpinned hnodup hmem (hcounted.mp hnode)
    obtain ⟨same, request, hsame, hrequest, hfetch⟩ :=
      (WorkerPool.consistent_of_run (by decide) hrun).answered index position _ hanswer
    cases hsettlement.symm.trans hsame
    change (community.receiptNodes.map _)[position]? = some request at hrequest
    rw [List.getElem?_map, hposition] at hrequest
    obtain rfl : receiptLookupUrl urls node.receiptUrl settlement.1.id = request :=
      Option.some.inj hrequest
    cases hurl : receiptLookupUrl urls node.receiptUrl settlement.1.id with
    | none =>
        rw [hurl] at hfetch
        obtain ⟨message, herror⟩ := hfetch
        cases herror
    | some url =>
        rw [hurl] at hfetch
        refine ⟨url, receipt, rfl, hfetch, hattests, fun other otherNode _ _ hcollision hother ↦ ?_⟩
        obtain ⟨hid, hcommunity, htransfer, hdigest⟩ := hother.terms_eq hattests
        exact ⟨hid, hcommunity, htransfer, sortKeys_eq_of_digest hdigest hcollision⟩
  · obtain ⟨answer, hanswer, hcounted⟩ := hlookup hnode
    cases hreturned.symm.trans hanswer
    have hmem := List.mem_iff_getElem?.mpr ⟨position, hnode⟩
    exact hcounted.mpr (countsFor_created hmem (hpinned node hmem) hcreated hcommunity htransfer hdigest
      hkey hsign)

/-- Results that are all there make up a list. -/
theorem map_some_filterMap {α β : Type} {f : α → Option β} {values : List α}
    (h : ∀ value ∈ values, f value ≠ none) : (values.filterMap f).map some = values.map f := by
  induction values with
  | nil => rfl
  | cons value rest ih =>
      rw [List.forall_mem_cons] at h
      obtain ⟨result, hresult⟩ := Option.ne_none_iff_exists'.mp h.1
      rw [List.filterMap_cons_some hresult, List.map_cons, List.map_cons, ih h.2, hresult]

/-- A finished run returns one entry for each settlement. -/
theorem entries_of_run {fetchReceipt : String → Except String JsonValue → Prop}
    {manifest : CommunityManifest} {transfers : List SettlementTransfer}
    {state : WorkerPool.State (Except String JsonValue) VerifiedSettlementDurability}
    (hnodes : manifest.receiptNodes ≠ [])
    (hrun : WorkerPool.Run (durabilityTask crypto urls manifest) (lookupAnswers fetchReceipt)
      (settlementTransfers transfers) receiptTransferLookupConcurrency state) (hdone : state.Done) :
    ∃ entries, CollectVerifiedSettlementDurability crypto urls fetchReceipt (some manifest) transfers
      state.responses entries := by
  refine ⟨_, .gathered rfl hnodes hrun hdone (map_some_filterMap fun index hindex ↦ ?_)⟩
  obtain ⟨responses, -, hstored⟩ := WorkerPool.settled_of_run (by decide) hrun hdone
    (List.getElem?_eq_getElem (List.mem_range.mp hindex))
  simp [hstored]

/-- Every returned count is exact, whatever the nodes answer and in whichever order: it counts distinct
pinned nodes that attested to the settlement at their own address, and every pinned node that returned a
receipt created for it. -/
theorem durability_sound {fetchReceipt : String → Except String JsonValue → Prop} {payload : JsonValue}
    {community : CommunityManifest}
    (hcommunity : parseCommunityManifest crypto urls.toUrlParser payload = .ok community)
    {transfers : List SettlementTransfer} {answers : Nat → Nat → Option (Except String JsonValue)}
    {entries : List VerifiedSettlementDurability}
    (hcollect : CollectVerifiedSettlementDurability crypto urls fetchReceipt (some community) transfers
      answers entries) {index : Nat} {entry : VerifiedSettlementDurability}
    (hentry : entries[index]? = some entry) :
    ∃ transfer counted, (settlementTransfers transfers)[index]? = some (transfer, entry.proposalId) ∧
      SoundCount crypto urls fetchReceipt community transfer (answers index) counted ∧
      entry.verifiedPinnedReceiptCount = counted.length ∧
      counted.length ≤ community.receiptNodes.length := by
  obtain ⟨hpinned, hnodup⟩ := pinnedNodes_of_validReceiptNodes
    (parseCommunityManifest_eq_ok.mp hcommunity).receiptNodes
  cases hcollect with
  | unavailable hnodes => exact absurd hentry (by simp)
  | @gathered manifest _ state hsome hnodes hrun hdone hentries =>
      cases hsome
      have hresult : ((List.range (settlementTransfers transfers).length).map state.results)[index]? =
          some (some entry) := by
        rw [← hentries, List.getElem?_map, hentry]
        rfl
      have hindex : index < (settlementTransfers transfers).length := by
        obtain ⟨hbound, -⟩ := List.getElem?_eq_some_iff.mp hresult
        rwa [List.length_map, List.length_range] at hbound
      rw [List.getElem?_map, List.getElem?_range hindex] at hresult
      have hsettlement := List.getElem?_eq_getElem hindex
      obtain ⟨responses, hanswered, hstored⟩ :=
        WorkerPool.settled_of_run (by decide) hrun hdone hsettlement
      obtain rfl := Option.some.inj (hstored.symm.trans (Option.some.inj hresult))
      have hsound := soundCount_of_run hpinned hnodup hrun hsettlement hanswered
      exact ⟨_, _, hsettlement, hsound, verifiedReceiptCount_eq hnodup _ responses,
        hsound.pinned.length_le⟩

/-! ## A sample settlement -/

/-- The sample addresses with another path. -/
def sampleLookupUrls : LookupUrls :=
  { sampleUrls with withPath := fun _ path ↦ "http://node.example" ++ path }

/-- A settled transfer. -/
def sampleTransfer : SettlementTransfer where
  json := .obj [("id", .str "proposal/settlement"), ("sourceProposalId", .str "proposal")]
  id := "proposal/settlement"
  sourceProposalId := some "proposal"
  id_eq := rfl
  sourceProposalId_eq := rfl

/-- What the receipt of the sample node is created from. -/
def sampleReceiptInput : CreateReplicationReceiptInput where
  communityId := "garden"
  transferId := "proposal/settlement"
  transferDigest := replicationReceiptTransferDigest sampleCrypto sampleTransfer.json
  retainedAt := "2026-01-01T00:00:00.000Z"
  sign := fun _ ↦ List.replicate 64 0
  publicKey := (sampleKey 0).publicKey

/-- The receipt of the sample node. -/
def sampleReceipt : SignedReplicationReceipt sampleCrypto where
  communityId := "garden"
  transferId := "proposal/settlement"
  transferDigest := replicationReceiptTransferDigest sampleCrypto sampleTransfer.json
  retainedAt := "2026-01-01T00:00:00.000Z"
  key := sampleKey 0
  signature := Base64Url.encode (List.replicate 64 0)

theorem createReplicationReceipt_sample :
    createReplicationReceipt sampleReceiptInput = .ok sampleReceipt := by
  have hdigest : Hex.isKey sampleReceiptInput.transferDigest = true :=
    Hex.isKey_encode (sampleCrypto.length_sha256 _)
  simp only [createReplicationReceipt, validTimestamp, bind_eq_ok, require_eq_ok, pure_eq_ok,
    requiredText_eq_ok, sha256Hex_eq_ok, exists_const]
  exact ⟨_, ⟨rfl, by decide, by decide⟩, _, ⟨rfl, by decide, by decide⟩, _,
    ⟨hdigest, Hex.toLower_encode _⟩, _, ⟨by decide, rfl⟩, _, decodePublicKey_publicKey _, rfl⟩

/-- The sample node returns its receipt, and it is counted. -/
theorem durability_sample :
    ∃ answers entry, CollectVerifiedSettlementDurability sampleCrypto sampleLookupUrls
        (fun _ answer ↦ answer = .ok sampleReceipt.toJson) (some (sampleManifest receiptsPath))
        [sampleTransfer] answers [entry] ∧ entry.verifiedPinnedReceiptCount = 1 := by
  have hpath : ∀ c ∈ receiptsPath, (inPath c || decide (0x80 ≤ c.toNat)) = true :=
    List.all_eq_true.mp rfl
  have hbuilt := createBootstrapManifest_builtFrom (createBootstrapManifest_sample hpath (by decide))
  have hcommunity : parseCommunityManifest sampleCrypto sampleLookupUrls.toUrlParser
      (sampleManifest receiptsPath).toJson = .ok (sampleManifest receiptsPath) :=
    hbuilt.normal.parse_toJson.mpr bounded_sampleManifest
  have hpinned := pinnedNode_sampleNode 0
  let community := sampleManifest receiptsPath
  let fetchReceipt : String → Except String JsonValue → Prop :=
    fun _ answer ↦ answer = .ok sampleReceipt.toJson
  let started := @WorkerPool.initial (Except String JsonValue) VerifiedSettlementDurability 1 4
  let answered := started.answer 0 0 (.ok sampleReceipt.toJson)
  let entry : VerifiedSettlementDurability := ⟨"proposal",
    verifiedReceiptCount sampleCrypto community sampleTransfer [.ok sampleReceipt.toJson]⟩
  let finished := answered.store 1 0 0 entry
  have hrespond : WorkerPool.Step (durabilityTask sampleCrypto sampleLookupUrls community)
      (lookupAnswers fetchReceipt) (settlementTransfers [sampleTransfer]) started answered := by
    obtain ⟨-, url, hparse, -⟩ := hpinned
    refine .respond List.mem_cons_self rfl rfl ?_ rfl
    show lookupAnswers fetchReceipt (receiptLookupUrl sampleLookupUrls _ _) _
    rw [receiptLookupUrl, show sampleLookupUrls.parse = sampleUrls.parse from rfl, hparse]
    rfl
  have hfinish : WorkerPool.Step (durabilityTask sampleCrypto sampleLookupUrls community)
      (lookupAnswers fetchReceipt) (settlementTransfers [sampleTransfer]) answered finished := by
    refine @WorkerPool.Step.finish _ _ _ _ _ _ _ answered 0 0 (sampleTransfer, "proposal")
      [.ok sampleReceipt.toJson] rfl rfl ⟨rfl, ?_⟩
    intro position hposition
    obtain rfl : position = 0 := Nat.lt_one_iff.mp hposition
    rfl
  have hcollect : CollectVerifiedSettlementDurability sampleCrypto sampleLookupUrls fetchReceipt
      (some community) [sampleTransfer] finished.responses [entry] :=
    .gathered rfl (List.cons_ne_nil _ _) (.tail (.single hrespond) hfinish)
      (fun worker hworker ↦ List.mem_singleton.mp hworker) rfl
  obtain ⟨transfer, counted, htransfer, hsound, hcount, hlength⟩ :=
    @durability_sound sampleCrypto sampleLookupUrls fetchReceipt _ community hcommunity _ _ _ hcollect 0
      entry rfl
  cases htransfer
  have hmem := hsound.complete 0 (sampleNode 0) rfl sampleReceiptInput sampleReceipt
    createReplicationReceipt_sample rfl rfl rfl rfl (signsFor_sampleKey 0) rfl
  have hpositive := List.length_pos_of_mem hmem
  have hsingle : community.receiptNodes.length = 1 := rfl
  exact ⟨_, entry, hcollect, by omega⟩

end PeerHours.Desktop
