import PeerHours.Desktop.ReceiptFetch
import PeerHours.Desktop.SettlementDurability
import PeerHours.Exchanges.ReceiptDigests
import PeerHours.Exchanges.SettledView
import PeerHours.Node.Receipts
import PeerHours.Records.Resolution

/-!
# Receipt lookups

A desktop asks a pinned node for the receipt of a transfer. It writes the id of the transfer into the path of the
node's address, the node reads it from there, resolves what it retains and signs, and the desktop reads and verifies
what it is sent. The receipt arrives for some ids only.
-/

namespace PeerHours.Exchanges

open Checked Json
open Desktop Node PeerRuntime
open TimebankLedger (Transfer)
open TimebankRecords

/-! ## The way of a lookup -/

/-- The path that a lookup asks for. -/
def lookupPath (url : WebUrl) (transferId : String) : String :=
  withoutTrailingSlash url.pathname ++ "/" ++ encodeURIComponent transferId

/-- What lies between a desktop and a node: the serialization of an address with another path, the path that the node
parses from the request that `fetch` makes for it, and the decoder of its response. Parsing keeps percent-encoded octets
and all other characters of an encoded component, but a path that ends in a dot segment loses it. A path that starts
with two slashes would be read as a host. -/
structure ReceiptNetwork extends LookupUrls where
  decoder : TextDecoder
  requestPath : String → Option String
  keeps : ∀ {text url transferId path}, parse text = some url → url.isPublicWeb = true →
    ¬ "//".toList <+: url.pathname.toList → transferId ≠ "." → transferId ≠ ".." →
    requestPath (withPath url (lookupPath url transferId)) = some path → path = lookupPath url transferId
  arrives : ∀ {text url transferId}, parse text = some url → url.isPublicWeb = true →
    ¬ "//".toList <+: url.pathname.toList → (Text.utf16 transferId).length ≤ 512 →
    (requestPath (withPath url (lookupPath url transferId))).isSome = true
  dots : ∀ {text url transferId path}, parse text = some url → url.isPublicWeb = true →
    ¬ "//".toList <+: url.pathname.toList → transferId = "." ∨ transferId = ".." →
    requestPath (withPath url (lookupPath url transferId)) = some path → Text.endsWith path "/" = true

variable {crypto : ReceiptCrypto}

/-- The software of a node answers the request. -/
def Serves (issuer : Option (ReplicationReceiptIssuer crypto)) (localeCompare : String → String → Ordering)
    (decoder : TextDecoder) (pathname : Option String) (answer : Except String JsonValue) : Prop :=
  ∃ development payload response, Responds issuer localeCompare (route development "GET" pathname) payload ∧
    response.Carries payload.1 payload.2 ∧ answer = fetchReceiptJson decoder response

/-- What the lookup of a transfer gives when the node answers it. -/
def LooksUp (network : ReceiptNetwork) (issuer : Option (ReplicationReceiptIssuer crypto))
    (localeCompare : String → String → Ordering) (receiptUrl transferId : String)
    (answer : Except String JsonValue) : Prop :=
  match receiptLookupUrl network.toLookupUrls receiptUrl transferId with
  | some url => Serves issuer localeCompare network.decoder (network.requestPath url) answer
  | none => ∃ message, answer = .error message

/-! ## Decoded ids -/

theorem encodeURIComponent_eq (text : String) :
    encodeURIComponent text = PercentEncoding.encode isUnreserved text := rfl

theorem slash_not_mem_encodeURIComponent (text : String) : '/' ∉ (encodeURIComponent text).toList := by
  rw [encodeURIComponent_eq]
  refine PercentEncoding.not_mem_encode (by decide) (by decide) ?_ text
  decide

/-- The node reads an encoded id as it was. -/
theorem receiptTransferId_of_encoded {transferId : String} (hne : transferId ≠ "") :
    receiptTransferId (String.ofList (receiptsRoute ++ (encodeURIComponent transferId).toList)) =
      some transferId := by
  have hsplit : receiptsRoute.isPrefixOf? (String.ofList (receiptsRoute ++
      (encodeURIComponent transferId).toList)).toList = some (encodeURIComponent transferId).toList := by
    rw [List.isPrefixOf?_eq_some_iff_append_eq, String.toList_ofList]
  have hencoded : (encodeURIComponent transferId).toList ≠ [] := by
    intro hnil
    refine hne ((@PercentEncoding.encode_inj isUnreserved rfl _ _).mp ?_)
    exact String.toList_inj.mp hnil
  rw [receiptTransferId, hsplit]
  dsimp only
  rw [if_neg (by simp [hencoded, slash_not_mem_encodeURIComponent]), String.ofList_toList, encodeURIComponent_eq,
    PercentEncoding.decode_encode rfl]
  rfl

/-- Where two texts end in parts without a slash after a slash, they end in the same part. -/
theorem append_slash_inj {front back left right : List Char} (hleft : '/' ∉ left) (hright : '/' ∉ right)
    (h : front ++ '/' :: left = back ++ '/' :: right) : front = back ∧ left = right := by
  rcases List.append_eq_append_iff.mp h with ⟨middle, rfl, hsplit⟩ | ⟨middle, rfl, hsplit⟩
  · cases middle with
    | nil => exact ⟨(List.append_nil _).symm, (List.cons.inj hsplit).2⟩
    | cons c rest =>
        obtain ⟨rfl, rfl⟩ := List.cons.inj hsplit
        exact absurd (List.mem_append_right _ List.mem_cons_self) hleft
  · cases middle with
    | nil => exact ⟨List.append_nil _, (List.cons.inj hsplit).2.symm⟩
    | cons c rest =>
        obtain ⟨rfl, rfl⟩ := List.cons.inj hsplit
        exact absurd (List.mem_append_right _ List.mem_cons_self) hright

/-- Only the receipt route leads to a receipt: its path ends in the encoded id, and has no slash in it. -/
theorem route_eq_receipt {development : Bool} {pathname : Option String} {transferId : String}
    (h : route development "GET" pathname = .receipt transferId) : ∃ path ∈ pathname,
      receiptTransferId path = some transferId := by
  cases pathname with
  | none => cases h
  | some path =>
      refine ⟨path, rfl, ?_⟩
      unfold route at h
      dsimp only at h
      split at h
      · cases h
      · split at h
        · cases h
        · split at h
          · rename_i found hfound _
            rw [hfound, Route.receipt.inj h]
          · split at h <;> cases h

/-- An id that is read from a path and not empty was encoded after the route. -/
theorem receiptTransferId_eq_some {path transferId : String} (h : receiptTransferId path = some transferId)
    (hne : transferId ≠ "") : ∃ encoded, path.toList = receiptsRoute ++ encoded ∧ encoded ≠ [] ∧
      '/' ∉ encoded ∧ PercentEncoding.decode (String.ofList encoded) = some transferId := by
  unfold receiptTransferId at h
  split at h
  · cases h
  · rename_i encoded hsplit
    rw [List.isPrefixOf?_eq_some_iff_append_eq] at hsplit
    split at h
    · exact absurd (Option.some.inj h).symm hne
    · rename_i hplain
      obtain ⟨hencoded, hslash⟩ := not_or.mp hplain
      refine ⟨encoded, hsplit.symm, hencoded, hslash, ?_⟩
      cases hdecode : PercentEncoding.decode (String.ofList encoded) with
      | none =>
          rw [hdecode] at h
          exact absurd (Option.some.inj h).symm hne
      | some text =>
          rw [hdecode] at h
          exact h

/-! ## Receipts of a node -/

variable {issuer : ReplicationReceiptIssuer crypto} {localeCompare : String → String → Ordering}

/-- What a receipt says of the node that gave it. -/
theorem exists_of_receiptFor {transferId : String} {receipt : SignedReplicationReceipt crypto}
    (h : issuer.receiptFor localeCompare transferId = .ok (some receipt)) :
    validTransferId transferId = true ∧ ∃ community ∈ issuer.community, ∃ state transfer,
      resolveTimebankRecords crypto.toCrypto localeCompare community.communityId issuer.retainedRecords =
        .ok state ∧ transfer ∈ state.ledger.transfers ∧ transfer.id = transferId ∧
      createReplicationReceipt (issuer.receiptInput community.communityId transfer) = .ok receipt := by
  unfold ReplicationReceiptIssuer.receiptFor at h
  split at h
  · cases h
  · rename_i hvalid
    refine ⟨by simpa using hvalid, ?_⟩
    split at h
    · cases h
    · rename_i community hcommunity
      split at h
      · cases h
      · split at h
        · cases h
        · rename_i state hstate
          split at h
          · cases h
          · rename_i transfer hfound
            obtain ⟨created, hcreated, hsame⟩ := bind_eq_ok.mp h
            obtain rfl := Option.some.inj (Except.ok.inj hsame)
            have hid : transfer.id = transferId := by simpa using List.find?_some hfound
            exact ⟨community, hcommunity, state, transfer, hstate, List.mem_of_find?_eq_some hfound, hid,
              hcreated⟩

/-- A node gives the receipt of each transfer that it admits under a valid id. -/
theorem receiptFor_of_admitted {community : CommunityManifest} (hcommunity : issuer.community = some community)
    {state : ResolvedTimebankState crypto.toCrypto}
    (hstate : resolveTimebankRecords crypto.toCrypto localeCompare community.communityId
      issuer.retainedRecords = .ok state)
    {transfer : Transfer} (htransfer : transfer ∈ state.ledger.transfers)
    (hvalid : validTransferId transfer.id = true) {receipt : SignedReplicationReceipt crypto}
    (hcreated : createReplicationReceipt (issuer.receiptInput community.communityId transfer) = .ok receipt) :
    issuer.receiptFor localeCompare transfer.id = .ok (some receipt) := by
  obtain ⟨hrecords, hcoherent, hresolved⟩ := resolved_of_eq_ok hstate
  have hne : community.communityId ≠ "" := by
    intro hempty
    exact absurd hcoherent.community (by rw [hempty]; decide)
  have hfound : state.ledger.transfers.find? (fun candidate ↦ decide (candidate.id = transfer.id)) =
      some transfer := by
    cases hfind : state.ledger.transfers.find? fun candidate ↦ decide (candidate.id = transfer.id) with
    | none => exact absurd (List.find?_eq_none.mp hfind transfer htransfer) (by simp)
    | some found =>
        have hid : found.id = transfer.id := by simpa using List.find?_some hfind
        exact congrArg some (RecordKind.Holds.unique hrecords
          (hresolved.ledger_held (List.mem_of_find?_eq_some hfind)) (hresolved.ledger_held htransfer) hid)
  unfold ReplicationReceiptIssuer.receiptFor
  rw [if_neg (by simp [hvalid]), hcommunity]
  dsimp only
  rw [if_neg hne, hstate]
  dsimp only
  rw [hfound]
  dsimp only
  rw [hcreated]
  rfl

theorem wellFormed_receipt (receipt : SignedReplicationReceipt crypto) : WellFormed receipt.toJson := by
  refine ⟨.of_plainNames ?_, wellFormedFields_iff.mpr ?_⟩
  · show plainNames ["schema", "version", "communityId", "transferId", "transferDigest", "retainedAt", "nodeId",
      "publicKey", "signature"] = true
    decide +kernel
  · simp [unsignedTerms, WellFormed, JsonValue.int]

theorem wellFormed_errorBody (message : String) : WellFormed (errorBody message) :=
  ⟨.of_plainNames (by simp [plainNames, arrayIndex?]), trivial, trivial⟩

/-- Whatever the receipt route answers is an object, and its status is that of a success for a receipt only. -/
theorem receiptResponse_cases (provider : Option (ReplicationReceiptIssuer crypto)) (transferId : String) :
    (∃ issuer ∈ provider, ∃ receipt, issuer.receiptFor localeCompare transferId = .ok (some receipt) ∧
        receiptResponse provider localeCompare transferId = (200, receipt.toJson)) ∨
      WellFormed (receiptResponse provider localeCompare transferId).2 ∧
        300 ≤ (receiptResponse provider localeCompare transferId).1 := by
  unfold receiptResponse
  split
  · exact .inr ⟨wellFormed_errorBody _, by decide⟩
  · rename_i issuer
    split
    · rename_i receipt hreceipt
      exact .inl ⟨issuer, rfl, receipt, hreceipt, rfl⟩
    · exact .inr ⟨wellFormed_errorBody _, by decide⟩
    · exact .inr ⟨wellFormed_errorBody _, by decide⟩

/-! ## What counts -/

/-- What counts for a node has the schema of a receipt. -/
theorem schema_of_countsFor {community : CommunityManifest} {shown : SettlementTransfer}
    {node : CommunityReceiptNode} {value : JsonValue}
    (h : countsFor crypto community shown node (.ok value) = true) :
    value.field "schema" = some (.str replicationReceiptSchema) := by
  obtain ⟨-, hverify⟩ := Bool.and_eq_true_iff.mp h
  unfold verifyReplicationReceipt at hverify
  split at hverify
  · rename_i normal hnormal
    exact (normalizeReceipt_eq_ok.mp hnormal).schema.2.1
  · cases hverify

/-- An answer of the node's software that counts is a receipt that its issuer gave for the id in the path. -/
theorem receipt_of_serves {provider : Option (ReplicationReceiptIssuer crypto)} {decoder : TextDecoder}
    {pathname : Option String} {answer : Except String JsonValue}
    (hserves : Serves provider localeCompare decoder pathname answer) {community : CommunityManifest}
    {shown : SettlementTransfer} {node : CommunityReceiptNode}
    (hcounts : countsFor crypto community shown node answer = true) :
    ∃ path ∈ pathname, ∃ transferId, receiptTransferId path = some transferId ∧ ∃ issuer ∈ provider,
      ∃ receipt, issuer.receiptFor localeCompare transferId = .ok (some receipt) ∧
        (jsonBytes receipt.toJson).length ≤ maxReceiptResponseBytes ∧ answer = .ok receipt.toJson := by
  obtain ⟨development, ⟨status, value⟩, response, hresponds, hcarries, rfl⟩ := hserves
  cases hread : fetchReceiptJson decoder response with
  | error message =>
      rw [hread] at hcounts
      cases hcounts
  | ok read =>
      rw [hread] at hcounts
      have hschema := schema_of_countsFor hcounts
      have hreads (hvalue : WellFormed value) := (fetchReceiptJson_of_carries decoder hcarries hvalue).mp hread
      cases hroute : route development "GET" pathname with
      | receipt transferId =>
          rw [hroute] at hresponds
          obtain ⟨path, hpath, htransferId⟩ := route_eq_receipt hroute
          refine ⟨path, hpath, transferId, htransferId, ?_⟩
          have hresponse : (status, value) = receiptResponse provider localeCompare transferId := hresponds
          rcases @receiptResponse_cases _ localeCompare provider transferId with
            ⟨issuer, hissuer, receipt, hreceipt, hgiven⟩ | ⟨hwell, hrefused⟩
          · obtain ⟨rfl, rfl⟩ := Prod.mk.inj (hresponse.trans hgiven)
            obtain ⟨-, hfits, rfl⟩ := hreads (wellFormed_receipt receipt)
            exact ⟨issuer, hissuer, receipt, hreceipt, hfits, rfl⟩
          · rw [← hresponse] at hwell hrefused
            exact absurd (hreads hwell).1.2 (Nat.not_lt.mpr hrefused)
      | invalidTarget =>
          rw [hroute] at hresponds
          have hstatus : status = 400 := hresponds
          have hsuccess := status_of_fetchReceiptJson hread
          rw [hcarries.status, hstatus] at hsuccess
          omega
      | notFound =>
          rw [hroute] at hresponds
          obtain ⟨rfl, rfl⟩ := Prod.mk.inj hresponds
          exact absurd (hreads (wellFormed_errorBody _)).1.2 (by decide)
      | health | status | developmentPeers =>
          rw [hroute] at hresponds
          obtain ⟨hwell, hnone⟩ := hresponds
          obtain ⟨-, -, rfl⟩ := hreads hwell
          exact absurd (hnone.symm.trans hschema) (by simp)

/-! ## Exact lookups -/

/-- When the receipt of a transfer can be retrieved: the address of the node is that of its route, the id is one that
the issuer takes and no dot segment, the id of the community has no white space at its ends, the clock tells an ISO
timestamp, and the receipt is within the limit of the desktop. -/
structure Retrievable (issuer : ReplicationReceiptIssuer crypto) (communityId : String) (transfer : Transfer)
    (url : WebUrl) : Prop where
  route : url.pathname.toList = receiptsRoute
  id : validTransferId transfer.id = true
  segment : transfer.id ≠ "." ∧ transfer.id ≠ ".."
  community : Text.trim communityId = communityId
  time : Timestamp.isIsoUtc issuer.now = true
  fits : (jsonBytes (issuer.receiptOf communityId transfer).toJson).length ≤ maxReceiptResponseBytes

/-- The path of a lookup ends in the route and the encoded id. -/
theorem toList_lookupPath {url : WebUrl} (hpath : Text.endsWith url.pathname "/receipts/" = true)
    (transferId : String) : ∃ front, url.pathname.toList = front ++ receiptsRoute ∧
      (lookupPath url transferId).toList =
        (front ++ "/receipts".toList) ++ '/' :: (encodeURIComponent transferId).toList := by
  obtain ⟨front, hfront⟩ := List.isSuffixOf_iff_suffix.mp hpath
  have hpathname : url.pathname.toList = (front ++ "/receipts".toList) ++ ['/'] := by
    rw [← hfront, List.append_assoc]
    rfl
  have hslash : Text.endsWith url.pathname "/" = true :=
    List.isSuffixOf_iff_suffix.mpr ⟨_, hpathname.symm⟩
  refine ⟨front, hfront.symm, ?_⟩
  rw [lookupPath, withoutTrailingSlash, if_pos hslash, hpathname, List.dropLast_concat, String.toList_append,
    String.toList_append, String.toList_ofList, List.append_assoc]
  rfl

theorem receiptsRoute_append (encoded : List Char) :
    ([] ++ "/receipts".toList) ++ '/' :: encoded = receiptsRoute ++ encoded := rfl

/-- Where the node reads the id of a lookup from its path, the path is that of its route and the id is no dot
segment. -/
theorem route_of_lookup {network : ReceiptNetwork} {text path transferId : String} {url : WebUrl}
    (hurl : network.parse text = some url) (hpublic : url.isPublicWeb = true)
    (hpath : Text.endsWith url.pathname "/receipts/" = true) (hhost : ¬ "//".toList <+: url.pathname.toList)
    (hrequest : network.requestPath (network.withPath url (lookupPath url transferId)) = some path)
    (hread : receiptTransferId path = some transferId) (hne : transferId ≠ "") :
    url.pathname.toList = receiptsRoute ∧ transferId ≠ "." ∧ transferId ≠ ".." := by
  obtain ⟨encoded, hsplit, hencoded, hslash, -⟩ := receiptTransferId_eq_some hread hne
  by_cases hdots : transferId = "." ∨ transferId = ".."
  · -- the path of a dot segment ends in a slash, the encoded id does not
    obtain ⟨front, hends⟩ := List.isSuffixOf_iff_suffix.mp (network.dots hurl hpublic hhost hdots hrequest)
    have hlast : front ++ ['/'] = (receiptsRoute ++ encoded.dropLast) ++ [encoded.getLast hencoded] := by
      rw [List.append_assoc, List.dropLast_append_getLast, ← hsplit]
      exact hends
    have hchar : '/' = encoded.getLast hencoded := List.singleton_inj.mp (List.append_inj' hlast rfl).2
    exact absurd (hchar ▸ List.getLast_mem hencoded) hslash
  · obtain ⟨hdot, hdouble⟩ := not_or.mp hdots
    have hkept := network.keeps hurl hpublic hhost hdot hdouble hrequest
    obtain ⟨front, hpathname, hlookup⟩ := toList_lookupPath hpath transferId
    have hsame : (front ++ "/receipts".toList) ++ '/' :: (encodeURIComponent transferId).toList =
        "/receipts".toList ++ '/' :: encoded := by
      rw [← hlookup, ← hkept, hsplit]
      exact (receiptsRoute_append encoded).symm
    obtain ⟨hfront, -⟩ := append_slash_inj (slash_not_mem_encodeURIComponent transferId) hslash hsame
    have hnil : front = [] := List.append_left_eq_self.mp hfront
    exact ⟨by rw [hpathname, hnil]; rfl, hdot, hdouble⟩

/-- At the route of the node, a lookup of a valid id that is no dot segment reaches the issuer with the id. -/
theorem lookup_of_route {network : ReceiptNetwork} {text transferId : String} {url : WebUrl}
    (hurl : network.parse text = some url) (hpublic : url.isPublicWeb = true)
    (hroute : url.pathname.toList = receiptsRoute) (hvalid : validTransferId transferId = true)
    (hsegment : transferId ≠ "." ∧ transferId ≠ "..") (development : Bool) :
    route development "GET" (network.requestPath (network.withPath url (lookupPath url transferId))) =
      .receipt transferId := by
  obtain ⟨hne, hlength, -⟩ := validTransferId_eq_true.mp hvalid
  have hhost : ¬ "//".toList <+: url.pathname.toList := by
    rw [hroute]
    decide
  have hpath : Text.endsWith url.pathname "/receipts/" = true :=
    List.isSuffixOf_iff_suffix.mpr (hroute ▸ List.suffix_refl _)
  obtain ⟨path, hrequest⟩ := Option.isSome_iff_exists.mp (network.arrives hurl hpublic hhost hlength)
  have hkept := network.keeps hurl hpublic hhost hsegment.1 hsegment.2 hrequest
  obtain ⟨front, hpathname, hlookup⟩ := toList_lookupPath hpath transferId
  have hnil : front = [] := List.append_left_eq_self.mp (hpathname.symm.trans hroute)
  have hsame : path = String.ofList (receiptsRoute ++ (encodeURIComponent transferId).toList) := by
    rw [← String.toList_inj, String.toList_ofList, hkept, hlookup, hnil]
    exact receiptsRoute_append _
  have hread : receiptTransferId path = some transferId :=
    hsame ▸ receiptTransferId_of_encoded hne
  -- no other route starts as that of the receipts does
  have hother {fixed : String} (hfixed : ¬ receiptsRoute <+: fixed.toList) : path ≠ fixed := by
    rintro rfl
    obtain ⟨encoded, hsplit, -⟩ := receiptTransferId_eq_some hread hne
    exact hfixed ⟨encoded, hsplit.symm⟩
  have hhealth : path ≠ "/health" := hother (by decide)
  have hstatus : path ≠ "/status" := hother (by decide)
  rw [hrequest]
  unfold route
  dsimp only
  rw [if_neg (fun h ↦ hhealth h.1), if_neg (fun h ↦ hstatus h.1), hread]
  rfl

/-- The receipt nodes of a manifest that was read are pinned, each under an identity of its own. -/
theorem pinned_of_parseCommunityManifest {urls : UrlParser} {payload : JsonValue} {community : CommunityManifest}
    (h : parseCommunityManifest crypto urls payload = .ok community) :
    (∀ node ∈ community.receiptNodes, PinnedNode crypto urls node) ∧
      (community.receiptNodes.map (·.nodeId)).Nodup :=
  pinnedNodes_of_validReceiptNodes (parseCommunityManifest_eq_ok.mp h).receiptNodes

/-- What the software of a node answers a lookup. -/
theorem serves_of_looksUp {network : ReceiptNetwork} {provider : Option (ReplicationReceiptIssuer crypto)}
    {receiptUrl transferId : String} {url : WebUrl} (hurl : network.parse receiptUrl = some url)
    {answer : Except String JsonValue} :
    LooksUp network provider localeCompare receiptUrl transferId answer ↔
      Serves provider localeCompare network.decoder
        (network.requestPath (network.withPath url (lookupPath url transferId))) answer := by
  have hlookup : receiptLookupUrl network.toLookupUrls receiptUrl transferId =
      some (network.withPath url (lookupPath url transferId)) := by
    rw [receiptLookupUrl, hurl]
    rfl
  rw [LooksUp, hlookup]

/-- Every lookup has an answer. -/
theorem exists_looksUp (network : ReceiptNetwork) (provider : Option (ReplicationReceiptIssuer crypto))
    (receiptUrl transferId : String) :
    ∃ answer, LooksUp network provider localeCompare receiptUrl transferId answer := by
  have hresponds (reached : Route) : ∃ payload, Responds provider localeCompare reached payload := by
    cases reached with
    | receipt transferId => exact ⟨_, rfl⟩
    | invalidTarget => exact ⟨(400, .null), rfl⟩
    | notFound => exact ⟨_, rfl⟩
    | health | status | developmentPeers => exact ⟨(200, errorBody ""), wellFormed_errorBody _, rfl⟩
  unfold LooksUp
  split
  · rename_i url _
    obtain ⟨⟨status, value⟩, hpayload⟩ := hresponds (route false "GET" (network.requestPath url))
    exact ⟨_, false, _, ⟨status, none, some [jsonBytes value]⟩, hpayload,
      ⟨rfl, fun text htext ↦ absurd htext (by simp), _, rfl, List.append_nil _⟩, rfl⟩
  · exact ⟨.error "", "", rfl⟩

/-- The transfer that the issuer finds is the only one that it admits under the id. -/
theorem admitted_of_receiptFor {community : CommunityManifest} (hcommunity : issuer.community = some community)
    {state : ResolvedTimebankState crypto.toCrypto}
    (hstate : resolveTimebankRecords crypto.toCrypto localeCompare community.communityId
      issuer.retainedRecords = .ok state)
    {transfer : Transfer} (htransfer : transfer ∈ state.ledger.transfers) {transferId : String}
    {receipt : SignedReplicationReceipt crypto}
    (h : issuer.receiptFor localeCompare transferId = .ok (some receipt)) (hid : transferId = transfer.id) :
    createReplicationReceipt (issuer.receiptInput community.communityId transfer) = .ok receipt := by
  obtain ⟨-, found, hfound, state', transfer', hstate', htransfer', hid', hcreated⟩ := exists_of_receiptFor h
  obtain rfl := Option.some.inj (hcommunity.symm.trans hfound)
  obtain rfl := Except.ok.inj (hstate.symm.trans hstate')
  obtain ⟨hrecords, -, hresolved⟩ := resolved_of_eq_ok hstate
  obtain rfl : transfer' = transfer := RecordKind.Holds.unique hrecords (hresolved.ledger_held htransfer')
    (hresolved.ledger_held htransfer) (hid'.trans hid)
  exact hcreated

/-- A settlement that a desktop shows counts for a node that retains and admits it exactly when its receipt can be
retrieved, whatever way the answer of the node comes. -/
theorem receipt_counted_iff {network : ReceiptNetwork} {payload : JsonValue} {community : CommunityManifest}
    (hmanifest : parseCommunityManifest crypto network.toUrlParser payload = .ok community)
    {node : CommunityReceiptNode} (hnode : node ∈ community.receiptNodes)
    {issuer : ReplicationReceiptIssuer crypto} (hkey : issuer.identity.key.publicKey = node.publicKey)
    {selected : CommunityManifest} (hselected : issuer.community = some selected)
    (hcommunity : selected.communityId = community.communityId)
    {state : ResolvedTimebankState crypto.toCrypto}
    (hstate : resolveTimebankRecords crypto.toCrypto localeCompare selected.communityId
      issuer.retainedRecords = .ok state)
    {transfer : Transfer} (htransfer : transfer ∈ state.ledger.transfers) {shown : SettlementTransfer}
    (hid : shown.id = transfer.id) (hterms : canonicalJson shown.json = canonicalJson transfer.toJson)
    {url : WebUrl} (hurl : network.parse node.receiptUrl = some url)
    (hhost : ¬ "//".toList <+: url.pathname.toList) {answer : Except String JsonValue}
    (hanswer : LooksUp network (some issuer) localeCompare node.receiptUrl shown.id answer) :
    countsFor crypto community shown node answer = true ↔
      Retrievable issuer community.communityId transfer url := by
  obtain ⟨hpinned, hnodup⟩ := pinned_of_parseCommunityManifest hmanifest
  obtain ⟨url', hurl', hpublic, -, hpath⟩ := (hpinned node hnode).address
  obtain rfl : url' = url := Option.some.inj (hurl'.symm.trans hurl)
  have hserves := (serves_of_looksUp hurl).mp hanswer
  rw [hid] at hserves
  rw [← hcommunity]
  constructor
  · intro hcounts
    obtain ⟨path, hrequest, transferId, hread, found, hfound, receipt, hreceipt, hfits, rfl⟩ :=
      receipt_of_serves hserves hcounts
    obtain rfl : issuer = found := Option.some.inj hfound
    obtain ⟨hvalid, found, hfound, _, other, -, -, rfl, hcreated⟩ := exists_of_receiptFor hreceipt
    obtain rfl := Option.some.inj (hselected.symm.trans hfound)
    obtain ⟨⟨⟨-, htrim⟩, -, htime⟩, hreceiptOf⟩ := createReplicationReceipt_receiptInput.mp hcreated
    -- the receipt names the transfer of the path, and counts for the transfer that is shown
    obtain ⟨_, hanswered, hattests⟩ := attests_of_countsFor hpinned hnodup hnode hcounts
    obtain rfl := Except.ok.inj hanswered
    have hsame : other.id = transfer.id := by
      have hnamed := hattests.transfer
      rw [← hreceiptOf, hid] at hnamed
      exact JsonValue.str.inj (Option.some.inj hnamed)
    obtain ⟨-, rfl⟩ := createReplicationReceipt_receiptInput.mp
      (admitted_of_receiptFor hselected hstate htransfer hreceipt hsame)
    rw [hsame] at hvalid hread
    obtain ⟨hroute, hsegment⟩ := route_of_lookup hurl hpublic hpath hhost hrequest hread
      (validTransferId_eq_true.mp hvalid).1
    exact ⟨hroute, hvalid, hsegment, htrim, htime, hfits⟩
  · intro hretrievable
    obtain ⟨development, ⟨status, value⟩, response, hresponds, hcarries, rfl⟩ := hserves
    rw [lookup_of_route hurl hpublic hretrievable.route hretrievable.id hretrievable.segment] at hresponds
    obtain ⟨hne, -, -, -, htrim⟩ := validTransferId_eq_true.mp hretrievable.id
    have hcreated : createReplicationReceipt (issuer.receiptInput selected.communityId transfer) =
        .ok (issuer.receiptOf selected.communityId transfer) :=
      createReplicationReceipt_receiptInput.mpr ⟨⟨⟨(resolved_of_eq_ok hstate).2.1.community,
        hretrievable.community⟩, ⟨Text.blank_of_trim htrim hne, htrim⟩, hretrievable.time⟩, rfl⟩
    have hresponse : (status, value) = receiptResponse (some issuer) localeCompare transfer.id := hresponds
    rw [receiptResponse, receiptFor_of_admitted hselected hstate htransfer hretrievable.id hcreated] at hresponse
    obtain ⟨rfl, rfl⟩ := Prod.mk.inj hresponse
    have hread := (fetchReceiptJson_of_carries network.decoder hcarries (wellFormed_receipt _)).mpr
      ⟨⟨by simp, by simp⟩, hretrievable.fits, rfl⟩
    rw [hread]
    refine countsFor_created hnode (hpinned node hnode) hcreated hcommunity hid.symm ?_ hkey
      issuer.identity.signs
    show replicationReceiptTransferDigest crypto transfer.toJson = _
    rw [replicationReceiptTransferDigest, replicationReceiptTransferDigest, hterms]

/-! ## The size of a receipt -/

/-- The UTF-8 bytes of some characters. -/
def byteCount (characters : List Char) : Nat :=
  (characters.map Char.utf8Size).sum

theorem length_utf8_ofList (characters : List Char) :
    (utf8 (String.ofList characters)).length = byteCount characters := by
  rw [utf8, String.toByteArray_ofList, List.utf8Encode, List.data_toByteArray, List.toList_toArray,
    List.length_flatMap]
  simp only [String.length_utf8EncodeChar]
  rfl

@[simp] theorem byteCount_nil : byteCount [] = 0 := rfl

@[simp] theorem byteCount_cons (c : Char) (rest : List Char) :
    byteCount (c :: rest) = c.utf8Size + byteCount rest := List.sum_cons

@[simp] theorem byteCount_append (left right : List Char) :
    byteCount (left ++ right) = byteCount left + byteCount right := by
  rw [byteCount, List.map_append, List.sum_append]
  rfl

/-- An escaped character takes at most six bytes for each of its code units. -/
theorem byteCount_escapeChar_le (c : Char) :
    byteCount (Json.escapeChar c) ≤ 6 * (Text.charUnits c).length := by
  have hunits := (Text.length_charUnits c).1
  have hdigit : ∀ value < 16, (hexDigit value).utf8Size = 1 := by decide
  have hescape : ∀ escape ∈ ['"', '\\', 'b', 't', 'n', 'f', 'r', 'u', '0'], escape.utf8Size = 1 := by
    simp only [List.forall_mem_cons, List.not_mem_nil, false_implies, implies_true, and_true]
    decide
  unfold Json.escapeChar
  split_ifs
  iterate 7
    simp [hescape]
    omega
  · have hhigh := hdigit (c.toNat / 16) (by omega)
    have hlow := hdigit (c.toNat % 16) (by omega)
    simp [hescape, hhigh, hlow]
    omega
  · have hsize := c.utf8Size_le_four
    simp
    omega

/-- A quoted text takes at most six bytes for each of its code units. -/
theorem byteCount_quote_le (text : String) : byteCount (quote text) ≤ 2 + 6 * (Text.utf16 text).length := by
  have hescaped : ∀ characters : List Char,
      byteCount (characters.flatMap Json.escapeChar) ≤ 6 * (characters.flatMap Text.charUnits).length := by
    intro characters
    induction characters with
    | nil => simp
    | cons c rest ih =>
        have hc := byteCount_escapeChar_le c
        simp only [List.flatMap_cons, byteCount_append, List.length_append]
        omega
  have htext := hescaped text.toList
  rw [← Text.utf16] at htext
  have hquote : '"'.utf8Size = 1 := by decide
  simp only [quote, byteCount_cons, byteCount_append, byteCount_nil, hquote]
  omega

/-- The text of an object whose names and values take a bounded number of bytes. -/
theorem byteCount_render_obj_le {fields : List (String × JsonValue)} {bound : Nat}
    (hfields : ∀ field ∈ fields, byteCount (quote field.1) + byteCount (render field.2) ≤ bound) :
    byteCount (render (.obj fields)) ≤ 2 + (bound + 2) * fields.length := by
  have hsizes : '{'.utf8Size = 1 ∧ '}'.utf8Size = 1 ∧ ':'.utf8Size = 1 ∧ ','.utf8Size = 1 := by decide
  have hrest (separator : List Char) (hseparator : byteCount separator ≤ 1) :
      byteCount (renderFields separator fields) ≤ 1 + (bound + 2) * fields.length := by
    induction fields generalizing separator with
    | nil => simp [renderFields, hsizes]
    | cons field rest ih =>
        obtain ⟨hfield, hothers⟩ := List.forall_mem_cons.mp hfields
        have hafter := ih hothers [','] (by simp [hsizes])
        simp only [renderFields, byteCount_append, byteCount_cons, hsizes, List.length_cons, Nat.mul_succ]
        omega
  have hall := hrest [] (by simp)
  rw [render, byteCount_cons, hsizes.1]
  omega

/-- A receipt with texts of up to 128 code units is within the limit of the desktop. -/
theorem fits_of_short {receipt : SignedReplicationReceipt crypto}
    (hshort : ∀ text ∈ [receipt.communityId, receipt.transferId, receipt.transferDigest, receipt.retainedAt,
      receipt.key.nodeId, receipt.key.publicKey, receipt.signature], (Text.utf16 text).length ≤ 128) :
    (jsonBytes receipt.toJson).length ≤ maxReceiptResponseBytes := by
  have hquoted (text : String) (h : (Text.utf16 text).length ≤ 128) : byteCount (quote text) ≤ 770 := by
    have hquote := byteCount_quote_le text
    omega
  have hnames : ∀ name ∈ ["schema", "version", "communityId", "transferId", "transferDigest", "retainedAt",
      "nodeId", "publicKey", "signature"], byteCount (quote name) ≤ 16 := by decide +kernel
  have hversion : byteCount (render (.int 1)) ≤ 770 := by decide +kernel
  have hschema : byteCount (render (.str replicationReceiptSchema)) ≤ 770 := by decide +kernel
  have htexts : ∀ text ∈ [receipt.communityId, receipt.transferId, receipt.transferDigest, receipt.retainedAt,
      receipt.key.nodeId, receipt.key.publicKey, receipt.signature], byteCount (render (.str text)) ≤ 770 :=
    fun text htext ↦ hquoted text (hshort text htext)
  have hfields : ∀ field ∈ unsignedTerms receipt.communityId receipt.transferId receipt.transferDigest
      receipt.retainedAt receipt.key ++ [("signature", .str receipt.signature)],
      byteCount (quote field.1) ≤ 16 ∧ byteCount (render field.2) ≤ 770 := by
    simp only [unsignedTerms, List.cons_append, List.nil_append, List.forall_mem_cons, List.not_mem_nil,
      false_implies, implies_true, and_true] at hnames htexts ⊢
    simp only [hnames, htexts, hversion, hschema, and_self]
  have hobject := byteCount_render_obj_le fun field hfield ↦
    Nat.add_le_add (hfields field hfield).1 (hfields field hfield).2
  rw [List.length_append, unsignedTerms] at hobject
  rw [jsonBytes, stringify, length_utf8_ofList, SignedReplicationReceipt.toJson]
  exact hobject.trans (by simp [maxReceiptResponseBytes])

/-! ## A sample lookup -/

/-- The path without a dot segment at its end. -/
def resolveDots (path : List Char) : List Char :=
  match path.reverse with
  | '.' :: '/' :: rest => rest.reverse ++ ['/']
  | '.' :: '.' :: '/' :: rest => ((rest.dropWhile (· != '/')).drop 1).reverse ++ ['/']
  | _ => path

/-- The path of an address of the sample origin. -/
def samplePath (text : String) : Option String :=
  ("http://node.example".toList.isPrefixOf? text.toList).map fun path ↦ String.ofList (resolveDots path)

theorem samplePath_append (path : String) :
    samplePath ("http://node.example" ++ path) = some (String.ofList (resolveDots path.toList)) := by
  have hsplit : "http://node.example".toList.isPrefixOf? ("http://node.example" ++ path).toList =
      some path.toList := by
    rw [List.isPrefixOf?_eq_some_iff_append_eq, String.toList_append]
  rw [samplePath, hsplit]
  rfl

/-- A path that ends in no dot segment is kept. -/
theorem resolveDots_of_ne {front encoded : List Char} (hslash : '/' ∉ encoded) (hdot : encoded ≠ ['.'])
    (hdouble : encoded ≠ ['.', '.']) : resolveDots (front ++ '/' :: encoded) = front ++ '/' :: encoded := by
  have hlast {segment rest : List Char} (hsegment : '/' ∉ segment)
      (h : (front ++ '/' :: encoded).reverse = segment.reverse ++ '/' :: rest) : encoded = segment := by
    have hpath : front ++ '/' :: encoded = rest.reverse ++ '/' :: segment := by
      rw [← List.reverse_reverse (front ++ '/' :: encoded), h]
      simp
    exact (append_slash_inj hslash hsegment hpath).2
  unfold resolveDots
  split
  · rename_i rest h
    exact absurd (@hlast ['.'] rest (by decide) h) hdot
  · rename_i rest h
    exact absurd (@hlast ['.', '.'] rest (by decide) h) hdouble
  · rfl

/-- The path of a dot segment ends in a slash. -/
theorem endsWith_resolveDots {front encoded : List Char} (h : encoded = ['.'] ∨ encoded = ['.', '.']) :
    Text.endsWith (String.ofList (resolveDots (front ++ '/' :: encoded))) "/" = true := by
  rw [Text.endsWith, List.isSuffixOf_iff_suffix, @String.toList_ofList (resolveDots _)]
  rcases h with rfl | rfl
  · rw [resolveDots, List.reverse_append]
    exact List.suffix_append _ _
  · rw [resolveDots, List.reverse_append]
    exact List.suffix_append _ _

/-- The decoder reads what was encoded, and nothing else. -/
def sampleDecoder : TextDecoder where
  decode data := (String.fromUTF8? ⟨data.toArray⟩).getD ""
  decode_utf8 := fun {text} _ ↦ congrArg (·.getD "") (PercentEncoding.fromUTF8?_bytes text)

theorem toList_lookupPath_sample (url : WebUrl) (transferId : String) : (lookupPath url transferId).toList =
    (withoutTrailingSlash url.pathname).toList ++ '/' :: (encodeURIComponent transferId).toList := by
  rw [lookupPath, String.toList_append, String.toList_append, List.append_assoc]
  rfl

theorem encodeURIComponent_dots {transferId : String} :
    ((encodeURIComponent transferId).toList = ['.'] ↔ transferId = ".") ∧
      ((encodeURIComponent transferId).toList = ['.', '.'] ↔ transferId = "..") := by
  have hsegment {text : String} (hsame : encodeURIComponent text = text) :
      (encodeURIComponent transferId).toList = text.toList ↔ transferId = text := by
    rw [String.toList_inj]
    refine ⟨fun h ↦ ?_, fun h ↦ h ▸ hsame⟩
    exact (@PercentEncoding.encode_inj isUnreserved rfl _ _).mp (h.trans hsame.symm)
  exact ⟨@hsegment "." (by decide), @hsegment ".." (by decide)⟩

/-- The way to the nodes of the sample origin. -/
def sampleNetwork : ReceiptNetwork where
  toLookupUrls := sampleLookupUrls
  decoder := sampleDecoder
  requestPath := samplePath
  keeps := by
    intro text url transferId path _ _ _ hdot hdouble h
    have hkept : samplePath ("http://node.example" ++ lookupPath url transferId) = some path := h
    rw [samplePath_append, toList_lookupPath_sample, resolveDots_of_ne
      (slash_not_mem_encodeURIComponent transferId) (fun hsame ↦ hdot (encodeURIComponent_dots.1.mp hsame))
      (fun hsame ↦ hdouble (encodeURIComponent_dots.2.mp hsame)), ← toList_lookupPath_sample,
      String.ofList_toList] at hkept
    exact (Option.some.inj hkept).symm
  arrives := by
    intro text url transferId _ _ _ _
    exact congrArg Option.isSome (samplePath_append (lookupPath url transferId))
  dots := by
    intro text url transferId path _ _ _ hdots h
    have hresolved : samplePath ("http://node.example" ++ lookupPath url transferId) = some path := h
    rw [samplePath_append, toList_lookupPath_sample] at hresolved
    rw [← Option.some.inj hresolved]
    exact endsWith_resolveDots (hdots.imp encodeURIComponent_dots.1.mpr encodeURIComponent_dots.2.mpr)

/-- A transfer that settles a proposal, as the desktop shows it. -/
def shownTransfer (transfer : Transfer) (sourceProposalId : String)
    (hsource : transfer.sourceProposalId = some (.str sourceProposalId)) : SettlementTransfer where
  json := transfer.toJson
  id := transfer.id
  sourceProposalId := some sourceProposalId
  id_eq := (TimebankLedger.describes_properties transfer.toTransferTerms _).1.id
  sourceProposalId_eq := (TimebankLedger.describes_properties transfer.toTransferTerms _).1.sourceProposalId.trans
    hsource

namespace Garden

theorem sampleUrls_parse_receiptsPath :
    sampleUrls.parse (sampleNode 0).receiptUrl = some (sampleAddress receiptsPath) := by
  have hpath : ∀ c ∈ receiptsPath, inPath c = true :=
    List.all_eq_true.mp rfl
  have hparse := @sampleUrls_parse receiptsPath fun c hc ↦ by rw [hpath c hc, Bool.true_or]
  rwa [flatMap_escapeChar hpath] at hparse

/-- The issuer of a node that retains some records of the garden. -/
def gardenIssuer (records : List JsonValue) : ReplicationReceiptIssuer sampleCrypto where
  identity := ⟨sampleKey 0, fun _ ↦ List.replicate 64 0, signsFor_sampleKey 0⟩
  community := some (sampleManifest receiptsPath)
  feeds := [.ok records]
  now := "2026-01-01T00:00:00.000Z"

/-- The manifest of the garden is read over the way to its node. -/
theorem parse_gardenManifest : parseCommunityManifest sampleCrypto sampleNetwork.toUrlParser
    (sampleManifest receiptsPath).toJson = .ok (sampleManifest receiptsPath) :=
  normal_sampleManifest.parse_toJson.mpr bounded_sampleManifest

/-- The desktop shows Ada's hours with Ben. -/
theorem exists_shown_settlement : ∃ shown : SettlementTransfer, shown.json = adaExchange.settlement.toJson ∧
    shown.id = adaExchange.settlement.id ∧ shown.sourceProposalId = some "p2" :=
  ⟨shownTransfer adaExchange.settlement "p2" rfl, rfl, rfl, rfl⟩

theorem slash_mem_settlement : '/' ∈ adaExchange.settlement.id.toList := by
  decide +kernel

/-- The receipt of the reversal of Ada's hours can be retrieved. -/
theorem retrievable_reversal (records : List JsonValue) :
    Retrievable (gardenIssuer records) "garden" (adaExchange.reversal (some "p1"))
      (sampleAddress receiptsPath) where
  route := by decide +kernel
  id := by decide +kernel
  segment := by decide +kernel
  community := by decide +kernel
  time := by
    show Timestamp.isIsoUtc "2026-01-01T00:00:00.000Z" = true
    decide +kernel
  fits := by
    have hdigest (transfer : JsonValue) :
        (Text.utf16 (replicationReceiptTransferDigest sampleCrypto transfer)).length ≤ 128 := by
      have hunits := (length_utf16
        (replicationReceiptTransferDigest sampleCrypto transfer).toList).2
      rw [String.ofList_toList, replicationReceiptTransferDigest, Hex.length_encode,
        sampleCrypto.length_sha256] at hunits
      exact hunits
    have hkey : (Text.utf16 (sampleKey 0).nodeId).length ≤ 128 ∧
        (Text.utf16 (sampleKey 0).publicKey).length ≤ 128 := by
      decide +kernel
    have hsignature : (Text.utf16 (Base64Url.encode (List.replicate 64 0))).length ≤ 128 := by
      decide +kernel
    have htexts : (Text.utf16 "garden").length ≤ 128 ∧
        (Text.utf16 (adaExchange.reversal (some "p1")).id).length ≤ 128 ∧
        (Text.utf16 "2026-01-01T00:00:00.000Z").length ≤ 128 := by
      decide +kernel
    refine fits_of_short ?_
    simp only [List.forall_mem_cons, List.not_mem_nil, false_implies, implies_true, and_true]
    exact ⟨htexts.1, htexts.2.1, hdigest _, htexts.2.2, hkey.1, hkey.2, hsignature⟩

/-- A node may retain the garden's feeds with the reversal of Ada's hours with Ben. -/
theorem exists_retained : ∃ records state,
    resolveTimebankRecords sampleCrypto.toCrypto compare (sampleManifest receiptsPath).communityId
      (gardenIssuer records).retainedRecords = .ok state ∧
    adaExchange.settlement ∈ state.ledger.transfers ∧
    adaExchange.reversal (some "p1") ∈ state.ledger.transfers := by
  obtain ⟨histories, state, -, hfeeds, hadmitted⟩ := exists_mislabelled
  obtain ⟨-, -, -, hstate⟩ := resolveTimebankMemberFeeds_eq_ok.mp hfeeds
  refine ⟨histories.flatMap (·.records), state, ?_, hadmitted _ (List.mem_cons_of_mem _ List.mem_cons_self),
    hadmitted _ List.mem_cons_self⟩
  rw [ReplicationReceiptIssuer.retainedRecords, gardenIssuer, List.flatMap_singleton]
  exact hstate

/-- The desktop shows a transfer that names a proposal and looks its receipt up. -/
theorem exists_shown {transfer : Transfer} {source : String}
    (hsource : transfer.sourceProposalId = some (.str source)) (records : List JsonValue) :
    ∃ (shown : SettlementTransfer) (answer : Except String JsonValue), shown.json = transfer.toJson ∧
      shown.id = transfer.id ∧ LooksUp sampleNetwork (some (gardenIssuer records)) compare
        (sampleNode 0).receiptUrl shown.id answer := by
  obtain ⟨answer, hanswer⟩ := @exists_looksUp sampleCrypto compare sampleNetwork
    (some (gardenIssuer records)) (sampleNode 0).receiptUrl (shownTransfer transfer source hsource).id
  exact ⟨shownTransfer transfer source hsource, answer, rfl, rfl, hanswer⟩

/-- A node that retains Ada's hours with Ben and their reversal is asked for both receipts: the answer for the
settlement does not count, and that for the reversal does. -/
theorem receipt_counted_iff_garden : ∃ (records : List JsonValue) (settled reversed : SettlementTransfer)
    (refusal receipt : Except String JsonValue),
    settled.json = adaExchange.settlement.toJson ∧
      reversed.json = (adaExchange.reversal (some "p1")).toJson ∧
      LooksUp sampleNetwork (some (gardenIssuer records)) compare (sampleNode 0).receiptUrl settled.id refusal ∧
      countsFor sampleCrypto (sampleManifest receiptsPath) settled (sampleNode 0) refusal = false ∧
      LooksUp sampleNetwork (some (gardenIssuer records)) compare (sampleNode 0).receiptUrl reversed.id
        receipt ∧
      countsFor sampleCrypto (sampleManifest receiptsPath) reversed (sampleNode 0) receipt = true := by
  obtain ⟨records, state, hretained, hsettlement, hreversal⟩ := exists_retained
  have hurl : sampleNetwork.parse (sampleNode 0).receiptUrl = some (sampleAddress receiptsPath) :=
    sampleUrls_parse_receiptsPath
  have hnode : sampleNode 0 ∈ (sampleManifest receiptsPath).receiptNodes := List.mem_cons_self
  have hkey : (gardenIssuer records).identity.key.publicKey = (sampleNode 0).publicKey := rfl
  have hhost : ¬ "//".toList <+: (sampleAddress receiptsPath).pathname.toList := by decide
  have hsettles : adaExchange.settlement.sourceProposalId = some (.str "p2") := rfl
  have hreverses : (adaExchange.reversal (some "p1")).sourceProposalId = some (.str "p1") := rfl
  obtain ⟨settled, refusal, hsettled, hid, hrefusal⟩ := exists_shown hsettles records
  obtain ⟨reversed, receipt, hreversed, hid', hreceipt⟩ := exists_shown hreverses records
  have huncounted := receipt_counted_iff parse_gardenManifest hnode hkey rfl rfl hretained hsettlement hid
    (congrArg canonicalJson hsettled) hurl hhost hrefusal
  have hcounted := receipt_counted_iff parse_gardenManifest hnode hkey rfl rfl hretained hreversal hid'
    (congrArg canonicalJson hreversed) hurl hhost hreceipt
  have hrefused := (not_congr huncounted).mpr fun hretrievable ↦
    (validTransferId_eq_true.mp hretrievable.id).2.2.1 slash_mem_settlement
  exact ⟨records, settled, reversed, refusal, receipt, hsettled, hreversed, hrefusal,
    eq_false_of_ne_true hrefused, hreceipt, hcounted.mpr (retrievable_reversal records)⟩

end Garden

end PeerHours.Exchanges
