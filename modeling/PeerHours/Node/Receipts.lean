import PeerHours.Library.PercentEncoding
import PeerHours.Records.Resolve
import PeerHours.Runtime.Manifest

/-!
# The receipt route of a node

A node signs a receipt for a transfer only after it has resolved the transfer from the records that it retains.
Its HTTP surface names the transfer in the path of a read-only request.
-/

namespace PeerHours.Node

open Checked Json PeerRuntime
open TimebankLedger (Transfer)
open TimebankRecords

/-! ## Issuing -/

/-- Persistent Ed25519 material used only to sign non-authoritative retention receipts: the public key, whose
text and node id are derived from it, and what its private key signs. -/
structure ReceiptIdentity (crypto : ReceiptCrypto) where
  key : ReceiptKey crypto
  sign : Buffer → Buffer
  signs : SignsFor key sign

/-- What the issuer works with: the node's identity, the community of its runtime, the result of reading each
known member feed, and the time. -/
structure ReplicationReceiptIssuer (crypto : ReceiptCrypto) where
  identity : ReceiptIdentity crypto
  community : Option CommunityManifest
  feeds : List (Except String (List JsonValue))
  now : String

/-- Bounds URL path identifiers before a lookup can trigger record scanning. -/
def validTransferId (value : String) : Bool :=
  value != "" && decide ((Text.utf16 value).length ≤ 512) && !value.toList.contains '/' &&
    !value.toList.contains '\\' && value == Text.trim value

variable {crypto : ReceiptCrypto}

/-- The records of every feed that can be read. A feed that is not fully replicated yet is no evidence of retained
settlement history. -/
def ReplicationReceiptIssuer.retainedRecords (issuer : ReplicationReceiptIssuer crypto) : List JsonValue :=
  issuer.feeds.flatMap fun feed ↦ (feed.toOption).getD []

/-- What the receipt of a transfer is created from. -/
def ReplicationReceiptIssuer.receiptInput (issuer : ReplicationReceiptIssuer crypto) (communityId : String)
    (transfer : Transfer) : CreateReplicationReceiptInput where
  communityId := communityId
  transferId := transfer.id
  transferDigest := replicationReceiptTransferDigest crypto transfer.toJson
  retainedAt := issuer.now
  sign := issuer.identity.sign
  publicKey := issuer.identity.key.publicKey

/-- The receipt that is created from it. -/
def ReplicationReceiptIssuer.receiptOf (issuer : ReplicationReceiptIssuer crypto) (communityId : String)
    (transfer : Transfer) : SignedReplicationReceipt crypto where
  communityId := communityId
  transferId := transfer.id
  transferDigest := replicationReceiptTransferDigest crypto transfer.toJson
  retainedAt := issuer.now
  key := issuer.identity.key
  signature := Base64Url.encode (issuer.identity.sign (receiptPayload communityId transfer.id
    (replicationReceiptTransferDigest crypto transfer.toJson) issuer.now issuer.identity.key))

/-- A receipt is created for a readable community and transfer, at a time that an ISO timestamp tells. -/
theorem createReplicationReceipt_receiptInput {issuer : ReplicationReceiptIssuer crypto}
    {communityId : String} {transfer : Transfer} {receipt : SignedReplicationReceipt crypto} :
    createReplicationReceipt (issuer.receiptInput communityId transfer) = .ok receipt ↔
      ((Text.blank communityId = false ∧ Text.trim communityId = communityId) ∧
        (Text.blank transfer.id = false ∧ Text.trim transfer.id = transfer.id) ∧
        Timestamp.isIsoUtc issuer.now = true) ∧ issuer.receiptOf communityId transfer = receipt := by
  have hdigest : Hex.isKey (replicationReceiptTransferDigest crypto transfer.toJson) = true :=
    Hex.isKey_encode (crypto.length_sha256 _)
  have hlower : (replicationReceiptTransferDigest crypto transfer.toJson).toLower =
      replicationReceiptTransferDigest crypto transfer.toJson := Hex.toLower_encode _
  unfold ReplicationReceiptIssuer.receiptInput
  simp only [createReplicationReceipt, validTimestamp, bind_eq_ok, require_eq_ok, pure_eq_ok,
    requiredText_eq_ok, sha256Hex_eq_ok, exists_const, Option.some.injEq, JsonValue.str.injEq]
  constructor
  · rintro ⟨_, ⟨rfl, hcommunity⟩, _, ⟨rfl, hid⟩, _, ⟨-, rfl⟩, _, ⟨htime, rfl⟩, key, hkey, rfl⟩
    rw [decodePublicKey_publicKey] at hkey
    obtain rfl := Except.ok.inj hkey
    rw [hlower]
    exact ⟨⟨hcommunity, hid, htime⟩, rfl⟩
  · rintro ⟨⟨hcommunity, hid, htime⟩, rfl⟩
    refine ⟨_, ⟨rfl, hcommunity⟩, _, ⟨rfl, hid⟩, _, ⟨hdigest, hlower⟩, _, ⟨htime, rfl⟩, _,
      decodePublicKey_publicKey _, rfl⟩

theorem validTransferId_eq_true {value : String} :
    validTransferId value = true ↔ value ≠ "" ∧ (Text.utf16 value).length ≤ 512 ∧ '/' ∉ value.toList ∧
      '\\' ∉ value.toList ∧ Text.trim value = value := by
  simp only [validTransferId, Bool.and_eq_true, bne_iff_ne, decide_eq_true_eq, Bool.not_eq_true',
    List.contains_eq_mem, decide_eq_false_iff_not, beq_iff_eq]
  constructor
  · rintro ⟨⟨⟨⟨hne, hlength⟩, hslash⟩, hbackslash⟩, htrim⟩
    exact ⟨hne, hlength, hslash, hbackslash, htrim.symm⟩
  · rintro ⟨hne, hlength, hslash, hbackslash, htrim⟩
    exact ⟨⟨⟨⟨hne, hlength⟩, hslash⟩, hbackslash⟩, htrim.symm⟩

/-- Returns a receipt for one locally admitted transfer, or nothing when this node cannot independently retain and
resolve it. -/
def ReplicationReceiptIssuer.receiptFor (issuer : ReplicationReceiptIssuer crypto)
    (localeCompare : String → String → Ordering) (transferId : String) :
    Except String (Option (SignedReplicationReceipt crypto)) :=
  if validTransferId transferId = false then .ok none
  else
    match issuer.community with
    | none => .ok none
    | some community =>
        if community.communityId = "" then .ok none
        else
          match resolveTimebankRecords crypto.toCrypto localeCompare community.communityId
            issuer.retainedRecords with
          | .error _ => .ok none
          | .ok resolved =>
              match resolved.ledger.transfers.find? fun candidate ↦ decide (candidate.id = transferId) with
              | none => .ok none
              | some transfer => do
                  let receipt ← createReplicationReceipt (issuer.receiptInput community.communityId transfer)
                  pure (some receipt)

/-! ## Routes -/

/-- The path of the receipt route. -/
def receiptsRoute : List Char := "/receipts/".toList

/-- Extracts one safely decoded transfer id from the fixed, read-only receipt route. -/
def receiptTransferId (pathname : String) : Option String :=
  match receiptsRoute.isPrefixOf? pathname.toList with
  | none => none
  | some encoded =>
      if encoded = [] ∨ '/' ∈ encoded then some ""
      else some ((PercentEncoding.decode (String.ofList encoded)).getD "")

/-- Which handler a request reaches. -/
inductive Route where
  | invalidTarget
  | health
  | status
  | receipt (transferId : String)
  | developmentPeers
  | notFound
deriving DecidableEq

/-- Chooses the handler by the path, if the request target has one, and the method. -/
def route (enableDevelopmentPeerRegistration : Bool) (method : String) : Option String → Route
  | none => .invalidTarget
  | some pathname =>
      if pathname = "/health" ∧ method = "GET" then .health
      else if pathname = "/status" ∧ method = "GET" then .status
      else
        match receiptTransferId pathname, decide (method = "GET") with
        | some transferId, true => .receipt transferId
        | _, _ =>
            if pathname = "/dev/peers" ∧ method = "POST" ∧ enableDevelopmentPeerRegistration = true then
              .developmentPeers
            else .notFound

/-- The body of an error response. -/
def errorBody (message : String) : JsonValue :=
  .obj [("error", .str message)]

/-- The status and the body that the receipt route answers with. -/
def receiptResponse (issuer : Option (ReplicationReceiptIssuer crypto))
    (localeCompare : String → String → Ordering) (transferId : String) : Nat × JsonValue :=
  match issuer with
  | none => (404, errorBody "receipt service not configured")
  | some issuer =>
      match issuer.receiptFor localeCompare transferId with
      | .ok (some receipt) => (200, receipt.toJson)
      | .ok none => (404, errorBody "transfer is not locally retained and admitted")
      | .error _ => (503, errorBody "receipt lookup unavailable")

/-- What a request is answered with. A request without a path is refused, and the routes that report on the runtime
or register peers answer with objects of their own, none of which has a schema. -/
def Responds (issuer : Option (ReplicationReceiptIssuer crypto))
    (localeCompare : String → String → Ordering) : Route → Nat × JsonValue → Prop
  | .invalidTarget, response => response.1 = 400
  | .receipt transferId, response => response = receiptResponse issuer localeCompare transferId
  | .notFound, response => response = (404, errorBody "not found")
  | _, response => WellFormed response.2 ∧ response.2.field "schema" = none

end PeerHours.Node
