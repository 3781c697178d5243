import PeerHours.Identity.Keys
import PeerHours.Library.Timestamp
import PeerHours.Library.Hex

/-!
# Replication receipts

A community node signs that it retains one transfer. A receipt names the node by the digest of its public
key, and counts only against the keys that the bootstrap metadata pins.
-/

namespace PeerHours.PeerRuntime

open Checked Json Sorting

/-- `node:crypto` with public keys that are read from their DER form. -/
structure ReceiptCrypto extends Crypto where
  createSpkiPublicKey : Buffer → Option KeyObject

/-- A parsed web address: its serialization and the parts that are looked at. -/
structure WebUrl where
  href : String
  protocol : String
  username : String
  password : String
  hash : String
  pathname : String

/-- A public web address without credentials or fragment. -/
def WebUrl.isPublicWeb (url : WebUrl) : Bool :=
  (url.protocol == "http:" || url.protocol == "https:") && url.username == "" &&
    url.password == "" && url.hash == ""

/-- The WHATWG parser. A serialization parses to its own address; that of a web address starts with its
scheme and has its white space percent-encoded. -/
structure UrlParser where
  parse : String → Option WebUrl
  parse_href : ∀ {text url}, parse text = some url → parse url.href = some url
  href_ne : ∀ {text url}, parse text = some url → url.isPublicWeb = true → url.href ≠ ""
  trim_href : ∀ {text url}, parse text = some url → url.isPublicWeb = true →
    Text.trim url.href = url.href

namespace UrlParser

variable (urls : UrlParser)

/-- The text addresses a public web page, and the serialization of its address is `href`. -/
def Normalizes (text href : String) : Prop :=
  ∃ url, urls.parse text = some url ∧ url.isPublicWeb = true ∧ url.href = href

variable {urls}

/-- A serialized address is its own serialization. -/
theorem Normalizes.href {text href : String} (h : urls.Normalizes text href) :
    urls.Normalizes href href := by
  obtain ⟨url, hparse, hpublic, rfl⟩ := h
  exact ⟨url, urls.parse_href hparse, hpublic, rfl⟩

theorem Normalizes.ne {text href : String} (h : urls.Normalizes text href) : href ≠ "" := by
  obtain ⟨url, hparse, hpublic, rfl⟩ := h
  exact urls.href_ne hparse hpublic

end UrlParser

/-! ## Canonical data -/

/-- Property names in the order of plain `sort`. -/
def compareNames (left right : String × JsonValue) : Ordering :=
  compareOn (fun property : String × JsonValue ↦ Text.utf16 property.1) left right

mutual

/-- Plain JSON data with the properties of every object in order. -/
def sortKeys : JsonValue → JsonValue
  | .arr items => .arr (sortItems items)
  | .obj fields => .obj (sortBy compareNames (sortFields fields))
  | value => value

/-- The items of an array with their properties in order. -/
def sortItems : List JsonValue → List JsonValue
  | [] => []
  | item :: rest => sortKeys item :: sortItems rest

/-- The properties of an object with the properties of their values in order. -/
def sortFields : List (String × JsonValue) → List (String × JsonValue)
  | [] => []
  | (name, value) :: rest => (name, sortKeys value) :: sortFields rest

end

/-- Canonicalizes plain JSON data so different key insertion orders cannot change a transfer receipt
digest. -/
def canonicalJson (value : JsonValue) : String :=
  stringify (sortKeys value)

/-- Requires a readable identifier instead of signing ambiguous blank values. -/
def requiredText (value : Option JsonValue) (field : String) : Except String String := do
  let message := field ++ " must be nonblank text without surrounding whitespace."
  let text ← present (JsonValue.text? value) message
  require (Text.blank text = false ∧ text = Text.trim text) message
  pure text

theorem requiredText_eq_ok {value : Option JsonValue} {field text : String} :
    requiredText value field = .ok text ↔
      value = some (.str text) ∧ Text.blank text = false ∧ Text.trim text = text := by
  simp only [requiredText, bind_eq_ok, present_eq_ok, JsonValue.text?_eq_some, require_eq_ok,
    pure_eq_ok]
  constructor
  · rintro ⟨_, rfl, -, ⟨hblank, htrim⟩, rfl⟩
    exact ⟨rfl, hblank, htrim.symm⟩
  · rintro ⟨rfl, hblank, htrim⟩
    exact ⟨text, rfl, ⟨⟩, ⟨hblank, htrim.symm⟩, rfl⟩

/-- Text without white space at its ends is readable when it is not empty. -/
theorem requiredText_of_trim {text : String} (htrim : Text.trim text = text) (hne : text ≠ "")
    (field : String) : requiredText (some (.str text)) field = .ok text :=
  requiredText_eq_ok.mpr ⟨rfl, Text.blank_of_trim htrim hne, htrim⟩

/-- Validates one SHA-256 encoding and writes it in lower case. -/
def sha256Hex (value field : String) : Except String String := do
  require (Hex.isKey value = true)
    (field ++ " must be a 64-character hexadecimal SHA-256 digest.")
  pure value.toLower

theorem sha256Hex_eq_ok {value field digest : String} :
    sha256Hex value field = .ok digest ↔ Hex.isKey value = true ∧ value.toLower = digest := by
  simp only [sha256Hex, bind_eq_ok, require_eq_ok, exists_const, pure_eq_ok]

/-- Rejects invalid or ambiguous times before they enter a signed retention statement. -/
def validTimestamp (value : String) : Except String String := do
  require (Timestamp.isIsoUtc value = true) "retainedAt must be an ISO-8601 UTC timestamp."
  pure value

variable (crypto : ReceiptCrypto) (urls : UrlParser)

/-- Computes the content digest a receipt binds to. -/
def replicationReceiptTransferDigest (transfer : JsonValue) : String :=
  Hex.encode (crypto.sha256 (utf8 (canonicalJson transfer)))

/-! ## Public keys -/

/-- An Ed25519 public key in the DER form that receipts carry. -/
structure ReceiptKey where
  der : Buffer
  key : crypto.KeyObject
  parses : crypto.createSpkiPublicKey der = some key
  ed25519 : crypto.asymmetricKeyType key = "ed25519"
  bounded : 40 ≤ (Base64Url.encode der).toList.length ∧ (Base64Url.encode der).toList.length ≤ 256

variable {crypto}

@[ext] theorem ReceiptKey.ext {left right : ReceiptKey crypto} (h : left.der = right.der) :
    left = right := by
  obtain ⟨leftDer, leftKey, hleft, _, _⟩ := left
  obtain ⟨rightDer, rightKey, hright, _, _⟩ := right
  obtain rfl : leftDer = rightDer := h
  obtain rfl : leftKey = rightKey := Option.some.inj (hleft.symm.trans hright)
  rfl

/-- The safe textual form of a public key. -/
def ReceiptKey.publicKey (key : ReceiptKey crypto) : String :=
  Base64Url.encode key.der

/-- The stable node identifier that bootstrap metadata pins alongside its public key
(`replicationReceiptNodeId`). -/
def ReceiptKey.nodeId (key : ReceiptKey crypto) : String :=
  Hex.encode (crypto.sha256 key.der)

/-- Written again, text of the alphabet loses at most a stray last digit. -/
theorem length_encode_decode {value : String} (halphabet : Base64Url.inAlphabet value = true)
    (hshort : 40 ≤ value.toList.length) (hlong : value.toList.length ≤ 256) :
    40 ≤ (Base64Url.encode (Base64Url.decode value)).toList.length ∧
      (Base64Url.encode (Base64Url.decode value)).toList.length ≤ 256 := by
  rw [Base64Url.length_encode, Base64Url.length_decode halphabet]
  omega

variable (crypto) in
/-- Decodes exactly one Ed25519 SPKI DER public key before it can be pinned or used for
verification. -/
def decodePublicKey (value : String) : Except String (ReceiptKey crypto) :=
  if h : Base64Url.inAlphabet value = true ∧ 40 ≤ value.toList.length ∧
      value.toList.length ≤ 256 then
    match hparses : crypto.createSpkiPublicKey (Base64Url.decode value) with
    | some key =>
        if hkey : crypto.asymmetricKeyType key = "ed25519" then
          .ok ⟨Base64Url.decode value, key, hparses, hkey, length_encode_decode h.1 h.2.1 h.2.2⟩
        else .error "Receipt publicKey must be an Ed25519 key."
    | none => .error "Receipt publicKey must be base64url Ed25519 SPKI DER."
  else .error "Receipt publicKey must be base64url Ed25519 SPKI DER."

/-- Decoding reads the DER form, and accepts it only for what it is. -/
theorem decodePublicKey_eq_ok {value : String} {key : ReceiptKey crypto} :
    decodePublicKey crypto value = .ok key ↔
      (Base64Url.inAlphabet value = true ∧ 40 ≤ value.toList.length ∧ value.toList.length ≤ 256) ∧
        key.der = Base64Url.decode value := by
  unfold decodePublicKey
  split
  · rename_i hvalue
    split
    · rename_i object hparses
      split
      · rename_i hkey
        rw [Except.ok.injEq]
        refine ⟨fun h ↦ ⟨hvalue, h ▸ rfl⟩, fun h ↦ ReceiptKey.ext h.2.symm⟩
      · rename_i hkey
        refine ⟨fun h ↦ absurd h (by simp), fun h ↦ absurd ?_ hkey⟩
        have hsame := key.parses
        rw [h.2, hparses, Option.some.injEq] at hsame
        rw [hsame]
        exact key.ed25519
    · rename_i hparses
      refine ⟨fun h ↦ absurd h (by simp), fun h ↦ ?_⟩
      have hsame := key.parses
      rw [h.2, hparses] at hsame
      exact absurd hsame (by simp)
  · rename_i hvalue
    exact ⟨fun h ↦ absurd h (by simp), fun h ↦ absurd h.1 hvalue⟩

/-- The textual form of a key decodes to the key. -/
@[simp] theorem decodePublicKey_publicKey (key : ReceiptKey crypto) :
    decodePublicKey crypto key.publicKey = .ok key :=
  decodePublicKey_eq_ok.mpr ⟨⟨Base64Url.inAlphabet_encode _, key.bounded⟩,
    (Base64Url.decode_encode _).symm⟩

theorem publicKey_inj {left right : ReceiptKey crypto} :
    left.publicKey = right.publicKey ↔ left = right :=
  ⟨fun h ↦ ReceiptKey.ext (Base64Url.encode_inj.mp h), congrArg _⟩

/-! ## Pinned nodes -/

/-- A pinned community-node identity allowed to make availability claims for one community. -/
structure CommunityReceiptNode where
  nodeId : String
  publicKey : String
  receiptUrl : String
  deriving DecidableEq

/-- The node as JSON. -/
def CommunityReceiptNode.toJson (node : CommunityReceiptNode) : JsonValue :=
  .obj [("nodeId", .str node.nodeId), ("publicKey", .str node.publicKey),
    ("receiptUrl", .str node.receiptUrl)]

/-- Restricts receipt endpoints to public web addresses without credentials or fragments. -/
def validReceiptUrl (value field : String) : Except String String := do
  let message := field ++ ".receiptUrl must be an HTTP(S) URL ending in /receipts/."
  let url ← present (urls.parse value) message
  require (url.isPublicWeb = true ∧ Text.endsWith url.pathname "/receipts/" = true) message
  pure url.href

variable (crypto) in
/-- Validates bootstrap receipt-node metadata before it becomes a pinned source of availability
labels. -/
def normalizeCommunityReceiptNode (value : JsonValue) (field : String) :
    Except String CommunityReceiptNode := do
  require (value.isObject = true) (field ++ " must be an object.")
  let publicKey ← requiredText (value.field "publicKey") (field ++ ".publicKey")
  let key ← decodePublicKey crypto publicKey
  let nodeId ← requiredText (value.field "nodeId") (field ++ ".nodeId")
  let nodeId ← sha256Hex nodeId (field ++ ".nodeId")
  require (nodeId = key.nodeId) (field ++ ".nodeId must match its publicKey.")
  let receiptUrl ← requiredText (value.field "receiptUrl") (field ++ ".receiptUrl")
  let receiptUrl ← validReceiptUrl urls receiptUrl field
  pure ⟨nodeId, key.publicKey, receiptUrl⟩

variable (crypto) in
/-- A pinned node in its normal form: the identifier of its key, the key, and a receipt address. -/
structure PinnedNode (node : CommunityReceiptNode) : Prop where
  identity : ∃ key : ReceiptKey crypto, node.nodeId = key.nodeId ∧ node.publicKey = key.publicKey
  address : ∃ url, urls.parse node.receiptUrl = some url ∧ url.isPublicWeb = true ∧
    url.href = node.receiptUrl ∧ Text.endsWith url.pathname "/receipts/" = true

variable {urls}

/-- Thirty-two bytes of digest name a node in the form that both sides check. -/
theorem ReceiptKey.isKey_nodeId (key : ReceiptKey crypto) : Hex.isKey key.nodeId = true :=
  Hex.isKey_encode (crypto.length_sha256 key.der)

@[simp] theorem ReceiptKey.toLower_nodeId (key : ReceiptKey crypto) :
    key.nodeId.toLower = key.nodeId :=
  Hex.toLower_encode _

theorem ReceiptKey.requiredText_publicKey (key : ReceiptKey crypto) (field : String) :
    requiredText (some (.str key.publicKey)) field = .ok key.publicKey := by
  refine requiredText_of_trim (Base64Url.trim_of_inAlphabet (Base64Url.inAlphabet_encode _)) ?_ field
  intro hempty
  have hbounded := key.bounded.1
  rw [show Base64Url.encode key.der = "" from hempty] at hbounded
  exact absurd hbounded (by decide)

theorem ReceiptKey.requiredText_nodeId (key : ReceiptKey crypto) (field : String) :
    requiredText (some (.str key.nodeId)) field = .ok key.nodeId :=
  requiredText_of_trim (Hex.trim_of_isKey key.isKey_nodeId) (Hex.ne_of_isKey key.isKey_nodeId) field

/-- What normalization accepts is in normal form. -/
theorem pinnedNode_of_normalize {value : JsonValue} {field : String} {node : CommunityReceiptNode}
    (h : normalizeCommunityReceiptNode crypto urls value field = .ok node) :
    PinnedNode crypto urls node := by
  simp only [normalizeCommunityReceiptNode, validReceiptUrl, bind_eq_ok, require_eq_ok, present_eq_ok,
    pure_eq_ok] at h
  obtain ⟨_, -, _, -, key, -, _, -, nodeId, -, _, rfl, _, -, href, ⟨url, hparse, _, hurl, rfl⟩, rfl⟩ := h
  exact ⟨⟨key, rfl, rfl⟩, ⟨url, urls.parse_href hparse, hurl.1, rfl, hurl.2⟩⟩

/-- A node in normal form is accepted as it is. -/
theorem PinnedNode.normalize {node : CommunityReceiptNode} (h : PinnedNode crypto urls node)
    (field : String) :
    normalizeCommunityReceiptNode crypto urls node.toJson field = .ok node := by
  obtain ⟨⟨key, hnode, hkey⟩, url, hparse, hpublic, hhref, hpath⟩ := h
  have htext := requiredText_of_trim (urls.trim_href hparse hpublic) (urls.href_ne hparse hpublic)
    (field ++ ".receiptUrl")
  rw [hhref] at htext
  obtain ⟨nodeId, publicKey, receiptUrl⟩ := node
  subst hnode hkey
  simp only [normalizeCommunityReceiptNode, CommunityReceiptNode.toJson, validReceiptUrl, bind_eq_ok,
    require_eq_ok, present_eq_ok, pure_eq_ok, sha256Hex_eq_ok]
  exact ⟨⟨⟩, rfl, _, key.requiredText_publicKey _, key, decodePublicKey_publicKey key, _,
    key.requiredText_nodeId _, _, ⟨key.isKey_nodeId, key.toLower_nodeId⟩, ⟨⟩, rfl, _, htext, _,
    ⟨url, hparse, ⟨⟩, ⟨hpublic, hpath⟩, hhref⟩, rfl⟩

/-! ## Receipts -/

/-- A signed claim that one community node retains one locally resolved transfer. -/
structure SignedReplicationReceipt (crypto : ReceiptCrypto) where
  communityId : String
  transferId : String
  transferDigest : String
  retainedAt : String
  key : ReceiptKey crypto
  signature : String

/-- The fixed schema carried by a community node's non-authoritative retention receipt. -/
def replicationReceiptSchema : String := "peer-hours/replication-receipt/v1"

/-- The terms of a receipt without its signature. -/
def unsignedTerms (communityId transferId transferDigest retainedAt : String)
    (key : ReceiptKey crypto) : List (String × JsonValue) :=
  [("schema", .str replicationReceiptSchema), ("version", .int 1),
    ("communityId", .str communityId), ("transferId", .str transferId),
    ("transferDigest", .str transferDigest), ("retainedAt", .str retainedAt),
    ("nodeId", .str key.nodeId), ("publicKey", .str key.publicKey)]

/-- The exact bytes that a node signs. -/
def receiptPayload (communityId transferId transferDigest retainedAt : String)
    (key : ReceiptKey crypto) : Buffer :=
  utf8 (canonicalJson (.obj (unsignedTerms communityId transferId transferDigest retainedAt key)))

/-- The receipt as JSON. -/
def SignedReplicationReceipt.toJson (receipt : SignedReplicationReceipt crypto) : JsonValue :=
  .obj (unsignedTerms receipt.communityId receipt.transferId receipt.transferDigest
    receipt.retainedAt receipt.key ++ [("signature", .str receipt.signature)])

/-- What a receipt is created from. -/
structure CreateReplicationReceiptInput where
  communityId : String
  transferId : String
  transferDigest : String
  retainedAt : String
  /-- Signs with the node's persistent private key. -/
  sign : Buffer → Buffer
  publicKey : String

/-- Signs a bounded retention claim using the community node's persistent Ed25519 private key. -/
def createReplicationReceipt (input : CreateReplicationReceiptInput) :
    Except String (SignedReplicationReceipt crypto) := do
  let communityId ← requiredText (some (.str input.communityId)) "communityId"
  let transferId ← requiredText (some (.str input.transferId)) "transferId"
  let transferDigest ← sha256Hex input.transferDigest "transferDigest"
  let retainedAt ← validTimestamp input.retainedAt
  let key ← decodePublicKey crypto input.publicKey
  pure
    { communityId := communityId
      transferId := transferId
      transferDigest := transferDigest
      retainedAt := retainedAt
      key := key
      signature := Base64Url.encode (input.sign
        (receiptPayload communityId transferId transferDigest retainedAt key)) }

variable (crypto) in
/-- Normalizes untrusted HTTP JSON before cryptographic verification. -/
def normalizeReceipt (value : JsonValue) : Except String (SignedReplicationReceipt crypto) := do
  require (value.isObject = true ∧ value.field "schema" = some (.str replicationReceiptSchema) ∧
      value.field "version" = some (.int 1)) "Receipt has an unsupported schema."
  let publicKey ← requiredText (value.field "publicKey") "receipt.publicKey"
  let key ← decodePublicKey crypto publicKey
  let nodeId ← requiredText (value.field "nodeId") "receipt.nodeId"
  let nodeId ← sha256Hex nodeId "receipt.nodeId"
  require (nodeId = key.nodeId) "Receipt nodeId must match publicKey."
  let signature ← requiredText (value.field "signature") "receipt.signature"
  require (Base64Url.inAlphabet signature = true ∧ 80 ≤ signature.toList.length ∧
      signature.toList.length ≤ 200) "Receipt signature must be base64url Ed25519 data."
  let communityId ← requiredText (value.field "communityId") "receipt.communityId"
  let transferId ← requiredText (value.field "transferId") "receipt.transferId"
  let transferDigest ← requiredText (value.field "transferDigest") "receipt.transferDigest"
  let transferDigest ← sha256Hex transferDigest "receipt.transferDigest"
  let retainedAt ← requiredText (value.field "retainedAt") "receipt.retainedAt"
  let retainedAt ← validTimestamp retainedAt
  pure
    { communityId := communityId
      transferId := transferId
      transferDigest := transferDigest
      retainedAt := retainedAt
      key := key
      signature := signature }

/-- A receipt of a trusted node for exactly this transfer, once it is normalized. -/
def verifiesFor (receipt : SignedReplicationReceipt crypto) (trustedNodes : List CommunityReceiptNode)
    (communityId transferId transferDigest : String) : Bool :=
  receipt.communityId == communityId && receipt.transferId == transferId &&
    receipt.transferDigest == transferDigest.toLower &&
    trustedNodes.any (fun node ↦
      node.nodeId == receipt.key.nodeId && node.publicKey == receipt.key.publicKey) &&
    crypto.verify receipt.key.key (receiptPayload receipt.communityId receipt.transferId
      receipt.transferDigest receipt.retainedAt receipt.key) (Base64Url.decode receipt.signature)

variable (crypto) in
/-- Verifies a receipt cryptographically and against a pinned node identity, for the community, the transfer
and the content that the caller expects. -/
def verifyReplicationReceipt (receipt : JsonValue) (trustedNodes : List CommunityReceiptNode)
    (communityId transferId transferDigest : String) : Bool :=
  match normalizeReceipt crypto receipt with
  | .ok receipt => verifiesFor receipt trustedNodes communityId transferId transferDigest
  | .error _ => false

/-! ## What a verified receipt says -/

/-- The field holds readable text. -/
def HoldsText (value : JsonValue) (name text : String) : Prop :=
  value.field name = some (.str text) ∧ Text.blank text = false ∧ Text.trim text = text

/-- The receipt is the normal form of the response, field by field. -/
structure SignedReplicationReceipt.NormalOf (receipt : SignedReplicationReceipt crypto)
    (value : JsonValue) : Prop where
  schema : value.isObject = true ∧ value.field "schema" = some (.str replicationReceiptSchema) ∧
    value.field "version" = some (.int 1)
  publicKey : ∃ text, HoldsText value "publicKey" text ∧ decodePublicKey crypto text = .ok receipt.key
  nodeId : ∃ text, HoldsText value "nodeId" text ∧ Hex.isKey text = true ∧
    text.toLower = receipt.key.nodeId
  signature : HoldsText value "signature" receipt.signature ∧
    Base64Url.inAlphabet receipt.signature = true ∧ 80 ≤ receipt.signature.toList.length ∧
      receipt.signature.toList.length ≤ 200
  communityId : HoldsText value "communityId" receipt.communityId
  transferId : HoldsText value "transferId" receipt.transferId
  transferDigest : ∃ text, HoldsText value "transferDigest" text ∧ Hex.isKey text = true ∧
    text.toLower = receipt.transferDigest
  retainedAt : HoldsText value "retainedAt" receipt.retainedAt ∧
    Timestamp.isIsoUtc receipt.retainedAt = true

theorem normalizeReceipt_eq_ok {value : JsonValue} {receipt : SignedReplicationReceipt crypto} :
    normalizeReceipt crypto value = .ok receipt ↔ receipt.NormalOf value := by
  simp only [normalizeReceipt, validTimestamp, bind_eq_ok, require_eq_ok, pure_eq_ok,
    requiredText_eq_ok, sha256Hex_eq_ok, exists_const]
  constructor
  · rintro ⟨hschema, publicKey, hpublicKey, key, hkey, nodeId, hnodeId, _, ⟨hisKey, rfl⟩, hnode,
      signature, hsignature, hsigned, _, hcommunityId, _, htransferId, digest, hdigest, _,
      ⟨hisDigest, rfl⟩, _, hretainedAt, _, ⟨htimestamp, rfl⟩, rfl⟩
    exact ⟨hschema, ⟨publicKey, hpublicKey, hkey⟩, ⟨nodeId, hnodeId, hisKey, hnode⟩,
      ⟨hsignature, hsigned⟩, hcommunityId, htransferId, ⟨digest, hdigest, hisDigest, rfl⟩,
      hretainedAt, htimestamp⟩
  · intro h
    obtain ⟨publicKey, hpublicKey, hkey⟩ := h.publicKey
    obtain ⟨nodeId, hnodeId, hisKey, hnode⟩ := h.nodeId
    obtain ⟨digest, hdigest, hisDigest, hlower⟩ := h.transferDigest
    exact ⟨h.schema, publicKey, hpublicKey, receipt.key, hkey, nodeId, hnodeId, _, ⟨hisKey, rfl⟩,
      hnode, receipt.signature, h.signature.1, h.signature.2, _, h.communityId, _, h.transferId,
      digest, hdigest, _, ⟨hisDigest, hlower⟩, _, h.retainedAt.1, _, ⟨h.retainedAt.2, rfl⟩, rfl⟩

variable (crypto) in
/-- The response carries the identifier of the node and a signature by the key of the node over exactly
these terms. -/
structure Attests (receipt : JsonValue) (node : CommunityReceiptNode)
    (communityId transferId transferDigest : String) : Prop where
  names : receipt.field "nodeId" = some (.str node.nodeId)
  community : receipt.field "communityId" = some (.str communityId)
  transfer : receipt.field "transferId" = some (.str transferId)
  digest : ∃ text, receipt.field "transferDigest" = some (.str text) ∧ text.toLower = transferDigest
  signed : ∃ (key : ReceiptKey crypto) (retainedAt signature : String),
    key.nodeId = node.nodeId ∧ key.publicKey = node.publicKey ∧
      receipt.field "retainedAt" = some (.str retainedAt) ∧
      receipt.field "signature" = some (.str signature) ∧
      crypto.verify key.key (receiptPayload communityId transferId transferDigest retainedAt key)
        (Base64Url.decode signature) = true

/-- A response that attests to two sets of terms attests to one. -/
theorem Attests.terms_eq {receipt : JsonValue} {left right : CommunityReceiptNode}
    {communityId communityId' transferId transferId' digest digest' : String}
    (h : Attests crypto receipt left communityId transferId digest)
    (h' : Attests crypto receipt right communityId' transferId' digest') :
    left.nodeId = right.nodeId ∧ communityId = communityId' ∧ transferId = transferId' ∧
      digest = digest' := by
  have hsame {name text text' : String} (hfield : receipt.field name = some (.str text))
      (hfield' : receipt.field name = some (.str text')) : text = text' := by
    injection (Option.some.inj (hfield.symm.trans hfield'))
  obtain ⟨text, htext, rfl⟩ := h.digest
  obtain ⟨text', htext', rfl⟩ := h'.digest
  exact ⟨hsame h.names h'.names, hsame h.community h'.community, hsame h.transfer h'.transfer,
    by rw [hsame htext htext']⟩

/-- A verified response that names a pinned node attests for that node. -/
theorem attests_of_verifies {receipt : JsonValue} {nodes : List CommunityReceiptNode}
    (hpinned : ∀ node ∈ nodes, PinnedNode crypto urls node) (hnodup : (nodes.map (·.nodeId)).Nodup)
    {node : CommunityReceiptNode} (hnode : node ∈ nodes)
    (hnames : receipt.field "nodeId" = some (.str node.nodeId))
    {communityId transferId transferDigest : String}
    (h : verifyReplicationReceipt crypto receipt nodes communityId transferId transferDigest = true) :
    Attests crypto receipt node communityId transferId transferDigest.toLower := by
  unfold verifyReplicationReceipt at h
  split at h
  · rename_i normal hnormal
    have hreceipt := normalizeReceipt_eq_ok.mp hnormal
    simp only [verifiesFor, Bool.and_eq_true, beq_iff_eq, List.any_eq_true] at h
    obtain ⟨⟨⟨⟨rfl, rfl⟩, hdigest⟩, trusted, htrusted, hid, hkey⟩, hverify⟩ := h
    -- the node that the key belongs to is the node that the response names
    obtain ⟨text, htext, -, hlower⟩ := hreceipt.nodeId
    obtain ⟨⟨pinned, hpinnedId, -⟩, -⟩ := hpinned node hnode
    have hraw : text = node.nodeId := by
      injection (Option.some.inj (htext.1.symm.trans hnames))
    have hnodeId : normal.key.nodeId = node.nodeId := by
      rw [← hlower, hraw, hpinnedId, pinned.toLower_nodeId]
    obtain rfl : trusted = node :=
      List.inj_on_of_nodup_map hnodup htrusted hnode (hid.trans hnodeId)
    obtain ⟨digest, hdigestText, -, hdigestLower⟩ := hreceipt.transferDigest
    rw [hdigest] at hdigestLower hverify
    exact ⟨hnames, hreceipt.communityId.1, hreceipt.transferId.1, ⟨digest, hdigestText.1, hdigestLower⟩,
      normal.key, normal.retainedAt, normal.signature, hnodeId, hkey.symm, hreceipt.retainedAt.1.1,
      hreceipt.signature.1.1, hverify⟩
  · exact absurd h (by simp)

/-- The signing function belongs to the key: what it signs has 64 bytes and verifies. -/
def SignsFor (key : ReceiptKey crypto) (sign : Buffer → Buffer) : Prop :=
  ∀ payload, (sign payload).length = 64 ∧ crypto.verify key.key payload (sign payload) = true

/-- A signature of 64 bytes is written as readable text within the bounds of a receipt. -/
theorem encode_signature {signature : Buffer} (h : signature.length = 64) :
    (Text.blank (Base64Url.encode signature) = false ∧
      Text.trim (Base64Url.encode signature) = Base64Url.encode signature) ∧
    Base64Url.inAlphabet (Base64Url.encode signature) = true ∧
      80 ≤ (Base64Url.encode signature).toList.length ∧
      (Base64Url.encode signature).toList.length ≤ 200 := by
  have halphabet := Base64Url.inAlphabet_encode signature
  have htrim := Base64Url.trim_of_inAlphabet halphabet
  have hlength : (Base64Url.encode signature).toList.length = 86 := by
    rw [Base64Url.length_encode, h]
  refine ⟨⟨Text.blank_of_trim htrim fun hempty ↦ ?_, htrim⟩, halphabet, by omega, by omega⟩
  rw [hempty] at hlength
  exact absurd hlength (by decide)

/-- A created receipt is its own normal form. -/
theorem normalOf_created {input : CreateReplicationReceiptInput}
    {receipt : SignedReplicationReceipt crypto} (h : createReplicationReceipt input = .ok receipt)
    (hsign : SignsFor receipt.key input.sign) : receipt.NormalOf receipt.toJson := by
  simp only [createReplicationReceipt, validTimestamp, bind_eq_ok, require_eq_ok, pure_eq_ok,
    requiredText_eq_ok, sha256Hex_eq_ok, exists_const] at h
  obtain ⟨communityId, ⟨-, hcommunityId⟩, transferId, ⟨-, htransferId⟩, _, ⟨hdigest, rfl⟩,
    _, ⟨hretainedAt, rfl⟩, key, hkey, rfl⟩ := h
  have hsignature := encode_signature (hsign (receiptPayload communityId transferId
    input.transferDigest.toLower input.retainedAt key)).1
  have hkeyText := requiredText_eq_ok.mp (key.requiredText_publicKey "")
  have hnodeText := requiredText_eq_ok.mp (key.requiredText_nodeId "")
  have hlower := Hex.isKey_toLower hdigest
  have htrim := Hex.trim_of_isKey hlower
  have htime := Timestamp.trim_of_isIsoUtc hretainedAt
  exact
    { schema := ⟨rfl, rfl, rfl⟩
      publicKey := ⟨key.publicKey, ⟨rfl, hkeyText.2⟩, decodePublicKey_publicKey key⟩
      nodeId := ⟨key.nodeId, ⟨rfl, hnodeText.2⟩, key.isKey_nodeId, key.toLower_nodeId⟩
      signature := ⟨⟨rfl, hsignature.1⟩, hsignature.2⟩
      communityId := ⟨rfl, hcommunityId⟩
      transferId := ⟨rfl, htransferId⟩
      transferDigest := ⟨_, ⟨rfl, Text.blank_of_trim htrim (Hex.ne_of_isKey hlower), htrim⟩, hlower,
        Hex.toLower_toLower hdigest⟩
      retainedAt := ⟨⟨rfl, Text.blank_of_trim htime.1 htime.2, htime.1⟩, hretainedAt⟩ }

/-- A created receipt is verified against every list of nodes that pins its key. -/
theorem verifies_created {input : CreateReplicationReceiptInput}
    {receipt : SignedReplicationReceipt crypto} (h : createReplicationReceipt input = .ok receipt)
    (hsign : SignsFor receipt.key input.sign) {nodes : List CommunityReceiptNode}
    {node : CommunityReceiptNode} (hnode : node ∈ nodes) (hid : receipt.key.nodeId = node.nodeId)
    (hkey : receipt.key.publicKey = node.publicKey) :
    verifyReplicationReceipt crypto receipt.toJson nodes input.communityId input.transferId
      input.transferDigest = true := by
  rw [verifyReplicationReceipt, normalizeReceipt_eq_ok.mpr (normalOf_created h hsign)]
  simp only [createReplicationReceipt, validTimestamp, bind_eq_ok, require_eq_ok, pure_eq_ok,
    requiredText_eq_ok, sha256Hex_eq_ok, exists_const, Option.some.injEq, JsonValue.str.injEq] at h
  obtain ⟨_, ⟨rfl, -⟩, _, ⟨rfl, -⟩, _, ⟨-, rfl⟩, _, ⟨-, rfl⟩, key, -, rfl⟩ := h
  have hverify := (hsign (receiptPayload input.communityId input.transferId
    input.transferDigest.toLower input.retainedAt key)).2
  simp only [verifiesFor, Bool.and_eq_true, beq_iff_eq, List.any_eq_true, Base64Url.decode_encode]
  exact ⟨⟨⟨⟨trivial, trivial⟩, trivial⟩, node, hnode, hid.symm, hkey.symm⟩, hverify⟩

end PeerHours.PeerRuntime
