import PeerHours.Runtime.Receipts

/-!
# Bootstrap manifests

The bootstrap service builds a manifest from its configuration, and a peer runtime parses what it is served.
Both check the same fields, each with limits of its own.
-/

namespace PeerHours.PeerRuntime

open Checked Json

/-- Validated non-authoritative discovery metadata. -/
structure CommunityManifest where
  communityId : String
  displayName : String
  protocolVersion : Int
  role : String
  capabilities : List String
  coreKey : String
  bootstrapNodes : List String
  communityNodeUrl : Option String
  receiptNodes : List CommunityReceiptNode

/-- The manifest as it is served. -/
def CommunityManifest.toJson (manifest : CommunityManifest) : JsonValue :=
  .obj [("communityId", .str manifest.communityId), ("displayName", .str manifest.displayName),
    ("protocolVersion", .int manifest.protocolVersion), ("role", .str manifest.role),
    ("capabilities", .arr (manifest.capabilities.map .str)), ("coreKey", .str manifest.coreKey),
    ("bootstrapNodes", .arr (manifest.bootstrapNodes.map .str)),
    ("communityNodeUrl", (manifest.communityNodeUrl.map .str).getD .null),
    ("receiptNodes", .arr (manifest.receiptNodes.map (·.toJson)))]

def maxBootstrapNodes : Nat := 16

def maxEndpointUrlLength : Nat := 2048

/-- The length limit of an endpoint, in UTF-16 units. -/
def boundedEndpoint (value : String) : Bool :=
  value != "" && decide ((Text.utf16 value).length ≤ maxEndpointUrlLength)

variable (crypto : ReceiptCrypto) (urls : UrlParser)

/-! ## Parsing -/

/-- Reads a required string field and rejects blank identifiers or labels. -/
def requiredNonblankString (payload : JsonValue) (field : String) : Except String String := do
  let message := "Bootstrap metadata field " ++ field ++ " must be a nonblank string."
  let text ← present (JsonValue.text? (payload.field field)) message
  require (Text.blank text = false) message
  pure text

/-- Validates the fixed-length hexadecimal public key used to open a Hypercore. -/
def validCoreKey (value field : String) : Except String String := do
  require (Hex.isKey value = true) ("Bootstrap metadata field " ++ field ++
    " must be a 64-character hexadecimal Hypercore key.")
  pure value.toLower

/-- The items of a JSON array. -/
def arrayItems? : Option JsonValue → Option (List JsonValue)
  | some (.arr items) => some items
  | _ => none

/-- Validates bounded public operational URLs without permitting embedded credentials or fragments. -/
def validOperationalUrl (value : JsonValue) (label : String) : Except String String := do
  let message := label ++ " must be a valid HTTP(S) URL."
  let text ← present (JsonValue.text? (some value)) message
  require (boundedEndpoint text = true) message
  let url ← present (urls.parse text) message
  require (url.isPublicWeb = true) message
  pure url.href

/-- Validates bootstrap node locations without accepting non-web URL schemes. -/
def validBootstrapNodes (value : Option JsonValue) : Except String (List String) := do
  let items ← present (arrayItems? value)
    "Bootstrap metadata field bootstrapNodes must be an array of HTTP(S) URLs."
  require (items.length ≤ maxBootstrapNodes)
    "Bootstrap metadata field bootstrapNodes must contain at most 16 URLs."
  let nodes ← mapIndexed (fun index node ↦
    validOperationalUrl urls node ("Bootstrap metadata bootstrapNodes[" ++ toString index ++ "]")) items
  require nodes.Nodup "Bootstrap metadata field bootstrapNodes must not contain duplicate URLs."
  pure nodes

/-- Parses an optional diagnostics endpoint for an independently deployed community peer. -/
def optionalCommunityNodeUrl : Option JsonValue → Except String (Option String)
  | none | some .null => .ok none
  | some value => do
      let url ← validOperationalUrl urls value "Bootstrap metadata field communityNodeUrl"
      pure (some url)

/-- Receipt nodes with different identities and different addresses. -/
def assertDistinctReceiptNodes (label : String) (nodes : List CommunityReceiptNode) :
    Except String Unit := do
  require (nodes.map (·.nodeId)).Nodup (label ++ " must not contain duplicate node identities.")
  require (nodes.map (·.receiptUrl)).Nodup (label ++ " must not contain duplicate receipt URLs.")

/-- Reads optional pinned receipt identities while preserving compatibility with pre-receipt
manifests. -/
def validReceiptNodes : Option JsonValue → Except String (List CommunityReceiptNode)
  | none | some .null => .ok []
  | some value => do
      let message := "Bootstrap metadata field receiptNodes must be an array of at most 16 nodes."
      let items ← present (arrayItems? (some value)) message
      require (items.length ≤ maxBootstrapNodes) message
      let nodes ← mapIndexed (fun index node ↦ normalizeCommunityReceiptNode crypto urls node
        ("Bootstrap metadata receiptNodes[" ++ toString index ++ "]")) items
      assertDistinctReceiptNodes "Bootstrap metadata field receiptNodes" nodes
      pure nodes

/-- Parses untrusted bootstrap JSON into the complete community metadata the runtime can safely use. -/
def parseCommunityManifest (payload : JsonValue) : Except String CommunityManifest := do
  require (payload.isObject = true) "Bootstrap metadata must be a JSON object."
  let communityId ← requiredNonblankString payload "communityId"
  let displayName ← requiredNonblankString payload "displayName"
  require (payload.field "protocolVersion" = some (.int 1))
    "Bootstrap metadata field protocolVersion must be the supported version 1."
  require (payload.field "role" = some (.str "bootstrap"))
    "Bootstrap metadata field role must be bootstrap."
  require (payload.field "capabilities" = some (.arr [.str "discovery-metadata"]))
    "Bootstrap metadata field capabilities must be [discovery-metadata]."
  let coreKey ← requiredNonblankString payload "coreKey"
  let coreKey ← validCoreKey coreKey "coreKey"
  let bootstrapNodes ← validBootstrapNodes urls (payload.field "bootstrapNodes")
  let communityNodeUrl ← optionalCommunityNodeUrl urls (payload.field "communityNodeUrl")
  let receiptNodes ← validReceiptNodes crypto urls (payload.field "receiptNodes")
  pure
    { communityId := communityId
      displayName := displayName
      protocolVersion := 1
      role := "bootstrap"
      capabilities := ["discovery-metadata"]
      coreKey := coreKey
      bootstrapNodes := bootstrapNodes
      communityNodeUrl := communityNodeUrl
      receiptNodes := receiptNodes }

section

variable {crypto urls}

theorem requiredNonblankString_eq_ok {payload : JsonValue} {field text : String} :
    requiredNonblankString payload field = .ok text ↔
      payload.field field = some (.str text) ∧ Text.blank text = false := by
  simp only [requiredNonblankString, bind_eq_ok, present_eq_ok, JsonValue.text?_eq_some,
    require_eq_ok, pure_eq_ok, exists_const]
  constructor
  · rintro ⟨_, hfield, hblank, rfl⟩
    exact ⟨hfield, hblank⟩
  · rintro ⟨hfield, hblank⟩
    exact ⟨text, hfield, hblank, rfl⟩

theorem validCoreKey_eq_ok {value field key : String} :
    validCoreKey value field = .ok key ↔ Hex.isKey value = true ∧ value.toLower = key := by
  simp only [validCoreKey, bind_eq_ok, require_eq_ok, exists_const, pure_eq_ok]

variable (crypto urls) in
/-- The payload describes the manifest, field by field. -/
structure CommunityManifest.ParsedFrom (manifest : CommunityManifest) (payload : JsonValue) : Prop where
  isObject : payload.isObject = true
  communityId : payload.field "communityId" = some (.str manifest.communityId) ∧
    Text.blank manifest.communityId = false
  displayName : payload.field "displayName" = some (.str manifest.displayName) ∧
    Text.blank manifest.displayName = false
  protocolVersion : payload.field "protocolVersion" = some (.int 1) ∧ manifest.protocolVersion = 1
  role : payload.field "role" = some (.str "bootstrap") ∧ manifest.role = "bootstrap"
  capabilities : payload.field "capabilities" = some (.arr [.str "discovery-metadata"]) ∧
    manifest.capabilities = ["discovery-metadata"]
  coreKey : ∃ text, (payload.field "coreKey" = some (.str text) ∧ Text.blank text = false) ∧
    Hex.isKey text = true ∧ text.toLower = manifest.coreKey
  bootstrapNodes : validBootstrapNodes urls (payload.field "bootstrapNodes") =
    .ok manifest.bootstrapNodes
  communityNodeUrl : optionalCommunityNodeUrl urls (payload.field "communityNodeUrl") =
    .ok manifest.communityNodeUrl
  receiptNodes : validReceiptNodes crypto urls (payload.field "receiptNodes") =
    .ok manifest.receiptNodes

/-- A payload is parsed to the manifest that it describes. -/
theorem parseCommunityManifest_eq_ok {payload : JsonValue} {manifest : CommunityManifest} :
    parseCommunityManifest crypto urls payload = .ok manifest ↔
      manifest.ParsedFrom crypto urls payload := by
  simp only [parseCommunityManifest, bind_eq_ok, require_eq_ok, pure_eq_ok, exists_const,
    requiredNonblankString_eq_ok, validCoreKey_eq_ok]
  constructor
  · rintro ⟨hobject, _, hcommunityId, _, hdisplayName, hversion, hrole, hcapabilities, text, htext, _,
      hkey, _, hnodes, _, hurl, _, hreceipts, rfl⟩
    exact ⟨hobject, hcommunityId, hdisplayName, ⟨hversion, rfl⟩, ⟨hrole, rfl⟩, ⟨hcapabilities, rfl⟩,
      ⟨text, htext, hkey⟩, hnodes, hurl, hreceipts⟩
  · intro h
    obtain ⟨text, htext, hkey⟩ := h.coreKey
    refine ⟨h.isObject, _, h.communityId, _, h.displayName, h.protocolVersion.1, h.role.1,
      h.capabilities.1, text, htext, _, hkey, _, h.bootstrapNodes, _, h.communityNodeUrl, _,
      h.receiptNodes, ?_⟩
    rw [← h.protocolVersion.2, ← h.role.2, ← h.capabilities.2]

/-- Parsed receipt nodes are pinned, and no two have one identity. -/
theorem pinnedNodes_of_validReceiptNodes {value : Option JsonValue} {nodes : List CommunityReceiptNode}
    (h : validReceiptNodes crypto urls value = .ok nodes) :
    (∀ node ∈ nodes, PinnedNode crypto urls node) ∧ (nodes.map (·.nodeId)).Nodup := by
  unfold validReceiptNodes at h
  split at h
  · cases h
    exact ⟨List.forall_mem_nil _, List.nodup_nil⟩
  · cases h
    exact ⟨List.forall_mem_nil _, List.nodup_nil⟩
  · simp only [assertDistinctReceiptNodes, bind_eq_ok, present_eq_ok, require_eq_ok, pure_eq_ok,
      exists_const] at h
    obtain ⟨_, -, -, nodes, hmap, ⟨hids, -⟩, rfl⟩ := h
    refine ⟨forall_right_of_forall₂ (forall₂_of_mapIndexed hmap) fun _ _ hvalid ↦ ?_, hids⟩
    obtain ⟨_, hnode⟩ := hvalid
    exact pinnedNode_of_normalize hnode

end

/-! ## Building -/

/-- Deployment configuration of the bootstrap service. -/
structure BootstrapConfiguration where
  communityId : String
  displayName : String
  coreKey : String
  bootstrapNodes : List String
  communityNodeUrl : Option String
  receiptNodes : List CommunityReceiptNode

/-- Requires readable configuration text rather than silently serving an incomplete community scope. -/
def configuredText (value label : String) : Except String String := do
  require (Text.blank value = false) (label ++ " is required.")
  pure value

/-- Limits optional fallback bootstrap endpoints to safe web URLs. -/
def validBootstrapUrl (value : String) (index : Nat) : Except String String := do
  let node := "Bootstrap node " ++ toString (index + 1)
  require (boundedEndpoint value = true) (node ++ " must be a valid HTTP(S) URL.")
  let url ← present (urls.parse value) (node ++ " must be an HTTP(S) URL.")
  require (url.isPublicWeb = true) (node ++ " must be an HTTP(S) URL.")
  pure url.href

/-- Accepts only canonical base64url SPKI material for an Ed25519 receipt identity. -/
def validReceiptPublicKey (value : String) (index : Nat) : Except String (ReceiptKey crypto) := do
  let node := "Receipt node " ++ toString (index + 1)
  require (Base64Url.inAlphabet value = true ∧ 40 ≤ value.toList.length ∧ value.toList.length ≤ 256)
    (node ++ " must have a base64url public key.")
  (decodePublicKey crypto value).mapError fun _ ↦ node ++ " must have an Ed25519 SPKI public key."

/-- Validates static receipt metadata without allowing bootstrap to mint or control a node identity. -/
def validReceiptNode (value : CommunityReceiptNode) (index : Nat) :
    Except String CommunityReceiptNode := do
  let node := "Receipt node " ++ toString (index + 1)
  require (Hex.isKey value.nodeId = true) (node ++ " must have a SHA-256 node id.")
  let key ← validReceiptPublicKey crypto value.publicKey index
  require (key.nodeId = value.nodeId.toLower) (node ++ " node id must match its public key.")
  let receiptUrl ← validBootstrapUrl urls value.receiptUrl index
  let url ← present (urls.parse receiptUrl) "Invalid URL"
  require (Text.endsWith url.pathname "/receipts/" = true)
    (node ++ " receipt URL must end in /receipts/.")
  pure ⟨key.nodeId, key.publicKey, receiptUrl⟩

/-- Builds a validated bootstrap manifest from deployment configuration without operating a peer. -/
def createBootstrapManifest (input : BootstrapConfiguration) : Except String CommunityManifest := do
  let communityId ← configuredText input.communityId "Community id"
  let displayName ← configuredText input.displayName "Community display name"
  let coreKey := input.coreKey.toLower
  require (Hex.isKey coreKey = true)
    "Discovery core key must be a 64-character hexadecimal Hypercore key."
  require (input.bootstrapNodes.length ≤ maxBootstrapNodes)
    "At most 16 bootstrap nodes may be configured."
  let bootstrapNodes ← mapIndexed (fun index url ↦ validBootstrapUrl urls url index)
    input.bootstrapNodes
  require bootstrapNodes.Nodup "Bootstrap nodes must not contain duplicate URLs."
  let communityNodeUrl ← input.communityNodeUrl.mapM (validBootstrapUrl urls · 0)
  let receiptNodes ← mapIndexed (fun index node ↦ validReceiptNode crypto urls node index)
    input.receiptNodes
  assertDistinctReceiptNodes "Receipt nodes" receiptNodes
  pure
    { communityId := communityId
      displayName := displayName
      protocolVersion := 1
      role := "bootstrap"
      capabilities := ["discovery-metadata"]
      coreKey := coreKey
      bootstrapNodes := bootstrapNodes
      communityNodeUrl := communityNodeUrl
      receiptNodes := receiptNodes }

end PeerHours.PeerRuntime
