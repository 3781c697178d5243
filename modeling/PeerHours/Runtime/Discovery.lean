import PeerHours.Runtime.Invitations
import PeerHours.Runtime.Manifest
import PeerHours.Library.Interleaving

/-!
# The discovery scope of a runtime

Which community a runtime has selected, which bootstrap endpoints it asks, and on which core it hears of member
feeds. Starting, refreshing, creating and joining a community, and stopping run as calls that give way to each
other wherever they await. A core is named by its key, and a discovery topic by its text, both in hexadecimal
digits of lower case.
-/

namespace PeerHours.PeerRuntime

open Checked Json

/-! ## State -/

/-- What a runtime uses of its host: how manifests and genesis records are checked, and the discovery key that
Hypercore derives from the key of a core. -/
structure DiscoveryHost where
  receipts : ReceiptCrypto
  genesis : GenesisCrypto
  urls : UrlParser
  discoveryKey : String → String

inductive BootstrapState where
  | notConfigured
  | fetching
  | fetched
  | error
deriving DecidableEq

/-- The part of a runtime that discovery reads and writes. The store is open when there is a network core. -/
structure Discovery where
  bootstrapKey : Option String
  bootstrapUrls : List String
  networkingEnabled : Bool
  memberFeedEnabled : Bool
  activeBootstrapUrl : Option String
  bootstrapState : BootstrapState
  bootstrapLastFetchedAt : Option String
  bootstrapConsecutiveFailures : Nat
  bootstrapLastError : Option String
  community : Option CommunityManifest
  core : Option String
  communityGenesisCore : Option String
  bootstrapCore : Option String
  memberFeedAnnouncementExtension : Option String
  swarm : Bool
  topics : List String
  listening : Bool
  bootstrapRefreshTimer : Bool
  error : Option String
  started : Bool
  stopped : Bool

/-- Normalizes an application-provided endpoint list before any request occurs. -/
def normalizeBootstrapUrls (urls : UrlParser) (values : List String) : Except String (List String) := do
  let normal ← mapIndexed (fun index url ↦
    validOperationalUrl urls (.str url) ("bootstrapUrl[" ++ toString index ++ "]")) values
  require normal.Nodup "bootstrapUrl must not contain duplicate URLs."
  pure normal

/-- Checks an optional pinned key; an empty text is no key. -/
def pinnedKey : Option String → Except String (Option String)
  | none => .ok none
  | some key => if key = "" then .ok none else do
      let key ← validCoreKey key "bootstrapKey"
      pure (some key)

/-- Creates a runtime. -/
def Discovery.create (host : DiscoveryHost) (bootstrapKey : Option String) (bootstrapUrl : List String)
    (networkingEnabled memberFeedEnabled : Bool) : Except String Discovery := do
  let key ← pinnedKey bootstrapKey
  let bootstrapUrls ← normalizeBootstrapUrls host.urls bootstrapUrl
  pure
    { bootstrapKey := key
      bootstrapUrls := bootstrapUrls
      networkingEnabled := networkingEnabled
      memberFeedEnabled := memberFeedEnabled
      activeBootstrapUrl := none
      bootstrapState := .notConfigured
      bootstrapLastFetchedAt := none
      bootstrapConsecutiveFailures := 0
      bootstrapLastError := none
      community := none
      core := none
      communityGenesisCore := none
      bootstrapCore := none
      memberFeedAnnouncementExtension := none
      swarm := false
      topics := []
      listening := false
      bootstrapRefreshTimer := false
      error := none
      started := false
      stopped := false }

/-! ## Calls -/

/-- What a call to create a community is given. -/
structure CreateCommunityInput where
  displayName : JsonValue
  location : JsonValue
  creatorMemberId : String
  creatorRootPublicKeyPem : String
  sign : Buffer → String

/-- The calls of a runtime: also the periodic refresh. -/
inductive DiscoveryCall where
  | start
  | refresh
  | createCommunity (input : CreateCommunityInput)
  | joinCommunity (invitation : JsonValue)
  | stop

/-- Whom a fetch of the bootstrap key returns to: the start of the runtime, or nobody. -/
inductive FetchCaller where
  | start
  | refresh
deriving DecidableEq

/-- Where the loop over the endpoints stands: at an index of the list itself, which may grow meanwhile, or
before the rest of a copy of it. -/
inductive Endpoints where
  | live (index : Nat)
  | copied (rest : List String)

/-- Where a call waits. -/
inductive DiscoveryStage where
  | called (call : DiscoveryCall)
  | makesDirectory
  | readiesCore
  | opensMemberFeed
  | listens
  | networked
  | fetches (caller : FetchCaller) (endpoints : Endpoints) (endpoint : String)
      (failures : List (String × String))
  | fetched (key : Option String)
  | readiesBootstrapCore
  | readiesGenesisCore (core : String) (input : CreateCommunityInput)
  | appendsGenesis (core : String) (genesis : JsonValue)
  | readiesJoinedCore (communityId discoveryKey : String)
  | flushesInvitation (communityId discoveryKey : String)
  | updatesCore (communityId discoveryKey : String)
  | readsGenesis (communityId discoveryKey : String)
  | flushesSelection (core : String)
  | destroysSwarm

/-- What a resumption reads from its surroundings: whether what the call awaited succeeded, what the endpoint
answered, the keys of cores that the store opens by name, how many connections are open, whether a peer
supplied the first block and what it is, and the time. -/
structure DiscoveryContext where
  awaited : Except String Unit
  response : Except String JsonValue
  localCore : String
  newCore : String
  connections : Nat
  available : Bool
  firstBlock : JsonValue
  now : String

/-- Where a call waits next, if it has not ended, and the runtime it leaves behind. -/
abbrev Resumed := Option DiscoveryStage × Discovery

/-! ## Discovery cores -/

/-- Joins a discovery topic. -/
def Discovery.join (runtime : Discovery) (topic : String) : Discovery :=
  { runtime with topics := runtime.topics ++ [topic] }

/-- Registers the announcement extension on a core, unless it is registered. -/
def Discovery.registerMemberFeedAnnouncementExtension (runtime : Discovery) (core : Option String) :
    Discovery :=
  if runtime.memberFeedAnnouncementExtension = none then
    { runtime with memberFeedAnnouncementExtension := core }
  else runtime

/-- Stops discovery and closes local storage, up to where the swarm is destroyed. -/
def Discovery.stop (runtime : Discovery) : Resumed :=
  if runtime.stopped = true then (none, runtime)
  else
    (if runtime.swarm = true then some .destroysSwarm else none,
      { runtime with
        stopped := true
        bootstrapRefreshTimer := false
        memberFeedAnnouncementExtension := none })

/-- A start that fails records its error and stops the runtime. -/
def Discovery.failStart (runtime : Discovery) (message : String) : Resumed :=
  { runtime with error := some message }.stop

/-- The last lines of a start: the timers run where an endpoint is configured. -/
def Discovery.finishStart (runtime : Discovery) : Resumed :=
  (none, { runtime with
    bootstrapRefreshTimer := runtime.bootstrapRefreshTimer || !runtime.bootstrapUrls.isEmpty })

/-! ## Bootstrap metadata -/

/-- Returns to the caller of a fetch. -/
def Discovery.endFetch (runtime : Discovery) (caller : FetchCaller) (key : Option String) : Resumed :=
  match caller with
  | .start => (some (.fetched key), runtime)
  | .refresh => (none, runtime)

/-- No endpoint has supplied metadata: each that was asked failed with a message. -/
def Discovery.failFetch (runtime : Discovery) (caller : FetchCaller) (failures : List (String × String)) :
    Resumed :=
  Discovery.endFetch
    { runtime with
      bootstrapState := .error
      bootstrapConsecutiveFailures := runtime.bootstrapConsecutiveFailures + 1
      bootstrapLastError :=
        some ("; ".intercalate (failures.map fun failure ↦ failure.1 ++ ": " ++ failure.2)) } caller none

/-- Asks the next endpoint. -/
def Discovery.askNext (runtime : Discovery) (caller : FetchCaller) (endpoints : Endpoints)
    (failures : List (String × String)) : Resumed :=
  match endpoints with
  | .live index =>
      match runtime.bootstrapUrls[index]? with
      | some endpoint => (some (.fetches caller (.live (index + 1)) endpoint failures), runtime)
      | none => runtime.failFetch caller failures
  | .copied (endpoint :: rest) => (some (.fetches caller (.copied rest) endpoint failures), runtime)
  | .copied [] => runtime.failFetch caller failures

/-- The last successful endpoint first, followed by the alternatives. -/
def Discovery.bootstrapEndpointsInRetryOrder (runtime : Discovery) : Endpoints :=
  match runtime.activeBootstrapUrl with
  | none => .live 0
  | some active => .copied (active :: runtime.bootstrapUrls.filter fun url ↦ decide (url ≠ active))

/-- Fetches compatible public discovery metadata, up to the first request. -/
def Discovery.fetchBootstrapKey (runtime : Discovery) (caller : FetchCaller) : Resumed :=
  if runtime.bootstrapUrls = [] then runtime.endFetch caller none
  else
    Discovery.askNext { runtime with bootstrapState := .fetching } caller
      runtime.bootstrapEndpointsInRetryOrder []

/-- Keeps only bootstrap metadata that agrees with the community and discovery scope already in use. -/
def Discovery.requireCompatibleCommunityManifest (runtime : Discovery) (candidate : CommunityManifest) :
    Except String Unit := do
  require (∀ pinned ∈ runtime.bootstrapKey, candidate.coreKey = pinned)
    "Bootstrap metadata does not match the pinned discovery-core key."
  require (∀ community ∈ runtime.community,
      candidate.communityId = community.communityId ∧ candidate.coreKey = community.coreKey)
    "Bootstrap metadata does not match the already selected community discovery scope."

/-- Adds manifest fallbacks without allowing a duplicate endpoint to amplify retries. -/
def rememberBootstrapEndpoints (bootstrapUrls endpoints : List String) : List String :=
  endpoints.foldl (fun known endpoint ↦ if endpoint ∈ known then known else known ++ [endpoint])
    bootstrapUrls

/-- Takes compatible metadata from an endpoint. -/
def Discovery.accept (runtime : Discovery) (endpoint : String) (manifest : CommunityManifest)
    (now : String) : Discovery :=
  { runtime with
    bootstrapUrls := rememberBootstrapEndpoints runtime.bootstrapUrls manifest.bootstrapNodes
    community := some manifest
    activeBootstrapUrl := some endpoint
    bootstrapState := .fetched
    bootstrapLastFetchedAt := some now
    bootstrapConsecutiveFailures := 0
    bootstrapLastError := none }

/-- The manifest of an answer, when the runtime can take it. -/
def Discovery.compatibleManifest (host : DiscoveryHost) (runtime : Discovery)
    (response : Except String JsonValue) : Except String CommunityManifest := do
  let payload ← response
  let manifest ← parseCommunityManifest host.receipts host.urls payload
  runtime.requireCompatibleCommunityManifest manifest
  pure manifest

/-- Goes on with the answer of an endpoint. -/
def Discovery.answered (host : DiscoveryHost) (context : DiscoveryContext) (runtime : Discovery)
    (caller : FetchCaller) (endpoints : Endpoints) (endpoint : String)
    (failures : List (String × String)) : Resumed :=
  match runtime.compatibleManifest host context.response with
  | .ok manifest =>
      (runtime.accept endpoint manifest context.now).endFetch caller (some manifest.coreKey)
  | .error message => runtime.askNext caller endpoints (failures ++ [(endpoint, message)])

/-! ## Starting -/

/-- Goes on to the discovery core: the pinned one, or the one that an endpoint names. -/
def Discovery.bootstrap (runtime : Discovery) : Resumed :=
  match runtime.bootstrapKey with
  | some key =>
      (some .readiesBootstrapCore,
        { runtime with bootstrapState := .fetched, bootstrapCore := some key })
  | none => runtime.fetchBootstrapKey .start

/-- Goes on to networking, where it is enabled. -/
def Discovery.connect (runtime : Discovery) : Resumed :=
  if runtime.networkingEnabled = true then (some .listens, { runtime with swarm := true })
  else runtime.bootstrap

/-- Opens the discovery core that was fetched. Without one, direct peers meet on the network core. -/
def Discovery.openBootstrapCore (runtime : Discovery) : Option String → Resumed
  | some key => (some .readiesBootstrapCore, { runtime with bootstrapCore := some key })
  | none => (runtime.registerMemberFeedAnnouncementExtension runtime.core).finishStart

/-- Moves discovery to the bootstrap core once it is ready. -/
def Discovery.enterBootstrapCore (host : DiscoveryHost) (runtime : Discovery) : Resumed :=
  let registered := runtime.registerMemberFeedAnnouncementExtension runtime.bootstrapCore
  let joined :=
    if runtime.networkingEnabled = true then
      registered.bootstrapCore.elim registered fun core ↦ registered.join (host.discoveryKey core)
    else registered
  joined.finishStart

/-- Resumes a start after what it awaited succeeded. -/
def Discovery.resumeStart (host : DiscoveryHost) (context : DiscoveryContext) (runtime : Discovery) :
    DiscoveryStage → Resumed
  | .makesDirectory => (some .readiesCore, { runtime with core := some context.localCore })
  | .readiesCore => if runtime.memberFeedEnabled = true then (some .opensMemberFeed, runtime)
      else runtime.connect
  | .opensMemberFeed => runtime.connect
  | .listens =>
      (some .networked, Discovery.join { runtime with listening := true }
        (host.discoveryKey (runtime.core.getD "")))
  | .readiesBootstrapCore => runtime.enterBootstrapCore host
  | _ => (none, runtime)

/-! ## Communities -/

/-- The manifest that stands for a selected genesis record. -/
def genesisManifest (core : String) (genesis : JsonValue) : CommunityManifest :=
  { communityId := core
    displayName := (JsonValue.text? (genesis.field "displayName")).getD ""
    protocolVersion := 1
    role := "bootstrap"
    capabilities := ["discovery-metadata"]
    coreKey := core
    bootstrapNodes := []
    communityNodeUrl := none
    receiptNodes := [] }

/-- Registers the announcement extension anew, on the core of the selected community. -/
def Discovery.moveToSelection (runtime : Discovery) (core : String) : Discovery :=
  Discovery.registerMemberFeedAnnouncementExtension
    { runtime with memberFeedAnnouncementExtension := none } (some core)

/-- Selects an already verified genesis scope, whose community is named by its core. Without a swarm that is
enabled, joining throws after the scope is selected. -/
def Discovery.selectGenesisCommunity (runtime : Discovery) (core discoveryKey : String)
    (genesis : JsonValue) : Resumed :=
  let selected : Discovery :=
    { runtime with
      communityGenesisCore := some core
      bootstrapCore := some core
      community := some (genesisManifest core genesis) }
  if runtime.networkingEnabled = true then
    if runtime.swarm = true then (some (.flushesSelection core), selected.join discoveryKey)
    else (none, selected)
  else (none, selected.moveToSelection core)

/-- The terms of a new community, before they are signed. -/
def unsignedGenesis (host : DiscoveryHost) (core now : String) (input : CreateCommunityInput) :
    List (String × JsonValue) :=
  [("schema", .str communityGenesisSchema), ("communityId", .str core),
    ("discoveryKey", .str (host.discoveryKey core)), ("displayName", input.displayName),
    ("location", input.location), ("createdAt", .str now),
    ("creatorMemberId", .str input.creatorMemberId),
    ("creatorRootPublicKeyPem", .str input.creatorRootPublicKeyPem)]

/-- The signed genesis record of a new community. -/
def signedGenesis (host : DiscoveryHost) (core now : String) (input : CreateCommunityInput) :
    Except String JsonValue := do
  let payload ← canonicalCommunityGenesisPayload (.obj (unsignedGenesis host core now input))
  createCommunityGenesis host.genesis
    (.obj (unsignedGenesis host core now input ++ [("signature", .str (input.sign payload))]))

/-- The first block of an invited core, when it is the genesis record that the invitation names. -/
def invitedGenesis (host : DiscoveryHost) (communityId discoveryKey : String) (firstBlock : JsonValue) :
    Except String JsonValue := do
  let genesis ← createCommunityGenesis host.genesis firstBlock
  require (genesis.field "communityId" = some (.str communityId) ∧
    genesis.field "discoveryKey" = some (.str discoveryKey))
    "Community invitation does not match its genesis record."
  pure genesis

/-- Begins a call, up to its first await. A call that throws has ended. -/
def Discovery.begin (context : DiscoveryContext) (runtime : Discovery) : DiscoveryCall → Resumed
  | .start =>
      if runtime.started = true ∨ runtime.stopped = true then (none, runtime)
      else (some .makesDirectory, { runtime with started := true })
  | .refresh =>
      if runtime.bootstrapRefreshTimer = true then runtime.fetchBootstrapKey .refresh else (none, runtime)
  | .createCommunity input =>
      if runtime.started = true ∧ runtime.core ≠ none ∧ runtime.networkingEnabled = true ∧
          runtime.swarm = true ∧ context.connections ≠ 0 then
        (some (.readiesGenesisCore context.newCore input), runtime)
      else (none, runtime)
  | .joinCommunity invitation =>
      if runtime.started = true ∧ runtime.core ≠ none then
        match createCommunityInvitation invitation with
        | .ok normalized =>
            (some (.readiesJoinedCore ((JsonValue.text? (normalized.field "communityId")).getD "")
              ((JsonValue.text? (normalized.field "discoveryKey")).getD "")), runtime)
        | .error _ => (none, runtime)
      else (none, runtime)
  | .stop => runtime.stop

/-- Resumes a call after what it awaited succeeded. -/
def Discovery.resumeAwaited (host : DiscoveryHost) (context : DiscoveryContext) (runtime : Discovery) :
    DiscoveryStage → Resumed
  | .readiesGenesisCore core input =>
      match signedGenesis host core context.now input with
      | .ok genesis => (some (.appendsGenesis core genesis), runtime)
      | .error _ => (none, runtime)
  | .appendsGenesis core genesis =>
      runtime.selectGenesisCommunity core (host.discoveryKey core) genesis
  | .readiesJoinedCore communityId discoveryKey =>
      if runtime.networkingEnabled = true then
        if runtime.swarm = true then
          (some (.flushesInvitation communityId discoveryKey), runtime.join discoveryKey)
        else (none, runtime)
      else (some (.updatesCore communityId discoveryKey), runtime)
  | .flushesInvitation communityId discoveryKey => (some (.updatesCore communityId discoveryKey), runtime)
  | .updatesCore communityId discoveryKey =>
      if context.available = true then (some (.readsGenesis communityId discoveryKey), runtime)
      else (none, runtime)
  | .readsGenesis communityId discoveryKey =>
      match invitedGenesis host communityId discoveryKey context.firstBlock with
      | .ok genesis => runtime.selectGenesisCommunity communityId discoveryKey genesis
      | .error _ => (none, runtime)
  | .flushesSelection core => (none, runtime.moveToSelection core)
  | .destroysSwarm => (none, { runtime with listening := false })
  | stage => runtime.resumeStart host context stage

/-- The stages of a start that await something which may fail. -/
def DiscoveryStage.startsRuntime : DiscoveryStage → Bool
  | .makesDirectory | .readiesCore | .opensMemberFeed | .listens | .readiesBootstrapCore => true
  | _ => false

/-- The stages of a start. -/
def DiscoveryStage.starting : DiscoveryStage → Bool
  | .makesDirectory | .readiesCore | .opensMemberFeed | .listens | .networked | .fetched _
  | .readiesBootstrapCore | .fetches .start _ _ _ => true
  | _ => false

/-- Resumes a call from where it waits. -/
def resumeDiscovery (host : DiscoveryHost) :
    Interleaving.Resume DiscoveryContext DiscoveryStage Discovery := fun context stage runtime ↦
  match stage with
  | .called call => runtime.begin context call
  | .fetches caller endpoints endpoint failures =>
      runtime.answered host context caller endpoints endpoint failures
  | .networked => runtime.bootstrap
  | .fetched key => runtime.openBootstrapCore key
  | stage =>
      match context.awaited with
      | .ok _ => runtime.resumeAwaited host context stage
      | .error message => if stage.startsRuntime = true then runtime.failStart message else (none, runtime)

/-- Where a call may begin. -/
def DiscoveryEntry (stage : DiscoveryStage) : Prop :=
  ∃ call, stage = .called call

/-- A run of the calls of a runtime. -/
abbrev DiscoveryRun (host : DiscoveryHost)
    (condition : Interleaving.Condition DiscoveryContext DiscoveryStage Discovery) :=
  Interleaving.Run DiscoveryEntry (resumeDiscovery host) condition

end PeerHours.PeerRuntime
