import PeerHours.Runtime.BootstrapAgreement
import PeerHours.Runtime.Discovery

/-!
# The scope that bootstrap metadata may not move

However the calls of a runtime give way to each other, only the selection of a verified genesis record changes
the ids of a selected community. Bootstrap metadata can name a community first, and then add endpoints and change
descriptions; what disagrees leaves everything as it was.
-/

namespace PeerHours.PeerRuntime

open Checked Interleaving Json

variable {host : DiscoveryHost}

/-! ## One step -/

/-- What bootstrap metadata is checked against, and where it is asked for. -/
structure BootstrapScope where
  bootstrapKey : Option String
  networkingEnabled : Bool
  bootstrapUrls : List String
  activeBootstrapUrl : Option String
  community : Option CommunityManifest
  communityGenesisCore : Option String

def Discovery.scope (runtime : Discovery) : BootstrapScope where
  bootstrapKey := runtime.bootstrapKey
  networkingEnabled := runtime.networkingEnabled
  bootstrapUrls := runtime.bootstrapUrls
  activeBootstrapUrl := runtime.activeBootstrapUrl
  community := runtime.community
  communityGenesisCore := runtime.communityGenesisCore

@[simp] theorem scope_join (runtime : Discovery) (topic : String) :
    (runtime.join topic).scope = runtime.scope := rfl

@[simp] theorem scope_registerMemberFeedAnnouncementExtension (runtime : Discovery)
    (core : Option String) :
    (runtime.registerMemberFeedAnnouncementExtension core).scope = runtime.scope := by
  unfold Discovery.registerMemberFeedAnnouncementExtension
  split <;> rfl

@[simp] theorem scope_moveToSelection (runtime : Discovery) (core : String) :
    (runtime.moveToSelection core).scope = runtime.scope :=
  scope_registerMemberFeedAnnouncementExtension _ _

@[simp] theorem scope_stop (runtime : Discovery) : runtime.stop.2.scope = runtime.scope := by
  unfold Discovery.stop
  split <;> rfl

@[simp] theorem scope_failStart (runtime : Discovery) (message : String) :
    (runtime.failStart message).2.scope = runtime.scope :=
  scope_stop _

@[simp] theorem scope_endFetch (runtime : Discovery) (caller : FetchCaller) (key : Option String) :
    (runtime.endFetch caller key).2.scope = runtime.scope := by
  cases caller <;> rfl

@[simp] theorem scope_askNext (runtime : Discovery) (caller : FetchCaller) (endpoints : Endpoints)
    (failures : List (String × String)) :
    (runtime.askNext caller endpoints failures).2.scope = runtime.scope := by
  unfold Discovery.askNext
  split
  · split
    · rfl
    · exact scope_endFetch _ _ _
  · rfl
  · exact scope_endFetch _ _ _

@[simp] theorem scope_fetchBootstrapKey (runtime : Discovery) (caller : FetchCaller) :
    (runtime.fetchBootstrapKey caller).2.scope = runtime.scope := by
  unfold Discovery.fetchBootstrapKey
  split
  · exact scope_endFetch _ _ _
  · exact scope_askNext _ _ _ _

@[simp] theorem scope_bootstrap (runtime : Discovery) : runtime.bootstrap.2.scope = runtime.scope := by
  unfold Discovery.bootstrap
  split
  · rfl
  · exact scope_fetchBootstrapKey _ _

@[simp] theorem scope_connect (runtime : Discovery) : runtime.connect.2.scope = runtime.scope := by
  unfold Discovery.connect
  split
  · rfl
  · exact scope_bootstrap _

@[simp] theorem scope_openBootstrapCore (runtime : Discovery) (key : Option String) :
    (runtime.openBootstrapCore key).2.scope = runtime.scope := by
  cases key with
  | none => exact scope_registerMemberFeedAnnouncementExtension _ _
  | some key => rfl

@[simp] theorem scope_enterBootstrapCore (runtime : Discovery) :
    (runtime.enterBootstrapCore host).2.scope = runtime.scope := by
  rw [← scope_registerMemberFeedAnnouncementExtension runtime runtime.bootstrapCore]
  unfold Discovery.enterBootstrapCore
  dsimp only
  split
  · cases (runtime.registerMemberFeedAnnouncementExtension runtime.bootstrapCore).bootstrapCore <;> rfl
  · rfl

@[simp] theorem scope_resumeStart (context : DiscoveryContext) (runtime : Discovery)
    (stage : DiscoveryStage) : (runtime.resumeStart host context stage).2.scope = runtime.scope := by
  unfold Discovery.resumeStart
  split
  · rfl
  · split
    · rfl
    · exact scope_connect _
  · exact scope_connect _
  · rfl
  · exact scope_enterBootstrapCore _
  · rfl

@[simp] theorem scope_begin (context : DiscoveryContext) (runtime : Discovery) (call : DiscoveryCall) :
    (runtime.begin context call).2.scope = runtime.scope := by
  cases call with
  | start => unfold Discovery.begin; dsimp only; split <;> rfl
  | refresh =>
      unfold Discovery.begin
      dsimp only
      split
      · exact scope_fetchBootstrapKey _ _
      · rfl
  | createCommunity input => unfold Discovery.begin; dsimp only; split <;> rfl
  | joinCommunity invitation =>
      unfold Discovery.begin
      dsimp only
      split
      · split <;> rfl
      · rfl
  | stop => exact scope_stop _

theorem scope_selectGenesisCommunity (runtime : Discovery) (core discoveryKey : String)
    (genesis : JsonValue) :
    (runtime.selectGenesisCommunity core discoveryKey genesis).2.scope =
      { runtime.scope with
        community := some (genesisManifest core genesis)
        communityGenesisCore := some core } := by
  unfold Discovery.selectGenesisCommunity
  dsimp only
  split
  · split <;> rfl
  · rw [scope_moveToSelection]
    rfl

/-- The stage is followed by the selection of a genesis record. -/
def DiscoveryStage.selects : DiscoveryStage → Bool
  | .appendsGenesis _ _ | .readsGenesis _ _ => true
  | _ => false

/-- What a step does to the scope: nothing, it takes compatible metadata, or it selects a genesis record. -/
inductive ScopeStep (host : DiscoveryHost) (context : DiscoveryContext) (stage : DiscoveryStage)
    (runtime after : Discovery) : Prop where
  | kept (h : after.scope = runtime.scope)
  | accepted (caller : FetchCaller) (endpoints : Endpoints) (endpoint : String)
      (failures : List (String × String)) (manifest : CommunityManifest)
      (stage : stage = .fetches caller endpoints endpoint failures)
      (compatible : runtime.compatibleManifest host context.response = .ok manifest)
      (h : after.scope = (runtime.accept endpoint manifest context.now).scope)
  | selected (core : String) (genesis : JsonValue) (stage : stage.selects = true)
      (h : after.scope =
        { runtime.scope with
          community := some (genesisManifest core genesis)
          communityGenesisCore := some core })

/-- A step does one of these. -/
theorem scopeStep (context : DiscoveryContext) (stage : DiscoveryStage) (runtime : Discovery) :
    ScopeStep host context stage runtime (resumeDiscovery host context stage runtime).2 := by
  have hawaited : ∀ stage, ScopeStep host context stage runtime
      (runtime.resumeAwaited host context stage).2 := by
    intro stage
    unfold Discovery.resumeAwaited
    split
    · split <;> exact .kept rfl
    · exact .selected _ _ rfl (scope_selectGenesisCommunity _ _ _ _)
    · split
      · split <;> exact .kept rfl
      · exact .kept rfl
    · exact .kept rfl
    · split <;> exact .kept rfl
    · split
      · exact .selected _ _ rfl (scope_selectGenesisCommunity _ _ _ _)
      · exact .kept rfl
    · exact .kept (scope_moveToSelection _ _)
    · exact .kept rfl
    · exact .kept (scope_resumeStart _ _ _)
  unfold resumeDiscovery
  split
  · exact .kept (scope_begin _ _ _)
  · rename_i caller endpoints endpoint failures
    unfold Discovery.answered
    split
    · rename_i manifest hmanifest
      exact .accepted caller endpoints endpoint failures manifest rfl hmanifest (scope_endFetch _ _ _)
    · exact .kept (scope_askNext _ _ _ _)
  · exact .kept (scope_bootstrap _)
  · exact .kept (scope_openBootstrapCore _ _)
  · split
    · exact hawaited _
    · split
      · exact .kept (scope_failStart _ _)
      · exact .kept rfl

/-! ## Endpoints -/

/-- What a loop over the endpoints has left, after the endpoints that failed: on the list itself those are the
ones before the index, and on a copy no endpoint is left or has failed twice. -/
def Endpoints.Ready (bootstrapUrls : List String) (failures : List (String × String)) : Endpoints → Prop
  | .live index => index = failures.length ∧ bootstrapUrls.take index = failures.map Prod.fst
  | .copied rest => (failures.map Prod.fst ++ rest).Nodup ∧
      ∀ endpoint ∈ failures.map Prod.fst ++ rest, endpoint ∈ bootstrapUrls

/-- What a pending fetch has asked: endpoints of the list, each once. -/
def DiscoveryStage.Asks (bootstrapUrls : List String) : DiscoveryStage → Prop
  | .fetches _ (.live index) endpoint failures => index = failures.length + 1 ∧
      bootstrapUrls.take index = failures.map Prod.fst ++ [endpoint]
  | .fetches _ (.copied rest) endpoint failures => (failures.map Prod.fst ++ endpoint :: rest).Nodup ∧
      ∀ asked ∈ failures.map Prod.fst ++ endpoint :: rest, asked ∈ bootstrapUrls
  | _ => True

/-- The endpoint that is asked is of the list and has not failed before. -/
theorem DiscoveryStage.Asks.fresh {bootstrapUrls : List String} (hnodup : bootstrapUrls.Nodup)
    {caller : FetchCaller} {endpoints : Endpoints} {endpoint : String}
    {failures : List (String × String)}
    (h : (DiscoveryStage.fetches caller endpoints endpoint failures).Asks bootstrapUrls) :
    endpoint ∈ bootstrapUrls ∧ (failures.map Prod.fst ++ [endpoint]).Nodup := by
  cases endpoints with
  | live index =>
      refine ⟨List.mem_of_mem_take (i := index) ?_, ?_⟩
      · rw [h.2]
        exact List.mem_append_right _ List.mem_cons_self
      · rw [← h.2]
        exact hnodup.sublist (List.take_sublist _ _)
  | copied rest =>
      refine ⟨h.2 endpoint (List.mem_append_right _ List.mem_cons_self), h.1.sublist ?_⟩
      exact List.Sublist.append_left (List.singleton_sublist.mpr List.mem_cons_self) _

/-- A list that goes on leaves what was asked in place. -/
theorem DiscoveryStage.Asks.mono {bootstrapUrls larger : List String}
    (hlarger : bootstrapUrls <+: larger) {stage : DiscoveryStage} (h : stage.Asks bootstrapUrls) :
    stage.Asks larger := by
  cases stage with
  | fetches caller endpoints endpoint failures =>
      cases endpoints with
      | live index =>
          refine ⟨h.1, ?_⟩
          obtain ⟨more, rfl⟩ := hlarger
          have hlength := congrArg List.length h.2
          rw [List.length_take, List.length_append, List.length_map, List.length_singleton, ← h.1]
            at hlength
          rw [List.take_append_of_le_length (by omega)]
          exact h.2
      | copied rest => exact ⟨h.1, fun asked hasked ↦ hlarger.subset (h.2 asked hasked)⟩
  | _ => trivial

/-- After the endpoint failed too, the loop has the rest left. -/
theorem DiscoveryStage.Asks.ready {bootstrapUrls : List String} {caller : FetchCaller}
    {endpoints : Endpoints} {endpoint message : String} {failures : List (String × String)}
    (h : (DiscoveryStage.fetches caller endpoints endpoint failures).Asks bootstrapUrls) :
    endpoints.Ready bootstrapUrls (failures ++ [(endpoint, message)]) := by
  cases endpoints with
  | live index => simpa [DiscoveryStage.Asks, Endpoints.Ready] using h
  | copied rest => simpa [DiscoveryStage.Asks, Endpoints.Ready] using h

/-- What waits after a fetch has ended asks nothing. -/
theorem asks_endFetch (runtime : Discovery) (caller : FetchCaller) (key : Option String)
    (bootstrapUrls : List String) :
    ∀ next ∈ (runtime.endFetch caller key).1, next.Asks bootstrapUrls := by
  intro next hnext
  cases caller with
  | start =>
      obtain rfl := Option.some.inj hnext
      trivial
  | refresh => cases hnext

/-- The next endpoint is asked as the loop says. -/
theorem asks_askNext {runtime : Discovery} {caller : FetchCaller} {endpoints : Endpoints}
    {failures : List (String × String)} (h : endpoints.Ready runtime.bootstrapUrls failures) :
    ∀ next ∈ (runtime.askNext caller endpoints failures).1, next.Asks runtime.bootstrapUrls := by
  intro next hnext
  cases endpoints with
  | live index =>
      cases hendpoint : runtime.bootstrapUrls[index]? with
      | none =>
          rw [Discovery.askNext, hendpoint] at hnext
          exact asks_endFetch _ _ _ _ next hnext
      | some endpoint =>
          rw [Discovery.askNext, hendpoint] at hnext
          obtain rfl := Option.some.inj hnext
          exact ⟨by rw [h.1], by rw [List.take_add_one, hendpoint, h.2]; rfl⟩
  | copied rest =>
      cases rest with
      | nil => exact asks_endFetch _ _ _ _ next hnext
      | cons endpoint rest =>
          obtain rfl := Option.some.inj hnext
          exact h

/-- A fetch begins with the list itself, or with the active endpoint before the others. -/
theorem asks_fetchBootstrapKey {runtime : Discovery} (hnodup : runtime.bootstrapUrls.Nodup)
    (hactive : ∀ url ∈ runtime.activeBootstrapUrl, url ∈ runtime.bootstrapUrls) (caller : FetchCaller) :
    ∀ next ∈ (runtime.fetchBootstrapKey caller).1, next.Asks runtime.bootstrapUrls := by
  unfold Discovery.fetchBootstrapKey
  split
  · exact asks_endFetch _ _ _ _
  · refine @asks_askNext { runtime with bootstrapState := .fetching } _ _ _ ?_
    unfold Discovery.bootstrapEndpointsInRetryOrder
    split
    · exact ⟨rfl, rfl⟩
    · rename_i active hsome
      refine ⟨List.nodup_cons.mpr ⟨by simp, hnodup.filter _⟩, ?_⟩
      rw [List.map_nil, List.nil_append, List.forall_mem_cons]
      exact ⟨hactive active hsome, fun url hurl ↦ (List.mem_filter.mp hurl).1⟩

/-- The stage is no request to an endpoint. -/
def DiscoveryStage.quiet : DiscoveryStage → Bool
  | .fetches _ _ _ _ => false
  | _ => true

theorem DiscoveryStage.asks_of_quiet {stage : DiscoveryStage} (h : stage.quiet = true)
    (bootstrapUrls : List String) : stage.Asks bootstrapUrls := by
  cases stage with
  | fetches => cases h
  | _ => trivial

/-- The calls that ask no endpoint next. -/
theorem quiet_selectGenesisCommunity (runtime : Discovery) (core discoveryKey : String)
    (genesis : JsonValue) :
    ∀ next ∈ (runtime.selectGenesisCommunity core discoveryKey genesis).1, next.quiet = true := by
  unfold Discovery.selectGenesisCommunity
  dsimp only
  split
  · split
    · rintro next ⟨⟩
      rfl
    · rintro next ⟨⟩
  · rintro next ⟨⟩

theorem quiet_stop (runtime : Discovery) : ∀ next ∈ runtime.stop.1, next.quiet = true := by
  unfold Discovery.stop
  split
  · rintro next ⟨⟩
  · dsimp only
    split <;> rintro next ⟨⟩
    rfl

/-- The start of a runtime, and what it leaves waiting. -/
theorem asks_resumeStart {context : DiscoveryContext} {runtime : Discovery}
    (hnodup : runtime.bootstrapUrls.Nodup)
    (hactive : ∀ url ∈ runtime.activeBootstrapUrl, url ∈ runtime.bootstrapUrls)
    (stage : DiscoveryStage) :
    (∀ next ∈ runtime.bootstrap.1, next.Asks runtime.bootstrapUrls) ∧
      ∀ next ∈ (runtime.resumeStart host context stage).1, next.Asks runtime.bootstrapUrls := by
  have hbootstrap : ∀ next ∈ runtime.bootstrap.1, next.Asks runtime.bootstrapUrls := by
    unfold Discovery.bootstrap
    split
    · rintro next ⟨⟩
      trivial
    · exact asks_fetchBootstrapKey hnodup hactive _
  have hconnect : ∀ next ∈ runtime.connect.1, next.Asks runtime.bootstrapUrls := by
    unfold Discovery.connect
    split
    · rintro next ⟨⟩
      trivial
    · exact hbootstrap
  refine ⟨hbootstrap, ?_⟩
  unfold Discovery.resumeStart
  split
  · rintro next ⟨⟩
    trivial
  · split
    · rintro next ⟨⟩
      trivial
    · exact hconnect
  · exact hconnect
  · rintro next ⟨⟩
    trivial
  · rintro next ⟨⟩
  · rintro next ⟨⟩

/-- What a step leaves waiting asks endpoints of the list, each once. -/
theorem asks_resume {context : DiscoveryContext} {stage : DiscoveryStage} {runtime : Discovery}
    (hnodup : runtime.bootstrapUrls.Nodup)
    (hactive : ∀ url ∈ runtime.activeBootstrapUrl, url ∈ runtime.bootstrapUrls)
    (hstage : stage.Asks runtime.bootstrapUrls) :
    ∀ next ∈ (resumeDiscovery host context stage runtime).1, next.Asks runtime.bootstrapUrls := by
  have hquiet : ∀ {resumed : Option DiscoveryStage}, (∀ next ∈ resumed, next.quiet = true) →
      ∀ next ∈ resumed, next.Asks runtime.bootstrapUrls :=
    fun h next hnext ↦ DiscoveryStage.asks_of_quiet (h next hnext) _
  have hstart := @asks_resumeStart host context runtime hnodup hactive
  have hawaited : ∀ stage, ∀ next ∈ (runtime.resumeAwaited host context stage).1,
      next.Asks runtime.bootstrapUrls := by
    intro stage
    unfold Discovery.resumeAwaited
    split
    · split <;> rintro next ⟨⟩
      trivial
    · exact hquiet (quiet_selectGenesisCommunity _ _ _ _)
    · split
      · split <;> rintro next ⟨⟩
        trivial
      · rintro next ⟨⟩
        trivial
    · rintro next ⟨⟩
      trivial
    · split <;> rintro next ⟨⟩
      trivial
    · split
      · exact hquiet (quiet_selectGenesisCommunity _ _ _ _)
      · rintro next ⟨⟩
    · rintro next ⟨⟩
    · rintro next ⟨⟩
    · exact (hstart _).2
  unfold resumeDiscovery
  split
  · rename_i call
    cases call with
    | start =>
        unfold Discovery.begin
        dsimp only
        split <;> rintro next ⟨⟩
        trivial
    | refresh =>
        unfold Discovery.begin
        dsimp only
        split
        · exact asks_fetchBootstrapKey hnodup hactive _
        · rintro next ⟨⟩
    | createCommunity input =>
        unfold Discovery.begin
        dsimp only
        split <;> rintro next ⟨⟩
        trivial
    | joinCommunity invitation =>
        unfold Discovery.begin
        dsimp only
        split
        · split <;> rintro next ⟨⟩
          trivial
        · rintro next ⟨⟩
    | stop => exact hquiet (quiet_stop _)
  · unfold Discovery.answered
    split
    · exact asks_endFetch _ _ _ _
    · exact asks_askNext hstage.ready
  · exact (hstart .networked).1
  · rename_i key
    cases key with
    | none => rintro next ⟨⟩
    | some key =>
        rintro next ⟨⟩
        trivial
  · split
    · exact hawaited _
    · split
      · exact hquiet (quiet_stop _)
      · rintro next ⟨⟩

/-! ## The scope -/

/-- Learned endpoints come after the known ones, once each. -/
theorem rememberBootstrapEndpoints_spec (endpoints : List String) {bootstrapUrls : List String}
    (hnodup : bootstrapUrls.Nodup) :
    bootstrapUrls <+: rememberBootstrapEndpoints bootstrapUrls endpoints ∧
      (rememberBootstrapEndpoints bootstrapUrls endpoints).Nodup ∧
      ∀ url ∈ rememberBootstrapEndpoints bootstrapUrls endpoints,
        url ∈ bootstrapUrls ∨ url ∈ endpoints := by
  induction endpoints generalizing bootstrapUrls with
  | nil => exact ⟨List.prefix_refl _, hnodup, fun url hurl ↦ .inl hurl⟩
  | cons endpoint rest ih =>
      rw [rememberBootstrapEndpoints, List.foldl_cons, ← rememberBootstrapEndpoints]
      split
      · obtain ⟨hgrown, hrest, hmem⟩ := ih hnodup
        exact ⟨hgrown, hrest, fun url hurl ↦ (hmem url hurl).imp_right (List.mem_cons_of_mem _)⟩
      · rename_i hfresh
        have hlonger : (bootstrapUrls ++ [endpoint]).Nodup :=
          List.nodup_append.mpr ⟨hnodup, List.nodup_singleton _, fun url hurl other hother hsame ↦
            hfresh (List.mem_singleton.mp hother ▸ hsame ▸ hurl)⟩
        obtain ⟨hgrown, hrest, hmem⟩ := ih hlonger
        refine ⟨(List.prefix_append _ _).trans hgrown, hrest, fun url hurl ↦ ?_⟩
        rcases hmem url hurl with hold | hnew
        · cases List.mem_append.mp hold with
          | inl hknown => exact .inl hknown
          | inr hlast => exact .inr (List.mem_singleton.mp hlast ▸ List.mem_cons_self)
        · exact .inr (List.mem_cons_of_mem _ hnew)

/-- An accepted address is a public web address in normal form. -/
theorem normalizes_of_validOperationalUrl {urls : UrlParser} {value : JsonValue} {label href : String}
    (h : validOperationalUrl urls value label = .ok href) : urls.Normalizes href href := by
  simp only [validOperationalUrl, bind_eq_ok, present_eq_ok, require_eq_ok, pure_eq_ok, exists_const] at h
  obtain ⟨text, -, -, url, hparse, hpublic, hhref⟩ := h
  exact UrlParser.Normalizes.href ⟨url, hparse, hpublic, hhref⟩

/-- The endpoints that a manifest advertises are public web addresses in normal form. -/
theorem normalizes_bootstrapNodes {payload : JsonValue} {manifest : CommunityManifest}
    (h : parseCommunityManifest host.receipts host.urls payload = .ok manifest) :
    ∀ url ∈ manifest.bootstrapNodes, host.urls.Normalizes url url := by
  have hnodes := (parseCommunityManifest_eq_ok.mp h).bootstrapNodes
  simp only [validBootstrapNodes, bind_eq_ok, present_eq_ok, require_eq_ok, pure_eq_ok, exists_const]
    at hnodes
  obtain ⟨items, -, -, nodes, hmap, -, hsame⟩ := hnodes
  rw [← hsame]
  refine forall_right_of_forall₂ (forall₂_of_mapIndexed hmap) fun _ _ hvalid ↦ ?_
  obtain ⟨_, hvalid⟩ := hvalid
  exact normalizes_of_validOperationalUrl hvalid

/-- What holds of the scope of a runtime: its endpoints are those that were configured and then others, each
once and each a public web address; a pinned key is the core of the community unless a genesis record was
selected, and a selected genesis record names the community. -/
structure ScopeSound (host : DiscoveryHost) (configured : List String) (scope : BootstrapScope) : Prop where
  nodup : scope.bootstrapUrls.Nodup
  configured : configured <+: scope.bootstrapUrls
  addresses : ∀ url ∈ scope.bootstrapUrls, host.urls.Normalizes url url
  active : ∀ url ∈ scope.activeBootstrapUrl, url ∈ scope.bootstrapUrls
  pinned : scope.communityGenesisCore = none → ∀ key ∈ scope.bootstrapKey,
    ∀ community ∈ scope.community, community.coreKey = key
  genesis : ∀ core ∈ scope.communityGenesisCore, ∃ community ∈ scope.community,
    community.communityId = core ∧ community.coreKey = core

/-- A manifest is taken when it is parsed from the answer, has the pinned core, and names the selected
community. -/
theorem compatibleManifest_eq_ok {runtime : Discovery} {response : Except String JsonValue}
    {manifest : CommunityManifest} :
    runtime.compatibleManifest host response = .ok manifest ↔
      (∃ payload, response = .ok payload ∧
        parseCommunityManifest host.receipts host.urls payload = .ok manifest) ∧
      (∀ pinned ∈ runtime.bootstrapKey, manifest.coreKey = pinned) ∧
      ∀ community ∈ runtime.community,
        manifest.communityId = community.communityId ∧ manifest.coreKey = community.coreKey := by
  simp only [Discovery.compatibleManifest, Discovery.requireCompatibleCommunityManifest, bind_eq_ok,
    require_eq_ok, pure_eq_ok, exists_const]
  constructor
  · rintro ⟨payload, hresponse, _, hparse, ⟨hpinned, hsame⟩, rfl⟩
    exact ⟨⟨payload, hresponse, hparse⟩, hpinned, hsame⟩
  · rintro ⟨⟨payload, hresponse, hparse⟩, hpinned, hsame⟩
    exact ⟨payload, hresponse, manifest, hparse, ⟨hpinned, hsame⟩, rfl⟩

/-- The community is still the same one: descriptions may differ, ids may not. -/
def BootstrapScope.Keeps (before after : BootstrapScope) : Prop :=
  after.communityGenesisCore = before.communityGenesisCore ∧
    ∀ community ∈ before.community, ∃ described ∈ after.community,
      described.communityId = community.communityId ∧ described.coreKey = community.coreKey

theorem BootstrapScope.Keeps.trans {before middle after : BootstrapScope} (h : before.Keeps middle)
    (hlater : middle.Keeps after) : before.Keeps after := by
  refine ⟨hlater.1.trans h.1, fun community hcommunity ↦ ?_⟩
  obtain ⟨described, hdescribed, hid, hkey⟩ := h.2 community hcommunity
  obtain ⟨later, hlaterCommunity, hlaterId, hlaterKey⟩ := hlater.2 described hdescribed
  exact ⟨later, hlaterCommunity, hlaterId.trans hid, hlaterKey.trans hkey⟩

section Steps

variable {configured : List String} {context : DiscoveryContext} {stage : DiscoveryStage}
  {runtime after : Discovery}

/-- Taking compatible metadata keeps the scope sound. -/
theorem ScopeSound.accept (h : ScopeSound host configured runtime.scope) {endpoint : String}
    (hendpoint : endpoint ∈ runtime.bootstrapUrls) {manifest : CommunityManifest}
    (hmanifest : runtime.compatibleManifest host context.response = .ok manifest) :
    ScopeSound host configured (runtime.accept endpoint manifest context.now).scope := by
  obtain ⟨⟨payload, -, hparse⟩, hpinned, hsame⟩ := compatibleManifest_eq_ok.mp hmanifest
  obtain ⟨hgrown, hnodup, hmem⟩ := rememberBootstrapEndpoints_spec manifest.bootstrapNodes h.nodup
  exact
    { nodup := hnodup
      configured := h.configured.trans hgrown
      addresses := fun url hurl ↦
        (hmem url hurl).elim (h.addresses url) (normalizes_bootstrapNodes hparse url)
      active := by
        rintro url ⟨⟩
        exact hgrown.subset hendpoint
      pinned := by
        rintro - key hkey community ⟨⟩
        exact hpinned key hkey
      genesis := by
        intro core hcore
        obtain ⟨community, hcommunity, hid, hkey⟩ := h.genesis core hcore
        obtain ⟨hsameId, hsameKey⟩ := hsame community hcommunity
        exact ⟨manifest, rfl, hsameId.trans hid, hsameKey.trans hkey⟩ }

/-- A step keeps the scope sound. -/
theorem ScopeSound.step (h : ScopeSound host configured runtime.scope)
    (hasks : stage.Asks runtime.bootstrapUrls) (hstep : ScopeStep host context stage runtime after) :
    ScopeSound host configured after.scope := by
  cases hstep with
  | kept hscope =>
      rw [hscope]
      exact h
  | accepted caller endpoints endpoint failures manifest hstage hmanifest hscope =>
      subst hstage
      rw [hscope]
      exact h.accept (hasks.fresh h.nodup).1 hmanifest
  | selected core genesis _ hscope =>
      rw [hscope]
      exact
        { nodup := h.nodup
          configured := h.configured
          addresses := h.addresses
          active := h.active
          pinned := fun hnone ↦ absurd hnone (Option.some_ne_none core)
          genesis := by
            rintro other ⟨⟩
            exact ⟨_, rfl, rfl, rfl⟩ }

/-- A step that selects no genesis record keeps the community. -/
theorem ScopeStep.keeps (hstep : ScopeStep host context stage runtime after)
    (hselects : stage.selects = false) : runtime.scope.Keeps after.scope := by
  cases hstep with
  | kept hscope =>
      rw [hscope]
      exact ⟨rfl, fun community hcommunity ↦ ⟨community, hcommunity, rfl, rfl⟩⟩
  | accepted caller endpoints endpoint failures manifest _ hmanifest hscope =>
      rw [hscope]
      obtain ⟨-, -, hsame⟩ := compatibleManifest_eq_ok.mp hmanifest
      exact ⟨rfl, fun community hcommunity ↦ ⟨manifest, rfl, hsame community hcommunity⟩⟩
  | selected _ _ hstage _ => exact absurd (hselects.symm.trans hstage) (by simp)

/-- The list of endpoints only goes on. -/
theorem ScopeStep.urls (hstep : ScopeStep host context stage runtime after)
    (hnodup : runtime.bootstrapUrls.Nodup) : runtime.bootstrapUrls <+: after.bootstrapUrls := by
  cases hstep with
  | kept hscope =>
      have hsame : after.bootstrapUrls = runtime.bootstrapUrls :=
        congrArg BootstrapScope.bootstrapUrls hscope
      exact hsame ▸ List.prefix_refl _
  | accepted caller endpoints endpoint failures manifest _ _ hscope =>
      have hsame : after.bootstrapUrls = rememberBootstrapEndpoints runtime.bootstrapUrls
        manifest.bootstrapNodes := congrArg BootstrapScope.bootstrapUrls hscope
      exact hsame ▸ (rememberBootstrapEndpoints_spec _ hnodup).1
  | selected core genesis _ hscope =>
      have hsame : after.bootstrapUrls = runtime.bootstrapUrls :=
        congrArg BootstrapScope.bootstrapUrls hscope
      exact hsame ▸ List.prefix_refl _

end Steps

/-! ## Runs -/

/-- What every run keeps: a sound scope, and pending fetches that ask each endpoint once. -/
def scopeInvariant (host : DiscoveryHost) (configured : List String) :
    Invariant DiscoveryStage Discovery where
  shared runtime := ScopeSound host configured runtime.scope
  waiting runtime stage := stage.Asks runtime.bootstrapUrls
  apart _ _ := True

theorem scopeInvariant_kept (host : DiscoveryHost) (configured : List String)
    (condition : Condition DiscoveryContext DiscoveryStage Discovery) :
    (scopeInvariant host configured).Kept DiscoveryEntry (resumeDiscovery host) condition where
  symm _ := trivial
  start := by
    rintro runtime stage ⟨call, rfl⟩
    exact ⟨trivial, fun _ ↦ trivial⟩
  resumed := by
    intro context stage runtime others _ hscope hasks hothers
    have hstep := @scopeStep host context stage runtime
    have hurls := hstep.urls hscope.nodup
    refine ⟨hscope.step hasks hstep, fun next hnext ↦ ⟨?_, fun _ _ ↦ trivial⟩, fun other hother ↦ ?_⟩
    · exact (asks_resume hscope.nodup hscope.active hasks next hnext).mono hurls
    · exact (hothers other hother).1.mono hurls

/-- The scope of a runtime that was just created is sound. -/
theorem scopeSound_create {key : Option String} {values : List String}
    {networkingEnabled memberFeedEnabled : Bool} {runtime : Discovery}
    (h : Discovery.create host key values networkingEnabled memberFeedEnabled = .ok runtime) :
    ScopeSound host runtime.bootstrapUrls runtime.scope := by
  simp only [Discovery.create, normalizeBootstrapUrls, bind_eq_ok, require_eq_ok, pure_eq_ok,
    exists_const] at h
  obtain ⟨_, -, _, ⟨bootstrapUrls, hmap, hnodup, rfl⟩, rfl⟩ := h
  exact
    { nodup := hnodup
      configured := List.prefix_refl _
      addresses := forall_right_of_forall₂ (forall₂_of_mapIndexed hmap) fun _ _ hvalid ↦ by
        obtain ⟨_, hvalid⟩ := hvalid
        exact normalizes_of_validOperationalUrl hvalid
      active := by rintro url ⟨⟩
      pinned := by rintro - pinned hpinned community ⟨⟩
      genesis := by rintro core ⟨⟩ }

/-- No step selects a genesis record. -/
def SelectsNothing : Condition DiscoveryContext DiscoveryStage Discovery :=
  fun _ stage _ _ ↦ stage.selects = false

/-- Every step of every run. -/
def AnyStep : Condition DiscoveryContext DiscoveryStage Discovery :=
  fun _ _ _ _ ↦ True

/-- What holds of every state that a runtime reaches: its scope is sound, each pending fetch asks an endpoint of
the list that it has not asked before, an answer that is refused moves nothing, and the ids of the community
stay as they are until a genesis record is selected. -/
structure ScopeHolds (host : DiscoveryHost) (configured : List String)
    (reached : System DiscoveryStage Discovery) : Prop where
  sound : ScopeSound host configured reached.shared.scope
  asks : ∀ caller endpoints endpoint failures,
    .fetches caller endpoints endpoint failures ∈ reached.pending →
    endpoint ∈ reached.shared.bootstrapUrls ∧ (failures.map Prod.fst ++ [endpoint]).Nodup
  refused : ∀ context caller endpoints endpoint failures message,
    reached.shared.compatibleManifest host context.response = .error message →
    (resumeDiscovery host context (.fetches caller endpoints endpoint failures) reached.shared).2.scope =
      reached.shared.scope
  kept : ∀ later, DiscoveryRun host SelectsNothing reached later →
    reached.shared.scope.Keeps later.shared.scope

/-- A bootstrap refresh cannot move the selected scope, in any run of overlapping calls. -/
theorem bootstrap_scope_kept {key : Option String} {values : List String}
    {networkingEnabled memberFeedEnabled : Bool} {runtime : Discovery}
    (hcreate : Discovery.create host key values networkingEnabled memberFeedEnabled = .ok runtime)
    {reached : System DiscoveryStage Discovery}
    (hrun : DiscoveryRun host AnyStep ⟨runtime, []⟩ reached) :
    ScopeHolds host runtime.bootstrapUrls reached := by
  have hholds := (scopeInvariant_kept host runtime.bootstrapUrls AnyStep).run
    (Invariant.holds_idle (scopeSound_create hcreate)) hrun
  refine ⟨hholds.shared, fun caller endpoints endpoint failures hpending ↦ ?_, ?_, ?_⟩
  · exact (hholds.waiting _ hpending).fresh hholds.shared.nodup
  · intro context caller endpoints endpoint failures message hrefused
    show (reached.shared.answered host context caller endpoints endpoint failures).2.scope = _
    rw [Discovery.answered, hrefused]
    exact scope_askNext _ _ _ _
  · intro later hlater
    induction hlater with
    | refl => exact ⟨rfl, fun community hcommunity ↦ ⟨community, hcommunity, rfl, rfl⟩⟩
    | tail _ hstep ih =>
        cases hstep with
        | start _ => exact ih
        | resumed hselects => exact ih.trans ((scopeStep _ _ _).keeps hselects)

/-! ## A sample start -/

/-- A host whose cores have their keys read backwards for discovery keys. -/
def sampleHost : DiscoveryHost where
  receipts := sampleCrypto
  genesis := sampleGenesisCrypto
  urls := sampleUrls
  discoveryKey key := String.ofList key.toList.reverse

/-- The address of the sample service. -/
def sampleEndpoint : String := (sampleAddress (receiptsPath.flatMap escapeChar)).href

/-- A runtime that asks the sample service. -/
def sampleRuntime : Discovery where
  bootstrapKey := none
  bootstrapUrls := [sampleEndpoint]
  networkingEnabled := true
  memberFeedEnabled := false
  activeBootstrapUrl := none
  bootstrapState := .notConfigured
  bootstrapLastFetchedAt := none
  bootstrapConsecutiveFailures := 0
  bootstrapLastError := none
  community := none
  core := none
  communityGenesisCore := none
  bootstrapCore := none
  memberFeedAnnouncementExtension := none
  swarm := false
  topics := []
  listening := false
  bootstrapRefreshTimer := false
  error := none
  started := false
  stopped := false

theorem create_sampleRuntime :
    Discovery.create sampleHost none [String.ofList (sampleOrigin ++ receiptsPath)] true false =
      .ok sampleRuntime := by
  have hpath : ∀ c ∈ receiptsPath, (inPath c || decide (0x80 ≤ c.toNat)) = true :=
    List.all_eq_true.mp rfl
  have hne : sampleOrigin ++ receiptsPath ≠ [] := by decide
  have hurl (label : String) : validOperationalUrl sampleUrls
      (.str (String.ofList (sampleOrigin ++ receiptsPath))) label = .ok sampleEndpoint :=
    validOperationalUrl_eq_ok.mpr ⟨boundedEndpoint_ofList hne (by decide), _, sampleUrls_parse hpath,
      rfl, rfl⟩
  have hurls : normalizeBootstrapUrls sampleUrls [String.ofList (sampleOrigin ++ receiptsPath)] =
      .ok [sampleEndpoint] := by
    simp only [normalizeBootstrapUrls, bind_eq_ok, require_eq_ok, pure_eq_ok, exists_const]
    refine ⟨_, ?_, List.nodup_singleton _, rfl⟩
    show (validOperationalUrl sampleUrls _ _ >>= fun _ ↦ _) = _
    rw [hurl]
    rfl
  simp only [Discovery.create, bind_eq_ok, pure_eq_ok]
  exact ⟨none, rfl, _, hurls, rfl⟩

/-- The sample service answers with its manifest. -/
def sampleContext : DiscoveryContext where
  awaited := .ok ()
  response := .ok (sampleManifest receiptsPath).toJson
  localCore := Hex.encode (List.replicate 32 7)
  newCore := Hex.encode (List.replicate 32 1)
  connections := 1
  available := true
  firstBlock := .null
  now := "2026-01-01T00:00:00.000Z"

/-- The sample runtime while it asks the service. -/
def sampleFetching : Discovery :=
  { sampleRuntime with
    started := true
    core := some sampleContext.localCore
    swarm := true
    listening := true
    topics := [sampleHost.discoveryKey sampleContext.localCore]
    bootstrapState := .fetching }

/-- The sample runtime once it has started. -/
def sampleStarted : Discovery :=
  { sampleFetching.accept sampleEndpoint (sampleManifest receiptsPath) sampleContext.now with
    bootstrapCore := some (sampleManifest receiptsPath).coreKey
    memberFeedAnnouncementExtension := some (sampleManifest receiptsPath).coreKey
    topics := [sampleHost.discoveryKey sampleContext.localCore,
      sampleHost.discoveryKey (sampleManifest receiptsPath).coreKey]
    bootstrapRefreshTimer := true }

theorem compatible_sampleFetching :
    sampleFetching.compatibleManifest sampleHost sampleContext.response =
      .ok (sampleManifest receiptsPath) :=
  compatibleManifest_eq_ok.mpr ⟨⟨_, rfl, normal_sampleManifest.parse_toJson.mpr bounded_sampleManifest⟩,
    by rintro pinned ⟨⟩, by rintro community ⟨⟩⟩

/-- The resumptions of the sample runs. -/
def SampleStep (stage : DiscoveryStage) (runtime : Discovery) (others : List DiscoveryStage) : Prop :=
  match stage with
  | .fetches .refresh _ _ _ => runtime.community ≠ none
  | .appendsGenesis _ _ => ∀ other ∈ others, ∃ caller endpoints endpoint failures,
      other = .fetches caller endpoints endpoint failures
  | .readsGenesis _ _ => False
  | _ => True

section SampleRuns

variable {condition : Condition DiscoveryContext DiscoveryStage Discovery}

/-- The sample runtime starts. -/
theorem sample_start (hcondition : ∀ stage runtime others, SampleStep stage runtime others →
      condition sampleContext stage runtime others) :
    DiscoveryRun sampleHost condition ⟨sampleRuntime, []⟩ ⟨sampleStarted, []⟩ := by
  have hstart : Step DiscoveryEntry (resumeDiscovery sampleHost) condition ⟨sampleRuntime, []⟩
      ⟨sampleRuntime, [.called .start]⟩ := .start ⟨.start, rfl⟩
  have hgo {stage : DiscoveryStage} {before after : Discovery} {next : Option DiscoveryStage}
      (hresume : resumeDiscovery sampleHost sampleContext stage before = (next, after))
      (hstage : SampleStep stage before []) :
      Step DiscoveryEntry (resumeDiscovery sampleHost) condition ⟨before, [stage]⟩
        ⟨after, next.toList⟩ := .alone hresume (hcondition _ _ _ hstage)
  have hanswered : resumeDiscovery sampleHost sampleContext
      (.fetches .start (.live 1) sampleEndpoint []) sampleFetching =
        (some (.fetched (some (sampleManifest receiptsPath).coreKey)),
          sampleFetching.accept sampleEndpoint (sampleManifest receiptsPath) sampleContext.now) := by
    show sampleFetching.answered sampleHost sampleContext .start (.live 1) sampleEndpoint [] = _
    rw [Discovery.answered, compatible_sampleFetching]
    rfl
  refine .head hstart (.head (hgo rfl (by trivial)) ?_)
  refine .head (hgo rfl (by trivial)) (.head (hgo rfl (by trivial)) ?_)
  refine .head (hgo rfl (by trivial)) (.head (@hgo _ _ sampleFetching _ rfl (by trivial)) ?_)
  refine .head (hgo hanswered (by trivial)) (.head (hgo rfl (by trivial)) ?_)
  exact .single (hgo rfl (by trivial))

/-! ### A new community beside a refresh -/

/-- The self-owned member who creates the new community. -/
@[irreducible] def sampleCreator : String := TimebankIdentity.selfOwnedMemberId sampleRootKey

/-- What the creator gives for a new community. -/
def sampleInput : CreateCommunityInput where
  displayName := .str "Garden"
  location := .null
  creatorMemberId := sampleCreator
  creatorRootPublicKeyPem := "root"
  sign _ := Base64Url.encode (keyBytes "root")

/-- The genesis record of the new community. -/
def sampleNewGenesis : JsonValue :=
  .obj (unsignedGenesis sampleHost sampleContext.newCore sampleContext.now sampleInput ++
    [("signature", .str (Base64Url.encode (keyBytes "root")))])

theorem any_hypercoreKeyText {check : String → Bool} {text : String} (h : check text = true) :
    ((some (JsonValue.str text)).bind TimebankIdentity.hypercoreKeyText).any check = true := h

theorem signedGenesis_sample :
    signedGenesis sampleHost sampleContext.newCore sampleContext.now sampleInput =
      .ok sampleNewGenesis := by
  have hcore : Hex.isKey sampleContext.newCore = true := Hex.isKey_encode List.length_replicate
  have htopic : Hex.isKey (sampleHost.discoveryKey sampleContext.newCore) = true := by decide +kernel
  have hname : nonblank 120 (some (.str "Garden")) = true := by decide
  have hcreator : isMemberIdPattern sampleCreator = true := by
    unfold sampleCreator
    exact isMemberIdPattern_selfOwnedMemberId sampleRootKey
  have hbytes : sampleGenesisCrypto.bufferFrom (.str (Base64Url.encode (keyBytes "root"))) =
      some (keyBytes "root") := sampleGenesisCrypto.bufferFrom_encode _
  have hcanonical : Timestamp.isCanonical sampleContext.now = true := by decide
  have hverify : decide (keyBytes "root" = keyBytes "root") = true := decide_eq_true rfl
  have hnames : sampleNewGenesis.field "communityId" = some (.str sampleContext.newCore) ∧
      sampleNewGenesis.field "discoveryKey" =
        some (.str (sampleHost.discoveryKey sampleContext.newCore)) ∧
      sampleNewGenesis.field "displayName" = some (.str "Garden") ∧
      sampleNewGenesis.field "creatorMemberId" = some (.str sampleCreator) ∧
      sampleNewGenesis.field "createdAt" = some (.str sampleContext.now) := ⟨rfl, rfl, rfl, rfl, rfl⟩
  obtain ⟨hcommunityId, hdiscoveryKey, hdisplayName, hcreatorMemberId, hcreatedAt⟩ := hnames
  have haccepted : AcceptedGenesis sampleGenesisCrypto sampleNewGenesis :=
    { schema := rfl
      communityId := by
        rw [hcommunityId]
        exact any_hypercoreKeyText hcore
      discoveryKey := by
        rw [hdiscoveryKey]
        exact any_hypercoreKeyText htopic
      displayName := by rw [hdisplayName, hname]
      creatorMemberId := by
        rw [hcreatorMemberId]
        exact any_hypercoreKeyText hcreator
      createdAt := by
        rw [hcreatedAt]
        exact hcanonical
      location := rfl
      signed := ⟨_, rfl, keyBytes "root", keyBytes "root", hbytes, by simp [keyBytes], rfl, rfl, hverify⟩ }
  have hcreated : createCommunityGenesis sampleGenesisCrypto sampleNewGenesis = .ok sampleNewGenesis :=
    createCommunityGenesis_eq_ok.mpr ⟨haccepted, rfl⟩
  have hpayload : ∃ payload, canonicalCommunityGenesisPayload (.obj (unsignedGenesis sampleHost
      sampleContext.newCore sampleContext.now sampleInput)) = .ok payload := ⟨_, rfl⟩
  obtain ⟨payload, hpayload⟩ := hpayload
  exact bind_eq_ok.mpr ⟨payload, hpayload, hcreated⟩

/-- The sample runtime while a refresh asks the service again. -/
def sampleRefreshing : Discovery := { sampleStarted with bootstrapState := .fetching }

/-- The sample runtime once the new community is selected. -/
def sampleSelected : Discovery :=
  { sampleRefreshing with
    communityGenesisCore := some sampleContext.newCore
    bootstrapCore := some sampleContext.newCore
    community := some (genesisManifest sampleContext.newCore sampleNewGenesis)
    topics := sampleRefreshing.topics ++ [sampleHost.discoveryKey sampleContext.newCore] }

/-- A refresh that waits for the answer of the service. -/
def sampleRefresh : DiscoveryStage := .fetches .refresh (.copied []) sampleEndpoint []

/-- While a refresh waits, a new community is created and selected. -/
theorem sample_selects (hcondition : ∀ stage runtime others, SampleStep stage runtime others →
      condition sampleContext stage runtime others) :
    DiscoveryRun sampleHost condition ⟨sampleStarted, []⟩
      ⟨sampleSelected, [.flushesSelection sampleContext.newCore, sampleRefresh]⟩ := by
  have hrefreshes : resumeDiscovery sampleHost sampleContext (.called .refresh) sampleStarted =
      (some sampleRefresh, sampleRefreshing) := by
    -- the one endpoint is the last successful one
    have hurls : sampleStarted.bootstrapUrls = [sampleEndpoint] := by
      show rememberBootstrapEndpoints [sampleEndpoint] [sampleEndpoint] = [sampleEndpoint]
      simp [rememberBootstrapEndpoints]
    have hactive : sampleStarted.activeBootstrapUrl = some sampleEndpoint := rfl
    have hasked : sampleStarted.fetchBootstrapKey .refresh = (some sampleRefresh, sampleRefreshing) := by
      simp [Discovery.fetchBootstrapKey, Discovery.bootstrapEndpointsInRetryOrder, hurls, hactive,
        Discovery.askNext, sampleRefresh, sampleRefreshing]
    exact hasked
  have hsigns : resumeDiscovery sampleHost sampleContext
      (.readiesGenesisCore sampleContext.newCore sampleInput) sampleRefreshing =
        (some (.appendsGenesis sampleContext.newCore sampleNewGenesis), sampleRefreshing) := by
    have hawaited : sampleContext.awaited = .ok () := rfl
    simp only [resumeDiscovery, hawaited, Discovery.resumeAwaited, signedGenesis_sample]
  have hselects : resumeDiscovery sampleHost sampleContext
      (.appendsGenesis sampleContext.newCore sampleNewGenesis) sampleRefreshing =
        (some (.flushesSelection sampleContext.newCore), sampleSelected) := rfl
  refine .head (.start ⟨.refresh, rfl⟩) ?_
  refine .head (.alone hrefreshes (hcondition _ _ _ trivial)) ?_
  refine .head (.start ⟨.createCommunity sampleInput, rfl⟩) ?_
  refine .head (.go [] [sampleRefresh] (show resumeDiscovery sampleHost sampleContext
    (.called (.createCommunity sampleInput)) sampleRefreshing =
      (some (.readiesGenesisCore sampleContext.newCore sampleInput), sampleRefreshing) from rfl)
    (hcondition _ _ _ trivial)) ?_
  refine .head (.go [] [sampleRefresh] hsigns (hcondition _ _ _ trivial)) ?_
  refine .single (.go [] [sampleRefresh] hselects (hcondition _ _ _ fun other hother ↦ ?_))
  exact ⟨_, _, _, _, List.mem_singleton.mp hother⟩

/-- The answer to the refresh names another community than the one that is selected now. -/
theorem incompatible_sampleSelected :
    sampleSelected.compatibleManifest sampleHost sampleContext.response =
      .error "Bootstrap metadata does not match the already selected community discovery scope." := by
  have hparsed : parseCommunityManifest sampleHost.receipts sampleHost.urls
      (sampleManifest receiptsPath).toJson = .ok (sampleManifest receiptsPath) :=
    normal_sampleManifest.parse_toJson.mpr bounded_sampleManifest
  have hpinned (message : String) : require (∀ pinned ∈ sampleSelected.bootstrapKey,
      (sampleManifest receiptsPath).coreKey = pinned) message = .ok () :=
    require_eq_ok.mpr (by rintro pinned ⟨⟩)
  have hother : ¬ ∀ community ∈ sampleSelected.community,
      (sampleManifest receiptsPath).communityId = community.communityId ∧
        (sampleManifest receiptsPath).coreKey = community.coreKey := by
    intro hsame
    have hnamed : "garden" = sampleContext.newCore := (hsame _ rfl).1
    exact absurd hnamed (by decide)
  have hrefused : sampleSelected.requireCompatibleCommunityManifest (sampleManifest receiptsPath) =
      .error "Bootstrap metadata does not match the already selected community discovery scope." := by
    rw [Discovery.requireCompatibleCommunityManifest, hpinned, ok_bind]
    exact if_neg hother
  have hresponse : sampleContext.response = .ok (sampleManifest receiptsPath).toJson := rfl
  rw [Discovery.compatibleManifest, hresponse, ok_bind, hparsed, ok_bind, hrefused]
  rfl

/-- The runtime after the refused refresh. -/
def sampleRefused : Discovery :=
  { sampleSelected with
    bootstrapState := .error
    bootstrapConsecutiveFailures := 1
    bootstrapLastError := some (sampleEndpoint ++ ": " ++
      "Bootstrap metadata does not match the already selected community discovery scope.") }

/-- The answer is refused, and the selection ends. -/
theorem sample_settles (hcondition : ∀ stage runtime others, SampleStep stage runtime others →
      condition sampleContext stage runtime others) :
    DiscoveryRun sampleHost condition
      ⟨sampleSelected, [.flushesSelection sampleContext.newCore, sampleRefresh]⟩
      ⟨sampleRefused.moveToSelection sampleContext.newCore, []⟩ := by
  have hrefuses : resumeDiscovery sampleHost sampleContext sampleRefresh sampleSelected =
      (none, sampleRefused) := by
    show sampleSelected.answered sampleHost sampleContext .refresh (.copied []) sampleEndpoint [] = _
    rw [Discovery.answered, incompatible_sampleSelected]
    rfl
  refine .head (.go [.flushesSelection sampleContext.newCore] [] hrefuses
    (hcondition _ _ _ (by simp [SampleStep, sampleRefresh, sampleSelected]))) ?_
  have hmoves : resumeDiscovery sampleHost sampleContext (.flushesSelection sampleContext.newCore)
      sampleRefused = (none, sampleRefused.moveToSelection sampleContext.newCore) := rfl
  exact .single (.alone hmoves (hcondition _ _ _ trivial))

end SampleRuns

/-- A new community is selected while a refresh waits for the service, which then names another community. -/
theorem bootstrap_scope_kept_sample :
    sampleSelected.community = some (genesisManifest sampleContext.newCore sampleNewGenesis) ∧
      ScopeHolds sampleHost [sampleEndpoint]
        ⟨sampleSelected, [.flushesSelection sampleContext.newCore, sampleRefresh]⟩ ∧
      ScopeHolds sampleHost [sampleEndpoint]
        ⟨sampleRefused.moveToSelection sampleContext.newCore, []⟩ := by
  have hselected : DiscoveryRun sampleHost AnyStep ⟨sampleRuntime, []⟩
      ⟨sampleSelected, [.flushesSelection sampleContext.newCore, sampleRefresh]⟩ :=
    (sample_start fun _ _ _ _ ↦ trivial).trans (sample_selects fun _ _ _ _ ↦ trivial)
  exact ⟨rfl, bootstrap_scope_kept create_sampleRuntime hselected,
    bootstrap_scope_kept create_sampleRuntime (hselected.trans (sample_settles fun _ _ _ _ ↦ trivial))⟩

end PeerHours.PeerRuntime
