import PeerHours.Runtime.Discovery

/-!
# The rendezvous of a runtime

A runtime is found by others where it joins the topic of a core and announces member feeds on that core. What its
calls do to this is stated as the moves of a smaller machine, which forgets endpoints, messages and counters. Its
invariants say where a runtime is found once a start has run through, and after a genesis record is selected.
-/

namespace PeerHours.PeerRuntime

/-- What decides where a runtime is found. -/
structure Rendezvous where
  bootstrapKey : Option String
  community : Option CommunityManifest
  core : Option String
  communityGenesisCore : Option String
  bootstrapCore : Option String
  memberFeedAnnouncementExtension : Option String
  swarm : Bool
  topics : List String
  bootstrapRefreshTimer : Bool
  started : Bool
  stopped : Bool

namespace Rendezvous

/-- Registers the announcement extension on a core, unless it is registered. -/
def register (r : Rendezvous) (core : Option String) : Rendezvous :=
  { r with
    memberFeedAnnouncementExtension :=
      if r.memberFeedAnnouncementExtension = none then core else r.memberFeedAnnouncementExtension }

/-- The timers run or stay off. -/
def timed (r : Rendezvous) (timer : Bool) : Rendezvous :=
  { r with bootstrapRefreshTimer := timer }

/-- The runtime has stopped. -/
def halt (r : Rendezvous) : Rendezvous :=
  { r with stopped := true, bootstrapRefreshTimer := false, memberFeedAnnouncementExtension := none }

/-- A genesis record is selected, and its topic joined. -/
def select (r : Rendezvous) (community : CommunityManifest) (core topic : String) : Rendezvous :=
  { r with
    communityGenesisCore := some core
    bootstrapCore := some core
    community := some community
    topics := r.topics ++ [topic] }

end Rendezvous

/-! ## Stages -/

namespace DiscoveryStage

/-- The requests of a refresh. -/
def refreshing : DiscoveryStage → Bool
  | .fetches .refresh _ _ _ => true
  | _ => false

/-- The stages that create or join a community, up to its selection. -/
def selecting : DiscoveryStage → Bool
  | .readiesGenesisCore _ _ | .appendsGenesis _ _ | .readiesJoinedCore _ _ | .flushesInvitation _ _
  | .updatesCore _ _ | .readsGenesis _ _ => true
  | _ => false

/-- Those of them that found a swarm. -/
def swarming : DiscoveryStage → Bool
  | .readiesJoinedCore _ _ => false
  | stage => stage.selecting

/-- The stage waits for the topic of a selected community. -/
def flushing : DiscoveryStage → Bool
  | .flushesSelection _ => true
  | _ => false

/-- A stage is of one of these kinds. -/
theorem of_starting {stage : DiscoveryStage} (h : stage.starting = true) :
    stage.refreshing = false ∧ stage.selecting = false ∧ stage.flushing = false := by
  cases stage with
  | fetches caller => cases caller with
    | start => exact ⟨rfl, rfl, rfl⟩
    | refresh => cases h
  | _ => first | exact ⟨rfl, rfl, rfl⟩ | cases h

theorem of_selecting {stage : DiscoveryStage} (h : stage.selecting = true) :
    stage.starting = false ∧ stage.refreshing = false ∧ stage.flushing = false := by
  cases stage <;> first | exact ⟨rfl, rfl, rfl⟩ | cases h

theorem of_refreshing {stage : DiscoveryStage} (h : stage.refreshing = true) : stage.flushing = false := by
  cases stage <;> first | rfl | cases h

theorem selecting_of_swarming {stage : DiscoveryStage} (h : stage.swarming = true) :
    stage.selecting = true := by
  cases stage <;> first | exact h | cases h

end DiscoveryStage

/-- Where a fetch waits next: at an endpoint, or with no key at its end. -/
def FetchCaller.Goes (caller : FetchCaller) (next : Option DiscoveryStage) : Prop :=
  next = (match caller with | .start => some (.fetched none) | .refresh => none) ∨
    ∃ endpoints endpoint failures, next = some (.fetches caller endpoints endpoint failures)

/-! ## Moves -/

namespace Rendezvous

/-- What the calls of a networking runtime do to its rendezvous, where selections do not overlap and joining
their topics succeeds: the core of a community has a topic, and a refresh brings no first community to a runtime
without a pinned key. -/
inductive Moves (topic : String → String) (others : List DiscoveryStage) (r : Rendezvous) :
    DiscoveryStage → Option DiscoveryStage → Rendezvous → Prop
  | starts (hstarted : r.started = false) :
      Moves topic others r (.called .start) (some .makesDirectory) { r with started := true }
  | opens (core : String) :
      Moves topic others r .makesDirectory (some .readiesCore) { r with core := some core }
  | prepares : Moves topic others r .readiesCore (some .opensMemberFeed) r
  | connects {stage : DiscoveryStage} (hstage : stage = .readiesCore ∨ stage = .opensMemberFeed) :
      Moves topic others r stage (some .listens) { r with swarm := true }
  | listens (joined : String) :
      Moves topic others r .listens (some .networked) { r with topics := r.topics ++ [joined] }
  | pins {key : String} (hkey : r.bootstrapKey = some key) :
      Moves topic others r .networked (some .readiesBootstrapCore) { r with bootstrapCore := some key }
  | asks {stage : DiscoveryStage} {next : Option DiscoveryStage}
      (hstage : stage = .networked ∧ r.bootstrapKey = none ∨
        ∃ endpoints endpoint failures, stage = .fetches .start endpoints endpoint failures)
      (hnext : FetchCaller.start.Goes next) : Moves topic others r stage next r
  | learns (endpoints : Endpoints) (endpoint : String) (failures : List (String × String))
      (manifest : CommunityManifest) :
      Moves topic others r (.fetches .start endpoints endpoint failures)
        (some (.fetched (some manifest.coreKey))) { r with community := some manifest }
  | opensBootstrapCore (key : String) :
      Moves topic others r (.fetched (some key)) (some .readiesBootstrapCore)
        { r with bootstrapCore := some key }
  | meets (timer : Bool) :
      Moves topic others r (.fetched none) none ((r.register r.core).timed timer)
  | enters (timer : Bool) :
      Moves topic others r .readiesBootstrapCore none
        (Rendezvous.timed
          { r.register r.bootstrapCore with topics := r.topics ++ (r.bootstrapCore.map topic).toList } timer)
  | refreshes {stage : DiscoveryStage} {next : Option DiscoveryStage}
      (hstage : stage = .called .refresh ∧ r.bootstrapRefreshTimer = true ∨ stage.refreshing = true)
      (hnext : FetchCaller.refresh.Goes next) : Moves topic others r stage next r
  | relearns (endpoints : Endpoints) (endpoint : String) (failures : List (String × String))
      (manifest : CommunityManifest) (hpinned : ∀ pinned ∈ r.bootstrapKey, manifest.coreKey = pinned)
      (hsame : ∀ community ∈ r.community, manifest.coreKey = community.coreKey)
      (hfirst : r.community = none → r.bootstrapKey ≠ none) :
      Moves topic others r (.fetches .refresh endpoints endpoint failures) none
        { r with community := some manifest }
  | proceeds {stage next : DiscoveryStage} (joined : List String)
      (hstage : stage.selecting = true ∨ (∃ call, stage = .called call) ∧ r.started = true)
      (hnext : next.selecting = true) (hswarm : next.swarming = true → r.swarm = true) :
      Moves topic others r stage (some next) { r with topics := r.topics ++ joined }
  | selects {stage : DiscoveryStage} (community : CommunityManifest) (core : String)
      (hstage : stage.swarming = true) (hothers : ∀ other ∈ others, other.flushing = false) :
      Moves topic others r stage (some (.flushesSelection core)) (r.select community core (topic core))
  | moves (core : String) :
      Moves topic others r (.flushesSelection core) none
        { r with memberFeedAnnouncementExtension := some core }
  | ends {stage : DiscoveryStage} (hstarting : stage.starting = true → r.stopped = true)
      (hflushing : stage.flushing = false) : Moves topic others r stage none r
  | stops {stage : DiscoveryStage} {next : Option DiscoveryStage}
      (hnext : next = none ∨ next = some .destroysSwarm) : Moves topic others r stage next r.halt

/-! ## What a pending call relies on -/

/-- The runtime has not stopped, and no genesis record has been selected. -/
def Unselected (r : Rendezvous) : Prop :=
  r.stopped = false ∧ r.communityGenesisCore = none

/-- Without a selection, the runtime is found on the core of the community that bootstrap metadata names, or on
that of the pinned key. -/
def Settled (topic : String → String) (r : Rendezvous) : Prop :=
  r.Unselected → ∃ core, r.memberFeedAnnouncementExtension = some core ∧
    (∀ community ∈ r.community, community.coreKey = core ∧ topic core ∈ r.topics) ∧
    ∀ pinned ∈ r.bootstrapKey, pinned = core ∧ topic core ∈ r.topics

/-- What is known of the community while a start waits: none is known but the one whose core is being opened. -/
def Starts (r : Rendezvous) : DiscoveryStage → Prop
  | .makesDirectory | .readiesCore | .opensMemberFeed | .listens | .networked => r.community = none
  | .fetches .start _ _ _ => r.community = none ∧ r.bootstrapKey = none
  | .fetched key => r.bootstrapKey = none ∧ ∀ community ∈ r.community, key = some community.coreKey
  | .readiesBootstrapCore => ∃ core, r.bootstrapCore = some core ∧
      (∀ community ∈ r.community, community.coreKey = core) ∧ ∀ pinned ∈ r.bootstrapKey, pinned = core
  | _ => True

/-- What a pending call relies on. -/
structure Serves (topic : String → String) (r : Rendezvous) (stage : DiscoveryStage) : Prop where
  started : stage.starting = true ∨ stage.refreshing = true ∨ stage.selecting = true ∨
    stage.flushing = true → r.started = true
  core : stage.starting = true → stage ≠ .makesDirectory → r.core ≠ none
  starts : stage.starting = true → r.Unselected →
    r.memberFeedAnnouncementExtension = none ∧ r.Starts stage
  swarm : stage.swarming = true → r.swarm = true
  settled : stage.refreshing = true → r.Settled topic
  selected : ∀ core, stage = .flushesSelection core → r.communityGenesisCore = some core

/-- What holds of a runtime whatever its calls do. -/
structure Sound (topic : String → String) (r : Rendezvous) : Prop where
  topics : ∀ core ∈ r.communityGenesisCore, topic core ∈ r.topics
  timer : r.bootstrapRefreshTimer = true → r.started = true ∧ r.Settled topic
  fresh : r.started = false →
    r.community = none ∧ r.communityGenesisCore = none ∧ r.memberFeedAnnouncementExtension = none

/-! ## One move -/

variable {topic : String → String} {others : List DiscoveryStage} {r after : Rendezvous}
  {stage other : DiscoveryStage} {next : Option DiscoveryStage}

namespace Moves

/-- What a move never takes back. -/
theorem grows (h : Moves topic others r stage next after) :
    (after.stopped = false → r.stopped = false) ∧
      (after.communityGenesisCore = none → r.communityGenesisCore = none) ∧
      (r.started = true → after.started = true) ∧ (r.core ≠ none → after.core ≠ none) ∧
      (r.swarm = true → after.swarm = true) ∧ ∀ joined ∈ r.topics, joined ∈ after.topics := by
  cases h <;>
    simp +contextual [Rendezvous.register, Rendezvous.timed, Rendezvous.halt, Rendezvous.select]

theorem unselected (h : Moves topic others r stage next after) (hafter : after.Unselected) :
    r.Unselected :=
  ⟨h.grows.1 hafter.1, h.grows.2.1 hafter.2⟩

/-- Once settled, a runtime stays settled: a start no longer waits, and a refresh names the same core. -/
theorem settled (h : Moves topic others r stage next after) (hserves : r.Serves topic stage)
    (hsettled : r.Settled topic) : after.Settled topic := by
  intro hafter
  have hbefore := h.unselected hafter
  obtain ⟨core, hextension, hcommunity, hpinned⟩ := hsettled hbefore
  have hidle : stage.starting = true → False := fun hstarting ↦
    absurd (hextension.symm.trans (hserves.starts hstarting hbefore).1) (Option.some_ne_none core)
  cases h with
  | starts | refreshes | ends => exact ⟨core, hextension, hcommunity, hpinned⟩
  | opens | prepares | listens | pins | learns | opensBootstrapCore | meets | enters => exact (hidle rfl).elim
  | connects hstage => exact (hidle (by rcases hstage with rfl | rfl <;> rfl)).elim
  | asks hstage _ =>
      exact (hidle (by rcases hstage with ⟨rfl, -⟩ | ⟨_, _, _, rfl⟩ <;> rfl)).elim
  | relearns _ _ _ manifest hkey hsame hfirst =>
      refine ⟨core, hextension, fun community hmanifest ↦ ?_, hpinned⟩
      obtain rfl := Option.some.inj hmanifest
      cases hknown : r.community with
      | none =>
          obtain ⟨pinned, hsome⟩ := Option.ne_none_iff_exists'.mp (hfirst hknown)
          exact ⟨(hkey pinned hsome).trans (hpinned pinned hsome).1, (hpinned pinned hsome).2⟩
      | some known =>
          exact ⟨(hsame known hknown).trans (hcommunity known hknown).1, (hcommunity known hknown).2⟩
  | proceeds joined _ _ _ =>
      exact ⟨core, hextension,
        fun community hc ↦ ⟨(hcommunity community hc).1, List.mem_append_left _ (hcommunity community hc).2⟩,
        fun pinned hp ↦ ⟨(hpinned pinned hp).1, List.mem_append_left _ (hpinned pinned hp).2⟩⟩
  | selects community selected _ _ => exact absurd hafter.2 (Option.some_ne_none selected)
  | moves selected =>
      exact absurd ((hserves.selected selected rfl).symm.trans hbefore.2) (Option.some_ne_none selected)
  | stops => exact absurd hafter.1 (by simp [halt])

end Moves

/-- A start that finds no discovery core is settled on the network core. -/
theorem settled_meets (hserves : r.Serves topic (.fetched none)) (timer : Bool) :
    ((r.register r.core).timed timer).Settled topic := by
  intro hafter
  obtain ⟨hextension, hkey, hcommunity⟩ := hserves.starts rfl hafter
  obtain ⟨core, hcore⟩ := Option.ne_none_iff_exists'.mp (hserves.core rfl (by simp))
  refine ⟨core, by simp [register, timed, hextension, hcore], fun community hc ↦ ?_, fun pinned hp ↦ ?_⟩
  · exact absurd (hcommunity community hc) (by simp)
  · exact absurd (hkey.symm.trans hp) (by simp)

/-- A start that opens a discovery core is settled on it. -/
theorem settled_enters (hserves : r.Serves topic .readiesBootstrapCore) (timer : Bool) :
    (Rendezvous.timed
      { r.register r.bootstrapCore with
        topics := r.topics ++ (r.bootstrapCore.map topic).toList } timer).Settled topic := by
  intro hafter
  obtain ⟨hextension, core, hcore, hcommunity, hpinned⟩ := hserves.starts rfl hafter
  have hjoined : topic core ∈ r.topics ++ (r.bootstrapCore.map topic).toList := by simp [hcore]
  exact ⟨core, by simp [register, timed, hextension, hcore],
    fun community hc ↦ ⟨hcommunity community hc, hjoined⟩, fun pinned hp ↦ ⟨hpinned pinned hp, hjoined⟩⟩

/-- Topics that are joined tell a start nothing. -/
theorem starts_topics (r : Rendezvous) (topics : List String) (stage : DiscoveryStage) :
    Rendezvous.Starts { r with topics := topics } stage ↔ r.Starts stage := by
  cases stage with
  | fetches caller => cases caller <;> exact Iff.rfl
  | _ => exact Iff.rfl

namespace Moves

/-- A move of another call leaves a start as it waits. -/
theorem starts_other (h : Moves topic others r stage next after) (hserves : r.Serves topic stage)
    (hother : r.Serves topic other) (hapart : ¬ (stage.starting = true ∧ other.starting = true))
    (hstarting : other.starting = true) (hafter : after.Unselected) :
    after.memberFeedAnnouncementExtension = none ∧ after.Starts other := by
  have hbefore := h.unselected hafter
  obtain ⟨hextension, hstarts⟩ := hother.starts hstarting hbefore
  have hidle : stage.starting = true → False := fun hstage ↦ hapart ⟨hstage, hstarting⟩
  cases h with
  | starts hstarted =>
      exact absurd ((hother.started (.inl hstarting)).symm.trans hstarted) (by simp)
  | opens | prepares | listens | pins | learns | opensBootstrapCore | meets | enters => exact (hidle rfl).elim
  | connects hstage => exact (hidle (by rcases hstage with rfl | rfl <;> rfl)).elim
  | asks hstage _ =>
      exact (hidle (by rcases hstage with ⟨rfl, -⟩ | ⟨_, _, _, rfl⟩ <;> rfl)).elim
  | refreshes | ends => exact ⟨hextension, hstarts⟩
  | relearns =>
      obtain ⟨core, hcore, -⟩ := hserves.settled rfl hbefore
      exact absurd (hcore.symm.trans hextension) (Option.some_ne_none core)
  | proceeds => exact ⟨hextension, (starts_topics _ _ _).mpr hstarts⟩
  | selects _ selected _ _ => exact absurd hafter.2 (Option.some_ne_none selected)
  | moves selected =>
      exact absurd ((hserves.selected selected rfl).symm.trans hbefore.2) (Option.some_ne_none selected)
  | stops => exact absurd hafter.1 (by simp [halt])

/-- A move leaves what another pending call relies on. -/
theorem serves_other (h : Moves topic others r stage next after) (hserves : r.Serves topic stage)
    (hmem : other ∈ others) (hother : r.Serves topic other)
    (hapart : ¬ (stage.starting = true ∧ other.starting = true)) : after.Serves topic other := by
  obtain ⟨-, -, hstarted, hcore, hswarm, -⟩ := h.grows
  exact
    { started := fun hstage ↦ hstarted (hother.started hstage)
      core := fun hstarting hlater ↦ hcore (hother.core hstarting hlater)
      starts := h.starts_other hserves hother hapart
      swarm := fun hswarming ↦ hswarm (hother.swarm hswarming)
      settled := fun hrefreshing ↦ h.settled hserves (hother.settled hrefreshing)
      selected := by
        intro core hflushes
        have hselected := hother.selected core hflushes
        cases h with
        | selects _ _ _ hothers =>
            exact absurd (hothers other hmem) (by simp [hflushes, DiscoveryStage.flushing])
        | _ => exact hselected }

end Moves

/-! ## Where a call waits next -/

/-- A start that waits relies on nothing else. -/
theorem Serves.of_starting (hstarting : stage.starting = true) (hstarted : r.started = true)
    (hcore : stage ≠ .makesDirectory → r.core ≠ none)
    (hstarts : r.Unselected → r.memberFeedAnnouncementExtension = none ∧ r.Starts stage) :
    r.Serves topic stage := by
  obtain ⟨hrefreshing, hselecting, hflushing⟩ := DiscoveryStage.of_starting hstarting
  exact
    { started := fun _ ↦ hstarted
      core := fun _ ↦ hcore
      starts := fun _ ↦ hstarts
      swarm := fun h ↦ absurd ((DiscoveryStage.selecting_of_swarming h).symm.trans hselecting) (by simp)
      settled := fun h ↦ absurd (h.symm.trans hrefreshing) (by simp)
      selected := fun core h ↦ absurd (hflushing.symm.trans (congrArg _ h)) (by simp [DiscoveryStage.flushing]) }

/-- A request of a refresh relies on a settled runtime. -/
theorem Serves.of_refreshing (endpoints : Endpoints) (endpoint : String)
    (failures : List (String × String)) (hstarted : r.started = true) (hsettled : r.Settled topic) :
    r.Serves topic (.fetches .refresh endpoints endpoint failures) where
  started _ := hstarted
  core h := absurd h (by simp [DiscoveryStage.starting])
  starts h := absurd h (by simp [DiscoveryStage.starting])
  swarm h := absurd h (by simp [DiscoveryStage.swarming, DiscoveryStage.selecting])
  settled _ := hsettled
  selected core h := absurd h (by simp)

/-- Creating or joining a community relies on the swarm it found. -/
theorem Serves.of_selecting (hselecting : stage.selecting = true) (hstarted : r.started = true)
    (hswarm : stage.swarming = true → r.swarm = true) : r.Serves topic stage := by
  obtain ⟨hstarting, hrefreshing, hflushing⟩ := DiscoveryStage.of_selecting hselecting
  exact
    { started := fun _ ↦ hstarted
      core := fun h ↦ absurd (h.symm.trans hstarting) (by simp)
      starts := fun h ↦ absurd (h.symm.trans hstarting) (by simp)
      swarm := hswarm
      settled := fun h ↦ absurd (h.symm.trans hrefreshing) (by simp)
      selected := fun core h ↦ absurd (hflushing.symm.trans (congrArg _ h)) (by simp [DiscoveryStage.flushing]) }

/-- What waits after a fetch of a start. -/
theorem Serves.of_goes (hnext : FetchCaller.start.Goes next) (hstarted : r.started = true)
    (hcore : r.core ≠ none)
    (hstarts : r.Unselected → r.memberFeedAnnouncementExtension = none ∧ r.community = none ∧
      r.bootstrapKey = none) : ∀ waiting ∈ next, r.Serves topic waiting := by
  intro waiting hwaiting
  rcases hnext with rfl | ⟨endpoints, endpoint, failures, rfl⟩
  · obtain rfl := Option.some.inj hwaiting
    refine .of_starting rfl hstarted (fun _ ↦ hcore) fun hr ↦ ?_
    obtain ⟨hextension, hcommunity, hkey⟩ := hstarts hr
    exact ⟨hextension, hkey, fun community hc ↦ absurd (hcommunity.symm.trans hc) (by simp)⟩
  · obtain rfl := Option.some.inj hwaiting
    exact .of_starting rfl hstarted (fun _ ↦ hcore) hstarts

namespace Moves

/-- What waits next relies on what the move leaves. -/
theorem serves_next (h : Moves topic others r stage next after) (hsound : r.Sound topic)
    (hserves : r.Serves topic stage) : ∀ waiting ∈ next, after.Serves topic waiting := by
  intro waiting hwaiting
  cases h with
  | starts hstarted =>
      obtain rfl := Option.some.inj hwaiting
      obtain ⟨hcommunity, -, hextension⟩ := hsound.fresh hstarted
      exact .of_starting rfl rfl (fun h ↦ absurd rfl h) fun _ ↦ ⟨hextension, hcommunity⟩
  | opens core =>
      obtain rfl := Option.some.inj hwaiting
      exact .of_starting rfl (hserves.started (.inl rfl)) (fun _ ↦ Option.some_ne_none core)
        fun hr ↦ hserves.starts rfl hr
  | prepares =>
      obtain rfl := Option.some.inj hwaiting
      exact .of_starting rfl (hserves.started (.inl rfl)) (fun _ ↦ hserves.core rfl (by simp))
        fun hr ↦ hserves.starts rfl hr
  | connects hstage =>
      obtain rfl := Option.some.inj hwaiting
      rcases hstage with rfl | rfl <;>
        exact .of_starting rfl (hserves.started (.inl rfl)) (fun _ ↦ hserves.core rfl (by simp))
          fun hr ↦ hserves.starts rfl hr
  | listens joined =>
      obtain rfl := Option.some.inj hwaiting
      exact .of_starting rfl (hserves.started (.inl rfl)) (fun _ ↦ hserves.core rfl (by simp))
        fun hr ↦ hserves.starts rfl hr
  | @pins key hkey =>
      obtain rfl := Option.some.inj hwaiting
      refine .of_starting rfl (hserves.started (.inl rfl)) (fun _ ↦ hserves.core rfl (by simp)) fun hr ↦ ?_
      obtain ⟨hextension, hcommunity⟩ := hserves.starts rfl hr
      exact ⟨hextension, key, rfl, fun community hc ↦ absurd (hcommunity.symm.trans hc) (by simp),
        fun pinned hpinned ↦ Option.some.inj (hpinned.symm.trans hkey)⟩
  | asks hstage hnext =>
      rcases hstage with ⟨rfl, hkey⟩ | ⟨_, _, _, rfl⟩
      · exact Serves.of_goes hnext (hserves.started (.inl rfl)) (hserves.core rfl (by simp))
          (fun hr ↦ ⟨(hserves.starts rfl hr).1, (hserves.starts rfl hr).2, hkey⟩) waiting hwaiting
      · exact Serves.of_goes hnext (hserves.started (.inl rfl)) (hserves.core rfl (by simp))
          (fun hr ↦ hserves.starts rfl hr) waiting hwaiting
  | learns endpoints endpoint failures manifest =>
      obtain rfl := Option.some.inj hwaiting
      refine .of_starting rfl (hserves.started (.inl rfl)) (fun _ ↦ hserves.core rfl (by simp)) fun hr ↦ ?_
      obtain ⟨hextension, -, hkey⟩ := hserves.starts rfl hr
      exact ⟨hextension, hkey, fun community hc ↦ congrArg _ (congrArg _ (Option.some.inj hc))⟩
  | opensBootstrapCore key =>
      obtain rfl := Option.some.inj hwaiting
      refine .of_starting rfl (hserves.started (.inl rfl)) (fun _ ↦ hserves.core rfl (by simp)) fun hr ↦ ?_
      obtain ⟨hextension, hkey, hcommunity⟩ := hserves.starts rfl hr
      exact ⟨hextension, key, rfl, fun community hc ↦ (Option.some.inj (hcommunity community hc)).symm,
        fun pinned hpinned ↦ absurd (hkey.symm.trans hpinned) (by simp)⟩
  | refreshes hstage hnext =>
      have hready : r.started = true ∧ r.Settled topic := hstage.elim (fun h ↦ hsound.timer h.2)
        fun h ↦ ⟨hserves.started (.inr (.inl h)), hserves.settled h⟩
      rcases hnext with rfl | ⟨endpoints, endpoint, failures, rfl⟩
      · cases hwaiting
      · obtain rfl := Option.some.inj hwaiting
        exact .of_refreshing _ _ _ hready.1 hready.2
  | proceeds joined hstage hnext hswarm =>
      obtain rfl := Option.some.inj hwaiting
      exact .of_selecting hnext (hstage.elim (fun h ↦ hserves.started (.inr (.inr (.inl h)))) And.right) hswarm
  | @selects _ community core hstage _ =>
      obtain rfl := Option.some.inj hwaiting
      have hselecting := DiscoveryStage.selecting_of_swarming hstage
      exact
        { started := fun _ ↦ hserves.started (.inr (.inr (.inl hselecting)))
          core := fun h ↦ absurd h (by simp [DiscoveryStage.starting])
          starts := fun h ↦ absurd h (by simp [DiscoveryStage.starting])
          swarm := fun h ↦ absurd h (by simp [DiscoveryStage.swarming, DiscoveryStage.selecting])
          settled := fun h ↦ absurd h (by simp [DiscoveryStage.refreshing])
          selected := fun other hother ↦ by simp_all [select] }
  | meets | enters | relearns | moves | ends => cases hwaiting
  | stops hnext =>
      rcases hnext with rfl | rfl
      · cases hwaiting
      · obtain rfl := Option.some.inj hwaiting
        exact ⟨by simp [DiscoveryStage.starting, DiscoveryStage.refreshing, DiscoveryStage.selecting,
          DiscoveryStage.flushing], by simp [DiscoveryStage.starting], by simp [DiscoveryStage.starting],
          by simp [DiscoveryStage.swarming, DiscoveryStage.selecting], by simp [DiscoveryStage.refreshing],
          by simp⟩

/-- What holds of a runtime still does after a move. -/
theorem sound (h : Moves topic others r stage next after) (hsound : r.Sound topic)
    (hserves : r.Serves topic stage) : after.Sound topic := by
  obtain ⟨-, -, hstarted, -, -, htopics⟩ := h.grows
  refine ⟨fun core hcore ↦ ?_, fun htimer ↦ ?_, fun hunstarted ↦ ?_⟩
  · cases h with
    | selects community selected =>
        obtain rfl := Option.some.inj hcore
        exact List.mem_append_right _ List.mem_cons_self
    | _ => exact htopics _ (hsound.topics core hcore)
  · have hkept (hbefore : r.bootstrapRefreshTimer = true) : after.started = true ∧ after.Settled topic :=
      ⟨hstarted (hsound.timer hbefore).1, h.settled hserves (hsound.timer hbefore).2⟩
    cases h with
    | meets timer => exact ⟨hserves.started (.inl rfl), settled_meets hserves timer⟩
    | enters timer => exact ⟨hserves.started (.inl rfl), settled_enters hserves timer⟩
    | stops => cases htimer
    | _ => exact hkept htimer
  · -- what sets a community or the extension runs in a runtime that has started
    have hbefore : r.started = false := by
      cases hr : r.started with
      | false => rfl
      | true => exact absurd ((hstarted hr).symm.trans hunstarted) (by simp)
    have hfresh := hsound.fresh hbefore
    have hactive : ¬ (stage.starting = true ∨ stage.refreshing = true ∨ stage.selecting = true ∨
        stage.flushing = true) := fun hstage ↦
      absurd ((hserves.started hstage).symm.trans hbefore) (by simp)
    cases h with
    | starts => cases hunstarted
    | meets | enters | learns => exact absurd (.inl rfl) hactive
    | relearns => exact absurd (.inr (.inl rfl)) hactive
    | selects _ _ hstage _ =>
        exact absurd (.inr (.inr (.inl (DiscoveryStage.selecting_of_swarming hstage)))) hactive
    | moves => exact absurd (.inr (.inr (.inr rfl))) hactive
    | stops => exact ⟨hfresh.1, hfresh.2.1, rfl⟩
    | _ => exact hfresh

/-- A start is begun once, and goes on as itself. -/
theorem starting_next (h : Moves topic others r stage next after) {waiting : DiscoveryStage}
    (hwaiting : waiting ∈ next) (hstarting : waiting.starting = true) :
    stage.starting = true ∨ r.started = false := by
  cases h with
  | starts hstarted => exact .inr hstarted
  | opens | prepares | listens | pins | learns | opensBootstrapCore => exact .inl rfl
  | connects hstage => exact .inl (by rcases hstage with rfl | rfl <;> rfl)
  | asks hstage _ => exact .inl (by rcases hstage with ⟨rfl, -⟩ | ⟨_, _, _, rfl⟩ <;> rfl)
  | refreshes _ hnext =>
      rcases hnext with rfl | ⟨_, _, _, rfl⟩
      · cases hwaiting
      · obtain rfl := Option.some.inj hwaiting
        cases hstarting
  | proceeds _ _ hnext _ =>
      obtain rfl := Option.some.inj hwaiting
      exact absurd ((DiscoveryStage.of_selecting hnext).1.symm.trans hstarting) (by simp)
  | selects =>
      obtain rfl := Option.some.inj hwaiting
      cases hstarting
  | meets | enters | relearns | moves | ends => cases hwaiting
  | stops hnext =>
      rcases hnext with rfl | rfl
      · cases hwaiting
      · obtain rfl := Option.some.inj hwaiting
        cases hstarting

end Moves

/-! ## All pending calls together -/

/-- Where a runtime is found: it is settled unless its start still runs, and member feeds are announced on the
core of a selected genesis record unless its topic is still being joined. -/
structure Found (topic : String → String) (r : Rendezvous) (pending : List DiscoveryStage) : Prop where
  settled : r.started = true → (∃ stage ∈ pending, stage.starting = true) ∨ r.Settled topic
  announced : r.stopped = false → ∀ core ∈ r.communityGenesisCore,
    r.memberFeedAnnouncementExtension = some core ∨ .flushesSelection core ∈ pending

theorem Found.mono {pending more : List DiscoveryStage} (h : r.Found topic pending)
    (hmore : ∀ stage ∈ pending, stage ∈ more) : r.Found topic more where
  settled hstarted := (h.settled hstarted).imp_left fun hwaits ↦
    hwaits.imp fun stage hstage ↦ ⟨hmore stage hstage.1, hstage.2⟩
  announced hstopped core hcore := (h.announced hstopped core hcore).imp_right (hmore _)

namespace Moves

/-- A start that is resumed goes on, or the runtime is settled. -/
theorem finishes (h : Moves topic others r stage next after) (hserves : r.Serves topic stage)
    (hstarting : stage.starting = true) :
    (∃ waiting ∈ next, waiting.starting = true) ∨ after.Settled topic := by
  obtain ⟨hrefreshing, hselecting, -⟩ := DiscoveryStage.of_starting hstarting
  cases h with
  | starts | relearns | moves => cases hstarting
  | opens | prepares | connects | listens | pins | learns | opensBootstrapCore =>
      exact .inl ⟨_, rfl, rfl⟩
  | asks _ hnext =>
      rcases hnext with rfl | ⟨_, _, _, rfl⟩ <;> exact .inl ⟨_, rfl, rfl⟩
  | meets timer => exact .inr (settled_meets hserves timer)
  | enters timer => exact .inr (settled_enters hserves timer)
  | refreshes hstage _ =>
      rcases hstage with ⟨rfl, -⟩ | hstage
      · cases hstarting
      · exact absurd (hstage.symm.trans hrefreshing) (by simp)
  | proceeds _ hstage _ _ =>
      rcases hstage with hstage | ⟨⟨_, rfl⟩, -⟩
      · exact absurd (hstage.symm.trans hselecting) (by simp)
      · cases hstarting
  | selects _ _ hstage _ =>
      exact absurd ((DiscoveryStage.selecting_of_swarming hstage).symm.trans hselecting) (by simp)
  | ends hstopped _ =>
      exact .inr fun hafter ↦ absurd ((hstopped hstarting).symm.trans hafter.1) (by simp)
  | stops => exact .inr fun hafter ↦ absurd hafter.1 (by simp [halt])

/-- A runtime that has started had started, or begins to. -/
theorem begins (h : Moves topic others r stage next after) (hafter : after.started = true) :
    r.started = true ∨ ∃ waiting ∈ next, waiting.starting = true := by
  cases h with
  | starts => exact .inr ⟨_, rfl, rfl⟩
  | _ => exact .inl hafter

/-- A move keeps where the runtime is found. -/
theorem found (h : Moves topic others r stage next after) (hserves : r.Serves topic stage)
    (hfound : r.Found topic (stage :: others)) : after.Found topic (next.toList ++ others) := by
  have hwaits (hnext : ∃ waiting ∈ next, waiting.starting = true) :
      ∃ waiting ∈ next.toList ++ others, waiting.starting = true := by
    obtain ⟨waiting, hwaiting, hstarting⟩ := hnext
    exact ⟨waiting, List.mem_append_left _ (Option.mem_toList.mpr hwaiting), hstarting⟩
  constructor
  · intro hafter
    cases hstarting : stage.starting with
    | true => exact (h.finishes hserves hstarting).imp_left hwaits
    | false =>
        rcases h.begins hafter with hbefore | hbegun
        · rcases hfound.settled hbefore with ⟨waiting, hwaiting, hother⟩ | hsettled
          · rcases List.mem_cons.mp hwaiting with rfl | hwaiting
            · exact absurd (hstarting.symm.trans hother) (by simp)
            · exact .inl ⟨waiting, List.mem_append_right _ hwaiting, hother⟩
          · exact .inr (h.settled hserves hsettled)
        · exact .inl (hwaits hbegun)
  · intro hstopped core hcore
    have hbefore := hfound.announced (h.grows.1 hstopped) core
    -- a stage that flushes no selection leaves the pending flushes as they are
    have hkept (hsame : core ∈ r.communityGenesisCore) (hflushing : stage.flushing = false) :
        r.memberFeedAnnouncementExtension = some core ∨
          .flushesSelection core ∈ next.toList ++ others := by
      refine (hbefore hsame).imp_right fun hmem ↦ List.mem_append_right _ ?_
      refine (List.mem_cons.mp hmem).resolve_left fun hstage ↦ ?_
      exact absurd ((congrArg _ hstage).trans hflushing) (by simp [DiscoveryStage.flushing])
    cases h with
    | selects community selected =>
        obtain rfl := Option.some.inj hcore
        exact .inr List.mem_cons_self
    | moves selected => exact .inl ((hserves.selected selected rfl).symm.trans hcore)
    | meets | enters =>
        exact (hkept hcore rfl).imp_left fun hextension ↦ by simp [register, timed, hextension]
    | stops => cases hstopped
    | starts | opens | prepares | listens | pins | learns | opensBootstrapCore | relearns =>
        exact hkept hcore rfl
    | connects hstage => exact hkept hcore (by rcases hstage with rfl | rfl <;> rfl)
    | asks hstage _ => exact hkept hcore (by rcases hstage with ⟨rfl, -⟩ | ⟨_, _, _, rfl⟩ <;> rfl)
    | refreshes hstage _ =>
        refine hkept hcore ?_
        rcases hstage with ⟨rfl, -⟩ | hstage
        · rfl
        · exact DiscoveryStage.of_refreshing hstage
    | proceeds _ hstage _ _ =>
        refine hkept hcore ?_
        rcases hstage with hstage | ⟨⟨_, rfl⟩, -⟩
        · exact (DiscoveryStage.of_selecting hstage).2.2
        · rfl
    | ends _ hflushing => exact hkept hcore hflushing

end Moves

end Rendezvous

end PeerHours.PeerRuntime
