import PeerHours.Runtime.BootstrapScope
import PeerHours.Runtime.Rendezvous

/-!
# The community that is discovered

A runtime reports a community, joins discovery topics and hears of member feeds on one core. While nothing is in
progress these agree, provided that selections do not overlap, joining their topics succeeds, an invitation has
the discovery key of its core, and a runtime without a pinned key does not learn of its first community from a
later refresh.
-/

namespace PeerHours.PeerRuntime

open Checked Interleaving Json

variable {host : DiscoveryHost}

/-- The topic of the reported community is joined, and member feeds are announced on its core only. -/
def Discovery.Discovers (host : DiscoveryHost) (runtime : Discovery) : Prop :=
  ∀ community ∈ runtime.community, host.discoveryKey community.coreKey ∈ runtime.topics ∧
    runtime.memberFeedAnnouncementExtension = some community.coreKey

/-- The steps under which the reported community stays the one that is discovered. -/
def Orderly (host : DiscoveryHost) : Condition DiscoveryContext DiscoveryStage Discovery :=
  fun context stage runtime others ↦
    match stage with
    | .fetches .refresh _ _ _ => runtime.community = none → runtime.bootstrapKey = none →
        ∀ manifest, runtime.compatibleManifest host context.response ≠ .ok manifest
    | .appendsGenesis _ _ => ∀ other ∈ others, other.flushing = false
    | .readsGenesis communityId discoveryKey => discoveryKey = host.discoveryKey communityId ∧
        ∀ other ∈ others, other.flushing = false
    | .flushesSelection _ => context.awaited = .ok ()
    | _ => True

/-! ## The moves of a runtime -/

/-- Where the runtime is found. -/
def Discovery.rendezvous (runtime : Discovery) : Rendezvous where
  bootstrapKey := runtime.bootstrapKey
  community := runtime.community
  core := runtime.core
  communityGenesisCore := runtime.communityGenesisCore
  bootstrapCore := runtime.bootstrapCore
  memberFeedAnnouncementExtension := runtime.memberFeedAnnouncementExtension
  swarm := runtime.swarm
  topics := runtime.topics
  bootstrapRefreshTimer := runtime.bootstrapRefreshTimer
  started := runtime.started
  stopped := runtime.stopped

@[simp] theorem rendezvous_registerMemberFeedAnnouncementExtension (runtime : Discovery)
    (core : Option String) :
    (runtime.registerMemberFeedAnnouncementExtension core).rendezvous = runtime.rendezvous.register core := by
  unfold Discovery.registerMemberFeedAnnouncementExtension Rendezvous.register
  split
  · rename_i hnone
    rw [if_pos (show runtime.rendezvous.memberFeedAnnouncementExtension = none from hnone)]
    rfl
  · rename_i hsome
    rw [if_neg (show ¬ runtime.rendezvous.memberFeedAnnouncementExtension = none from hsome)]

@[simp] theorem rendezvous_moveToSelection (runtime : Discovery) (core : String) :
    (runtime.moveToSelection core).rendezvous =
      { runtime.rendezvous with memberFeedAnnouncementExtension := some core } := by
  rw [Discovery.moveToSelection, rendezvous_registerMemberFeedAnnouncementExtension]
  rfl

@[simp] theorem rendezvous_endFetch (runtime : Discovery) (caller : FetchCaller) (key : Option String) :
    (runtime.endFetch caller key).2.rendezvous = runtime.rendezvous := by
  cases caller <;> rfl

theorem goes_endFetch (runtime : Discovery) (caller : FetchCaller) :
    caller.Goes (runtime.endFetch caller none).1 := by
  cases caller <;> exact .inl rfl

/-- Asking the next endpoint moves nothing. -/
theorem goes_askNext (runtime : Discovery) (caller : FetchCaller) (endpoints : Endpoints)
    (failures : List (String × String)) :
    caller.Goes (runtime.askNext caller endpoints failures).1 ∧
      (runtime.askNext caller endpoints failures).2.rendezvous = runtime.rendezvous := by
  unfold Discovery.askNext
  split
  · split
    · exact ⟨.inr ⟨_, _, _, rfl⟩, rfl⟩
    · exact ⟨goes_endFetch _ _, rendezvous_endFetch _ _ _⟩
  · exact ⟨.inr ⟨_, _, _, rfl⟩, rfl⟩
  · exact ⟨goes_endFetch _ _, rendezvous_endFetch _ _ _⟩

theorem goes_fetchBootstrapKey (runtime : Discovery) (caller : FetchCaller) :
    caller.Goes (runtime.fetchBootstrapKey caller).1 ∧
      (runtime.fetchBootstrapKey caller).2.rendezvous = runtime.rendezvous := by
  unfold Discovery.fetchBootstrapKey
  split
  · exact ⟨goes_endFetch _ _, rendezvous_endFetch _ _ _⟩
  · exact goes_askNext _ _ _ _

/-- What a step does to the rendezvous of a runtime. -/
abbrev Discovery.MovesTo (host : DiscoveryHost) (others : List DiscoveryStage) (runtime : Discovery)
    (stage : DiscoveryStage) (resumed : Resumed) : Prop :=
  runtime.rendezvous.Moves host.discoveryKey others stage resumed.1 resumed.2.rendezvous

section Moves

variable {others : List DiscoveryStage} {runtime : Discovery} {stage : DiscoveryStage}

theorem movesTo_stop (runtime : Discovery) (hflushing : stage.flushing = false) :
    runtime.MovesTo host others stage runtime.stop := by
  unfold Discovery.stop
  split
  · rename_i hstopped
    exact .ends (fun _ ↦ hstopped) hflushing
  · refine .stops ?_
    dsimp only
    split
    · exact .inr rfl
    · exact .inl rfl

/-- A call that begins. -/
theorem movesTo_begin (context : DiscoveryContext) (runtime : Discovery) (call : DiscoveryCall) :
    runtime.MovesTo host others (.called call) (runtime.begin context call) := by
  have hends : runtime.MovesTo host others (.called call) (none, runtime) := .ends (by rintro ⟨⟩) rfl
  cases call with
  | start =>
      unfold Discovery.begin
      dsimp only
      split
      · exact hends
      · rename_i hfresh
        have hstarted : runtime.started = false := by simpa using (not_or.mp hfresh).1
        exact .starts hstarted
  | refresh =>
      unfold Discovery.begin
      dsimp only
      split
      · rename_i htimer
        have hfetch := goes_fetchBootstrapKey runtime .refresh
        rw [Discovery.MovesTo, hfetch.2]
        exact .refreshes (.inl ⟨rfl, htimer⟩) hfetch.1
      · exact hends
  | createCommunity input =>
      unfold Discovery.begin
      dsimp only
      split
      · rename_i hready
        simpa using @Rendezvous.Moves.proceeds host.discoveryKey others runtime.rendezvous
          (.called (.createCommunity input)) (.readiesGenesisCore context.newCore input) []
          (.inr ⟨⟨_, rfl⟩, hready.1⟩) rfl fun _ ↦ hready.2.2.2.1
      · exact hends
  | joinCommunity invitation =>
      unfold Discovery.begin
      dsimp only
      split
      · rename_i hready
        split
        · simpa using @Rendezvous.Moves.proceeds host.discoveryKey others runtime.rendezvous
            (.called (.joinCommunity invitation)) (.readiesJoinedCore _ _) []
            (.inr ⟨⟨_, rfl⟩, hready.1⟩) rfl (by rintro ⟨⟩)
        · exact hends
      · exact hends
  | stop => exact movesTo_stop runtime rfl

/-- The answer of an endpoint. -/
theorem movesTo_answered (context : DiscoveryContext) (runtime : Discovery) (caller : FetchCaller)
    (endpoints : Endpoints) (endpoint : String) (failures : List (String × String))
    (horderly : Orderly host context (.fetches caller endpoints endpoint failures) runtime others) :
    runtime.MovesTo host others (.fetches caller endpoints endpoint failures)
      (runtime.answered host context caller endpoints endpoint failures) := by
  unfold Discovery.answered
  split
  · rename_i manifest hmanifest
    obtain ⟨-, hpinned, hsame⟩ := compatibleManifest_eq_ok.mp hmanifest
    cases caller with
    | start => exact .learns endpoints endpoint failures manifest
    | refresh =>
        exact .relearns endpoints endpoint failures manifest hpinned (fun community hc ↦ (hsame community hc).2)
          fun hcommunity hkey ↦ horderly hcommunity hkey manifest hmanifest
  · rename_i message _
    have hnext := goes_askNext runtime caller endpoints (failures ++ [(endpoint, message)])
    rw [Discovery.MovesTo, hnext.2]
    cases caller with
    | start => exact .asks (.inr ⟨_, _, _, rfl⟩) hnext.1
    | refresh => exact .refreshes (.inr rfl) hnext.1

/-- The next stage of a start, once networking runs. -/
theorem movesTo_bootstrap (runtime : Discovery) :
    runtime.MovesTo host others .networked runtime.bootstrap := by
  unfold Discovery.bootstrap
  split
  · rename_i key hkey
    exact .pins hkey
  · rename_i hkey
    have hfetch := goes_fetchBootstrapKey runtime .start
    rw [Discovery.MovesTo, hfetch.2]
    exact .asks (.inl ⟨rfl, hkey⟩) hfetch.1

theorem movesTo_openBootstrapCore (runtime : Discovery) (key : Option String) :
    runtime.MovesTo host others (.fetched key) (runtime.openBootstrapCore key) := by
  cases key with
  | none =>
      have hmeets := @Rendezvous.Moves.meets host.discoveryKey others runtime.rendezvous
        (runtime.registerMemberFeedAnnouncementExtension runtime.core).finishStart.2.bootstrapRefreshTimer
      rw [show runtime.rendezvous.register runtime.rendezvous.core = _ from
        (rendezvous_registerMemberFeedAnnouncementExtension runtime runtime.core).symm] at hmeets
      exact hmeets
  | some key => exact .opensBootstrapCore key

theorem movesTo_enterBootstrapCore (runtime : Discovery) (hnetworking : runtime.networkingEnabled = true) :
    runtime.MovesTo host others .readiesBootstrapCore (runtime.enterBootstrapCore host) := by
  have hregistered := rendezvous_registerMemberFeedAnnouncementExtension runtime runtime.bootstrapCore
  have hcore : (runtime.registerMemberFeedAnnouncementExtension runtime.bootstrapCore).bootstrapCore =
      runtime.bootstrapCore := congrArg Rendezvous.bootstrapCore hregistered
  have htopics : (runtime.registerMemberFeedAnnouncementExtension runtime.bootstrapCore).topics =
      runtime.topics := congrArg Rendezvous.topics hregistered
  have hrendezvous : (runtime.enterBootstrapCore host).2.rendezvous = Rendezvous.timed
      { runtime.rendezvous.register runtime.bootstrapCore with
        topics := runtime.topics ++ (runtime.bootstrapCore.map host.discoveryKey).toList }
      (runtime.enterBootstrapCore host).2.bootstrapRefreshTimer := by
    rw [← hregistered]
    unfold Discovery.enterBootstrapCore
    dsimp only
    rw [if_pos hnetworking, hcore, ← htopics]
    cases runtime.bootstrapCore with
    | none => simp only [Option.elim_none, Option.map_none, Option.toList_none, List.append_nil]; rfl
    | some core => rfl
  rw [Discovery.MovesTo, hrendezvous]
  exact .enters _

/-- A stage of a start whose wait is over. -/
theorem movesTo_resumeStart (context : DiscoveryContext) (hnetworking : runtime.networkingEnabled = true)
    (hstarting : stage.startsRuntime = true) :
    runtime.MovesTo host others stage (runtime.resumeStart host context stage) := by
  have hconnect : runtime.connect = (some .listens, { runtime with swarm := true }) := if_pos hnetworking
  cases stage with
  | makesDirectory => exact .opens context.localCore
  | readiesCore =>
      show runtime.MovesTo host others _ (if runtime.memberFeedEnabled = true then _ else _)
      split
      · exact .prepares
      · rw [hconnect]
        exact .connects (.inl rfl)
  | opensMemberFeed =>
      show runtime.MovesTo host others _ runtime.connect
      rw [hconnect]
      exact .connects (.inr rfl)
  | listens => exact .listens _
  | readiesBootstrapCore => exact movesTo_enterBootstrapCore runtime hnetworking
  | _ => cases hstarting

/-- The selection of a genesis record. -/
theorem movesTo_selectGenesisCommunity {core : String} (genesis : JsonValue)
    (hnetworking : runtime.networkingEnabled = true) (hswarm : runtime.swarm = true)
    (hstage : stage.swarming = true) (hothers : ∀ other ∈ others, other.flushing = false) :
    runtime.MovesTo host others stage
      (runtime.selectGenesisCommunity core (host.discoveryKey core) genesis) := by
  unfold Discovery.selectGenesisCommunity
  dsimp only
  rw [if_pos hnetworking, if_pos hswarm]
  exact .selects (genesisManifest core genesis) core hstage hothers

/-- Any step of a networking runtime moves its rendezvous, where it is orderly. -/
theorem movesTo_resume {context : DiscoveryContext} (hnetworking : runtime.networkingEnabled = true)
    (hserves : runtime.rendezvous.Serves host.discoveryKey stage)
    (horderly : Orderly host context stage runtime others) :
    runtime.MovesTo host others stage (resumeDiscovery host context stage runtime) := by
  have hends (hstarting : stage.starting = false) (hflushing : stage.flushing = false) :
      runtime.MovesTo host others stage (none, runtime) :=
    .ends (fun h ↦ absurd (h.symm.trans hstarting) (by simp)) hflushing
  have hproceeds (next : DiscoveryStage) (hselecting : stage.selecting = true)
      (hnext : next.selecting = true) (hswarm : next.swarming = true → runtime.swarm = true) :
      runtime.MovesTo host others stage (some next, runtime) := by
    simpa using @Rendezvous.Moves.proceeds host.discoveryKey others runtime.rendezvous stage next []
      (.inl hselecting) hnext hswarm
  cases stage with
  | called call => exact movesTo_begin context runtime call
  | fetches caller endpoints endpoint failures =>
      exact movesTo_answered context runtime caller endpoints endpoint failures horderly
  | networked => exact movesTo_bootstrap runtime
  | fetched key => exact movesTo_openBootstrapCore runtime key
  | makesDirectory | readiesCore | opensMemberFeed | listens | readiesBootstrapCore =>
      unfold resumeDiscovery
      dsimp only
      split
      · exact movesTo_resumeStart context hnetworking rfl
      · rename_i message _
        exact movesTo_stop { runtime with error := some message } rfl
  | readiesGenesisCore core input =>
      unfold resumeDiscovery
      dsimp only
      split
      · unfold Discovery.resumeAwaited
        dsimp only
        split
        · exact hproceeds _ rfl rfl fun _ ↦ hserves.swarm rfl
        · exact hends rfl rfl
      · exact hends rfl rfl
  | appendsGenesis core genesis =>
      unfold resumeDiscovery
      dsimp only
      split
      · exact movesTo_selectGenesisCommunity genesis hnetworking (hserves.swarm rfl) rfl horderly
      · exact hends rfl rfl
  | readiesJoinedCore communityId discoveryKey =>
      unfold resumeDiscovery
      dsimp only
      split
      · unfold Discovery.resumeAwaited
        dsimp only
        rw [if_pos hnetworking]
        split
        · rename_i hswarm
          exact .proceeds [discoveryKey] (.inl rfl) rfl fun _ ↦ hswarm
        · exact hends rfl rfl
      · exact hends rfl rfl
  | flushesInvitation communityId discoveryKey =>
      unfold resumeDiscovery
      dsimp only
      split
      · exact hproceeds _ rfl rfl fun _ ↦ hserves.swarm rfl
      · exact hends rfl rfl
  | updatesCore communityId discoveryKey =>
      unfold resumeDiscovery
      dsimp only
      split
      · unfold Discovery.resumeAwaited
        dsimp only
        split
        · exact hproceeds _ rfl rfl fun _ ↦ hserves.swarm rfl
        · exact hends rfl rfl
      · exact hends rfl rfl
  | readsGenesis communityId discoveryKey =>
      obtain ⟨rfl, hothers⟩ := horderly
      unfold resumeDiscovery
      dsimp only
      split
      · unfold Discovery.resumeAwaited
        dsimp only
        split
        · exact movesTo_selectGenesisCommunity _ hnetworking (hserves.swarm rfl) rfl hothers
        · exact hends rfl rfl
      · exact hends rfl rfl
  | flushesSelection core =>
      have hflushed : resumeDiscovery host context (.flushesSelection core) runtime =
          (none, runtime.moveToSelection core) := by
        unfold resumeDiscovery
        dsimp only
        rw [show context.awaited = .ok () from horderly]
        rfl
      rw [Discovery.MovesTo, hflushed, rendezvous_moveToSelection]
      exact .moves core
  | destroysSwarm =>
      unfold resumeDiscovery
      dsimp only
      split
      · exact hends rfl rfl
      · exact hends rfl rfl

end Moves

/-! ## Runs -/

theorem networkingEnabled_resume (context : DiscoveryContext) (stage : DiscoveryStage)
    (runtime : Discovery) :
    (resumeDiscovery host context stage runtime).2.networkingEnabled = runtime.networkingEnabled := by
  cases @scopeStep host context stage runtime with
  | kept h => exact congrArg BootstrapScope.networkingEnabled h
  | accepted _ _ _ _ _ _ _ h => exact congrArg BootstrapScope.networkingEnabled h
  | selected _ _ _ h => exact congrArg BootstrapScope.networkingEnabled h

/-- What every orderly run of a networking runtime keeps. -/
def rendezvousInvariant (host : DiscoveryHost) : Invariant DiscoveryStage Discovery where
  shared runtime := runtime.networkingEnabled = true ∧ runtime.rendezvous.Sound host.discoveryKey
  waiting runtime stage := runtime.rendezvous.Serves host.discoveryKey stage
  apart left right := ¬ (left.starting = true ∧ right.starting = true)

theorem rendezvousInvariant_kept (host : DiscoveryHost) :
    (rendezvousInvariant host).Kept DiscoveryEntry (resumeDiscovery host) (Orderly host) where
  symm h hboth := h hboth.symm
  start := by
    rintro runtime stage ⟨call, rfl⟩
    refine ⟨?_, fun other hboth ↦ absurd hboth.1 (by simp [DiscoveryStage.starting])⟩
    exact ⟨by simp [DiscoveryStage.starting, DiscoveryStage.refreshing, DiscoveryStage.selecting,
      DiscoveryStage.flushing], by simp [DiscoveryStage.starting], by simp [DiscoveryStage.starting],
      by simp [DiscoveryStage.swarming, DiscoveryStage.selecting], by simp [DiscoveryStage.refreshing],
      by simp⟩
  resumed := by
    intro context stage runtime others horderly hshared hserves hothers
    have hmoves := movesTo_resume hshared.1 hserves horderly
    refine ⟨⟨?_, hmoves.sound hshared.2 hserves⟩, fun next hnext ↦
      ⟨hmoves.serves_next hshared.2 hserves next hnext, fun other hother hboth ↦ ?_⟩, fun other hother ↦
      hmoves.serves_other hserves hother (hothers other hother).1 (hothers other hother).2⟩
    · exact (networkingEnabled_resume context stage runtime).trans hshared.1
    · rcases hmoves.starting_next hnext hboth.1 with hstarting | hunstarted
      · exact (hothers other hother).2 ⟨hstarting, hboth.2⟩
      · exact absurd (((hothers other hother).1.started (.inl hboth.2)).symm.trans hunstarted) (by simp)

/-- A runtime that was just created is found nowhere. -/
theorem rendezvous_create {key : Option String} {values : List String}
    {networkingEnabled memberFeedEnabled : Bool} {runtime : Discovery}
    (h : Discovery.create host key values networkingEnabled memberFeedEnabled = .ok runtime) :
    runtime.networkingEnabled = networkingEnabled ∧ runtime.rendezvous.Sound host.discoveryKey ∧
      runtime.rendezvous.Found host.discoveryKey [] := by
  simp only [Discovery.create, normalizeBootstrapUrls, bind_eq_ok, require_eq_ok, pure_eq_ok,
    exists_const] at h
  obtain ⟨_, -, _, -, rfl⟩ := h
  refine ⟨rfl, ⟨?_, ?_, fun _ ↦ ⟨rfl, rfl, rfl⟩⟩, ⟨?_, ?_⟩⟩
  · rintro core ⟨⟩
  · rintro ⟨⟩
  · rintro ⟨⟩
  · rintro - core ⟨⟩

/-- In every orderly run of overlapping calls, a networking runtime in which nothing is in progress and which has
not stopped reports the community whose core it discovers. -/
theorem discovers_of_orderly {key : Option String} {values : List String} {memberFeedEnabled : Bool}
    {runtime : Discovery} (hcreate : Discovery.create host key values true memberFeedEnabled = .ok runtime)
    {reached : Discovery} (hrun : DiscoveryRun host (Orderly host) ⟨runtime, []⟩ ⟨reached, []⟩)
    (hstopped : reached.stopped = false) : reached.Discovers host := by
  obtain ⟨hnetworking, hsound, hfound⟩ := rendezvous_create hcreate
  have hinitial : (rendezvousInvariant host).Holds ⟨runtime, []⟩ :=
    Invariant.holds_idle ⟨hnetworking, hsound⟩
  have hkept := rendezvousInvariant_kept host
  have hreached := (hkept.run hinitial hrun).shared.2
  have hscope := ((scopeInvariant_kept host runtime.bootstrapUrls (Orderly host)).run
    (Invariant.holds_idle (scopeSound_create hcreate)) hrun).shared
  have hidle : reached.rendezvous.Found host.discoveryKey [] := by
    refine @Invariant.Kept.run_with _ _ _ _ _ _ _ hkept
      (fun shared pending ↦ shared.rendezvous.Found host.discoveryKey pending) ?_ ?_ ?_ _ _ hinitial
      hfound hrun
    · exact fun shared left right hperm h ↦ h.mono fun stage hstage ↦ hperm.subset hstage
    · exact fun shared stage others _ h ↦ h.mono fun other ↦ List.mem_cons_of_mem stage
    · intro context stage shared others horderly hholds h
      have hserves := hholds.waiting stage List.mem_cons_self
      exact (movesTo_resume hholds.shared.1 hserves horderly).found hserves h
  intro community hcommunity
  cases hgenesis : reached.communityGenesisCore with
  | none =>
      have hstarted : reached.started = true := by
        by_contra hunstarted
        have hfresh := (hreached.fresh (Bool.eq_false_iff.mpr hunstarted)).1
        exact absurd (hfresh.symm.trans hcommunity) (by simp)
      rcases hidle.settled hstarted with ⟨stage, hstage, -⟩ | hsettled
      · cases hstage
      · obtain ⟨core, hextension, hnamed, -⟩ := hsettled ⟨hstopped, hgenesis⟩
        obtain ⟨rfl, htopic⟩ := hnamed community hcommunity
        exact ⟨htopic, hextension⟩
  | some core =>
      obtain ⟨named, hnamed, -, rfl⟩ := hscope.genesis core hgenesis
      obtain rfl := Option.some.inj (hnamed.symm.trans hcommunity)
      refine ⟨hreached.topics _ hgenesis, (hidle.announced hstopped _ hgenesis).resolve_right ?_⟩
      exact List.not_mem_nil

theorem orderly_sampleContext (stage : DiscoveryStage) (runtime : Discovery)
    (others : List DiscoveryStage) (hstage : SampleStep stage runtime others) :
    Orderly sampleHost sampleContext stage runtime others := by
  cases stage with
  | fetches caller => cases caller with
    | start => trivial
    | refresh => exact fun hnone ↦ absurd hnone hstage
  | appendsGenesis =>
      intro other hother
      obtain ⟨caller, endpoints, endpoint, failures, rfl⟩ := hstage other hother
      rfl
  | readsGenesis => exact hstage.elim
  | flushesSelection => rfl
  | _ => trivial

/-- A new community is selected while a refresh waits, whose answer names another community. -/
theorem discovers_of_orderly_sample :
    (sampleRefused.moveToSelection sampleContext.newCore).community =
        some (genesisManifest sampleContext.newCore sampleNewGenesis) ∧
      (sampleRefused.moveToSelection sampleContext.newCore).Discovers sampleHost :=
  ⟨rfl, discovers_of_orderly create_sampleRuntime ((sample_start orderly_sampleContext).trans
    ((sample_selects orderly_sampleContext).trans (sample_settles orderly_sampleContext))) rfl⟩

end PeerHours.PeerRuntime
