import PeerHours.Desktop.GuardedAppendRuns
import PeerHours.Exchanges.SetupRuns

/-!
# Guarded appends on a desktop

The desktop takes each acknowledgement and each declaration once, whatever the order in which the calls give way
to each other. A call that has failed leaves nothing behind that would stop the next one.
-/

namespace PeerHours.Exchanges

open Checked Desktop Interleaving Json Stateful
open TimebankDomain (ExchangeProposal)
open TimebankIdentity
open TimebankRecords
open TimebankSettlement

variable {crypto : Crypto} {localeCompare : String → String → Ordering} {feedPublicKey : String}

/-- No guard is held. -/
structure Unguarded (service : AppendingService crypto) : Prop where
  acknowledgements : service.settlementAcknowledgementsInProgress = []
  setup : service.identitySetupInProgress = none

/-- Guards that nobody holds need no call that holds them. -/
theorem Unguarded.guardsHeld {service : AppendingService crypto} (h : Unguarded service) :
    GuardsHeld service [] := by
  refine ⟨fun id hmem ↦ ?_, fun operation hsetup ↦ ?_⟩
  · exact absurd (h.acknowledgements ▸ hmem) List.not_mem_nil
  · exact absurd (h.setup.symm.trans hsetup) (by simp)

/-- Whatever the order in which acknowledgements and setups give way to each other, and whichever of their
reads, writes and appends fail: the feed holds each acknowledgement and each declaration at most once; an
acknowledgement that was reported is held and was reported once; all calls that waited for one setup end with
its result; and each guard is held exactly while a call that took it is pending. -/
theorem appends_once {service : AppendingService crypto} (hown : AppendsOnce service)
    (hidle : Unguarded service) {system : System (AppendStage crypto) (AppendingService crypto)}
    (hrun : Run BeginsAppend (resumeAppends localeCompare feedPublicKey) (Anyhow crypto) ⟨service, []⟩
      system) :
    (acknowledgementIds system.shared.records).Nodup ∧
    (declaredFeeds crypto system.shared.records).Nodup ∧
    (∀ acknowledgement, .acknowledged (.ok acknowledgement) ∈ system.pending →
      acknowledgement.id ∈ acknowledgementIds system.shared.records) ∧
    (system.pending.Pairwise fun left right ↦ ∀ first second,
      left = .acknowledged (.ok first) → right = .acknowledged (.ok second) → first.id ≠ second.id) ∧
    (∀ operation first second, .announced operation first ∈ system.pending →
      .announced operation second ∈ system.pending → first = second) ∧
    (∀ id, id ∈ system.shared.settlementAcknowledgementsInProgress ↔
      ∃ stage ∈ system.pending, stage.acknowledging? = some id) ∧
    (∀ operation, system.shared.identitySetupInProgress = some operation ↔
      ∃ stage ∈ system.pending, stage.setup? = some operation) := by
  have hstart : (appendInvariant crypto).Holds ⟨service, []⟩ := Invariant.holds_idle hown
  have hholds := appendInvariant_kept.run hstart hrun
  have hguards := guardsHeld_run hstart hidle.guardsHeld hrun
  have hrelies (stage : AppendStage crypto) (hmem : stage ∈ system.pending) :
      stage.Relies system.shared := hholds.waiting stage hmem
  refine ⟨hholds.shared.acknowledgements, hholds.shared.declarations, fun acknowledgement hmem ↦ ?_,
    hholds.apart.imp ?_, fun operation first second hfirst hsecond ↦ ?_, fun id ↦ ⟨hguards.1 id, ?_⟩,
    fun operation ↦ ⟨hguards.2 operation, ?_⟩⟩
  · exact (hrelies _ hmem).acknowledged rfl
  · intro left right hapart first second hleft hright hsame
    subst hleft hright
    exact hapart.acknowledged first.id rfl (congrArg some hsame.symm)
  · have hone : system.shared.setups[operation]? = some (some first) := hrelies _ hfirst
    have htwo : system.shared.setups[operation]? = some (some second) := hrelies _ hsecond
    exact Option.some.inj (Option.some.inj (hone.symm.trans htwo))
  · rintro ⟨stage, hmem, hid⟩
    exact (hrelies stage hmem).guard hid
  · rintro ⟨stage, hmem, hoperation⟩
    exact (hrelies stage hmem).setup hoperation

/-! ## Another call -/

/-- The store and the feed answer, and the community is selected. -/
structure Answers (context : AppendContext crypto) (communityId : String) : Prop where
  community : context.communityId = some communityId
  selected : communityId ≠ ""
  encrypts : context.isEncryptionAvailable = true
  storeReadable : context.storeReadable = true
  storeWritable : context.storeWritable = true
  feedReadable : context.feedReadable = true
  feedWritable : context.feedWritable = true

section Again

variable {service after : AppendingService crypto} {stage next : AppendStage crypto}
  {pending : List (AppendStage crypto)} {context : AppendContext crypto} {communityId : String}

/-- A call behind some others goes on. -/
theorem append_goes_behind (front : List (AppendStage crypto))
    (hresume : resumeAppend localeCompare feedPublicKey context stage service = (next, after)) :
    Step BeginsAppend (resumeAppends localeCompare feedPublicKey) (Anyhow crypto)
      ⟨service, front ++ stage :: pending⟩ ⟨after, front ++ next :: pending⟩ := by
  have hstep : resumeAppends localeCompare feedPublicKey context stage service = (some next, after) := by
    rw [resumeAppends, hresume]
  exact Step.go front pending hstep trivial

/-- The first pending call goes on. -/
theorem append_goes
    (hresume : resumeAppend localeCompare feedPublicKey context stage service = (next, after)) :
    Step BeginsAppend (resumeAppends localeCompare feedPublicKey) (Anyhow crypto)
      ⟨service, stage :: pending⟩ ⟨after, next :: pending⟩ :=
  append_goes_behind [] hresume

/-- For a settleable proposal of its community in which the member takes part, a call checks its guard at
last. -/
theorem acknowledgeSettlement_guard {stored : IdentityMaterial crypto} {proposal : ExchangeProposal}
    (hanswers : Answers context communityId) (hstored : assertStoredIdentity stored = .ok ())
    (hsettleable : Settleable proposal) (hcommunity : proposal.communityId = communityId)
    (hmember : Participates proposal stored.root.memberId) :
    acknowledgeSettlement context.toCallContext service (.ok (some stored)) (some communityId) proposal =
      (do
        require ((acknowledgementOf proposal stored.root.memberId).id ∉
            service.settlementAcknowledgementsInProgress)
          "This member is already acknowledging completion of this exchange."
        pure (acknowledgementOf proposal stored.root.memberId, stored)) := by
  have hprotected : protectedIdentity context.toCallContext (some communityId) (some stored)
      "acknowledge a settlement" = .ok (stored, communityId) := by
    simp only [protectedIdentity, bind_eq_ok, selectedCommunity_eq_ok, present_eq_ok, require_eq_ok,
      exists_const, pure_eq_ok, Option.some.injEq]
    exact ⟨communityId, ⟨rfl, hanswers.selected⟩, stored, rfl, hanswers.encrypts, (), hstored, rfl⟩
  have hcreates : createSettlementAcknowledgement proposal stored.root.memberId =
      .ok (acknowledgementOf proposal stored.root.memberId) :=
    (createSettlementAcknowledgement_eq_ok hsettleable).mpr ⟨hmember, rfl⟩
  have hscope (message : String) : require (proposal.communityId = communityId) message = .ok () :=
    require_eq_ok.mpr hcommunity
  simp only [acknowledgeSettlement, ok_bind, hprotected, hscope, hcreates]

theorem acknowledgeSettlement_ok {stored : IdentityMaterial crypto} {proposal : ExchangeProposal}
    (hanswers : Answers context communityId) (hstored : assertStoredIdentity stored = .ok ())
    (hsettleable : Settleable proposal) (hcommunity : proposal.communityId = communityId)
    (hmember : Participates proposal stored.root.memberId)
    (hfree : (acknowledgementOf proposal stored.root.memberId).id ∉
      service.settlementAcknowledgementsInProgress) :
    acknowledgeSettlement context.toCallContext service (.ok (some stored)) (some communityId) proposal =
      .ok (acknowledgementOf proposal stored.root.memberId, stored) := by
  have hclear (message : String) : require ((acknowledgementOf proposal stored.root.memberId).id ∉
      service.settlementAcknowledgementsInProgress) message = .ok () := require_eq_ok.mpr hfree
  rw [acknowledgeSettlement_guard hanswers hstored hsettleable hcommunity hmember, hclear]
  rfl

/-- A fresh acknowledgement has a record. -/
theorem acknowledgementRecord_ok {stored : IdentityMaterial crypto} {proposal : ExchangeProposal}
    {records : List JsonValue} (hsettleable : Settleable proposal)
    (hmember : Participates proposal stored.root.memberId)
    (hfresh : (acknowledgementOf proposal stored.root.memberId).id ∉ acknowledgementIds records) :
    ∃ record, acknowledgementRecord context.toCallContext (.ok records)
      (acknowledgementOf proposal stored.root.memberId) stored = .ok record := by
  have hvalid := acknowledgementOf_valid hsettleable hmember
  have hauthor : settlementAcknowledgementRecords.mayAuthor
      (acknowledgementOf proposal stored.root.memberId) stored.root.memberId = true := decide_eq_true rfl
  obtain ⟨envelope, henvelope, -⟩ := @RecordKind.Encodes.envelope _ _ _
    encodes_settlementAcknowledgement _ hvalid ⟨context.now, stored.root.memberId⟩ hauthor context.now.2
  have hencode := @RecordKind.Encodes.encode _ _ _ encodes_settlementAcknowledgement _ hvalid
    ⟨context.now, stored.root.memberId⟩
    "A settlement acknowledgement record must be authored by its acknowledging participant." hauthor
  obtain ⟨source, hsource, -⟩ := signRecord_spec stored.root envelope
  refine ⟨source, ?_⟩
  simp only [acknowledgementRecord, ok_bind, bind_eq_ok, require_eq_ok, exists_const]
  exact ⟨hasSettlementAcknowledgement_eq_false.mpr hfresh, envelope, hencode.trans henvelope, hsource⟩

/-- A call that finds its guard free takes it, and waits for the feed. -/
theorem acknowledgement_begins {stored : IdentityMaterial crypto} {proposal : ExchangeProposal}
    (hanswers : Answers context communityId) (hstore : service.identityStore = some stored)
    (hstored : assertStoredIdentity stored = .ok ()) (hsettleable : Settleable proposal)
    (hcommunity : proposal.communityId = communityId)
    (hmember : Participates proposal stored.root.memberId)
    (hfree : (acknowledgementOf proposal stored.root.memberId).id ∉
      service.settlementAcknowledgementsInProgress) :
    Run BeginsAppend (resumeAppends localeCompare feedPublicKey) (Anyhow crypto) ⟨service, pending⟩
      ⟨takeAcknowledgement (acknowledgementOf proposal stored.root.memberId).id service,
        .readRecords (acknowledgementOf proposal stored.root.memberId) stored :: pending⟩ := by
  have hchecked := @acknowledgeSettlement_ok _ service context communityId stored proposal hanswers hstored
    hsettleable hcommunity hmember hfree
  refine .head (.start (.intro (.acknowledgeSettlement proposal))) ?_
  refine .head (@append_goes _ localeCompare feedPublicKey service service _
    (.readIdentity (some communityId) proposal) pending context ?_) ?_
  · simp only [resumeAppend, hanswers.community]
  refine .head (@append_goes _ _ _ _ service _
    (.identityRead (.ok (some stored)) (some communityId) proposal) _ context ?_) ?_
  · simp only [resumeAppend, hstore]
    rw [answer_eq_ok.mpr ⟨hanswers.storeReadable, rfl⟩]
  refine .single (@append_goes _ _ _ _ _ _ (.readRecords _ stored) _ context ?_)
  simp only [resumeAppend, hchecked]

/-- The guard that a call gives back is the one that it took. -/
theorem finishAcknowledgement_take {acknowledgementId : String} {records : List JsonValue}
    (hfree : acknowledgementId ∉ service.settlementAcknowledgementsInProgress) :
    finishAcknowledgement acknowledgementId
        { takeAcknowledgement acknowledgementId service with records := records } =
      { service with records := records } := by
  have hreleased : (acknowledgementId :: service.settlementAcknowledgementsInProgress).filter
      (fun other ↦ decide (other ≠ acknowledgementId)) = service.settlementAcknowledgementsInProgress := by
    rw [List.filter_cons_of_neg (by simp)]
    exact List.filter_eq_self.mpr fun other hother ↦ decide_eq_true fun hsame ↦ hfree (hsame ▸ hother)
  simp only [finishAcknowledgement, takeAcknowledgement, hreleased]

/-- A call acknowledges where its guard is free and the feed does not hold its acknowledgement. -/
theorem acknowledgement_runs {stored : IdentityMaterial crypto} {proposal : ExchangeProposal}
    (hanswers : Answers context communityId) (hstore : service.identityStore = some stored)
    (hstored : assertStoredIdentity stored = .ok ()) (hsettleable : Settleable proposal)
    (hcommunity : proposal.communityId = communityId)
    (hmember : Participates proposal stored.root.memberId)
    (hfree : (acknowledgementOf proposal stored.root.memberId).id ∉
      service.settlementAcknowledgementsInProgress)
    (hfresh : (acknowledgementOf proposal stored.root.memberId).id ∉
      acknowledgementIds service.records) :
    ∃ record, Run BeginsAppend (resumeAppends localeCompare feedPublicKey) (Anyhow crypto)
      ⟨service, pending⟩ ⟨{ service with records := service.records ++ [record] },
        .acknowledged (.ok (acknowledgementOf proposal stored.root.memberId)) :: pending⟩ := by
  obtain ⟨record, hrecord⟩ := @acknowledgementRecord_ok _ context stored proposal service.records
    hsettleable hmember hfresh
  let acknowledgement := acknowledgementOf proposal stored.root.memberId
  let guarded := takeAcknowledgement acknowledgement.id service
  refine ⟨record, (acknowledgement_begins hanswers hstore hstored hsettleable hcommunity hmember
    hfree).trans ?_⟩
  refine .head (@append_goes _ _ _ guarded guarded _
    (.recordsRead (.ok service.records) acknowledgement stored) _ context ?_) ?_
  · simp only [resumeAppend]
    rw [answer_eq_ok.mpr ⟨hanswers.feedReadable, rfl⟩]
    rfl
  refine .head (@append_goes _ _ _ _ guarded _ (.append record acknowledgement) _ context ?_) ?_
  · simp only [resumeAppend, acknowledgement, hrecord]
  refine .head (@append_goes _ _ _ _ { guarded with records := service.records ++ [record] } _
    (.appended (.ok ()) acknowledgement) _ context ?_) ?_
  · simp only [resumeAppend, hanswers.feedWritable, if_true]
    rfl
  refine .single (@append_goes _ _ _ _ _ _ _ _ context ?_)
  exact congrArg (Prod.mk (AppendStage.acknowledged (.ok acknowledgement)))
    (finishAcknowledgement_take hfree)

/-- Two calls that acknowledge at once, where the feed takes no record: the second one finds the guard of the
first one, and neither leaves anything behind. -/
theorem acknowledgements_fail {stored : IdentityMaterial crypto} {proposal : ExchangeProposal}
    (hanswers : Answers context communityId) (hstore : service.identityStore = some stored)
    (hstored : assertStoredIdentity stored = .ok ()) (hsettleable : Settleable proposal)
    (hcommunity : proposal.communityId = communityId)
    (hmember : Participates proposal stored.root.memberId)
    (hfree : (acknowledgementOf proposal stored.root.memberId).id ∉
      service.settlementAcknowledgementsInProgress)
    (hfresh : (acknowledgementOf proposal stored.root.memberId).id ∉
      acknowledgementIds service.records) :
    Run BeginsAppend (resumeAppends localeCompare feedPublicKey) (Anyhow crypto) ⟨service, pending⟩
      ⟨service,
        .acknowledged (.error "This member is already acknowledging completion of this exchange.") ::
          .acknowledged (.error "The storage did not answer.") :: pending⟩ := by
  let acknowledgement := acknowledgementOf proposal stored.root.memberId
  let guarded := takeAcknowledgement acknowledgement.id service
  let waiting : AppendStage crypto := .readRecords acknowledgement stored
  let refusal : AppendStage crypto :=
    .acknowledged (.error "This member is already acknowledging completion of this exchange.")
  let unwritable : AppendContext crypto := { context with feedWritable := false }
  obtain ⟨record, hrecord⟩ := @acknowledgementRecord_ok _ context stored proposal service.records
    hsettleable hmember hfresh
  refine (acknowledgement_begins hanswers hstore hstored hsettleable hcommunity hmember hfree).trans ?_
  -- the second call is refused
  refine .head (.start (.intro (.acknowledgeSettlement proposal))) ?_
  refine .head (@append_goes _ localeCompare feedPublicKey guarded guarded _
    (.readIdentity (some communityId) proposal) _ context ?_) ?_
  · simp only [resumeAppend, hanswers.community]
  refine .head (@append_goes _ _ _ guarded guarded _
    (.identityRead (.ok (some stored)) (some communityId) proposal) _ context ?_) ?_
  · have hguarded : guarded.identityStore = some stored := hstore
    simp only [resumeAppend, hguarded]
    rw [answer_eq_ok.mpr ⟨hanswers.storeReadable, rfl⟩]
  refine .head (@append_goes _ _ _ guarded guarded _ refusal _ context ?_) ?_
  · have hheld : ¬ (acknowledgementOf proposal stored.root.memberId).id ∉
        guarded.settlementAcknowledgementsInProgress := not_not.mpr List.mem_cons_self
    simp only [resumeAppend, acknowledgeSettlement_guard hanswers hstored hsettleable hcommunity hmember,
      require, if_neg hheld]
    rfl
  -- the feed does not take the record of the first call
  refine .head (@append_goes_behind _ _ _ guarded guarded waiting
    (.recordsRead (.ok service.records) acknowledgement stored) pending context [refusal] ?_) ?_
  · simp only [resumeAppend, waiting]
    rw [answer_eq_ok.mpr ⟨hanswers.feedReadable, rfl⟩]
    rfl
  refine .head (@append_goes_behind _ _ _ guarded guarded _ (.append record acknowledgement) pending context
    [refusal] ?_) ?_
  · simp only [resumeAppend, acknowledgement, hrecord]
  refine .head (@append_goes_behind _ _ _ guarded guarded _
    (.appended (.error "The storage did not answer.") acknowledgement) pending unwritable [refusal] rfl) ?_
  refine .single (@append_goes_behind _ _ _ guarded service _
    (.acknowledged (.error "The storage did not answer.")) pending context [refusal] ?_)
  exact congrArg (Prod.mk _) (finishAcknowledgement_take hfree)

/-! ### Setups -/

/-- The runtime takes an announcement, and an hour later is later. -/
structure Announces (context : AppendContext crypto) : Prop where
  publishes : context.publishesAnnouncements = true
  later : ∃ announcedMillis expiresMillis, Timestamp.millis? context.now = some announcedMillis ∧
    Timestamp.millis? context.hourLater = some expiresMillis ∧ announcedMillis < expiresMillis

/-- A declaration of the stored root key can be announced. -/
theorem createAnnouncement_succeeds {stored : IdentityMaterial crypto}
    {declaration : MemberFeedDeclaration crypto} (hannounces : Announces context)
    (hdeclares : Redeclares declaration) (hroot : declaration.rootPublicKey = stored.root.rootPublicKey) :
    Succeeds (createAnnouncement context.toSetupContext stored declaration) := by
  obtain ⟨announcedMillis, expiresMillis, hannounced, hexpires, hlater⟩ := hannounces.later
  let payload := canonicalMemberFeedAnnouncementPayload declaration context.now context.hourLater
  have hsigned : SignedBy declaration.rootPublicKey payload (stored.root.sign payload) :=
    hroot ▸ stored.root.complete payload
  unfold createAnnouncement createMemberFeedAnnouncement
  simp only [Succeeds, bind_eq_ok, require_eq_ok, assertCanonicalTimestamp_eq_ok]
  refine Exists.elim ?_ fun announcement hcreated ↦
    ⟨announcement, (), rfl, declaration, hdeclares, context.now, rfl, context.hourLater, rfl, hcreated⟩
  split
  · rename_i announced expires hannouncedAt hexpiresAt
    have hshort : announced < expires := by
      rw [Option.some.inj (hannouncedAt.symm.trans hannounced),
        Option.some.inj (hexpiresAt.symm.trans hexpires)]
      exact hlater
    rw [dif_pos hshort]
    simp only [bind_eq_ok]
    refine Exists.elim ?_ fun announcement hcreated ↦
      ⟨announcement, stored.root.sign payload, rfl, hcreated⟩
    rw [dif_pos hsigned]
    exact ⟨_, rfl⟩
  · rename_i hnone
    exact absurd hexpires (hnone _ _ hannounced)

theorem setup_goes {operation : Nat} {work nextWork : SetupWork crypto}
    (hwork : outcome (goOnSetupWork localeCompare feedPublicKey context work) service =
      (.ok (.inl nextWork), after)) :
    Step BeginsAppend (resumeAppends localeCompare feedPublicKey) (Anyhow crypto)
      ⟨service, .setup operation work :: pending⟩ ⟨after, .setup operation nextWork :: pending⟩ := by
  refine @append_goes _ _ _ _ _ _ _ _ context ?_
  simp only [resumeAppend, hwork]

theorem announceDeclaration_runs {stored : IdentityMaterial crypto}
    {declaration : MemberFeedDeclaration crypto} (hanswers : Answers context communityId)
    (hannounces : Announces context) (hdeclares : Redeclares declaration)
    (hroot : declaration.rootPublicKey = stored.root.rootPublicKey) :
    outcome (announceDeclaration context.toSetupContext stored declaration) service =
      (.ok (.inl (.readStatus (some communityId))), service) := by
  obtain ⟨announcement, hannouncement⟩ := createAnnouncement_succeeds hannounces hdeclares hroot
  unfold announceDeclaration
  rw [outcome_check_bind hannouncement,
    @outcome_check_bind _ _ _ _ _ () _ (require_eq_ok.mpr hannounces.publishes)]
  simp only [hanswers.encrypts, hanswers.community]
  rfl

/-- A setup that has read the feed goes on to its status, and leaves the feed declared. -/
theorem setup_declares {operation : Nat} {stored : IdentityMaterial crypto}
    (hanswers : Answers context communityId) (hannounces : Announces context) (hroots : DeclaresRoot service)
    (hstore : service.identityStore = some stored) (hkey : isHypercoreKey feedPublicKey = true)
    (hpresent : Text.blank communityId = false) :
    ∃ records, (communityId, .str feedPublicKey) ∈ declaredFeeds crypto records ∧
      Run BeginsAppend (resumeAppends localeCompare feedPublicKey) (Anyhow crypto)
        ⟨service, .setup operation (.recordsRead (.ok service.records) stored communityId) :: pending⟩
        ⟨{ service with records := records },
          .setup operation (.readStatus (some communityId)) :: pending⟩ := by
  cases hexisting : existingDeclaration crypto communityId feedPublicKey service.records with
  | some declaration =>
      -- the declaration that the feed holds is announced again: it is of the stored root key
      obtain ⟨hmem, hfeed⟩ := mem_of_existingDeclaration hexisting
      obtain ⟨other, hother, hroot⟩ := hroots declaration hmem
      have hsame : other = stored := Option.some.inj (hother.symm.trans hstore)
      subst hsame
      refine ⟨service.records, List.mem_map.mpr ⟨declaration, hmem, hfeed⟩,
        .single (@setup_goes _ _ _ _ _ pending context operation _ _ ?_)⟩
      unfold goOnSetupWork
      rw [outcome_check_bind rfl]
      unfold Desktop.declareFeed
      rw [hexisting]
      exact announceDeclaration_runs hanswers hannounces (redeclares_of_existingDeclaration hexisting) hroot
  | none =>
      -- a new declaration is appended before it is announced
      obtain ⟨declaration, record, -, hcreate, hrecord, -⟩ :=
        declare_spec stored.root hpresent hkey context.now.2
      obtain ⟨-, carried, hcarried, hfeed, -⟩ := declarationRecord_spec hcreate hrecord
      obtain ⟨hroot, hdeclares⟩ := createDeclaration_spec hcreate
      refine ⟨service.records ++ [record.toJson], ?_, ?_⟩
      · rw [declaredFeeds_append, hcarried]
        exact List.mem_append_right _ (List.mem_singleton.mpr hfeed.symm)
      refine .head (@setup_goes _ _ _ service service pending context operation _
        (.append record.toJson stored declaration) ?_) ?_
      · unfold goOnSetupWork
        rw [outcome_check_bind rfl]
        unfold Desktop.declareFeed
        rw [hexisting]
        show outcome (check (createDeclaration _ _ _ _) >>= _) service = _
        rw [outcome_check_bind hcreate, outcome_check_bind hrecord]
        rfl
      refine .head (@setup_goes _ _ _ service { service with records := service.records ++ [record.toJson] }
        pending context operation _ (.appended (.ok ()) stored declaration) ?_) ?_
      · simp only [goOnSetupWork, hanswers.feedWritable, if_true]
        rfl
      refine .single (@setup_goes _ _ _ _ _ pending context operation _ _ ?_)
      unfold goOnSetupWork
      rw [outcome_check_bind rfl]
      exact announceDeclaration_runs hanswers hannounces hdeclares hroot

/-- A setup that has declared the feed returns its status, and leaves no guard behind. -/
theorem setup_returns {operation : Nat} {stored : IdentityMaterial crypto} (hanswers : Answers context communityId)
    (hstore : service.identityStore = some stored) (hstored : assertStoredIdentity stored = .ok ())
    (hprogress : service.identitySetupInProgress = some operation)
    (hsetup : operation < service.setups.length) :
    ∃ status : MemberIdentityStatus, status.state = .ready ∧ status.memberId = some stored.root.memberId ∧
      Run BeginsAppend (resumeAppends localeCompare feedPublicKey) (Anyhow crypto)
        ⟨service, .setup operation (.readStatus (some communityId)) :: pending⟩
        ⟨{ service with
            identitySetupInProgress := none
            setups := service.setups.set operation (some (.ok status)) },
          .announced operation (.ok status) :: pending⟩ := by
  let status : MemberIdentityStatus := ⟨.ready, some stored.root.memberId, some communityId,
    deviceSigningKeyStatuses crypto localeCompare (some communityId) stored.root.memberId
      stored.root.rootPublicKey.publicKeyPem service.records⟩
  refine ⟨status, rfl, rfl, ?_⟩
  refine .head (@setup_goes _ _ _ service service pending context operation _
    (.statusRead (.ok (some stored)) (some communityId)) ?_) ?_
  · simp only [goOnSetupWork, outcome_get_bind, hstore]
    rw [answer_eq_ok.mpr ⟨hanswers.storeReadable, rfl⟩]
    rfl
  refine .head (@setup_goes _ _ _ service service pending context operation _
    (.readStatusRecords stored communityId) ?_) ?_
  · unfold goOnSetupWork
    rw [outcome_check_bind rfl]
    show outcome (check (assertStoredIdentity stored) >>= _) service = _
    rw [outcome_check_bind hstored]
    rfl
  refine .head (@setup_goes _ _ _ service service pending context operation _
    (.statusRecordsRead (.ok service.records) stored communityId) ?_) ?_
  · simp only [goOnSetupWork, outcome_get_bind]
    rw [answer_eq_ok.mpr ⟨hanswers.feedReadable, rfl⟩]
    rfl
  let settled := settleSetup operation (.ok status) service
  refine .head (@append_goes _ _ _ _ settled _ (.setUp operation) pending context ?_) ?_
  · rfl
  refine .single (@append_goes _ _ _ _ _ _ _ pending context ?_)
  have hsettled : settled.setups[operation]? = some (some (.ok status)) := List.getElem?_set_self hsetup
  have hawait : awaitSetup operation (.setUp operation) settled = .announced operation (.ok status) := by
    rw [awaitSetup, hsettled]
    rfl
  have hfinish : finishSetup operation settled = { settled with identitySetupInProgress := none } :=
    if_pos hprogress
  simp only [resumeAppend, hawait, hfinish]
  rfl

/-- A setup that has read the store goes on with the identity that is stored, or with the one that it creates. -/
theorem setup_identifies {operation : Nat} (hanswers : Answers context communityId)
    (hroots : DeclaresRoot service)
    (hstored : ∀ stored, service.identityStore = some stored → assertStoredIdentity stored = .ok ()) :
    ∃ stored, assertStoredIdentity stored = .ok () ∧
      DeclaresRoot { service with identityStore := some stored } ∧
      Run BeginsAppend (resumeAppends localeCompare feedPublicKey) (Anyhow crypto)
        ⟨service, .setup operation (.identityRead (.ok service.identityStore) communityId) :: pending⟩
        ⟨{ service with identityStore := some stored },
          .setup operation (.readRecords stored communityId) :: pending⟩ := by
  cases hstore : service.identityStore with
  | some stored =>
      have hsame : { service with identityStore := some stored } = service := by
        rw [← hstore]
      have hasserts := hstored stored hstore
      refine ⟨stored, hasserts, hsame ▸ hroots, ?_⟩
      rw [hsame]
      refine .single (@setup_goes _ _ _ service service pending context operation _ _ ?_)
      unfold goOnSetupWork
      rw [outcome_check_bind rfl]
      show outcome (check (assertStoredIdentity stored) >>= _) service = _
      rw [outcome_check_bind hasserts]
      rfl
  | none =>
      let created : IdentityMaterial crypto := ⟨context.generatedKeys, []⟩
      have hasserts : assertStoredIdentity created = .ok () := assertStoredIdentity_root _
      refine ⟨created, hasserts, hroots.creates hstore, ?_⟩
      refine .head (@setup_goes _ _ _ service service pending context operation _
        (.writeIdentity created communityId) rfl) ?_
      refine .head (@setup_goes _ _ _ service { service with identityStore := some created } pending context
        operation _ (.identityWritten (.ok ()) created communityId) ?_) ?_
      · simp only [goOnSetupWork, hanswers.storeWritable, if_true]
        rfl
      refine .single (@setup_goes _ _ _ _ _ pending context operation _ _ ?_)
      unfold goOnSetupWork
      rw [outcome_check_bind rfl, outcome_check_bind hasserts]
      rfl

/-- A setup runs to its end where none is in progress. -/
theorem setup_runs (hanswers : Answers context communityId) (hannounces : Announces context)
    (hroots : DeclaresRoot service) (hidle : service.identitySetupInProgress = none)
    (hstored : ∀ stored, service.identityStore = some stored → assertStoredIdentity stored = .ok ())
    (hkey : isHypercoreKey feedPublicKey = true) (hpresent : Text.blank communityId = false) :
    ∃ (after : AppendingService crypto) (stored : IdentityMaterial crypto) (status : MemberIdentityStatus),
      Run BeginsAppend (resumeAppends localeCompare feedPublicKey) (Anyhow crypto) ⟨service, pending⟩
        ⟨after, .announced service.setups.length (.ok status) :: pending⟩ ∧
      (communityId, .str feedPublicKey) ∈ declaredFeeds crypto after.records ∧
      after.identityStore = some stored ∧ status.state = .ready ∧
      status.memberId = some stored.root.memberId := by
  let operation := service.setups.length
  let begun : AppendingService crypto :=
    { service with
      identitySetupInProgress := some operation
      setups := service.setups ++ [none] }
  have hlength : operation < begun.setups.length := by
    show service.setups.length < (service.setups ++ [none]).length
    simp
  have hbegin : resumeAppend localeCompare feedPublicKey context (.called .createAndAnnounce) service =
      (.setup operation (.readIdentity communityId), begun) := by
    have hcommunity : setupCommunity context.toCallContext = .ok communityId := by
      simp only [setupCommunity, requireSecureStorage, bind_eq_ok, selectedCommunity_eq_ok, require_eq_ok,
        pure_eq_ok]
      exact ⟨communityId, ⟨hanswers.community, hanswers.selected⟩, (), hanswers.encrypts, rfl⟩
    simp only [resumeAppend, beginCreateAndAnnounce, hidle, hcommunity]
    rfl
  have hreads : Run BeginsAppend (resumeAppends localeCompare feedPublicKey) (Anyhow crypto)
      ⟨service, pending⟩
      ⟨begun, .setup operation (.identityRead (.ok service.identityStore) communityId) :: pending⟩ := by
    refine .head (.start (.intro .createAndAnnounce)) (.head (append_goes hbegin) (.single ?_))
    refine @setup_goes _ _ _ begun begun pending context operation _ _ ?_
    simp only [goOnSetupWork, outcome_get_bind]
    rw [answer_eq_ok.mpr ⟨hanswers.storeReadable, rfl⟩]
    rfl
  have hbegun : DeclaresRoot begun := hroots
  obtain ⟨stored, hasserts, hwrites, hidentity⟩ := @setup_identifies _ localeCompare feedPublicKey begun pending
    context communityId operation hanswers hbegun hstored
  let found : AppendingService crypto := { begun with identityStore := some stored }
  have hrecords : Run BeginsAppend (resumeAppends localeCompare feedPublicKey) (Anyhow crypto)
      ⟨found, .setup operation (.readRecords stored communityId) :: pending⟩
      ⟨found, .setup operation (.recordsRead (.ok found.records) stored communityId) :: pending⟩ := by
    refine .single (@setup_goes _ _ _ found found pending context operation _ _ ?_)
    simp only [goOnSetupWork, outcome_get_bind]
    rw [answer_eq_ok.mpr ⟨hanswers.feedReadable, rfl⟩]
    rfl
  obtain ⟨records, hdeclared, hdeclares⟩ := @setup_declares _ localeCompare feedPublicKey found pending
    context communityId operation stored hanswers hannounces hwrites rfl hkey hpresent
  obtain ⟨status, hready, hmember, hreturns⟩ := @setup_returns _ localeCompare feedPublicKey
    { found with records := records } pending context communityId operation stored hanswers rfl hasserts rfl
    hlength
  exact ⟨_, stored, status, hreads.trans (hidentity.trans (hrecords.trans (hdeclares.trans hreturns))),
    hdeclared, rfl, hready, hmember⟩

end Again

/-- From every state that such a run reaches, while the store and the feed answer: an acknowledgement that no
pending call is making and that the feed does not hold is made by another call, and where no pending call
carries out a setup, another call sets the identity up and leaves the feed declared. -/
theorem appends_retried {service : AppendingService crypto} (hown : OwnWrites service)
    (hidle : Unguarded service) {system : System (AppendStage crypto) (AppendingService crypto)}
    (hrun : Run BeginsAppend (resumeAppends localeCompare feedPublicKey) (Anyhow crypto) ⟨service, []⟩
      system)
    {context : AppendContext crypto} {communityId : String} (hanswers : Answers context communityId)
    (hstored : ∀ stored, system.shared.identityStore = some stored → assertStoredIdentity stored = .ok ()) :
    (∀ stored proposal, system.shared.identityStore = some stored → Settleable proposal →
      proposal.communityId = communityId → Participates proposal stored.root.memberId →
      (∀ stage ∈ system.pending,
        stage.acknowledging? ≠ some (acknowledgementOf proposal stored.root.memberId).id) →
      (acknowledgementOf proposal stored.root.memberId).id ∉ acknowledgementIds system.shared.records →
      ∃ record, Run BeginsAppend (resumeAppends localeCompare feedPublicKey) (Anyhow crypto) system
        ⟨{ system.shared with records := system.shared.records ++ [record] },
          .acknowledged (.ok (acknowledgementOf proposal stored.root.memberId)) :: system.pending⟩) ∧
    (Announces context → isHypercoreKey feedPublicKey = true → Text.blank communityId = false →
      (∀ stage ∈ system.pending, stage.setup? = none) →
      ∃ (after : AppendingService crypto) (stored : IdentityMaterial crypto)
        (status : MemberIdentityStatus),
        Run BeginsAppend (resumeAppends localeCompare feedPublicKey) (Anyhow crypto) system
          ⟨after, .announced system.shared.setups.length (.ok status) :: system.pending⟩ ∧
        (communityId, .str feedPublicKey) ∈ declaredFeeds crypto after.records ∧
        after.identityStore = some stored ∧ status.state = .ready ∧
        status.memberId = some stored.root.memberId) := by
  have hstart : (appendInvariant crypto).Holds ⟨service, []⟩ := Invariant.holds_idle hown.toAppendsOnce
  have hholds := appendInvariant_kept.run hstart hrun
  have hguards := guardsHeld_run hstart hidle.guardsHeld hrun
  have hroots := declaresRoot_run hstart hown.roots hrun
  refine ⟨fun stored proposal hstore hsettleable hcommunity hmember hfree hfresh ↦ ?_,
    fun hannounces hkey hpresent hfree ↦ ?_⟩
  · refine acknowledgement_runs hanswers hstore (hstored stored hstore) hsettleable hcommunity hmember ?_ hfresh
    intro hheld
    obtain ⟨stage, hmem, hid⟩ := hguards.1 _ hheld
    exact hfree stage hmem hid
  · refine setup_runs hanswers hannounces hroots ?_ hstored hkey hpresent
    refine Option.eq_none_iff_forall_ne_some.mpr fun operation hprogress ↦ ?_
    obtain ⟨stage, hmem, hoperation⟩ := hguards.2 operation hprogress
    exact absurd ((hfree stage hmem).symm.trans hoperation) (by simp)

/-! ## Ada's desktop -/

namespace Garden

/-- A desktop whose calls have not begun, with Ada's identity or without one. -/
def appendingDesktop (identityStore : Option (IdentityMaterial transparentCrypto)) :
    AppendingService transparentCrypto where
  identityStore := identityStore
  records := []
  settlementAcknowledgementsInProgress := []
  identitySetupInProgress := none
  setups := []

/-- The store and the feed answer in the garden. -/
def appendContext : AppendContext transparentCrypto where
  toSetupContext := setupContext ada.stored
  storeReadable := true
  storeWritable := true
  feedReadable := true

theorem answers_appendContext : Answers appendContext "garden" :=
  ⟨rfl, by decide, rfl, rfl, rfl, rfl, rfl⟩

theorem announces_appendContext : Announces appendContext :=
  ⟨rfl, 1748779200000, 1748782800000, by decide, by decide, by decide⟩

theorem unguarded_appendingDesktop (identityStore : Option (IdentityMaterial transparentCrypto)) :
    Unguarded (appendingDesktop identityStore) :=
  ⟨rfl, rfl⟩

theorem ownWrites_appendingDesktop (identityStore : Option (IdentityMaterial transparentCrypto)) :
    OwnWrites (appendingDesktop identityStore) where
  acknowledgements := List.nodup_nil
  declarations := List.nodup_nil
  roots _ hmem := absurd hmem List.not_mem_nil
  setups operation hpending := absurd hpending (by simp [appendingDesktop])

/-- Ada's desktop, on which no call is in progress. -/
def adaAppending (setups : List (Option (Except String MemberIdentityStatus))) :
    AppendingService transparentCrypto :=
  { appendingDesktop (some ⟨ada.stored, []⟩) with setups := setups }

/-- Ada's acknowledgement of the exchange with Ben. -/
def adaAcknowledgement : SettlementAcknowledgement :=
  acknowledgementOf adaExchange.accepted ada.memberId

/-- A setup that could not read the store. -/
def failedSetup : AppendStage transparentCrypto := .announced 0 (.error "The storage did not answer.")

/-- The calls that have failed: a second acknowledgement was refused while the first one waited for a feed that
refused it, and two setups waited for a store that could not be read. -/
def failedCalls : List (AppendStage transparentCrypto) :=
  [failedSetup, failedSetup,
    .acknowledged (.error "This member is already acknowledging completion of this exchange."),
    .acknowledged (.error "The storage did not answer.")]

/-- What the failed calls leave behind. -/
def afterFailures : AppendingService transparentCrypto :=
  adaAppending [some (.error "The storage did not answer.")]

theorem settleable_adaExchange : Settleable adaExchange.accepted :=
  adaExchange.settleable (by decide)

/-- Two setups wait for one read of the store, which fails. -/
theorem setups_fail {rest : List (AppendStage transparentCrypto)} :
    Run BeginsAppend (resumeAppends compare ada.feedPublicKey) (Anyhow transparentCrypto)
      ⟨adaAppending [], rest⟩ ⟨afterFailures, failedSetup :: failedSetup :: rest⟩ := by
  let unreadable : AppendContext transparentCrypto := { appendContext with storeReadable := false }
  let begun : AppendingService transparentCrypto :=
    { adaAppending [none] with identitySetupInProgress := some 0 }
  let settled : AppendingService transparentCrypto :=
    { afterFailures with identitySetupInProgress := some 0 }
  let reads : AppendStage transparentCrypto := .setup 0 (.readIdentity "garden")
  let joins : AppendStage transparentCrypto := .joins 0
  refine .head (.start (.intro .createAndAnnounce)) ?_
  refine .head (@append_goes _ _ _ _ begun _ reads rest appendContext rfl) ?_
  refine .head (.start (.intro .createAndAnnounce)) ?_
  refine .head (@append_goes _ _ _ begun begun _ joins (reads :: rest) appendContext rfl) ?_
  refine .head (@append_goes_behind _ _ _ begun begun reads
    (.setup 0 (.identityRead (.error "The storage did not answer.") "garden")) rest unreadable [joins]
    rfl) ?_
  refine .head (@append_goes_behind _ _ _ begun settled _ (.setUp 0) rest appendContext [joins] rfl) ?_
  refine .head (@append_goes_behind _ _ _ settled afterFailures _ failedSetup rest appendContext [joins]
    rfl) ?_
  exact .single (@append_goes _ _ _ afterFailures afterFailures joins failedSetup
    (failedSetup :: rest) appendContext rfl)

/-- Four calls fail on Ada's desktop. -/
theorem calls_fail :
    Run BeginsAppend (resumeAppends compare ada.feedPublicKey) (Anyhow transparentCrypto)
      ⟨adaAppending [], []⟩ ⟨afterFailures, failedCalls⟩ :=
  (@acknowledgements_fail _ compare ada.feedPublicKey (adaAppending []) [] appendContext "garden"
    ⟨ada.stored, []⟩ adaExchange.accepted answers_appendContext rfl (assertStoredIdentity_root ada.stored)
    settleable_adaExchange rfl (.inl rfl) List.not_mem_nil List.not_mem_nil).trans setups_fail

/-- Ada's desktop once another call has acknowledged. -/
def acknowledgedSystem (record : JsonValue) :
    System (AppendStage transparentCrypto) (AppendingService transparentCrypto) :=
  ⟨{ afterFailures with records := [record] }, .acknowledged (.ok adaAcknowledgement) :: failedCalls⟩

/-- After the failures another call acknowledges. -/
theorem acknowledgement_runs_ada :
    ∃ record, Run BeginsAppend (resumeAppends compare ada.feedPublicKey) (Anyhow transparentCrypto)
      ⟨afterFailures, failedCalls⟩ (acknowledgedSystem record) :=
  @acknowledgement_runs _ compare ada.feedPublicKey afterFailures failedCalls appendContext "garden"
    ⟨ada.stored, []⟩ adaExchange.accepted answers_appendContext rfl (assertStoredIdentity_root ada.stored)
    settleable_adaExchange rfl (.inl rfl) List.not_mem_nil List.not_mem_nil

theorem appends_once_ada :
    ∃ record, Run BeginsAppend (resumeAppends compare ada.feedPublicKey) (Anyhow transparentCrypto)
        ⟨adaAppending [], []⟩ (acknowledgedSystem record) ∧
      (acknowledgementIds [record]).Nodup ∧
      (declaredFeeds transparentCrypto [record]).Nodup ∧
      adaAcknowledgement.id ∈ acknowledgementIds [record] ∧
      ((acknowledgedSystem record).pending.Pairwise fun left right ↦ ∀ first second,
        left = .acknowledged (.ok first) → right = .acknowledged (.ok second) →
          first.id ≠ second.id) ∧
      (∀ operation first second, .announced operation first ∈ (acknowledgedSystem record).pending →
        .announced operation second ∈ (acknowledgedSystem record).pending → first = second) ∧
      (∀ id, id ∈ (acknowledgedSystem record).shared.settlementAcknowledgementsInProgress ↔
        ∃ stage ∈ (acknowledgedSystem record).pending, stage.acknowledging? = some id) ∧
      ∀ operation, (acknowledgedSystem record).shared.identitySetupInProgress = some operation ↔
        ∃ stage ∈ (acknowledgedSystem record).pending, stage.setup? = some operation := by
  obtain ⟨record, hruns⟩ := acknowledgement_runs_ada
  have hrun := calls_fail.trans hruns
  obtain ⟨hacknowledgements, hdeclarations, hheld, hreported, hsetups, hguards⟩ :=
    appends_once (ownWrites_appendingDesktop _).toAppendsOnce (unguarded_appendingDesktop _) hrun
  exact ⟨record, hrun, hacknowledgements, hdeclarations, hheld _ List.mem_cons_self, hreported, hsetups,
    hguards⟩

theorem appends_retried_ada :
    (∃ record, Run BeginsAppend (resumeAppends compare ada.feedPublicKey) (Anyhow transparentCrypto)
      ⟨afterFailures, failedCalls⟩ (acknowledgedSystem record)) ∧
    ∃ (after : AppendingService transparentCrypto) (stored : IdentityMaterial transparentCrypto)
      (status : MemberIdentityStatus),
      Run BeginsAppend (resumeAppends compare ada.feedPublicKey) (Anyhow transparentCrypto)
        ⟨afterFailures, failedCalls⟩ ⟨after, .announced 1 (.ok status) :: failedCalls⟩ ∧
      ("garden", .str ada.feedPublicKey) ∈ declaredFeeds transparentCrypto after.records ∧
      after.identityStore = some stored ∧ status.state = .ready ∧
      status.memberId = some stored.root.memberId := by
  have hstored (stored : IdentityMaterial transparentCrypto)
      (hstore : afterFailures.identityStore = some stored) : assertStoredIdentity stored = .ok () := by
    rw [← Option.some.inj hstore]
    exact assertStoredIdentity_root ada.stored
  obtain ⟨hacknowledges, hsetsUp⟩ := appends_retried (ownWrites_appendingDesktop _)
    (unguarded_appendingDesktop _) calls_fail answers_appendContext hstored
  refine ⟨hacknowledges ⟨ada.stored, []⟩ adaExchange.accepted rfl settleable_adaExchange rfl (.inl rfl) ?_
    List.not_mem_nil, hsetsUp announces_appendContext ada.hypercoreKey blank_garden ?_⟩
  · simp [failedCalls, failedSetup, AppendStage.acknowledging?]
  · simp [failedCalls, failedSetup, AppendStage.setup?]

end Garden

end PeerHours.Exchanges
