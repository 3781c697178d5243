import PeerHours.Desktop.MemberIdentity
import PeerHours.Library.Interleaving

/-!
# Setting up a root identity

The calls that create the first root identity of a desktop, as they give way to each other. A call waits
wherever its method awaits a read or a write of the identity store, a read or an append of the feed, or the
setup that it has begun. Setups share one operation: a setup that is asked for meanwhile joins it and returns
what it returns. Genesis signers are not part of that operation.
-/

namespace PeerHours.Desktop

open Checked Json Stateful
open TimebankIdentity
open TimebankRecords

variable (crypto : Crypto)

/-! ## Calls -/

/-- What one step of a call reads from its surroundings: also the time of one hour later, and whether the
runtime takes an announcement. -/
structure SetupContext extends CallContext crypto where
  hourLater : CanonicalTimestamp
  publishesAnnouncements : Bool

/-- The operations that may create the root identity. -/
inductive SetupOperation where
  | communityGenesisSigner
  | createAndAnnounce

/-- An operation once it has begun, with the community that a setup has read. -/
inductive SetupCall where
  | communityGenesisSigner
  | createAndAnnounce (communityId : String)

/-- What a call hands out: a signer it returns, a declaration it appends, an announcement it publishes, or a
status it returns. -/
inductive Produced where
  | signer (signer : GenesisSigner)
  | declaration (declaration : MemberFeedDeclaration crypto)
  | announcement (announcement : MemberFeedAnnouncement crypto)
  | status (status : MemberIdentityStatus)

/-- The service with its setup in progress, and what its calls have handed out. -/
structure SetupService extends MemberIdentityService crypto where
  identitySetupInProgress : Bool
  produced : List (Produced crypto)

/-- Where a call waits. -/
inductive SetupStage where
  | called (operation : SetupOperation)
  | readIdentity (call : SetupCall)
  | identityRead (found : Option (IdentityMaterial crypto)) (call : SetupCall)
  | writeIdentity (stored : IdentityMaterial crypto) (call : SetupCall)
  | identityWritten (stored : IdentityMaterial crypto) (call : SetupCall)
  | readRecords (stored : IdentityMaterial crypto) (communityId : String)
  | recordsRead (records : List JsonValue) (stored : IdentityMaterial crypto) (communityId : String)
  | append (record : JsonValue) (stored : IdentityMaterial crypto)
      (declaration : MemberFeedDeclaration crypto)
  | appended (succeeded : Bool) (stored : IdentityMaterial crypto)
      (declaration : MemberFeedDeclaration crypto)
  | readStatus (communityId : Option String)
  | statusRead (found : Option (IdentityMaterial crypto)) (communityId : Option String)
  | readStatusRecords (stored : IdentityMaterial crypto) (communityId : Option String)
  | finishing

variable {crypto}

/-- What one step of a call does, and where the call waits next. -/
abbrev SetupAction (crypto : Crypto) :=
  Action (SetupService crypto) (Option (SetupStage crypto))

/-- Hands out what a call has produced. -/
def produce (produced : Produced crypto) : Action (SetupService crypto) Unit :=
  modify fun service ↦ { service with produced := service.produced ++ [produced] }

/-- Begins a call, up to its read of the identity store. A setup joins the one in progress. -/
def beginSetup (context : SetupContext crypto) : SetupOperation → SetupAction crypto
  | .communityGenesisSigner => do
      check (requireSecureStorage context.toCallContext)
      pure (some (.readIdentity .communityGenesisSigner))
  | .createAndAnnounce => do
      let service ← get
      if service.identitySetupInProgress = true then pure none
      else do
        modify fun service ↦ { service with identitySetupInProgress := true }
        let begun := do
          let communityId ← selectedCommunity context.toCallContext
            "Connect to a bootstrap discovery scope before creating an identity."
          requireSecureStorage context.toCallContext
          pure communityId
        match begun with
        | .ok communityId => pure (some (.readIdentity (.createAndAnnounce communityId)))
        | .error _ => pure (some .finishing)

/-- Goes on with the stored identity: a genesis signer is returned, a setup reads its feed. -/
def useIdentity (stored : IdentityMaterial crypto) : SetupCall → SetupAction crypto
  | .communityGenesisSigner => do
      check (assertStoredIdentity stored)
      produce (.signer ⟨stored.root.memberId, stored.root.rootPublicKey.publicKeyPem,
        stored.root.sign⟩)
      pure none
  | .createAndAnnounce communityId => do
      check (assertStoredIdentity stored)
      pure (some (.readRecords stored communityId))

/-- Builds and signs a short-lived, explicit discovery announcement for a valid local declaration. -/
def createAnnouncement (context : SetupContext crypto) (stored : IdentityMaterial crypto)
    (declaration : MemberFeedDeclaration crypto) : Except String (MemberFeedAnnouncement crypto) :=
  createMemberFeedAnnouncement crypto (.obj [("schema", .str memberFeedAnnouncementSchema),
    ("declaration", declaration.toJson), ("announcedAt", .str context.now),
    ("expiresAt", .str context.hourLater),
    ("signature", .str (stored.root.sign
      (canonicalMemberFeedAnnouncementPayload declaration context.now context.hourLater)))])

/-- Announces the declaration, and goes on to the status that the setup returns. -/
def announce (context : SetupContext crypto) (stored : IdentityMaterial crypto)
    (declaration : MemberFeedDeclaration crypto) : SetupAction crypto := do
  let announcement ← check (createAnnouncement context stored declaration)
  check (require (context.publishesAnnouncements = true) "The announcement was not published.")
  produce (.announcement announcement)
  if context.isEncryptionAvailable = false then do
    produce (.status ⟨.unavailable, none, context.communityId, []⟩)
    pure (some .finishing)
  else pure (some (.readStatus context.communityId))

/-- Reuses the feed's own declaration, or creates one and its record to append. -/
def declareIdentity (feedPublicKey : String) (context : SetupContext crypto)
    (records : List JsonValue) (stored : IdentityMaterial crypto) (communityId : String) :
    SetupAction crypto := do
  match existingDeclaration crypto communityId feedPublicKey records with
  | some declaration => announce context stored declaration
  | none => do
      let declaration ← check (createDeclaration stored.root communityId feedPublicKey context.now)
      let record ← check (memberFeedDeclarationToRecord declaration)
      pure (some (.append record.toJson stored declaration))

/-- A call goes on from where it waits. -/
def goOnSetup (localeCompare : String → String → Ordering) (feedPublicKey : String)
    (context : SetupContext crypto) : SetupStage crypto → SetupAction crypto
  | .called operation => beginSetup context operation
  | .readIdentity call => do
      let service ← get
      pure (some (.identityRead service.identityStore call))
  | .identityRead (some stored) call => useIdentity stored call
  | .identityRead none call => pure (some (.writeIdentity ⟨context.generatedKeys, []⟩ call))
  | .writeIdentity stored call => do
      modify fun service ↦ { service with identityStore := some stored }
      pure (some (.identityWritten stored call))
  | .identityWritten stored call => useIdentity stored call
  | .readRecords stored communityId => do
      let service ← get
      pure (some (.recordsRead service.records stored communityId))
  | .recordsRead records stored communityId =>
      declareIdentity feedPublicKey context records stored communityId
  | .append record stored declaration => do
      if context.feedWritable = true then do
        modify fun service ↦ { service with records := service.records ++ [record] }
        produce (.declaration declaration)
        pure (some (.appended true stored declaration))
      else pure (some (.appended false stored declaration))
  | .appended succeeded stored declaration =>
      if succeeded = true then announce context stored declaration
      else throw "The member feed is not writable."
  | .readStatus communityId => do
      let service ← get
      pure (some (.statusRead service.identityStore communityId))
  | .statusRead none communityId => do
      produce (.status ⟨.notCreated, none, communityId, []⟩)
      pure (some .finishing)
  | .statusRead (some stored) communityId => do
      check (assertStoredIdentity stored)
      pure (some (.readStatusRecords stored communityId))
  | .readStatusRecords stored communityId => do
      let service ← get
      produce (.status ⟨.ready, some stored.root.memberId, communityId,
        deviceSigningKeyStatuses crypto localeCompare communityId stored.root.memberId
          stored.root.rootPublicKey.publicKeyPem service.records⟩)
      pure (some .finishing)
  | .finishing => do
      modify fun service ↦ { service with identitySetupInProgress := false }
      pure none

/-- The call is a setup that has begun. -/
def SetupCall.isSetup : SetupCall → Bool
  | .communityGenesisSigner => false
  | .createAndAnnounce _ => true

/-- Where a call that stops at a failure waits next: a setup that has begun is still to finish. -/
def SetupStage.stopped : SetupStage crypto → Option (SetupStage crypto)
  | .called _ | .finishing => none
  | .readIdentity call | .identityRead _ call | .writeIdentity _ call | .identityWritten _ call =>
      if call.isSetup = true then some .finishing else none
  | .readRecords _ _ | .recordsRead _ _ _ | .append _ _ _ | .appended _ _ _ | .readStatus _
  | .statusRead _ _ | .readStatusRecords _ _ => some .finishing

/-- Where a call waits next, and the service that it leaves behind. -/
def resumeSetup (localeCompare : String → String → Ordering) (feedPublicKey : String) :
    Interleaving.Resume (SetupContext crypto) (SetupStage crypto) (SetupService crypto) :=
  fun context stage service ↦
    match outcome (goOnSetup localeCompare feedPublicKey context stage) service with
    | (.ok next, after) => (next, after)
    | (.error _, after) => (stage.stopped, after)

/-- A call that goes on waits where its computation says. -/
theorem resumeSetup_of_ok {localeCompare : String → String → Ordering} {feedPublicKey : String}
    {context : SetupContext crypto} {stage : SetupStage crypto} {service after : SetupService crypto}
    {next : Option (SetupStage crypto)}
    (h : outcome (goOnSetup localeCompare feedPublicKey context stage) service = (.ok next, after)) :
    resumeSetup localeCompare feedPublicKey context stage service = (next, after) := by
  unfold resumeSetup
  rw [h]

end PeerHours.Desktop
