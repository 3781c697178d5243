import PeerHours.Desktop.IdentitySetup
import PeerHours.Desktop.PendingCalls

/-!
# Guarded appends

The calls that acknowledge a settlement and those that declare the feed, as they give way to each other. An
acknowledgement is in progress from the check of its id until its append is answered. A setup that is asked for
while one is in progress joins it. Every read, write and append may fail, and then has no effect.
-/

namespace PeerHours.Desktop

open Checked Json Stateful
open TimebankDomain (ExchangeProposal)
open TimebankIdentity
open TimebankRecords
open TimebankSettlement (SettlementAcknowledgement createSettlementAcknowledgement)

variable (crypto : Crypto)

/-! ## Calls -/

/-- What one step of a call reads from its surroundings: also whether the store and the feed answer. -/
structure AppendContext extends SetupContext crypto where
  storeReadable : Bool
  storeWritable : Bool
  feedReadable : Bool

/-- The guarded operations. -/
inductive AppendOperation where
  | acknowledgeSettlement (proposal : ExchangeProposal)
  | createAndAnnounce

/-- The service with the guards of its calls. Each setup that has begun is a promise: it is pending, or
settled with its result. -/
structure AppendingService extends MemberIdentityService crypto where
  settlementAcknowledgementsInProgress : List String
  identitySetupInProgress : Option Nat
  setups : List (Option (Except String MemberIdentityStatus))

/-- Where a setup waits. -/
inductive SetupWork where
  | readIdentity (communityId : String)
  | identityRead (found : Except String (Option (IdentityMaterial crypto))) (communityId : String)
  | writeIdentity (stored : IdentityMaterial crypto) (communityId : String)
  | identityWritten (written : Except String Unit) (stored : IdentityMaterial crypto)
      (communityId : String)
  | readRecords (stored : IdentityMaterial crypto) (communityId : String)
  | recordsRead (records : Except String (List JsonValue)) (stored : IdentityMaterial crypto)
      (communityId : String)
  | append (record : JsonValue) (stored : IdentityMaterial crypto)
      (declaration : MemberFeedDeclaration crypto)
  | appended (taken : Except String Unit) (stored : IdentityMaterial crypto)
      (declaration : MemberFeedDeclaration crypto)
  | readStatus (communityId : Option String)
  | statusRead (found : Except String (Option (IdentityMaterial crypto))) (communityId : Option String)
  | readStatusRecords (stored : IdentityMaterial crypto) (communityId : String)
  | statusRecordsRead (records : Except String (List JsonValue)) (stored : IdentityMaterial crypto)
      (communityId : String)

/-- Where a call waits, or how it has ended. -/
inductive AppendStage where
  | called (operation : AppendOperation)
  | readIdentity (communityId : Option String) (proposal : ExchangeProposal)
  | identityRead (found : Except String (Option (IdentityMaterial crypto)))
      (communityId : Option String) (proposal : ExchangeProposal)
  | readRecords (acknowledgement : SettlementAcknowledgement) (stored : IdentityMaterial crypto)
  | recordsRead (records : Except String (List JsonValue)) (acknowledgement : SettlementAcknowledgement)
      (stored : IdentityMaterial crypto)
  | append (record : JsonValue) (acknowledgement : SettlementAcknowledgement)
  | appended (taken : Except String Unit) (acknowledgement : SettlementAcknowledgement)
  | acknowledged (result : Except String SettlementAcknowledgement)
  | setup (operation : Nat) (work : SetupWork crypto)
  | setUp (operation : Nat)
  | joins (operation : Nat)
  | announced (operation : Nat) (result : Except String MemberIdentityStatus)

variable {crypto}

/-- What an awaited read or write gives, or the message of its failure. -/
def answer {α : Type} (available : Bool) (value : α) : Except String α := do
  require (available = true) "The storage did not answer."
  pure value

/-! ## Acknowledgements -/

/-- An acknowledgement is in progress. -/
def takeAcknowledgement (acknowledgementId : String) (service : AppendingService crypto) :
    AppendingService crypto :=
  { service with
    settlementAcknowledgementsInProgress :=
      acknowledgementId :: service.settlementAcknowledgementsInProgress }

/-- `finally` of `acknowledgeSettlement`. -/
def finishAcknowledgement (acknowledgementId : String) (service : AppendingService crypto) :
    AppendingService crypto :=
  { service with
    settlementAcknowledgementsInProgress :=
      service.settlementAcknowledgementsInProgress.filter fun other ↦
        decide (other ≠ acknowledgementId) }

/-- What `acknowledgeSettlement` checks before it takes its guard. -/
def acknowledgeSettlement (context : CallContext crypto) (service : AppendingService crypto)
    (found : Except String (Option (IdentityMaterial crypto))) (communityId : Option String)
    (proposal : ExchangeProposal) :
    Except String (SettlementAcknowledgement × IdentityMaterial crypto) := do
  let identityStore ← found
  let (stored, communityId) ← protectedIdentity context communityId identityStore
    "acknowledge a settlement"
  require (proposal.communityId = communityId)
    "The accepted proposal is outside the current community scope."
  let acknowledgement ← createSettlementAcknowledgement proposal stored.root.memberId
  require (acknowledgement.id ∉ service.settlementAcknowledgementsInProgress)
    "This member is already acknowledging completion of this exchange."
  pure (acknowledgement, stored)

/-- Checks the member-owned feed for a prior immutable acknowledgement before appending again. -/
def hasSettlementAcknowledgement (records : List JsonValue) (acknowledgementId : String) : Bool :=
  records.any fun record ↦
    match decodeSettlementAcknowledgementRecord record with
    | .ok acknowledgement => decide (acknowledgement.id = acknowledgementId)
    | .error _ => false

/-- The record of an acknowledgement that the feed does not hold yet. -/
def acknowledgementRecord (context : CallContext crypto) (records : Except String (List JsonValue))
    (acknowledgement : SettlementAcknowledgement) (stored : IdentityMaterial crypto) :
    Except String JsonValue := do
  let records ← records
  require (hasSettlementAcknowledgement records acknowledgement.id = false)
    "This member has already acknowledged completion of this exchange."
  let record ← toSettlementAcknowledgementRecord acknowledgement ⟨context.now, stored.root.memberId⟩
  signRecord stored.root record

/-! ## Setups -/

/-- What a setup checks before it waits for the first time. -/
def setupCommunity (context : CallContext crypto) : Except String String := do
  let communityId ← selectedCommunity context
    "Connect to a bootstrap discovery scope before creating an identity."
  requireSecureStorage context
  pure communityId

/-- A setup that is asked for joins the one in progress, or begins. -/
def beginCreateAndAnnounce (context : CallContext crypto) (service : AppendingService crypto) :
    AppendStage crypto × AppendingService crypto :=
  match service.identitySetupInProgress with
  | some operation => (.joins operation, service)
  | none =>
      let operation := service.setups.length
      match setupCommunity context with
      | .ok communityId =>
          (.setup operation (.readIdentity communityId),
            { service with
              identitySetupInProgress := some operation
              setups := service.setups ++ [none] })
      | .error message =>
          (.setUp operation,
            { service with
              identitySetupInProgress := some operation
              setups := service.setups ++ [some (.error message)] })

/-- What one step of a setup does: the setup waits somewhere else, or returns its status. -/
abbrev WorkAction (crypto : Crypto) :=
  Action (AppendingService crypto) (SetupWork crypto ⊕ MemberIdentityStatus)

/-- Announces the declaration, and goes on to the status that the setup returns. -/
def announceDeclaration (context : SetupContext crypto) (stored : IdentityMaterial crypto)
    (declaration : MemberFeedDeclaration crypto) : WorkAction crypto := do
  let _ ← check (createAnnouncement context stored declaration)
  check (require (context.publishesAnnouncements = true) "The announcement was not published.")
  if context.isEncryptionAvailable = false then
    pure (.inr ⟨.unavailable, none, context.communityId, []⟩)
  else pure (.inl (.readStatus context.communityId))

/-- Reuses the feed's own declaration, or creates one and its record to append. -/
def declareFeed (feedPublicKey : String) (context : SetupContext crypto) (records : List JsonValue)
    (stored : IdentityMaterial crypto) (communityId : String) : WorkAction crypto :=
  match existingDeclaration crypto communityId feedPublicKey records with
  | some declaration => announceDeclaration context stored declaration
  | none => do
      let declaration ← check (createDeclaration stored.root communityId feedPublicKey context.now)
      let record ← check (memberFeedDeclarationToRecord declaration)
      pure (.inl (.append record.toJson stored declaration))

/-- A setup goes on from where it waits. -/
def goOnSetupWork (localeCompare : String → String → Ordering) (feedPublicKey : String)
    (context : AppendContext crypto) : SetupWork crypto → WorkAction crypto
  | .readIdentity communityId => do
      let service ← get
      pure (.inl (.identityRead (answer context.storeReadable service.identityStore) communityId))
  | .identityRead found communityId => do
      match ← check found with
      | some stored => do
          check (assertStoredIdentity stored)
          pure (.inl (.readRecords stored communityId))
      | none => pure (.inl (.writeIdentity ⟨context.generatedKeys, []⟩ communityId))
  | .writeIdentity stored communityId => do
      if context.storeWritable = true then
        modify fun service ↦ { service with identityStore := some stored }
      pure (.inl (.identityWritten (answer context.storeWritable ()) stored communityId))
  | .identityWritten written stored communityId => do
      check written
      check (assertStoredIdentity stored)
      pure (.inl (.readRecords stored communityId))
  | .readRecords stored communityId => do
      let service ← get
      pure (.inl (.recordsRead (answer context.feedReadable service.records) stored communityId))
  | .recordsRead records stored communityId => do
      let records ← check records
      declareFeed feedPublicKey context.toSetupContext records stored communityId
  | .append record stored declaration => do
      if context.feedWritable = true then
        modify fun service ↦ { service with records := service.records ++ [record] }
      pure (.inl (.appended (answer context.feedWritable ()) stored declaration))
  | .appended taken stored declaration => do
      check taken
      announceDeclaration context.toSetupContext stored declaration
  | .readStatus communityId => do
      let service ← get
      pure (.inl (.statusRead (answer context.storeReadable service.identityStore) communityId))
  | .statusRead found communityId => do
      match ← check found with
      | none => pure (.inr ⟨.notCreated, none, communityId, []⟩)
      | some stored => do
          check (assertStoredIdentity stored)
          match communityId with
          | none => pure (.inr ⟨.ready, some stored.root.memberId, none, []⟩)
          | some communityId => pure (.inl (.readStatusRecords stored communityId))
  | .readStatusRecords stored communityId => do
      let service ← get
      pure (.inl (.statusRecordsRead (answer context.feedReadable service.records) stored communityId))
  | .statusRecordsRead records stored communityId => do
      let records ← check records
      pure (.inr ⟨.ready, some stored.root.memberId, some communityId,
        deviceSigningKeyStatuses crypto localeCompare (some communityId) stored.root.memberId
          stored.root.rootPublicKey.publicKeyPem records⟩)

/-- The promise of a setup settles with its result. -/
def settleSetup (operation : Nat) (result : Except String MemberIdentityStatus)
    (service : AppendingService crypto) : AppendingService crypto :=
  { service with setups := service.setups.set operation (some result) }

/-- `finally` of `createAndAnnounce`. -/
def finishSetup (operation : Nat) (service : AppendingService crypto) : AppendingService crypto :=
  if service.identitySetupInProgress = some operation then
    { service with identitySetupInProgress := none }
  else service

/-! ## Steps -/

/-- A call that waits for a setup ends with the result of the setup, once there is one. -/
def awaitSetup (operation : Nat) (waiting : AppendStage crypto)
    (service : AppendingService crypto) : AppendStage crypto :=
  match service.setups[operation]?.join with
  | some result => .announced operation result
  | none => waiting

/-- A call goes on from where it waits. Where an acknowledgement stops, its guard is given back; where a setup
stops, its promise is rejected. -/
def resumeAppend (localeCompare : String → String → Ordering) (feedPublicKey : String)
    (context : AppendContext crypto) (stage : AppendStage crypto)
    (service : AppendingService crypto) : AppendStage crypto × AppendingService crypto :=
  match stage with
  | .called (.acknowledgeSettlement proposal) => (.readIdentity context.communityId proposal, service)
  | .called .createAndAnnounce => beginCreateAndAnnounce context.toCallContext service
  | .readIdentity communityId proposal =>
      (.identityRead (answer context.storeReadable service.identityStore) communityId proposal, service)
  | .identityRead found communityId proposal =>
      match acknowledgeSettlement context.toCallContext service found communityId proposal with
      | .ok (acknowledgement, stored) =>
          (.readRecords acknowledgement stored, takeAcknowledgement acknowledgement.id service)
      | .error message => (.acknowledged (.error message), service)
  | .readRecords acknowledgement stored =>
      (.recordsRead (answer context.feedReadable service.records) acknowledgement stored, service)
  | .recordsRead records acknowledgement stored =>
      match acknowledgementRecord context.toCallContext records acknowledgement stored with
      | .ok record => (.append record acknowledgement, service)
      | .error message =>
          (.acknowledged (.error message), finishAcknowledgement acknowledgement.id service)
  | .append record acknowledgement =>
      (.appended (answer context.feedWritable ()) acknowledgement,
        if context.feedWritable = true then { service with records := service.records ++ [record] }
        else service)
  | .appended taken acknowledgement =>
      (.acknowledged (taken.map fun _ ↦ acknowledgement),
        finishAcknowledgement acknowledgement.id service)
  | .setup operation work =>
      match outcome (goOnSetupWork localeCompare feedPublicKey context work) service with
      | (.ok (.inl next), after) => (.setup operation next, after)
      | (.ok (.inr status), after) => (.setUp operation, settleSetup operation (.ok status) after)
      | (.error message, after) => (.setUp operation, settleSetup operation (.error message) after)
  | .setUp operation => (awaitSetup operation stage service, finishSetup operation service)
  | .joins operation => (awaitSetup operation stage service, service)
  | .acknowledged _ | .announced _ _ => (stage, service)

/-- A step of a call among others. -/
def resumeAppends (localeCompare : String → String → Ordering) (feedPublicKey : String) :
    Interleaving.Resume (AppendContext crypto) (AppendStage crypto) (AppendingService crypto) :=
  fun context stage service ↦
    let (next, after) := resumeAppend localeCompare feedPublicKey context stage service
    (some next, after)

/-- A call begins by being called. -/
inductive BeginsAppend : AppendStage crypto → Prop where
  | intro (operation : AppendOperation) : BeginsAppend (.called operation)

end PeerHours.Desktop
