import PeerHours.Desktop.PendingCalls

/-!
# Activating and revoking device keys

The calls that activate and revoke device keys, as they give way to each other. Both read the whole stored
identity and write the whole identity back later. Activations share one operation; revocations do not.
-/

namespace PeerHours.Desktop

open Checked Json Stateful
open TimebankIdentity
open TimebankRecords

variable (crypto : Crypto)

/-- What a call does with the device keys. -/
inductive DeviceKeyOperation where
  | activateDeviceSigningKey
  | revokeDeviceSigningKey (keyId : String)

/-- How a call goes on once the feed has taken its statement or refused it. -/
inductive AfterStatement where
  | activated (deviceKey : StoredDeviceSigningKey crypto)
  | revoked (stored : IdentityMaterial crypto) (keyId : String)

/-- The service with its activation in progress, and the keys of the activations that have returned. -/
structure DeviceKeyService extends MemberIdentityService crypto where
  deviceKeyActivationInProgress : Bool
  activated : List (StoredDeviceSigningKey crypto)

/-- Where a call waits. -/
inductive DeviceKeyStage where
  | called (operation : DeviceKeyOperation)
  | readIdentity (communityId : Option String) (operation : DeviceKeyOperation)
  | identityRead (found : Option (IdentityMaterial crypto)) (communityId : Option String)
      (operation : DeviceKeyOperation)
  | writeActivation (stored : IdentityMaterial crypto) (communityId : String)
      (deviceKey : StoredDeviceSigningKey crypto)
  | activationWritten (stored : IdentityMaterial crypto) (communityId : String)
      (deviceKey : StoredDeviceSigningKey crypto)
  | readRecords (stored : IdentityMaterial crypto) (communityId keyId : String)
  | recordsRead (records : List JsonValue) (stored : IdentityMaterial crypto)
      (communityId keyId : String)
  | append (record : JsonValue) (next : AfterStatement crypto)
  | appended (succeeded : Bool) (next : AfterStatement crypto)
  | writeRevocation (stored : IdentityMaterial crypto) (keyId : String)
  | revocationWritten
  | finishing

variable {crypto}

/-- The calls that may start. -/
inductive BeginsDeviceKey : DeviceKeyStage crypto → Prop where
  | intro (operation : DeviceKeyOperation) : BeginsDeviceKey (.called operation)

/-- What one step of a call does, and where the call waits next. -/
abbrev DeviceKeyAction (crypto : Crypto) :=
  Action (DeviceKeyService crypto) (Option (DeviceKeyStage crypto))

/-- Begins a call, up to its read of the identity store. An activation joins the one in progress. -/
def beginDeviceKey (context : CallContext crypto) : DeviceKeyOperation → DeviceKeyAction crypto
  | .activateDeviceSigningKey => do
      let service ← get
      if service.deviceKeyActivationInProgress = true then pure none
      else do
        modify fun service ↦ { service with deviceKeyActivationInProgress := true }
        pure (some (.readIdentity context.communityId .activateDeviceSigningKey))
  | .revokeDeviceSigningKey keyId =>
      pure (some (.readIdentity context.communityId (.revokeDeviceSigningKey keyId)))

/-- Goes on with the stored identity: an activation generates a key, a revocation reads the feed. -/
def useStoredIdentity (context : CallContext crypto) (found : Option (IdentityMaterial crypto))
    (communityId : Option String) : DeviceKeyOperation → DeviceKeyAction crypto
  | .activateDeviceSigningKey => do
      let (stored, communityId) ← check (protectedIdentity context communityId found
        "rotate a device signing key")
      pure (some (.writeActivation stored communityId
        ⟨"device:" ++ context.keyUuid, context.generatedKeys⟩))
  | .revokeDeviceSigningKey keyId => do
      let (stored, communityId) ← check (protectedIdentity context communityId found
        "revoke a device signing key")
      pure (some (.readRecords stored communityId keyId))

/-- The record of a signed statement. -/
def statementRecord (stored : IdentityMaterial crypto) (unsigned : List (String × JsonValue)) :
    Except String RecordEnvelope := do
  let statement ← signStatement stored unsigned
  rootSignedMemberSigningKeyLifecycleToRecord statement

/-- Goes on with the feed's records: only an active key is revoked. -/
def revokeActive (localeCompare : String → String → Ordering) (context : CallContext crypto)
    (records : List JsonValue) (stored : IdentityMaterial crypto) (communityId keyId : String) :
    DeviceKeyAction crypto := do
  let status := deviceSigningKeyStatuses crypto localeCompare (some communityId) stored.root.memberId
    stored.root.rootPublicKey.publicKeyPem records
  check (require (∃ key ∈ status, key.keyId = keyId ∧ key.state = .active)
    "Choose one of your active device signing keys to revoke.")
  let record ← check (statementRecord stored (unsignedRevocation context stored communityId keyId))
  pure (some (.append record.toJson (.revoked stored keyId)))

/-- Goes on once the feed has answered: an activation has returned what it activated, a revocation writes the
identity that it read without the key. -/
def afterStatement (succeeded : Bool) (next : AfterStatement crypto) : DeviceKeyAction crypto :=
  if succeeded = true then
    match next with
    | .activated deviceKey => do
        modify fun service ↦ { service with activated := service.activated ++ [deviceKey] }
        pure (some .finishing)
    | .revoked stored keyId => pure (some (.writeRevocation stored keyId))
  else throw "The member feed is not writable."

/-- A call goes on from where it waits. -/
def goOnDeviceKey (localeCompare : String → String → Ordering) (context : CallContext crypto) :
    DeviceKeyStage crypto → DeviceKeyAction crypto
  | .called operation => beginDeviceKey context operation
  | .readIdentity communityId operation => do
      let service ← get
      pure (some (.identityRead service.identityStore communityId operation))
  | .identityRead found communityId operation =>
      useStoredIdentity context found communityId operation
  | .writeActivation stored communityId deviceKey => do
      modify fun service ↦ { service with
        identityStore := some ⟨stored.root, stored.deviceSigningKeys ++ [deviceKey]⟩ }
      pure (some (.activationWritten stored communityId deviceKey))
  | .activationWritten stored communityId deviceKey => do
      let record ← check (statementRecord stored
        (unsignedActivation context stored communityId deviceKey))
      pure (some (.append record.toJson (.activated deviceKey)))
  | .readRecords stored communityId keyId => do
      let service ← get
      pure (some (.recordsRead service.records stored communityId keyId))
  | .recordsRead records stored communityId keyId =>
      revokeActive localeCompare context records stored communityId keyId
  | .append record next => do
      if context.feedWritable = true then
        modify fun service ↦ { service with records := service.records ++ [record] }
        pure (some (.appended true next))
      else pure (some (.appended false next))
  | .appended succeeded next => afterStatement succeeded next
  | .writeRevocation stored keyId => do
      modify fun service ↦ { service with
        identityStore := some ⟨stored.root, stored.deviceSigningKeys.filter fun key ↦
          decide (key.keyId ≠ keyId)⟩ }
      pure (some .revocationWritten)
  | .revocationWritten => pure none
  | .finishing => do
      modify fun service ↦ { service with deviceKeyActivationInProgress := false }
      pure none

/-- Where a call that stops at a failure waits next: an activation that has begun is still to finish. -/
def DeviceKeyStage.stopped : DeviceKeyStage crypto → Option (DeviceKeyStage crypto)
  | .readIdentity _ .activateDeviceSigningKey | .identityRead _ _ .activateDeviceSigningKey
  | .writeActivation _ _ _ | .activationWritten _ _ _ | .append _ (.activated _)
  | .appended _ (.activated _) => some .finishing
  | _ => none

/-- Where a call waits next, and the service that it leaves behind. -/
def resumeDeviceKey (localeCompare : String → String → Ordering) :
    Interleaving.Resume (CallContext crypto) (DeviceKeyStage crypto) (DeviceKeyService crypto) :=
  fun context stage service ↦
    match outcome (goOnDeviceKey localeCompare context stage) service with
    | (.ok next, after) => (next, after)
    | (.error _, after) => (stage.stopped, after)

/-- A call that goes on waits where its computation says. -/
theorem resumeDeviceKey_of_ok {localeCompare : String → String → Ordering}
    {context : CallContext crypto} {stage : DeviceKeyStage crypto}
    {service after : DeviceKeyService crypto} {next : Option (DeviceKeyStage crypto)}
    (h : outcome (goOnDeviceKey localeCompare context stage) service = (.ok next, after)) :
    resumeDeviceKey localeCompare context stage service = (next, after) := by
  unfold resumeDeviceKey
  rw [h]

end PeerHours.Desktop
