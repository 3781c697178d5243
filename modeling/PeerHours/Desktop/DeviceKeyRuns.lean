import PeerHours.Desktop.DeviceKeyCalls
import PeerHours.Desktop.ServiceEffects
import PeerHours.Library.Interleaving

/-!
# Device keys across interleaved calls

What each step of an activation or a revocation does, and what is kept of the stored keys and the feed while no
call writes back an identity that has changed since it was read.
-/

namespace PeerHours.Desktop

open Checked Interleaving Json Stateful
open TimebankIdentity
open TimebankRecords

variable {crypto : Crypto}

/-! ## Statements in the feed -/

variable (crypto) in
/-- A root-signed statement in the feed names the key. -/
def NamesKey (records : List JsonValue) (keyId : String) : Prop :=
  ∃ source ∈ records, ∃ statement : RootSignedMemberSigningKeyLifecycle crypto,
    rootSignedMemberSigningKeyLifecycleFromRecord crypto source = .ok statement ∧
      statement.event.keyId = keyId

/-- A statement in the feed, signed by the root key, revokes the key. -/
def RevokesKey (root : StoredMemberIdentity crypto) (records : List JsonValue) (keyId : String) :
    Prop :=
  ∃ source ∈ records, ∃ statement : RootSignedMemberSigningKeyLifecycle crypto,
    rootSignedMemberSigningKeyLifecycleFromRecord crypto source = .ok statement ∧
      statement.event.memberId = root.memberId ∧ statement.event.keyId = keyId ∧
      statement.event.action = .revoke

/-- The record carries a statement of the root key about the key. -/
def CarriesStatement (root : StoredMemberIdentity crypto) (source : JsonValue) (keyId : String)
    (revokes : Prop) : Prop :=
  ∃ statement : RootSignedMemberSigningKeyLifecycle crypto,
    rootSignedMemberSigningKeyLifecycleFromRecord crypto source = .ok statement ∧
      statement.event.memberId = root.memberId ∧ statement.event.keyId = keyId ∧
      (statement.event.action = .revoke ↔ revokes)

section Statements

variable {root : StoredMemberIdentity crypto} {records : List JsonValue} {source : JsonValue}
  {keyId other : String} {revokes : Prop}

theorem NamesKey.mono {more : List JsonValue} (h : NamesKey crypto records keyId)
    (hsubset : ∀ source ∈ records, source ∈ more) : NamesKey crypto more keyId := by
  obtain ⟨source, hmem, hstatement⟩ := h
  exact ⟨source, hsubset source hmem, hstatement⟩

theorem RevokesKey.mono {more : List JsonValue} (h : RevokesKey root records keyId)
    (hsubset : ∀ source ∈ records, source ∈ more) : RevokesKey root more keyId := by
  obtain ⟨source, hmem, hstatement⟩ := h
  exact ⟨source, hsubset source hmem, hstatement⟩

theorem RevokesKey.namesKey (h : RevokesKey root records keyId) : NamesKey crypto records keyId := by
  obtain ⟨source, hmem, statement, hread, -, hkey, -⟩ := h
  exact ⟨source, hmem, statement, hread, hkey⟩

/-- One more statement names its own key. -/
theorem CarriesStatement.namesKey_iff (h : CarriesStatement root source keyId revokes) :
    NamesKey crypto (records ++ [source]) other ↔ NamesKey crypto records other ∨ other = keyId := by
  obtain ⟨statement, hread, -, hkey, -⟩ := h
  constructor
  · rintro ⟨found, hmem, named, hnamed, hother⟩
    cases List.mem_append.mp hmem with
    | inl hold => exact .inl ⟨found, hold, named, hnamed, hother⟩
    | inr hnew =>
        rw [List.mem_singleton.mp hnew, hread] at hnamed
        obtain rfl := Except.ok.inj hnamed
        exact .inr (hother.symm.trans hkey)
  · rintro (hold | rfl)
    · exact hold.mono fun source hmem ↦ List.mem_append_left _ hmem
    · exact ⟨source, by simp, statement, hread, hkey⟩

/-- One more revocation revokes its own key, and an activation revokes nothing. -/
theorem CarriesStatement.revokesKey_iff (h : CarriesStatement root source keyId revokes) :
    RevokesKey root (records ++ [source]) other ↔
      RevokesKey root records other ∨ other = keyId ∧ revokes := by
  obtain ⟨statement, hread, hmember, hkey, haction⟩ := h
  constructor
  · rintro ⟨found, hmem, named, hnamed, howner, hother, hrevoke⟩
    cases List.mem_append.mp hmem with
    | inl hold => exact .inl ⟨found, hold, named, hnamed, howner, hother, hrevoke⟩
    | inr hnew =>
        rw [List.mem_singleton.mp hnew, hread] at hnamed
        obtain rfl := Except.ok.inj hnamed
        exact .inr ⟨hother.symm.trans hkey, haction.mp hrevoke⟩
  · rintro (hold | ⟨rfl, hrevokes⟩)
    · exact hold.mono fun source hmem ↦ List.mem_append_left _ hmem
    · exact ⟨source, by simp, statement, hread, hmember, hkey, haction.mpr hrevokes⟩

/-- The record of a statement carries it. -/
theorem read_statementRecord {stored : IdentityMaterial crypto}
    {unsigned : List (String × JsonValue)} {record : RecordEnvelope}
    (h : statementRecord stored unsigned = .ok record) :
    ∃ statement, signStatement stored unsigned = .ok statement ∧
      rootSignedMemberSigningKeyLifecycleFromRecord crypto record.toJson = .ok statement := by
  obtain ⟨statement, hsigned, hrecord⟩ := bind_eq_ok.mp h
  obtain ⟨found, hfound, hdescribes, hroutes⟩ := lifecycleToRecord_spec statement
  obtain rfl := Except.ok.inj (hrecord.symm.trans hfound)
  exact ⟨statement, hsigned, (rootSignedMemberSigningKeyLifecycleFromRecord_eq_ok
    (createRecordEnvelope_toJson record)).mpr ⟨hdescribes, hroutes⟩⟩

theorem statementRecord_activation {context : CallContext crypto} {stored : IdentityMaterial crypto}
    {communityId : String} {deviceKey : StoredDeviceSigningKey crypto} {record : RecordEnvelope}
    (h : statementRecord stored (unsignedActivation context stored communityId deviceKey) =
      .ok record) :
    CarriesStatement stored.root record.toJson deviceKey.keyId False := by
  obtain ⟨statement, hsigned, hread⟩ := read_statementRecord h
  obtain ⟨signature, hevent, -⟩ := signStatement_spec hsigned
  have hmember := hevent.memberId
  have hkey := hevent.keyId
  have haction := hevent.action
  simp [unsignedActivation] at hmember hkey haction
  refine ⟨statement, hread, hmember.symm, hkey.symm, iff_of_false (fun hrevoke ↦ ?_) not_false⟩
  rw [hrevoke] at haction
  exact absurd haction (by simp [MemberSigningKeyAuthorizationAction.name])

theorem statementRecord_revocation {context : CallContext crypto} {stored : IdentityMaterial crypto}
    {communityId : String} {record : RecordEnvelope}
    (h : statementRecord stored (unsignedRevocation context stored communityId keyId) =
      .ok record) :
    CarriesStatement stored.root record.toJson keyId True := by
  obtain ⟨statement, hsigned, hread⟩ := read_statementRecord h
  obtain ⟨signature, hevent, -⟩ := signStatement_spec hsigned
  have hmember := hevent.memberId
  have hkey := hevent.keyId
  have haction := hevent.action
  simp [unsignedRevocation] at hmember hkey haction
  refine ⟨statement, hread, hmember.symm, hkey.symm, iff_of_true ?_ trivial⟩
  cases hcase : statement.event.action with
  | revoke => rfl
  | activate publicKey =>
      rw [hcase] at haction
      exact absurd haction (by simp [MemberSigningKeyAuthorizationAction.name])

/-- A statement that describes an event of the identity is signed and recorded. -/
theorem exists_statementRecord {stored : IdentityMaterial crypto}
    {unsigned : List (String × JsonValue)} {event : MemberSigningKeyAuthorizationEvent crypto}
    (hevent : ∀ signature, DescribesEvent (.obj (unsigned ++ [("signature", signature)])) event)
    (hunsigned : DescribesEvent (.obj unsigned) event)
    (hschema : ∀ signature, (JsonValue.obj (unsigned ++ [("signature", signature)])).field "schema" =
      some (.str rootSignedMemberKeyLifecycleSchema))
    (hroot : ∀ signature, (JsonValue.obj (unsigned ++ [("signature", signature)])).field
      "rootPublicKeyPem" = some (.str stored.root.rootPublicKey.publicKeyPem))
    (hsignature : ∀ signature, (JsonValue.obj (unsigned ++ [("signature", signature)])).field
      "signature" = some signature)
    (hmember : event.memberId = stored.root.memberId) :
    ∃ record statement, statementRecord stored unsigned = .ok record ∧
      rootSignedMemberSigningKeyLifecycleFromRecord crypto record.toJson = .ok statement ∧
      statement.event = event ∧ statement.rootPublicKey = stored.root.rootPublicKey := by
  let statement : RootSignedMemberSigningKeyLifecycle crypto :=
    { event := event
      rootPublicKey := stored.root.rootPublicKey
      signature := stored.root.sign
        (canonicalRootSignedMemberSigningKeyLifecyclePayload event stored.root.rootPublicKey)
      owned := hmember
      signed := stored.root.complete _ }
  have hsigned : signStatement stored unsigned = .ok statement := by
    refine bind_eq_ok.mpr ⟨event, createMemberSigningKeyAuthorizationEvent_eq_ok.mpr hunsigned, ?_⟩
    exact createRootSignedMemberSigningKeyLifecycle_eq_ok.mpr
      ⟨hschema _, hevent _, hroot _, hsignature _⟩
  obtain ⟨record, hrecord, hdescribes, hroutes⟩ := lifecycleToRecord_spec statement
  refine ⟨record, statement, bind_eq_ok.mpr ⟨statement, hsigned, hrecord⟩, ?_, rfl, rfl⟩
  exact (rootSignedMemberSigningKeyLifecycleFromRecord_eq_ok
    (createRecordEnvelope_toJson record)).mpr ⟨hdescribes, hroutes⟩

/-- The record carries a statement of the identity about the key in the community. -/
structure Recorded (stored : IdentityMaterial crypto) (communityId keyId : String)
    (record : RecordEnvelope) (statement : RootSignedMemberSigningKeyLifecycle crypto) : Prop where
  read : rootSignedMemberSigningKeyLifecycleFromRecord crypto record.toJson = .ok statement
  communityId : statement.event.communityId = communityId
  memberId : statement.event.memberId = stored.root.memberId
  keyId : statement.event.keyId = keyId
  rootPublicKey : statement.rootPublicKey = stored.root.rootPublicKey

/-- The activation of a device key can always be signed and recorded. -/
theorem activation_recorded (context : CallContext crypto) (stored : IdentityMaterial crypto)
    {communityId : String} (deviceKey : StoredDeviceSigningKey crypto)
    (hcommunity : Text.blank communityId = false) (hkey : Text.blank deviceKey.keyId = false) :
    ∃ record statement, statementRecord stored
        (unsignedActivation context stored communityId deviceKey) = .ok record ∧
      Recorded stored communityId deviceKey.keyId record statement ∧
      statement.event.action = .activate deviceKey.keys.rootPublicKey := by
  have hid : Text.blank ("member-key:" ++ context.recordUuid.1) = false := by
    rw [Text.blank_append]
    rfl
  let event : MemberSigningKeyAuthorizationEvent crypto :=
    { eventId := "member-key:" ++ context.recordUuid
      communityId := communityId
      memberId := stored.root.memberId
      keyId := deviceKey.keyId
      action := .activate deviceKey.keys.rootPublicKey
      occurredAt := context.now
      eventIdPresent := hid
      present := ⟨hcommunity, blank_selfOwnedMemberId _, hkey⟩
      timestamp := context.now.2 }
  have hdescribes (more : List (String × JsonValue)) : DescribesEvent
      (.obj (unsignedActivation context stored communityId deviceKey ++ more)) event :=
    ⟨rfl, rfl, rfl, rfl, rfl, rfl, fun publicKey hpublicKey ↦ by
      injection hpublicKey with hsame
      subst hsame
      rfl⟩
  obtain ⟨record, statement, hrecord, hread, hevent, hroot⟩ := @exists_statementRecord _ stored
    (unsignedActivation context stored communityId deviceKey) event (fun _ ↦ hdescribes _)
    (by simpa using hdescribes []) (fun _ ↦ rfl) (fun _ ↦ rfl) (fun _ ↦ rfl) rfl
  refine ⟨record, statement, hrecord, ⟨hread, ?_, ?_, ?_, hroot⟩, ?_⟩
  all_goals rw [hevent]

/-- The revocation of a device key can always be signed and recorded. -/
theorem revocation_recorded (context : CallContext crypto) (stored : IdentityMaterial crypto)
    {communityId keyId : String} (hcommunity : Text.blank communityId = false)
    (hkey : Text.blank keyId = false) :
    ∃ record statement, statementRecord stored
        (unsignedRevocation context stored communityId keyId) = .ok record ∧
      Recorded stored communityId keyId record statement ∧ statement.event.action = .revoke := by
  have hid : Text.blank ("member-key:" ++ context.recordUuid.1) = false := by
    rw [Text.blank_append]
    rfl
  let event : MemberSigningKeyAuthorizationEvent crypto :=
    { eventId := "member-key:" ++ context.recordUuid
      communityId := communityId
      memberId := stored.root.memberId
      keyId := keyId
      action := .revoke
      occurredAt := context.now
      eventIdPresent := hid
      present := ⟨hcommunity, blank_selfOwnedMemberId _, hkey⟩
      timestamp := context.now.2 }
  have hdescribes (more : List (String × JsonValue)) : DescribesEvent
      (.obj (unsignedRevocation context stored communityId keyId ++ more)) event :=
    ⟨rfl, rfl, rfl, rfl, rfl, rfl, nofun⟩
  obtain ⟨record, statement, hrecord, hread, hevent, hroot⟩ := @exists_statementRecord _ stored
    (unsignedRevocation context stored communityId keyId) event (fun _ ↦ hdescribes _)
    (by simpa using hdescribes []) (fun _ ↦ rfl) (fun _ ↦ rfl) (fun _ ↦ rfl) rfl
  refine ⟨record, statement, hrecord, ⟨hread, ?_, ?_, ?_, hroot⟩, ?_⟩
  all_goals rw [hevent]

/-- An activation after records that are no statements is displayed as active. -/
theorem active_of_last {localeCompare : String → String → Ordering} {stored : IdentityMaterial crypto}
    {communityId : String} {earlier : List JsonValue} {record : RecordEnvelope}
    {statement : RootSignedMemberSigningKeyLifecycle crypto} {publicKey : Ed25519PublicKey crypto}
    (hearlier : ∀ source ∈ earlier,
      ¬ Succeeds (rootSignedMemberSigningKeyLifecycleFromRecord crypto source))
    (h : Recorded stored communityId keyId record statement)
    (haction : statement.event.action = .activate publicKey) :
    ∃ key ∈ deviceSigningKeyStatuses crypto localeCompare (some communityId) stored.root.memberId
        stored.root.rootPublicKey.publicKeyPem (earlier ++ [record.toJson]),
      key.keyId = keyId ∧ key.state = .active := by
  have hpassed : earlier.foldl (@rememberStatement crypto communityId stored.root.memberId
      stored.root.rootPublicKey.publicKeyPem) [] = [] := by
    refine List.eq_nil_iff_forall_not_mem.mpr fun other hother ↦ ?_
    rcases mem_foldl_rememberStatement hother with hnil | ⟨-, source, hsource, hread⟩
    · exact absurd hnil List.not_mem_nil
    · exact hearlier source hsource ⟨other, hread⟩
  have hremembered : (earlier ++ [record.toJson]).foldl (rememberStatement communityId
      stored.root.memberId stored.root.rootPublicKey.publicKeyPem) [] = [statement] := by
    rw [List.foldl_append, hpassed]
    simp [rememberStatement, h.read, h.communityId, h.memberId, h.rootPublicKey, KeyedMap.lookup,
      KeyedMap.upsert]
  refine ⟨deviceSigningKeyStatus statement, ?_, h.keyId, ?_⟩
  · simp only [deviceSigningKeyStatuses]
    rw [hremembered]
    exact Sorting.mem_sortBy.mpr List.mem_cons_self
  · rw [deviceSigningKeyStatus, haction]

/-- A displayed key is named in the feed. -/
theorem namesKey_of_status {localeCompare : String → String → Ordering}
    {communityId memberId rootPublicKeyPem : String} {key : DeviceSigningKeyStatus}
    (hkey : key ∈ deviceSigningKeyStatuses crypto localeCompare (some communityId) memberId
      rootPublicKeyPem records) : NamesKey crypto records key.keyId := by
  obtain ⟨statement, ⟨-, record, ⟨source, hsource, hcreate⟩, hdescribes, hroutes⟩, hid⟩ :=
    holdsStatement_of_status hkey
  exact ⟨source, hsource, statement, (rootSignedMemberSigningKeyLifecycleFromRecord_eq_ok
    hcreate).mpr ⟨hdescribes, hroutes⟩, hid⟩

end Statements

/-! ## One step -/

/-- The statement that a call appends is of this key, and revokes it or not. -/
def AfterStatement.keyId : AfterStatement crypto → String
  | .activated deviceKey => deviceKey.keyId
  | .revoked _ keyId => keyId

def AfterStatement.Revokes : AfterStatement crypto → Prop
  | .activated _ => False
  | .revoked _ _ => True

/-- What a step that does not fail does. -/
inductive DeviceKeyEffect (context : CallContext crypto) (service : DeviceKeyService crypto) :
    DeviceKeyStage crypto → Option (DeviceKeyStage crypto) → DeviceKeyService crypto → Prop where
  | begins (operation : DeviceKeyOperation) (inProgress : Bool) :
      DeviceKeyEffect context service (.called operation)
        (some (.readIdentity context.communityId operation))
        { service with deviceKeyActivationInProgress := inProgress }
  | joins (operation : DeviceKeyOperation) :
      DeviceKeyEffect context service (.called operation) none service
  | reads (communityId : Option String) (operation : DeviceKeyOperation) :
      DeviceKeyEffect context service (.readIdentity communityId operation)
        (some (.identityRead service.identityStore communityId operation)) service
  | generates (stored : IdentityMaterial crypto) (selected : Option String) (communityId : String) :
      DeviceKeyEffect context service
        (.identityRead (some stored) selected .activateDeviceSigningKey)
        (some (.writeActivation stored communityId
          ⟨"device:" ++ context.keyUuid, context.generatedKeys⟩)) service
  | consults (stored : IdentityMaterial crypto) (selected : Option String)
      (communityId keyId : String) :
      DeviceKeyEffect context service
        (.identityRead (some stored) selected (.revokeDeviceSigningKey keyId))
        (some (.readRecords stored communityId keyId)) service
  | retains (stored : IdentityMaterial crypto) (communityId : String)
      (deviceKey : StoredDeviceSigningKey crypto) :
      DeviceKeyEffect context service (.writeActivation stored communityId deviceKey)
        (some (.activationWritten stored communityId deviceKey))
        { service with
          identityStore := some ⟨stored.root, stored.deviceSigningKeys ++ [deviceKey]⟩ }
  | activates (stored : IdentityMaterial crypto) (communityId : String)
      (deviceKey : StoredDeviceSigningKey crypto) (source : JsonValue)
      (hcarries : CarriesStatement stored.root source deviceKey.keyId False) :
      DeviceKeyEffect context service (.activationWritten stored communityId deviceKey)
        (some (.append source (.activated deviceKey))) service
  | readsRecords (stored : IdentityMaterial crypto) (communityId keyId : String) :
      DeviceKeyEffect context service (.readRecords stored communityId keyId)
        (some (.recordsRead service.records stored communityId keyId)) service
  | revokes (records : List JsonValue) (stored : IdentityMaterial crypto)
      (communityId keyId : String) (source : JsonValue) (hnamed : NamesKey crypto records keyId)
      (hcarries : CarriesStatement stored.root source keyId True) :
      DeviceKeyEffect context service (.recordsRead records stored communityId keyId)
        (some (.append source (.revoked stored keyId))) service
  | appends (source : JsonValue) (next : AfterStatement crypto) :
      DeviceKeyEffect context service (.append source next) (some (.appended true next))
        { service with records := service.records ++ [source] }
  | refused (source : JsonValue) (next : AfterStatement crypto) :
      DeviceKeyEffect context service (.append source next) (some (.appended false next)) service
  | returns (deviceKey : StoredDeviceSigningKey crypto) :
      DeviceKeyEffect context service (.appended true (.activated deviceKey)) (some .finishing)
        { service with activated := service.activated ++ [deviceKey] }
  | published (stored : IdentityMaterial crypto) (keyId : String) :
      DeviceKeyEffect context service (.appended true (.revoked stored keyId))
        (some (.writeRevocation stored keyId)) service
  | removes (stored : IdentityMaterial crypto) (keyId : String) :
      DeviceKeyEffect context service (.writeRevocation stored keyId) (some .revocationWritten)
        { service with
          identityStore := some ⟨stored.root, stored.deviceSigningKeys.filter fun key ↦
            decide (key.keyId ≠ keyId)⟩ }
  | ends : DeviceKeyEffect context service .revocationWritten none service
  | finishes :
      DeviceKeyEffect context service .finishing none
        { service with deviceKeyActivationInProgress := false }

/-- The step goes on without a failure. -/
def GoesOn (localeCompare : String → String → Ordering) (context : CallContext crypto)
    (stage : DeviceKeyStage crypto) (service : DeviceKeyService crypto) : Prop :=
  ∃ next after, outcome (goOnDeviceKey localeCompare context stage) service = (.ok next, after)

section Effects

variable {localeCompare : String → String → Ordering} {context : CallContext crypto}
  {stage : DeviceKeyStage crypto} {service : DeviceKeyService crypto}

/-- A step that fails does not go on, and one that goes on has this effect. -/
def HasEffect (context : CallContext crypto) (stage : DeviceKeyStage crypto)
    (service : DeviceKeyService crypto) (action : DeviceKeyAction crypto) : Prop :=
  Ensures action service fun result after ↦
    ∀ next, result = .ok next → DeviceKeyEffect context service stage next after

theorem stored_of_protectedIdentity {communityId : Option String} {action : String}
    {found : Option (IdentityMaterial crypto)} {stored : IdentityMaterial crypto × String}
    (h : protectedIdentity context communityId found action = .ok stored) : found = some stored.1 := by
  simp only [protectedIdentity, bind_eq_ok, present_eq_ok, pure_eq_ok] at h
  obtain ⟨_, -, identity, hfound, _, -, _, -, rfl⟩ := h
  exact hfound

theorem goOnDeviceKey_effect :
    HasEffect context stage service (goOnDeviceKey localeCompare context stage) := by
  unfold HasEffect
  cases stage with
  | called operation =>
      cases operation with
      | activateDeviceSigningKey =>
          refine ensures_get_bind.mpr ?_
          split
          · intro next hnext
            obtain rfl := Except.ok.inj hnext
            exact .joins _
          · intro next hnext
            obtain rfl := Except.ok.inj hnext
            exact .begins _ true
      | revokeDeviceSigningKey keyId =>
          intro next hnext
          obtain rfl := Except.ok.inj hnext
          exact .begins _ service.deviceKeyActivationInProgress
  | readIdentity communityId operation =>
      intro next hnext
      obtain rfl := Except.ok.inj hnext
      exact .reads communityId operation
  | identityRead found communityId operation =>
      cases operation with
      | activateDeviceSigningKey =>
          refine Ensures.check_bind (fun _ ↦ nofun) fun stored hstored next hnext ↦ ?_
          obtain rfl := Except.ok.inj hnext
          rw [stored_of_protectedIdentity hstored]
          exact .generates _ _ _
      | revokeDeviceSigningKey keyId =>
          refine Ensures.check_bind (fun _ ↦ nofun) fun stored hstored next hnext ↦ ?_
          obtain rfl := Except.ok.inj hnext
          rw [stored_of_protectedIdentity hstored]
          exact .consults _ _ _ _
  | writeActivation stored communityId deviceKey =>
      intro next hnext
      obtain rfl := Except.ok.inj hnext
      exact .retains _ _ _
  | activationWritten stored communityId deviceKey =>
      refine Ensures.check_bind (fun _ ↦ nofun) fun record hrecord next hnext ↦ ?_
      obtain rfl := Except.ok.inj hnext
      exact .activates _ _ _ _ (statementRecord_activation hrecord)
  | readRecords stored communityId keyId =>
      intro next hnext
      obtain rfl := Except.ok.inj hnext
      exact .readsRecords _ _ _
  | recordsRead records stored communityId keyId =>
      refine Ensures.check_bind (fun _ ↦ nofun) fun _ hactive ↦ ?_
      refine Ensures.check_bind (fun _ ↦ nofun) fun record hrecord next hnext ↦ ?_
      obtain rfl := Except.ok.inj hnext
      obtain ⟨key, hkey, rfl, -⟩ := require_eq_ok.mp hactive
      exact .revokes _ _ _ _ _ (namesKey_of_status hkey) (statementRecord_revocation hrecord)
  | append source next =>
      simp only [goOnDeviceKey]
      split
      · intro other hother
        obtain rfl := Except.ok.inj hother
        exact .appends _ _
      · intro other hother
        obtain rfl := Except.ok.inj hother
        exact .refused _ _
  | appended succeeded next =>
      cases succeeded with
      | false => exact nofun
      | true =>
          intro other hother
          cases next with
          | activated deviceKey =>
              obtain rfl := Except.ok.inj hother
              exact .returns _
          | revoked stored keyId =>
              obtain rfl := Except.ok.inj hother
              exact .published _ _
  | writeRevocation stored keyId =>
      intro next hnext
      obtain rfl := Except.ok.inj hnext
      exact .removes _ _
  | revocationWritten =>
      intro next hnext
      obtain rfl := Except.ok.inj hnext
      exact .ends
  | finishing =>
      intro next hnext
      obtain rfl := Except.ok.inj hnext
      exact .finishes

/-- What a resumption without a failure does. -/
theorem resumeDeviceKey_effect (h : GoesOn localeCompare context stage service) :
    DeviceKeyEffect context service stage (resumeDeviceKey localeCompare context stage service).1
      (resumeDeviceKey localeCompare context stage service).2 := by
  obtain ⟨next, after, hgoes⟩ := h
  rw [resumeDeviceKey_of_ok hgoes]
  have heffect := @goOnDeviceKey_effect _ localeCompare context stage service
  unfold HasEffect Ensures at heffect
  rw [hgoes] at heffect
  exact heffect next rfl

end Effects

/-! ## Waiting calls -/

/-- The identity that a waiting call has read. -/
def DeviceKeyStage.stored? : DeviceKeyStage crypto → Option (IdentityMaterial crypto)
  | .identityRead found _ _ => found
  | .writeActivation stored _ _ | .activationWritten stored _ _ | .readRecords stored _ _
  | .recordsRead _ stored _ _ | .append _ (.revoked stored _) | .appended _ (.revoked stored _)
  | .writeRevocation stored _ => some stored
  | _ => none

/-- The key that a waiting call has generated and not yet named in the feed. -/
def DeviceKeyStage.newKey? : DeviceKeyStage crypto → Option (StoredDeviceSigningKey crypto)
  | .writeActivation _ _ deviceKey | .activationWritten _ _ deviceKey
  | .append _ (.activated deviceKey) => some deviceKey
  | _ => none

/-- The key that a waiting activation has written and not yet returned. -/
def DeviceKeyStage.writtenKey? : DeviceKeyStage crypto → Option (StoredDeviceSigningKey crypto)
  | .activationWritten _ _ deviceKey | .append _ (.activated deviceKey)
  | .appended _ (.activated deviceKey) => some deviceKey
  | _ => none

/-- The key that a waiting call has revoked in the feed and not yet removed. -/
def DeviceKeyStage.revokedKey? : DeviceKeyStage crypto → Option String
  | .appended true (.revoked _ keyId) | .writeRevocation _ keyId => some keyId
  | _ => none

/-- What a waiting call relies on. -/
structure DeviceKeyWaits (root : StoredMemberIdentity crypto) (records : List JsonValue)
    (stage : DeviceKeyStage crypto) : Prop where
  sameRoot : ∀ stored ∈ stage.stored?, stored.root = root
  unnamed : ∀ deviceKey ∈ stage.newKey?, ¬ NamesKey crypto records deviceKey.keyId
  revoked : ∀ keyId ∈ stage.revokedKey?, RevokesKey root records keyId
  carries : ∀ source next, stage = .append source next →
    CarriesStatement root source next.keyId next.Revokes ∧
      (next.Revokes → NamesKey crypto records next.keyId)
  known : ∀ found stored communityId keyId, stage = .recordsRead found stored communityId keyId →
    ∀ source ∈ found, source ∈ records

/-- Two waiting calls have not generated keys of one id. -/
def DifferentNewKeys (left right : DeviceKeyStage crypto) : Prop :=
  ∀ leftKey ∈ left.newKey?, ∀ rightKey ∈ right.newKey?, leftKey.keyId ≠ rightKey.keyId

/-- The root key stays, and waiting calls can rely on what they read. -/
def deviceKeyInvariant (root : StoredMemberIdentity crypto) :
    Invariant (DeviceKeyStage crypto) (DeviceKeyService crypto) where
  shared service := ∃ current, service.identityStore = some current ∧ current.root = root
  waiting service stage := DeviceKeyWaits root service.records stage
  apart := DifferentNewKeys

section Waits

variable {root : StoredMemberIdentity crypto} {records : List JsonValue}
  {stage : DeviceKeyStage crypto}

/-- One more statement about another key. -/
theorem DeviceKeyWaits.append (h : DeviceKeyWaits root records stage) {source : JsonValue}
    {keyId : String} {revokes : Prop} (hcarries : CarriesStatement root source keyId revokes)
    (hother : ∀ deviceKey ∈ stage.newKey?, deviceKey.keyId ≠ keyId) :
    DeviceKeyWaits root (records ++ [source]) stage where
  sameRoot := h.sameRoot
  unnamed deviceKey hmem hnamed :=
    (hcarries.namesKey_iff.mp hnamed).elim (h.unnamed deviceKey hmem) (hother deviceKey hmem)
  revoked keyId hmem := hcarries.revokesKey_iff.mpr (.inl (h.revoked keyId hmem))
  carries source next hstage := (h.carries source next hstage).imp_right fun hnamed hrevokes ↦
    hcarries.namesKey_iff.mpr (.inl (hnamed hrevokes))
  known found stored communityId keyId hstage source hmem :=
    List.mem_append_left _ (h.known found stored communityId keyId hstage source hmem)

/-- A call that has read nothing relies on nothing. -/
theorem DeviceKeyWaits.nothing (hstored : stage.stored? = none) (hnew : stage.newKey? = none)
    (hrevoked : stage.revokedKey? = none) (happend : ∀ source next, stage ≠ .append source next) :
    DeviceKeyWaits root records stage where
  sameRoot _ hmem := absurd (hstored.symm.trans hmem) nofun
  unnamed _ hmem := absurd (hnew.symm.trans hmem) nofun
  revoked _ hmem := absurd (hrevoked.symm.trans hmem) nofun
  carries source next hstage := absurd hstage (happend source next)
  known found stored communityId keyId hstage := by
    rw [hstage] at hstored
    exact absurd hstored nofun

end Waits

/-! ## Conditions -/

/-- A new key has an id of its own: no statement in the feed and no other waiting call has it. -/
def FreshKeyId (context : CallContext crypto) (stage : DeviceKeyStage crypto)
    (service : DeviceKeyService crypto) (others : List (DeviceKeyStage crypto)) : Prop :=
  ∀ found communityId, stage = .identityRead found communityId .activateDeviceSigningKey →
    ¬ NamesKey crypto service.records ("device:" ++ context.keyUuid) ∧
      ∀ other ∈ others, ∀ deviceKey ∈ other.newKey?,
        "device:" ++ context.keyUuid ≠ deviceKey.keyId

/-- A call that writes the stored identity finds the keys that it read, apart from the one that it removes. -/
structure Undisturbed (stage : DeviceKeyStage crypto) (service : DeviceKeyService crypto) : Prop where
  activation : ∀ stored communityId deviceKey, stage = .writeActivation stored communityId deviceKey →
    ∀ current, service.identityStore = some current →
      current.deviceSigningKeys = stored.deviceSigningKeys
  revocation : ∀ stored keyId, stage = .writeRevocation stored keyId →
    ∀ current, service.identityStore = some current →
      current.deviceSigningKeys.filter (fun key ↦ decide (key.keyId ≠ keyId)) =
        stored.deviceSigningKeys.filter fun key ↦ decide (key.keyId ≠ keyId)

/-- A step that does not fail, gives new keys fresh ids and writes back only what is unchanged. -/
def KeepsKeys (localeCompare : String → String → Ordering) :
    Condition (CallContext crypto) (DeviceKeyStage crypto) (DeviceKeyService crypto) :=
  fun context stage service others ↦ GoesOn localeCompare context stage service ∧
    FreshKeyId context stage service others ∧ Undisturbed stage service

section Kept

variable {localeCompare : String → String → Ordering} {root : StoredMemberIdentity crypto}

theorem deviceKeyInvariant_kept :
    (deviceKeyInvariant root).Kept BeginsDeviceKey (resumeDeviceKey localeCompare)
      (KeepsKeys localeCompare) where
  symm h leftKey hleft rightKey hright := (h rightKey hright leftKey hleft).symm
  start service stage hentry := by
    cases hentry
    exact ⟨.nothing rfl rfl rfl nofun, fun _ ↦ nofun⟩
  resumed context stage service others hcondition hshared hwaits hothers := by
    obtain ⟨hgoes, hfresh, -⟩ := hcondition
    have heffect := resumeDeviceKey_effect hgoes
    have hwaiting (other : DeviceKeyStage crypto) (hother : other ∈ others) :
        DeviceKeyWaits root service.records other := (hothers other hother).1
    have hstored (stored : IdentityMaterial crypto) (hmem : stored ∈ stage.stored?) :
        stored.root = root := hwaits.sameRoot stored hmem
    -- Most steps leave the records, and generate no key.
    have hgoes {next : DeviceKeyStage crypto} (hnext : DeviceKeyWaits root service.records next)
        (hnew : ∀ key ∈ next.newKey?, key ∈ stage.newKey?) (waiting : DeviceKeyStage crypto)
        (hmem : waiting ∈ some next) : DeviceKeyWaits root service.records waiting ∧
          ∀ other ∈ others, DifferentNewKeys waiting other := by
      obtain rfl := Option.some.inj hmem
      exact ⟨hnext, fun other hother key hkey ↦ (hothers other hother).2 key (hnew key hkey)⟩
    generalize (resumeDeviceKey localeCompare context stage service).1 = next at heffect ⊢
    generalize (resumeDeviceKey localeCompare context stage service).2 = after at heffect ⊢
    cases heffect with
    | begins operation inProgress =>
        exact ⟨hshared, hgoes (.nothing rfl rfl rfl nofun) nofun, hwaiting⟩
    | joins operation => exact ⟨hshared, nofun, hwaiting⟩
    | reads communityId operation =>
        obtain ⟨current, hcurrent, hroot⟩ := hshared
        refine ⟨⟨current, hcurrent, hroot⟩, hgoes ⟨?_, nofun, nofun, nofun, nofun⟩ nofun, hwaiting⟩
        intro stored hmem
        obtain rfl := Option.some.inj (hcurrent.symm.trans hmem)
        exact hroot
    | generates stored selected communityId =>
        obtain ⟨hunnamed, hdifferent⟩ := hfresh _ _ rfl
        refine ⟨hshared, fun waiting hmem ↦ ?_, hwaiting⟩
        obtain rfl := Option.some.inj hmem
        refine ⟨⟨hwaits.sameRoot, fun deviceKey hkey ↦ ?_, nofun, nofun, nofun⟩, ?_⟩
        · obtain rfl := Option.some.inj hkey
          exact hunnamed
        · intro other hother deviceKey hkey
          obtain rfl := Option.some.inj hkey
          exact hdifferent other hother
    | consults stored selected communityId keyId =>
        exact ⟨hshared, hgoes ⟨hwaits.sameRoot, nofun, nofun, nofun, nofun⟩ nofun, hwaiting⟩
    | retains stored communityId deviceKey =>
        exact ⟨⟨_, rfl, hstored stored rfl⟩, hgoes ⟨hwaits.sameRoot, hwaits.unnamed, nofun, nofun, nofun⟩
          fun _ hkey ↦ hkey, hwaiting⟩
    | activates stored communityId deviceKey source hcarries =>
        refine ⟨hshared, hgoes ⟨nofun, hwaits.unnamed, nofun, ?_, nofun⟩ fun _ hkey ↦ hkey, hwaiting⟩
        intro found next hstage
        injection hstage with hsource hnext
        subst hsource hnext
        exact ⟨hstored stored rfl ▸ hcarries, False.elim⟩
    | readsRecords stored communityId keyId =>
        refine ⟨hshared, hgoes ⟨hwaits.sameRoot, nofun, nofun, nofun, ?_⟩ nofun, hwaiting⟩
        intro found stored communityId keyId hstage
        injection hstage with hfound
        exact hfound ▸ fun _ hmem ↦ hmem
    | revokes found stored communityId keyId source hnamed hcarries =>
        refine ⟨hshared, hgoes ⟨hwaits.sameRoot, nofun, nofun, ?_, nofun⟩ nofun, hwaiting⟩
        intro other next hstage
        injection hstage with hsource hnext
        subst hsource hnext
        exact ⟨hstored stored rfl ▸ hcarries,
          fun _ ↦ hnamed.mono (hwaits.known found stored communityId keyId rfl)⟩
    | appends source next =>
        obtain ⟨hcarries, hnamed⟩ := hwaits.carries source next rfl
        have hmore : ∀ other ∈ others, DeviceKeyWaits root (service.records ++ [source]) other := by
          intro other hother
          refine (hwaiting other hother).append hcarries fun deviceKey hkey ↦ ?_
          cases next with
          | activated own => exact ((hothers other hother).2 own rfl deviceKey hkey).symm
          | revoked stored keyId =>
              intro hsame
              exact (hwaiting other hother).unnamed deviceKey hkey (hsame ▸ hnamed trivial)
        refine ⟨hshared, fun waiting hmem ↦ ?_, hmore⟩
        obtain rfl := Option.some.inj hmem
        refine ⟨⟨?_, nofun, fun keyId hkey ↦ ?_, nofun, nofun⟩, fun other _ ↦ nofun⟩
        · cases next with
          | activated own => exact nofun
          | revoked stored keyId => exact hwaits.sameRoot
        · cases next with
          | activated own => exact absurd hkey nofun
          | revoked stored own =>
              obtain rfl := Option.some.inj hkey
              exact hcarries.revokesKey_iff.mpr (.inr ⟨rfl, trivial⟩)
    | refused source next =>
        refine ⟨hshared, hgoes ⟨?_, nofun, nofun, nofun, nofun⟩ nofun, hwaiting⟩
        cases next with
        | activated own => exact nofun
        | revoked stored keyId => exact hwaits.sameRoot
    | returns deviceKey =>
        exact ⟨hshared, hgoes (.nothing rfl rfl rfl nofun) nofun, hwaiting⟩
    | published stored keyId =>
        exact ⟨hshared, hgoes ⟨hwaits.sameRoot, nofun, hwaits.revoked, nofun, nofun⟩ nofun, hwaiting⟩
    | removes stored keyId =>
        exact ⟨⟨_, rfl, hstored stored rfl⟩, hgoes (.nothing rfl rfl rfl nofun) nofun, hwaiting⟩
    | ends => exact ⟨hshared, nofun, hwaiting⟩
    | finishes => exact ⟨hshared, nofun, hwaiting⟩

end Kept

/-! ## The stored keys -/

/-- The key was stored at first, was activated, or is the one of an activation that has still to return. -/
def Held (initial : List (StoredDeviceSigningKey crypto)) (service : DeviceKeyService crypto)
    (pending : List (DeviceKeyStage crypto)) (key : StoredDeviceSigningKey crypto) : Prop :=
  key ∈ initial ∨ key ∈ service.activated ∨ ∃ stage ∈ pending, key ∈ stage.writtenKey?

/-- The stored keys are those held that are not revoked, up to the revocations that have still to remove theirs. -/
structure TracksKeys (root : StoredMemberIdentity crypto)
    (initial : List (StoredDeviceSigningKey crypto)) (service : DeviceKeyService crypto)
    (pending : List (DeviceKeyStage crypto)) : Prop where
  held : ∀ current, service.identityStore = some current → ∀ key ∈ current.deviceSigningKeys,
    Held initial service pending key
  stored : ∀ current, service.identityStore = some current → ∀ key, Held initial service pending key →
    key ∈ current.deviceSigningKeys ∨ RevokesKey root service.records key.keyId
  removed : ∀ current, service.identityStore = some current → ∀ key ∈ current.deviceSigningKeys,
    RevokesKey root service.records key.keyId → ∃ stage ∈ pending, key.keyId ∈ stage.revokedKey?

section Tracks

variable {root : StoredMemberIdentity crypto} {initial : List (StoredDeviceSigningKey crypto)}
  {service after : DeviceKeyService crypto} {stage : DeviceKeyStage crypto}
  {others : List (DeviceKeyStage crypto)} {next : Option (DeviceKeyStage crypto)}

theorem held_cons {key : StoredDeviceSigningKey crypto} :
    Held initial service (stage :: others) key ↔
      key ∈ stage.writtenKey? ∨ Held initial service others key := by
  simp only [Held, List.mem_cons, or_and_right, exists_or, exists_eq_left]
  tauto

/-- A revoked key is still to be removed by this call or by another one. -/
theorem TracksKeys.removed_cons (h : TracksKeys root initial service (stage :: others))
    {current : IdentityMaterial crypto} (hcurrent : service.identityStore = some current)
    {key : StoredDeviceSigningKey crypto} (hkey : key ∈ current.deviceSigningKeys)
    (hrevoked : RevokesKey root service.records key.keyId) :
    key.keyId ∈ stage.revokedKey? ∨ ∃ other ∈ others, key.keyId ∈ other.revokedKey? := by
  obtain ⟨found, hmem, hfound⟩ := h.removed current hcurrent key hkey hrevoked
  cases List.mem_cons.mp hmem with
  | inl hsame => exact .inl (hsame ▸ hfound)
  | inr hother => exact .inr ⟨found, hother, hfound⟩

theorem TracksKeys.perm {left right : List (DeviceKeyStage crypto)} (hperm : left.Perm right)
    (h : TracksKeys root initial service left) : TracksKeys root initial service right := by
  have hheld (key : StoredDeviceSigningKey crypto) :
      Held initial service left key ↔ Held initial service right key := by
    simp only [Held, hperm.mem_iff]
  refine ⟨fun current hcurrent key hkey ↦ (hheld key).mp (h.held current hcurrent key hkey),
    fun current hcurrent key hkey ↦ h.stored current hcurrent key ((hheld key).mpr hkey),
    fun current hcurrent key hkey hrevoked ↦ ?_⟩
  obtain ⟨stage, hmem, hstage⟩ := h.removed current hcurrent key hkey hrevoked
  exact ⟨stage, hperm.mem_iff.mp hmem, hstage⟩

/-- A step that leaves store, records and activated keys, and goes on with the same key in hand. -/
theorem TracksKeys.same (h : TracksKeys root initial service (stage :: others))
    (hstore : after.identityStore = service.identityStore) (hrecords : after.records = service.records)
    (hactivated : after.activated = service.activated)
    (hwritten : ∀ key, key ∈ stage.writtenKey? ↔ ∃ waiting ∈ next, key ∈ waiting.writtenKey?)
    (hrevoked : ∀ keyId ∈ stage.revokedKey?, ∃ waiting ∈ next, keyId ∈ waiting.revokedKey?) :
    TracksKeys root initial after (next.toList ++ others) := by
  have hheld (key : StoredDeviceSigningKey crypto) : Held initial after (next.toList ++ others) key ↔
      Held initial service (stage :: others) key := by
    unfold Held
    rw [hactivated]
    simp only [List.mem_append, Option.mem_toList, or_and_right, exists_or, List.mem_cons,
      exists_eq_left, hwritten]
    rfl
  refine ⟨fun current hcurrent key hkey ↦ ?_, fun current hcurrent key hkey ↦ ?_,
    fun current hcurrent key hkey hrevokes ↦ ?_⟩
  · exact (hheld key).mpr (h.held current (hstore.symm.trans hcurrent) key hkey)
  · rw [hrecords]
    exact h.stored current (hstore.symm.trans hcurrent) key ((hheld key).mp hkey)
  · rw [hrecords] at hrevokes
    obtain ⟨found, hmem, hfound⟩ := h.removed current (hstore.symm.trans hcurrent) key hkey hrevokes
    cases List.mem_cons.mp hmem with
    | inl hsame =>
        obtain ⟨waiting, hwaiting, hkeyId⟩ := hrevoked key.keyId (hsame ▸ hfound)
        exact ⟨waiting, List.mem_append_left _ (Option.mem_toList.mpr hwaiting), hkeyId⟩
    | inr hother => exact ⟨found, List.mem_append_right _ hother, hfound⟩

/-- A call that starts has no key in hand. -/
theorem TracksKeys.start (hentry : BeginsDeviceKey stage) (h : TracksKeys root initial service others) :
    TracksKeys root initial service (stage :: others) := by
  cases hentry with
  | intro operation =>
      have hheld (key : StoredDeviceSigningKey crypto) :
          Held initial service (.called operation :: others) key ↔ Held initial service others key :=
        held_cons.trans (or_iff_right nofun)
      refine ⟨fun current hcurrent key hkey ↦ (hheld key).mpr (h.held current hcurrent key hkey),
        fun current hcurrent key hkey ↦ h.stored current hcurrent key ((hheld key).mp hkey),
        fun current hcurrent key hkey hrevoked ↦ ?_⟩
      obtain ⟨other, hother, hremoves⟩ := h.removed current hcurrent key hkey hrevoked
      exact ⟨other, List.mem_cons_of_mem _ hother, hremoves⟩

/-- A step of a covered call keeps track of the stored keys. -/
theorem TracksKeys.step {localeCompare : String → String → Ordering} {context : CallContext crypto}
    (hcondition : KeepsKeys localeCompare context stage service others)
    (hwaits : DeviceKeyWaits root service.records stage)
    (hshared : ∃ current, service.identityStore = some current ∧ current.root = root)
    (h : TracksKeys root initial service (stage :: others)) :
    TracksKeys root initial (resumeDeviceKey localeCompare context stage service).2
      ((resumeDeviceKey localeCompare context stage service).1.toList ++ others) := by
  obtain ⟨hgoes, -, hundisturbed⟩ := hcondition
  have heffect := resumeDeviceKey_effect hgoes
  obtain ⟨stored, hstored, hroot⟩ := hshared
  have hnone {stage : DeviceKeyStage crypto} {next : DeviceKeyStage crypto}
      (hstage : stage.writtenKey? = none) (hnext : next.writtenKey? = none)
      (key : StoredDeviceSigningKey crypto) :
      key ∈ stage.writtenKey? ↔ ∃ waiting ∈ some next, key ∈ waiting.writtenKey? := by
    simp [hstage, hnext]
  generalize (resumeDeviceKey localeCompare context stage service).1 = next at heffect ⊢
  generalize (resumeDeviceKey localeCompare context stage service).2 = after at heffect ⊢
  cases heffect with
  | begins operation inProgress => exact h.same rfl rfl rfl (hnone rfl rfl) nofun
  | joins operation => exact h.same rfl rfl rfl (by simp [DeviceKeyStage.writtenKey?]) nofun
  | reads communityId operation => exact h.same rfl rfl rfl (hnone rfl rfl) nofun
  | generates found selected communityId => exact h.same rfl rfl rfl (hnone rfl rfl) nofun
  | consults found selected communityId keyId => exact h.same rfl rfl rfl (hnone rfl rfl) nofun
  | retains found communityId deviceKey =>
      have hkeys := hundisturbed.activation found communityId deviceKey rfl stored hstored
      refine ⟨fun current hcurrent key hkey ↦ ?_, fun current hcurrent key hkey ↦ ?_,
        fun current hcurrent key hkey hrevoked ↦ ?_⟩
      all_goals obtain rfl := Option.some.inj hcurrent
      · refine held_cons.mpr ?_
        cases List.mem_append.mp hkey with
        | inl hold => exact .inr ((held_cons.mp (h.held stored hstored key (hkeys ▸ hold))).resolve_left nofun)
        | inr hnew => exact .inl (List.mem_singleton.mp hnew ▸ rfl)
      · cases held_cons.mp hkey with
        | inl hnew => exact .inl (List.mem_append_right _ (by simp [Option.some.inj hnew]))
        | inr hold =>
            refine (h.stored stored hstored key (held_cons.mpr (.inr hold))).imp_left fun hmem ↦ ?_
            exact List.mem_append_left _ (hkeys ▸ hmem)
      · cases List.mem_append.mp hkey with
        | inl hold =>
            obtain ⟨other, hother, hremoves⟩ :=
              (h.removed_cons hstored (hkeys ▸ hold) hrevoked).resolve_left nofun
            exact ⟨other, List.mem_cons_of_mem _ hother, hremoves⟩
        | inr hnew =>
            rw [List.mem_singleton.mp hnew] at hrevoked
            exact absurd hrevoked.namesKey (hwaits.unnamed deviceKey rfl)
  | activates found communityId deviceKey source hcarries =>
      exact h.same rfl rfl rfl (by simp [DeviceKeyStage.writtenKey?]) nofun
  | readsRecords found communityId keyId => exact h.same rfl rfl rfl (hnone rfl rfl) nofun
  | revokes records found communityId keyId source hnamed hcarries =>
      exact h.same rfl rfl rfl (hnone rfl rfl) nofun
  | appends source next =>
      obtain ⟨hcarries, -⟩ := hwaits.carries source next rfl
      have hheld (key : StoredDeviceSigningKey crypto) :
          Held initial { service with records := service.records ++ [source] }
            (.appended true next :: others) key ↔
          Held initial service (.append source next :: others) key := by
        rw [held_cons, held_cons]
        cases next <;> rfl
      refine ⟨fun current hcurrent key hkey ↦ (hheld key).mpr (h.held current hcurrent key hkey),
        fun current hcurrent key hkey ↦ ?_, fun current hcurrent key hkey hrevoked ↦ ?_⟩
      · exact (h.stored current hcurrent key ((hheld key).mp hkey)).imp_right fun hrevoked ↦
          hcarries.revokesKey_iff.mpr (.inl hrevoked)
      · cases hcarries.revokesKey_iff.mp hrevoked with
        | inl hold =>
            obtain ⟨other, hother, hremoves⟩ :=
              (h.removed_cons hcurrent hkey hold).resolve_left nofun
            exact ⟨other, List.mem_cons_of_mem _ hother, hremoves⟩
        | inr hnew =>
            refine ⟨_, List.mem_cons_self, ?_⟩
            cases next with
            | activated own => exact hnew.2.elim
            | revoked found keyId => exact congrArg some hnew.1.symm
  | refused source next =>
      refine h.same rfl rfl rfl (fun key ↦ ?_) nofun
      cases next <;> simp [DeviceKeyStage.writtenKey?]
  | returns deviceKey =>
      have hheld (key : StoredDeviceSigningKey crypto) :
          Held initial { service with activated := service.activated ++ [deviceKey] }
            (.finishing :: others) key ↔
          Held initial service (.appended true (.activated deviceKey) :: others) key := by
        rw [held_cons, held_cons]
        simp only [Held, DeviceKeyStage.writtenKey?, List.mem_append, List.mem_singleton, Option.mem_def,
          reduceCtorEq, false_or, Option.some.injEq, @eq_comm _ deviceKey]
        tauto
      refine ⟨fun current hcurrent key hkey ↦ (hheld key).mpr (h.held current hcurrent key hkey),
        fun current hcurrent key hkey ↦ h.stored current hcurrent key ((hheld key).mp hkey),
        fun current hcurrent key hkey hrevoked ↦ ?_⟩
      obtain ⟨other, hother, hremoves⟩ :=
        (h.removed_cons hcurrent hkey hrevoked).resolve_left nofun
      exact ⟨other, List.mem_cons_of_mem _ hother, hremoves⟩
  | published found keyId =>
      refine h.same rfl rfl rfl (hnone rfl rfl) fun key hkey ↦ ?_
      exact ⟨_, rfl, hkey⟩
  | removes found keyId =>
      have hkeys := hundisturbed.revocation found keyId rfl stored hstored
      have hheld (key : StoredDeviceSigningKey crypto) :
          Held initial service (.writeRevocation found keyId :: others) key ↔
            Held initial service others key := held_cons.trans (or_iff_right nofun)
      refine ⟨fun current hcurrent key hkey ↦ ?_, fun current hcurrent key hkey ↦ ?_,
        fun current hcurrent key hkey hrevoked ↦ ?_⟩
      all_goals obtain rfl := Option.some.inj hcurrent
      · rw [← hkeys] at hkey
        exact held_cons.mpr (.inr ((hheld key).mp (h.held stored hstored key (List.mem_filter.mp hkey).1)))
      · have hbefore := (hheld key).mpr ((held_cons.mp hkey).resolve_left nofun)
        by_cases hsame : key.keyId = keyId
        · exact .inr (hsame ▸ hwaits.revoked keyId rfl)
        · refine (h.stored stored hstored key hbefore).imp_left fun hmem ↦ ?_
          rw [← hkeys]
          exact List.mem_filter.mpr ⟨hmem, decide_eq_true hsame⟩
      · rw [← hkeys] at hkey
        obtain ⟨hmem, hdifferent⟩ := List.mem_filter.mp hkey
        cases h.removed_cons hstored hmem hrevoked with
        | inl hown => exact absurd (Option.some.inj hown).symm (of_decide_eq_true hdifferent)
        | inr hother =>
            obtain ⟨other, hother, hremoves⟩ := hother
            exact ⟨other, List.mem_cons_of_mem _ hother, hremoves⟩
  | ends => exact h.same rfl rfl rfl (by simp [DeviceKeyStage.writtenKey?]) nofun
  | finishes => exact h.same rfl rfl rfl (by simp [DeviceKeyStage.writtenKey?]) nofun

end Tracks

end PeerHours.Desktop
