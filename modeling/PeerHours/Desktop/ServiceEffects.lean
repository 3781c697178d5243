import PeerHours.Desktop.MemberIdentity
import PeerHours.Records.Authorizations
import PeerHours.Records.Rules

/-!
# What a call of the service does

A call appends at most one record: a declaration of the feed where there was none, a listing, or a
lifecycle statement. It never replaces the root identity.
-/

namespace PeerHours.Desktop

open Checked Json KeyedMap Sorting Stateful
open TimebankDomain (Listing)
open TimebankIdentity
open TimebankRecords

variable {crypto : Crypto}

/-- The root identity of the service. -/
def MemberIdentityService.root? (service : MemberIdentityService crypto) :
    Option (StoredMemberIdentity crypto) :=
  service.identityStore.map (·.root)

/-- The statement that a call signs: an activation of a new device key, or a revocation of a key that a
statement in the feed names. -/
inductive Signs (call : Call crypto) (records : List JsonValue) (communityId : String)
    (event : MemberSigningKeyAuthorizationEvent crypto) : Prop
  | activation (hoperation : call.operation = .activateDeviceSigningKey)
      (haction : event.action ≠ .revoke) (hkey : event.keyId = "device:" ++ call.keyUuid)
  | revocation (hoperation : call.operation = .revokeDeviceSigningKey event.keyId)
      (haction : event.action = .revoke)
      (hheld : ∃ other : RootSignedMemberSigningKeyLifecycle crypto,
        HoldsStatement records communityId other ∧ other.event.keyId = event.keyId)

/-- What a call may do to the service. -/
inductive Effect (feedPublicKey : String) (call : Call crypto)
    (service after : MemberIdentityService crypto) : Prop
  | unchanged (hrecords : after.records = service.records)
      (hroot : ∀ root, service.root? = some root → after.root? = some root)
  | declared (communityId : String) (root : StoredMemberIdentity crypto)
      (declaration : MemberFeedDeclaration crypto) (record : RecordEnvelope)
      (hnone : existingDeclaration crypto communityId feedPublicKey service.records = none)
      (hdeclaration : createDeclaration root communityId feedPublicKey call.now = .ok declaration)
      (hrecord : memberFeedDeclarationToRecord declaration = .ok record)
      (hrecords : after.records = service.records ++ [record.toJson])
      (hroot : ∀ earlier, service.root? = some earlier → earlier = root)
      (hafter : after.root? = some root)
  | listed (communityId : String) (root : StoredMemberIdentity crypto) (listing : Listing)
      (record : RecordEnvelope) (source : JsonValue)
      (hoperation : ∃ input, call.operation = .publishListing input)
      (hcommunity : call.communityId = some communityId)
      (hroot : service.root? = some root)
      (hvalid : ListingValid listing) (hid : listing.id = call.recordUuid)
      (hmember : listing.memberId = root.memberId) (hlisting : listing.communityId = communityId)
      (hrecord : toPublishedListingRecord listing ⟨call.now, root.memberId⟩ = .ok record)
      (hsigned : signRecord root record = .ok source)
      (hrecords : after.records = service.records ++ [source])
      (hafter : after.root? = some root)
  | stated (communityId : String) (root : StoredMemberIdentity crypto)
      (statement : RootSignedMemberSigningKeyLifecycle crypto) (record : RecordEnvelope)
      (hcommunity : call.communityId = some communityId)
      (hroot : service.root? = some root)
      (hsigner : statement.rootPublicKey = root.rootPublicKey)
      (hid : statement.event.eventId = "member-key:" ++ call.recordUuid)
      (hevent : statement.event.communityId = communityId)
      (htime : statement.event.occurredAt = call.now)
      (hsigns : Signs call service.records communityId statement.event)
      (hrecord : rootSignedMemberSigningKeyLifecycleToRecord statement = .ok record)
      (hrecords : after.records = service.records ++ [record.toJson])
      (hafter : after.root? = some root)

variable {feedPublicKey : String} {call : Call crypto} {service : MemberIdentityService crypto}

/-- A call may stop without any effect. -/
theorem Effect.stop : Effect feedPublicKey call service service :=
  .unchanged rfl fun _ h ↦ h

theorem selectedCommunity_eq_ok {context : CallContext crypto} {message communityId : String} :
    selectedCommunity context message = .ok communityId ↔
      context.communityId = some communityId ∧ communityId ≠ "" := by
  unfold selectedCommunity
  cases context.communityId with
  | none => simp
  | some selected => 
      by_cases hempty : selected = ""
      · simp [hempty]
      · simp only [hempty, if_false, Except.ok.injEq, Option.some.injEq]
        exact ⟨fun h ↦ ⟨h, h ▸ hempty⟩, fun h ↦ h.1⟩

/-- What follows the check for a protected identity runs with the stored one, in the selected
community. -/
theorem requireProtectedIdentity_effect {action : String}
    {next : IdentityMaterial crypto × String → Action (MemberIdentityService crypto) Unit}
    (hnext : ∀ stored communityId, service.root? = some stored.root →
      call.communityId = some communityId →
      Ensures (next (stored, communityId)) service fun _ after ↦
        Effect feedPublicKey call service after) :
    Ensures (requireProtectedIdentity call.toCallContext action >>= next) service
      fun _ after ↦ Effect feedPublicKey call service after := by
  unfold requireProtectedIdentity
  simp only [bind_assoc]
  rw [ensures_get_bind]
  refine .check_bind (fun _ ↦ .stop) fun communityId hcommunity ↦ ?_
  refine .check_bind (fun _ ↦ .stop) fun stored hstored ↦ ?_
  refine .check_bind (fun _ ↦ .stop) fun _ _ ↦ ?_
  refine .check_bind (fun _ ↦ .stop) fun _ _ ↦ ?_
  rw [pure_bind]
  refine hnext stored communityId ?_ (selectedCommunity_eq_ok.mp hcommunity).1
  rw [MemberIdentityService.root?, present_eq_ok.mp hstored, Option.map_some]

/-- The feed takes the record at its end, or nothing happens. -/
theorem appendRecord_spec {context : CallContext crypto} {source : JsonValue} :
    Ensures (appendRecord context source) service fun _ after ↦
      after = service ∨ after = { service with records := service.records ++ [source] } := by
  unfold appendRecord
  refine .check_bind (fun _ ↦ .inl rfl) fun _ _ ↦ ?_
  rw [ensures_modify]
  exact .inr rfl

section Statements

variable {stored : IdentityMaterial crypto} {unsigned : List (String × JsonValue)}

/-- A signed statement has the terms it was asked to sign. -/
theorem signStatement_spec {statement : RootSignedMemberSigningKeyLifecycle crypto}
    (h : signStatement stored unsigned = .ok statement) :
    ∃ signature, DescribesEvent (.obj (unsigned ++ [("signature", signature)])) statement.event ∧
      (JsonValue.obj (unsigned ++ [("signature", signature)])).field "rootPublicKeyPem" =
        some (.str statement.rootPublicKey.publicKeyPem) := by
  obtain ⟨event, -, h⟩ := bind_eq_ok.mp h
  obtain ⟨-, hevent, hroot, -⟩ := createRootSignedMemberSigningKeyLifecycle_eq_ok.mp h
  exact ⟨_, hevent, hroot⟩

/-- A statement is signed and its record appended, or nothing happens. -/
theorem appendStatement_spec {context : CallContext crypto} :
    Ensures (appendStatement context stored unsigned) service fun _ after ↦
      after = service ∨ ∃ statement record, signStatement stored unsigned = .ok statement ∧
        rootSignedMemberSigningKeyLifecycleToRecord statement = .ok record ∧
        after = { service with records := service.records ++ [record.toJson] } := by
  unfold appendStatement
  refine .check_bind (fun _ ↦ .inl rfl) fun statement hstatement ↦ ?_
  refine .check_bind (fun _ ↦ .inl rfl) fun record hrecord ↦ ?_
  refine appendRecord_spec.mono fun _ after hafter ↦ ?_
  cases hafter with
  | inl hsame => exact .inl hsame
  | inr happended => exact .inr ⟨statement, record, hstatement, hrecord, happended⟩

end Statements

/-- An activation names a new device key. -/
theorem activateDeviceSigningKey_effect (hoperation : call.operation = .activateDeviceSigningKey) :
    Ensures (activateDeviceSigningKey call.toCallContext) service fun _ after ↦
      Effect feedPublicKey call service after := by
  unfold activateDeviceSigningKey
  refine requireProtectedIdentity_effect fun stored communityId hroot hcommunity ↦ ?_
  rw [ensures_modify_bind]
  refine appendStatement_spec.mono fun _ final hfinal ↦ ?_
  rcases hfinal with rfl | ⟨statement, record, hstatement, hrecord, rfl⟩
  · exact .unchanged rfl fun root hsame ↦ hroot.symm.trans hsame
  · obtain ⟨signature, hevent, hpem⟩ := signStatement_spec hstatement
    have hid := hevent.eventId
    have hin := hevent.communityId
    have hkey := hevent.keyId
    have haction := hevent.action
    have htime := hevent.occurredAt
    simp [unsignedActivation] at hid hin hkey haction htime hpem
    refine .stated communityId stored.root statement record hcommunity hroot
      (Ed25519PublicKey.ext hpem.symm) hid.symm hin.symm htime.symm
      (.activation hoperation ?_ hkey.symm) hrecord rfl rfl
    intro hrevoke
    rw [hrevoke] at haction
    exact absurd haction (by simp [MemberSigningKeyAuthorizationAction.name])

/-! ## Revocation -/

section Remembered

variable {communityId memberId rootPublicKeyPem : String}
  {latestByKey : List (RootSignedMemberSigningKeyLifecycle crypto)}
  {statement : RootSignedMemberSigningKeyLifecycle crypto}

theorem mem_rememberStatement {record : JsonValue}
    (hmem : statement ∈ rememberStatement communityId memberId rootPublicKeyPem latestByKey record) :
    statement ∈ latestByKey ∨ statement.event.communityId = communityId ∧
      rootSignedMemberSigningKeyLifecycleFromRecord crypto record = .ok statement := by
  unfold rememberStatement at hmem
  split at hmem
  · exact .inl hmem
  · rename_i read hread
    split at hmem
    · exact .inl hmem
    · rename_i hscope
      have hcommunity : read.event.communityId = communityId := by
        by_contra hne
        exact hscope (.inl hne)
      have hupsert : statement ∈ upsert (·.event.keyId) read latestByKey →
          statement ∈ latestByKey ∨ statement.event.communityId = communityId ∧
            rootSignedMemberSigningKeyLifecycleFromRecord crypto record = .ok statement := by
        intro hmem
        rcases eq_or_mem_of_mem_upsert hmem with rfl | hold
        · exact .inr ⟨hcommunity, hread⟩
        · exact .inl hold
      split at hmem
      · exact hupsert hmem
      · split at hmem
        · exact hupsert hmem
        · exact .inl hmem

/-- A remembered statement was read from one of the records. -/
theorem mem_foldl_rememberStatement {records : List JsonValue}
    (hmem : statement ∈ records.foldl
      (rememberStatement communityId memberId rootPublicKeyPem) latestByKey) :
    statement ∈ latestByKey ∨ statement.event.communityId = communityId ∧
      ∃ record ∈ records, rootSignedMemberSigningKeyLifecycleFromRecord crypto record =
        .ok statement := by
  induction records generalizing latestByKey with
  | nil => exact .inl hmem
  | cons record rest ih =>
      rw [List.foldl_cons] at hmem
      rcases ih hmem with hstep | ⟨hcommunity, other, hother, hread⟩
      · exact (mem_rememberStatement hstep).imp_right fun ⟨hcommunity, hread⟩ ↦
          ⟨hcommunity, record, List.mem_cons_self, hread⟩
      · exact .inr ⟨hcommunity, other, List.mem_cons_of_mem _ hother, hread⟩

/-- A status is about a key that a statement in the feed names. -/
theorem holdsStatement_of_status {localeCompare : String → String → Ordering}
    {records : List JsonValue} {key : DeviceSigningKeyStatus}
    (hkey : key ∈ deviceSigningKeyStatuses crypto localeCompare (some communityId) memberId
      rootPublicKeyPem records) :
    ∃ statement : RootSignedMemberSigningKeyLifecycle crypto,
      HoldsStatement records communityId statement ∧ statement.event.keyId = key.keyId := by
  obtain ⟨statement, hmem, rfl⟩ := List.mem_map.mp (mem_sortBy.mp hkey)
  obtain hnil | ⟨hcommunity, source, hsource, hread⟩ := mem_foldl_rememberStatement hmem
  · cases hnil
  · obtain ⟨record, hcreate, -⟩ := bind_eq_ok.mp hread
    obtain ⟨hdescribes, hroutes⟩ :=
      (rootSignedMemberSigningKeyLifecycleFromRecord_eq_ok hcreate).mp hread
    exact ⟨statement, ⟨hcommunity, record, ⟨source, hsource, hcreate⟩, hdescribes, hroutes⟩, rfl⟩

end Remembered

/-- A revocation names a key of a statement in the feed. -/
theorem revokeDeviceSigningKey_effect {localeCompare : String → String → Ordering} {keyId : String}
    (hoperation : call.operation = .revokeDeviceSigningKey keyId) :
    Ensures (revokeDeviceSigningKey localeCompare call.toCallContext keyId) service fun _ after ↦
      Effect feedPublicKey call service after := by
  unfold revokeDeviceSigningKey
  refine requireProtectedIdentity_effect fun stored communityId hroot hcommunity ↦ ?_
  rw [ensures_get_bind]
  refine .check_bind (fun _ ↦ .stop) fun _ hactive ↦ ?_
  obtain ⟨key, hkey, rfl, -⟩ := require_eq_ok.mp hactive
  have hheld := holdsStatement_of_status hkey
  have hstated : ∀ final after : MemberIdentityService crypto,
      (final = service ∨ ∃ statement record, signStatement stored (unsignedRevocation
          call.toCallContext stored communityId key.keyId) = .ok statement ∧
        rootSignedMemberSigningKeyLifecycleToRecord statement = .ok record ∧
        final = { service with records := service.records ++ [record.toJson] }) →
      after.records = final.records → after.root? = some stored.root →
      Effect feedPublicKey call service after := by
    intro final after hfinal hrecords hafter
    rcases hfinal with rfl | ⟨statement, record, hstatement, hrecord, rfl⟩
    · exact .unchanged hrecords fun root hsame ↦ by rw [hafter, ← hroot, hsame]
    · obtain ⟨signature, hevent, hpem⟩ := signStatement_spec hstatement
      have hid := hevent.eventId
      have hin := hevent.communityId
      have hsameKey := hevent.keyId
      have haction := hevent.action
      have htime := hevent.occurredAt
      simp [unsignedRevocation] at hid hin hsameKey haction htime hpem
      refine .stated communityId stored.root statement record hcommunity hroot
        (Ed25519PublicKey.ext hpem.symm) hid.symm hin.symm htime.symm
        (.revocation (hsameKey ▸ hoperation) ?_ (hsameKey ▸ hheld)) hrecord hrecords hafter
      cases hevent : statement.event.action with
      | activate publicKey =>
          rw [hevent] at haction
          exact absurd haction (by simp [MemberSigningKeyAuthorizationAction.name])
      | revoke => rfl
  refine appendStatement_spec.bind ?_ ?_
  · intro message final hfinal
    refine hstated final final hfinal rfl ?_
    rcases hfinal with rfl | ⟨_, _, -, -, rfl⟩ <;> exact hroot
  · intro _ final hfinal
    exact hstated final _ hfinal rfl rfl

/-! ## Identity, declaration and listings -/

/-- Reading or creating the identity keeps the feed and an identity that exists. -/
theorem readOrCreateIdentity_spec {context : CallContext crypto} :
    Ensures (readOrCreateIdentity context) service fun result after ↦
      after.records = service.records ∧
        (∀ root, service.root? = some root → after.root? = some root) ∧
        ∀ stored, result = .ok stored → after.root? = some stored.root := by
  unfold readOrCreateIdentity
  rw [ensures_get_bind]
  split
  · rename_i stored hstored
    rw [ensures_pure]
    refine ⟨rfl, fun _ h ↦ h, ?_⟩
    rintro _ ⟨⟩
    rw [MemberIdentityService.root?, hstored, Option.map_some]
  · rename_i hnone
    unfold createStoredIdentity
    rw [ensures_modify_bind, ensures_pure]
    refine ⟨rfl, fun root hroot ↦ ?_, ?_⟩
    · rw [MemberIdentityService.root?, hnone] at hroot
      cases hroot
    · rintro _ ⟨⟩
      rfl

/-- Supplying a genesis signer leaves the feed alone. -/
theorem communityGenesisSigner_effect :
    Ensures (communityGenesisSigner call.toCallContext) service fun _ after ↦
      Effect feedPublicKey call service after := by
  unfold communityGenesisSigner
  refine .check_bind (fun _ ↦ .stop) fun _ _ ↦ ?_
  refine readOrCreateIdentity_spec.bind (fun _ after h ↦ .unchanged h.1 h.2.1) fun stored after h ↦ ?_
  refine .check_bind (fun _ ↦ .unchanged h.1 h.2.1) fun _ _ ↦ ?_
  rw [ensures_pure]
  exact .unchanged h.1 h.2.1

/-- Reporting the status changes nothing. -/
theorem status_spec {localeCompare : String → String → Ordering} {context : CallContext crypto} :
    Ensures (status localeCompare context) service fun _ after ↦ after = service := by
  unfold status
  split
  · rfl
  · rw [ensures_get_bind]
    split
    · rfl
    · exact .check_bind (fun _ ↦ rfl) fun _ _ ↦ rfl

/-- Setting up the identity declares the feed where it was not declared. -/
theorem createAndAnnounce_effect {localeCompare : String → String → Ordering} :
    Ensures (createAndAnnounce localeCompare feedPublicKey call.toCallContext) service
      fun _ after ↦ Effect feedPublicKey call service after := by
  unfold createAndAnnounce
  refine .check_bind (fun _ ↦ .stop) fun communityId _ ↦ ?_
  refine .check_bind (fun _ ↦ .stop) fun _ _ ↦ ?_
  refine readOrCreateIdentity_spec.bind (fun _ after h ↦ .unchanged h.1 h.2.1) fun stored middle h ↦ ?_
  obtain ⟨hrecords, hroot, hstored⟩ := h
  refine .check_bind (fun _ ↦ .unchanged hrecords hroot) fun _ _ ↦ ?_
  rw [ensures_get_bind]
  split
  · exact status_spec.mono fun _ after hafter ↦ .unchanged (hafter ▸ hrecords) (hafter ▸ hroot)
  · rename_i hnone
    refine .check_bind (fun _ ↦ .unchanged hrecords hroot) fun declaration hdeclaration ↦ ?_
    refine .check_bind (fun _ ↦ .unchanged hrecords hroot) fun record hrecord ↦ ?_
    have hdeclared : ∀ after, after = middle ∨
        after = { middle with records := middle.records ++ [record.toJson] } →
        Effect feedPublicKey call service after := by
      intro after hafter
      rcases hafter with rfl | rfl
      · exact .unchanged hrecords hroot
      · refine .declared communityId stored.root declaration record (hrecords ▸ hnone) hdeclaration
          hrecord (congrArg (· ++ [record.toJson]) hrecords) (fun earlier hearlier ↦ ?_)
          (hstored stored rfl)
        exact Option.some.inj ((hroot earlier hearlier).symm.trans (hstored stored rfl))
    refine appendRecord_spec.bind (fun _ after hafter ↦ hdeclared after hafter) fun _ after hafter ↦ ?_
    exact status_spec.mono fun _ final hfinal ↦ hfinal ▸ hdeclared after hafter

/-- Publishing appends a listing of the member under a new id. -/
theorem publishListing_effect {input : PublishListingInput}
    (hoperation : call.operation = .publishListing input) :
    Ensures (publishListing call.toCallContext input) service fun _ after ↦
      Effect feedPublicKey call service after := by
  unfold publishListing
  refine .check_bind (fun _ ↦ .stop) fun kind hkind ↦ ?_
  refine .check_bind (fun _ ↦ .stop) fun communityId hcommunity ↦ ?_
  refine .check_bind (fun _ ↦ .stop) fun _ _ ↦ ?_
  rw [ensures_get_bind]
  refine .check_bind (fun _ ↦ .stop) fun stored hstored ↦ ?_
  refine .check_bind (fun _ ↦ .stop) fun _ _ ↦ ?_
  refine .check_bind (fun _ ↦ .stop) fun owner howner ↦ ?_
  refine .check_bind (fun _ ↦ .stop) fun draft hdraft ↦ ?_
  refine .check_bind (fun _ ↦ .stop) fun listing hlisting ↦ ?_
  refine .check_bind (fun _ ↦ .stop) fun record hrecord ↦ ?_
  refine .check_bind (fun _ ↦ .stop) fun source hsigned ↦ ?_
  obtain ⟨hcommunity, -⟩ := selectedCommunity_eq_ok.mp hcommunity
  have hroot : service.root? = some stored.root := by
    rw [MemberIdentityService.root?, present_eq_ok.mp hstored, Option.map_some]
  have hprofile : owner.id = stored.root.memberId := by
    simp only [TimebankDomain.createMemberProfile, bind_eq_ok, pure_eq_ok] at howner
    obtain ⟨-, -, -, -, -, -, rfl⟩ := howner
    rfl
  obtain ⟨hvalid, hid, hmember, hlistingCommunity⟩ : ListingValid listing ∧
      listing.id = call.recordUuid ∧ listing.memberId = owner.id ∧
        listing.communityId = communityId := by
    cases kind with
    | offer => exact listingValid_of_published hdraft hlisting
    | request => exact listingValid_of_published hdraft hlisting
  refine appendRecord_spec.mono fun _ after hafter ↦ ?_
  rcases hafter with rfl | rfl
  · exact .stop
  · exact .listed communityId stored.root listing record source ⟨input, hoperation⟩ hcommunity hroot
      hvalid hid (hmember.trans hprofile) hlistingCommunity hrecord hsigned rfl hroot

/-- Every call has one of the effects. -/
theorem perform_effect (localeCompare : String → String → Ordering) :
    Effect feedPublicKey call service
      (outcome (perform localeCompare feedPublicKey call) service).2 := by
  have hensures : Ensures (perform localeCompare feedPublicKey call) service fun _ after ↦
      Effect feedPublicKey call service after := by
    unfold perform
    split
    · exact communityGenesisSigner_effect.bind (fun _ _ h ↦ h) fun _ _ h ↦ h
    · exact createAndAnnounce_effect.bind (fun _ _ h ↦ h) fun _ _ h ↦ h
    · rename_i input hoperation
      exact publishListing_effect hoperation
    · rename_i hoperation
      exact activateDeviceSigningKey_effect hoperation
    · rename_i keyId hoperation
      exact revokeDeviceSigningKey_effect hoperation
  exact hensures

end PeerHours.Desktop
