import PeerHours.Desktop.DeviceKeyRuns
import PeerHours.Desktop.ServiceRuns
import PeerHours.Exchanges.Garden

/-!
# The own feed of a running desktop

A desktop that declares its feed for a community before it writes there keeps a feed that resolves alone.
A desktop that gets its identity without a declaration can publish a listing that stops its own feed from
resolving.
-/

namespace PeerHours.Exchanges

open Checked Json
open Desktop
open Stateful
open TimebankDomain (createMemberProfile)
open TimebankIdentity
open TimebankRecords

variable {crypto : Crypto} {localeCompare : String → String → Ordering} {feedPublicKey : String}

/-- In a run from an empty feed with fresh UUIDs, whose calls are covered where they happen, the feed
resolves alone for every community after each call, and every record is covered by a declaration of the
feed for the record's community. -/
theorem own_feed_resolves [Std.TransCmp localeCompare] (hfeedKey : isHypercoreKey feedPublicKey = true)
    {service : MemberIdentityService crypto} (hempty : service.records = [])
    {calls : List (Call crypto)} (hfresh : (uuidsOf calls).Nodup)
    (hcovered : CoveredRun localeCompare feedPublicKey service calls) {done rest : List (Call crypto)}
    (hcalls : calls = done ++ rest) :
    (∀ communityId, Text.blank communityId = false →
      Succeeds (resolveTimebankMemberFeeds crypto localeCompare communityId
        [⟨feedPublicKey, (performAll localeCompare feedPublicKey service done).records⟩])) ∧
    ∀ record, Contains (performAll localeCompare feedPublicKey service done).records record →
      ∃ memberId, DeclaresFeed crypto record.communityId
        [⟨feedPublicKey, (performAll localeCompare feedPublicKey service done).records⟩]
        feedPublicKey memberId := by
  subst hcalls
  have hfirst : (uuidsOf done ++ []).Nodup := by
    rw [List.append_nil]
    rw [uuidsOf, List.flatMap_append] at hfresh
    exact (List.nodup_append.mp hfresh).1
  obtain ⟨used, hsound⟩ := (soundService_of_empty hempty).run hfeedKey (hcovered.of_append) hfirst
  exact ⟨fun communityId hcommunity ↦ hsound.resolves hfeedKey hcommunity,
    fun record hcontains ↦ hsound.declares hfeedKey hcontains⟩

/-- A key pair signs for its own public key. -/
theorem provesIntegrity_eq_true (keys : StoredMemberIdentity crypto) : provesIntegrity keys = true := by
  obtain ⟨signature, hdecode, hverify⟩ := keys.complete
    (utf8 "peer-hours/member-identity-integrity/v1")
  simp only [provesIntegrity, hdecode]
  exact hverify

theorem assertStoredIdentity_root (root : StoredMemberIdentity crypto) :
    assertStoredIdentity ⟨root, []⟩ = .ok () :=
  require_eq_ok.mpr ⟨provesIntegrity_eq_true root, nofun⟩

namespace Garden

/-- A random id that ends in a digit. -/
def uuidOf (digit : Char) (h : isUuid ("00000000-0000-4000-8000-00000000000" ++
    String.singleton digit) = true) : Uuid := ⟨_, h⟩

theorem isUuid_one : isUuid ("00000000-0000-4000-8000-00000000000" ++ String.singleton '1') = true := by
  decide

theorem isUuid_two : isUuid ("00000000-0000-4000-8000-00000000000" ++ String.singleton '2') = true := by
  decide

theorem isUuid_three : isUuid ("00000000-0000-4000-8000-00000000000" ++ String.singleton '3') = true := by
  decide

theorem isUuid_four : isUuid ("00000000-0000-4000-8000-00000000000" ++ String.singleton '4') = true := by
  decide

/-- What surrounds a call on a desktop in the garden that generates Ada's key. -/
def desktopContext (keyUuid recordUuid : Uuid) : CallContext transparentCrypto where
  communityId := some "garden"
  isEncryptionAvailable := true
  now := noon
  keyUuid := keyUuid
  recordUuid := recordUuid
  generatedKeys := ada.stored
  feedWritable := true

/-- A desktop that was just installed. -/
def newDesktop : MemberIdentityService transparentCrypto := ⟨none, []⟩

/-- The desktop signs the genesis of the community. -/
def genesisCall : Call transparentCrypto where
  toCallContext := desktopContext (uuidOf '1' isUuid_one) (uuidOf '2' isUuid_two)
  operation := .communityGenesisSigner

/-- The desktop sets its identity up. -/
def setupCall : Call transparentCrypto where
  toCallContext := desktopContext (uuidOf '3' (by decide)) (uuidOf '4' (by decide))
  operation := .createAndAnnounce

/-- The desktop publishes an offer. -/
def offerCall : Call transparentCrypto where
  toCallContext := desktopContext (uuidOf '5' (by decide)) (uuidOf '6' (by decide))
  operation := .publishListing ⟨"offer", "Digging", "In the garden", 60⟩

/-- Every member has a profile in the garden. -/
theorem createMemberProfile_garden (owner : FeedOwner transparentCrypto) :
    createMemberProfile (owner.profile "garden") = .ok (owner.profile "garden") := by
  have hmember : Text.blank owner.memberId = false := blank_selfOwnedMemberId _
  have hcommunity : Text.blank "garden" = false := by decide
  simp [createMemberProfile, TimebankDomain.assertPresent, FeedOwner.profile, hmember, hcommunity,
    require]

theorem desktopOffer_minutes : (0 : Int) < 60 := by decide

/-- The offer that the desktop publishes. -/
def desktopOffer : ListingPublication transparentCrypto :=
  publicationOf ada .offer (uuidOf '6' (by decide)).1 60 (by decide) desktopOffer_minutes

/-- The desktop has Ada's root key, some device keys and the records in its feed. -/
def storedDesktop (keys : List (StoredDeviceSigningKey transparentCrypto)) (records : List JsonValue) :
    MemberIdentityService transparentCrypto :=
  ⟨some ⟨ada.stored, keys⟩, records⟩

/-- The genesis signer of a new desktop stores Ada's identity. -/
theorem perform_genesisCall :
    outcome (perform compare ada.feedPublicKey genesisCall) newDesktop = (.ok (), storedDesktop [] []) := by
  have hsigner : outcome (communityGenesisSigner genesisCall.toCallContext) newDesktop =
      (.ok ⟨ada.memberId, ada.stored.rootPublicKey.publicKeyPem, ada.stored.sign⟩,
        storedDesktop [] []) := by
    have hcreated : outcome (readOrCreateIdentity genesisCall.toCallContext) newDesktop =
        (.ok ⟨ada.stored, []⟩, storedDesktop [] []) := rfl
    have hstorage : requireSecureStorage genesisCall.toCallContext = .ok () := rfl
    refine (outcome_check_bind hstorage).trans ?_
    refine (outcome_bind hcreated).trans ?_
    exact outcome_check_bind (assertStoredIdentity_root ada.stored)
  exact outcome_bind hsigner

/-- An offer is signed and appended, whether the feed is declared or not. -/
theorem perform_offerCall (records : List JsonValue) :
    ∃ record source, publishedListingRecords.Carries record desktopOffer.listing ∧
      record.occurredAt = noon.1 ∧ createRecordEnvelope source = .ok record ∧
      outcome (perform compare ada.feedPublicKey offerCall) (storedDesktop [] records) =
        (.ok (), storedDesktop [] (records ++ [source])) := by
  obtain ⟨record, hrecord, hcarries, -, htime⟩ := desktopOffer.envelope
  obtain ⟨source, hsource, hsigned⟩ := signRecord_spec ada.stored record
  refine ⟨record, source, hcarries, htime, hsigned.create, ?_⟩
  have hkind : listingKind "offer" = .ok .offer := rfl
  have hselected : selectedCommunity offerCall.toCallContext
      "Connect to a bootstrap discovery scope before publishing a listing." = .ok "garden" := rfl
  have hstorage : requireSecureStorage offerCall.toCallContext = .ok () := rfl
  have hstored : present (some (⟨ada.stored, []⟩ : IdentityMaterial transparentCrypto))
      "Create your self-owned identity before publishing a listing." = .ok ⟨ada.stored, []⟩ := rfl
  refine (outcome_check_bind hkind).trans ?_
  refine (outcome_check_bind hselected).trans ?_
  refine (outcome_check_bind hstorage).trans ?_
  refine outcome_get_bind.trans ?_
  refine (outcome_check_bind hstored).trans ?_
  refine (outcome_check_bind (assertStoredIdentity_root ada.stored)).trans ?_
  refine (outcome_check_bind (createMemberProfile_garden ada)).trans ?_
  refine (outcome_check_bind desktopOffer.created).trans ?_
  refine (outcome_check_bind desktopOffer.published).trans ?_
  refine (outcome_check_bind hrecord).trans ?_
  refine (outcome_check_bind hsource).trans ?_
  rfl

/-- A new desktop signs a community's genesis, which gives it an identity, and publishes an offer without
ever declaring its feed. Both calls return, and the feed does not resolve. -/
theorem offer_without_declaration :
    ∃ source, outcome (perform compare ada.feedPublicKey genesisCall) newDesktop =
        (.ok (), ⟨some ⟨ada.stored, []⟩, []⟩) ∧
      outcome (perform compare ada.feedPublicKey offerCall) ⟨some ⟨ada.stored, []⟩, []⟩ =
        (.ok (), ⟨some ⟨ada.stored, []⟩, [source]⟩) ∧
      ¬ Succeeds (resolveTimebankMemberFeeds transparentCrypto compare "garden"
        [⟨ada.feedPublicKey, [source]⟩]) := by
  obtain ⟨record, source, hcarries, -, hcreate, hoffer⟩ := perform_offerCall []
  refine ⟨source, perform_genesisCall, hoffer, ?_⟩
  rintro ⟨state, hstate⟩
  obtain ⟨-, -, hprovenance, -⟩ := resolveTimebankMemberFeeds_eq_ok.mp hstate
  have hfields := createRecordEnvelope_eq_ok.mp hcreate
  have hkind : source.field "kind" = some (.str publishedListingRecordKind) := by
    rw [hfields.kind, hcarries.kindName]
    rfl
  obtain ⟨memberId, -, declared, hdeclared, -⟩ := hprovenance _ List.mem_cons_self source
    List.mem_cons_self (by rw [hfields.communityId, hcarries.communityId]; rfl)
    ⟨publishedListingRecordKind, by decide, hkind⟩
  -- the one record of the feed declares nothing
  obtain ⟨hmem, hdeclares⟩ := List.mem_filter.mp hdeclared
  obtain rfl : declared = source := by simpa using hmem
  have hdeclarationKind := (of_decide_eq_true hdeclares).2
  rw [hkind] at hdeclarationKind
  exact absurd hdeclarationKind (by decide)

/-! ## A declared feed -/

/-- Later on the same day. -/
def evening : CanonicalTimestamp := ⟨"2025-06-01T18:00:00.000Z", by decide⟩

/-- The desktop adds a device key. -/
def activationCall : Call transparentCrypto where
  toCallContext :=
    { desktopContext (uuidOf '7' (by decide)) (uuidOf '8' (by decide)) with generatedKeys := ben.stored }
  operation := .activateDeviceSigningKey

/-- The device key that the desktop adds. -/
def deskKey : StoredDeviceSigningKey transparentCrypto :=
  ⟨"device:" ++ activationCall.keyUuid, activationCall.generatedKeys⟩

/-- In the evening the desktop revokes the device key. -/
def revocationCall : Call transparentCrypto where
  toCallContext :=
    { desktopContext (uuidOf '9' (by decide)) (uuidOf 'a' (by decide)) with now := evening }
  operation := .revokeDeviceSigningKey deskKey.keyId

/-- A setup declares the feed. -/
theorem perform_setupCall :
    ∃ (declaration : MemberFeedDeclaration transparentCrypto) (record : RecordEnvelope),
      DescribesDeclaration record.payload declaration ∧
      RoutesDeclaration record declaration ∧ declaration.communityId = "garden" ∧
      declaration.feedPublicKey = .str ada.feedPublicKey ∧ declaration.occurredAt = noon.1 ∧
      outcome (perform compare ada.feedPublicKey setupCall) (storedDesktop [] []) =
        (.ok (), storedDesktop [] [record.toJson]) := by
  obtain ⟨created, record, carried, hcreate, hrecord, hdescribes, hroutes, hdeclared⟩ :=
    declare_spec ada.stored (by decide : Text.blank "garden" = false) ada.hypercoreKey noon.2
  refine ⟨carried, record, hdescribes, hroutes, hdeclared.community, hdeclared.feed, hdeclared.time, ?_⟩
  have hselected : selectedCommunity setupCall.toCallContext
      "Connect to a bootstrap discovery scope before creating an identity." = .ok "garden" := rfl
  have hstorage : requireSecureStorage setupCall.toCallContext = .ok () := rfl
  have hread : outcome (readOrCreateIdentity setupCall.toCallContext) (storedDesktop [] []) =
      (.ok ⟨ada.stored, []⟩, storedDesktop [] []) := rfl
  have hstatus : ∃ found, outcome (status compare setupCall.toCallContext)
      (storedDesktop [] [record.toJson]) = (.ok found, storedDesktop [] [record.toJson]) := by
    unfold status
    rw [if_neg (by decide)]
    exact ⟨_, outcome_get_bind.trans (outcome_check_bind (assertStoredIdentity_root ada.stored))⟩
  obtain ⟨found, hfound⟩ := hstatus
  have hannounced : outcome (createAndAnnounce compare ada.feedPublicKey setupCall.toCallContext)
      (storedDesktop [] []) = (.ok found, storedDesktop [] [record.toJson]) := by
    refine (outcome_check_bind hselected).trans ?_
    refine (outcome_check_bind hstorage).trans ?_
    refine (outcome_bind hread).trans ?_
    refine (outcome_check_bind (assertStoredIdentity_root ada.stored)).trans ?_
    refine outcome_get_bind.trans ?_
    refine (outcome_check_bind hcreate).trans ?_
    exact (outcome_check_bind hrecord).trans hfound
  exact outcome_bind hannounced

/-- What a key call requires of the desktop. -/
theorem requireProtectedIdentity_desktop {call : CallContext transparentCrypto} {action : String}
    {keys : List (StoredDeviceSigningKey transparentCrypto)} {records : List JsonValue}
    (hcommunity : call.communityId = some "garden") (hencryption : call.isEncryptionAvailable = true)
    (hkeys : ∀ key ∈ keys, key.keyId ≠ "") :
    outcome (requireProtectedIdentity call action) (storedDesktop keys records) =
      (.ok (⟨ada.stored, keys⟩, "garden"), storedDesktop keys records) := by
  have hselected (message : String) : selectedCommunity call message = .ok "garden" :=
    selectedCommunity_eq_ok.mpr ⟨hcommunity, by decide⟩
  have hencrypts (message : String) : require (call.isEncryptionAvailable = true) message = .ok () :=
    require_eq_ok.mpr hencryption
  have hstored : assertStoredIdentity (⟨ada.stored, keys⟩ : IdentityMaterial transparentCrypto) = .ok () :=
    require_eq_ok.mpr ⟨provesIntegrity_eq_true _,
      fun key hmem ↦ ⟨hkeys key hmem, provesIntegrity_eq_true _⟩⟩
  refine outcome_get_bind.trans ?_
  refine (outcome_check_bind (hselected _)).trans ?_
  refine (outcome_check_bind (present_eq_ok.mpr rfl)).trans ?_
  refine (outcome_check_bind (hencrypts _)).trans ?_
  exact outcome_check_bind hstored

/-- A statement that can be signed and recorded is appended. -/
theorem outcome_appendStatement {call : CallContext transparentCrypto}
    {stored : IdentityMaterial transparentCrypto} {unsigned : List (String × JsonValue)}
    {record : RecordEnvelope} (hrecord : statementRecord stored unsigned = .ok record)
    (hwritable : call.feedWritable = true) (service : MemberIdentityService transparentCrypto) :
    outcome (appendStatement call stored unsigned) service =
      (.ok (), { service with records := service.records ++ [record.toJson] }) := by
  obtain ⟨statement, hsigned, hencoded⟩ := bind_eq_ok.mp hrecord
  have hwrites (message : String) : require (call.feedWritable = true) message = .ok () :=
    require_eq_ok.mpr hwritable
  refine (outcome_check_bind hsigned).trans ?_
  refine (outcome_check_bind hencoded).trans ?_
  exact outcome_check_bind (hwrites _)

/-- An activation stores the key and appends its statement. -/
theorem perform_activationCall (records : List JsonValue) :
    ∃ record statement, Recorded ⟨ada.stored, []⟩ "garden" deskKey.keyId record statement ∧
      statement.event.action = .activate deskKey.keys.rootPublicKey ∧ record.occurredAt = noon.1 ∧
      outcome (perform compare ada.feedPublicKey activationCall) (storedDesktop [] records) =
        (.ok (), storedDesktop [deskKey] (records ++ [record.toJson])) := by
  obtain ⟨record, statement, hrecord, hrecorded, haction⟩ := activation_recorded
    activationCall.toCallContext ⟨ada.stored, []⟩ deskKey (by decide : Text.blank "garden" = false)
    (by decide)
  refine ⟨record, statement, hrecorded, haction, ?_, ?_⟩
  · obtain ⟨signed, hsigned, hread⟩ := read_statementRecord hrecord
    obtain ⟨signature, hevent, -⟩ := signStatement_spec hsigned
    have htime := hevent.occurredAt
    simp [unsignedActivation] at htime
    have hroutes := ((rootSignedMemberSigningKeyLifecycleFromRecord_eq_ok
      (createRecordEnvelope_toJson record)).mp hread).2
    exact hroutes.occurredAt.trans htime.symm
  · have hprotected := @requireProtectedIdentity_desktop activationCall.toCallContext
      "rotate a device signing key" [] records rfl rfl (by simp)
    refine (outcome_bind hprotected).trans ?_
    refine outcome_modify_bind.trans ?_
    exact outcome_appendStatement hrecord rfl _

/-- A revocation of the active key appends its statement and removes the key. -/
theorem perform_revocationCall (records : List JsonValue)
    (hactive : ∃ key ∈ deviceSigningKeyStatuses transparentCrypto compare (some "garden")
        ada.stored.memberId ada.stored.rootPublicKey.publicKeyPem records,
      key.keyId = deskKey.keyId ∧ key.state = .active) :
    ∃ source, outcome (perform compare ada.feedPublicKey revocationCall)
      (storedDesktop [deskKey] records) = (.ok (), storedDesktop [] (records ++ [source])) := by
  obtain ⟨record, -, hrecord, -, -⟩ := revocation_recorded revocationCall.toCallContext
    ⟨ada.stored, [deskKey]⟩ (by decide : Text.blank "garden" = false)
    (by decide : Text.blank deskKey.keyId = false)
  have hprotected := @requireProtectedIdentity_desktop revocationCall.toCallContext
    "revoke a device signing key" [deskKey] records rfl rfl (by decide)
  refine ⟨record.toJson, ?_⟩
  refine (outcome_bind hprotected).trans ?_
  refine outcome_get_bind.trans ?_
  refine (outcome_check_bind (show require _ _ = .ok () from require_eq_ok.mpr hactive)).trans ?_
  refine (outcome_bind (outcome_appendStatement hrecord rfl _)).trans ?_
  rfl

/-- The desktop signs the genesis, declares its feed, publishes an offer, and activates and revokes a device
key. -/
def declaredCalls : List (Call transparentCrypto) :=
  [genesisCall, setupCall, offerCall, activationCall, revocationCall]

theorem nodup_uuidsOf_declaredCalls : (uuidsOf declaredCalls).Nodup := by decide +kernel

/-- A record of another kind is no statement. -/
theorem not_statement {source : JsonValue} {record : RecordEnvelope}
    (hcreate : createRecordEnvelope source = .ok record)
    (hkind : isRootSignedMemberSigningKeyLifecycleRecord record.kind = false) :
    ¬ Succeeds (rootSignedMemberSigningKeyLifecycleFromRecord transparentCrypto source) := by
  rintro ⟨held, hread⟩
  have hroutes := ((rootSignedMemberSigningKeyLifecycleFromRecord_eq_ok hcreate).mp hread).2
  rw [hroutes.kind, isRootSigned_rootSignedRecordKindFor] at hkind
  exact absurd hkind (by simp)

/-- Each of the calls takes effect, and each is covered where it happens. -/
theorem declared_run :
    ∃ declaration offer activation revocation,
      performAll compare ada.feedPublicKey newDesktop declaredCalls =
        storedDesktop [] [declaration, offer, activation, revocation] ∧
      CoveredRun compare ada.feedPublicKey newDesktop declaredCalls := by
  obtain ⟨declaration, declared, hdescribes, hroutes, hcommunity, hfeed, hdeclaredAt, hsetup⟩ :=
    perform_setupCall
  obtain ⟨listed, offer, hcarries, hlistedAt, hoffer, hpublish⟩ := perform_offerCall [declared.toJson]
  obtain ⟨activated, statement, hrecorded, haction, hactivatedAt, hactivate⟩ :=
    perform_activationCall [declared.toJson, offer]
  have hdeclared := createRecordEnvelope_toJson declared
  have hearlier : ∀ source ∈ [declared.toJson, offer],
      ¬ Succeeds (rootSignedMemberSigningKeyLifecycleFromRecord transparentCrypto source) := by
    intro source hsource
    rcases List.mem_cons.mp hsource with rfl | hsource
    · exact not_statement hdeclared (by rw [hroutes.kind]; decide)
    · rw [List.mem_singleton.mp hsource]
      exact not_statement hoffer (by rw [hcarries.kindName]; decide)
  have hactive := @active_of_last _ _ compare _ _ _ _ _ _ hearlier hrecorded haction
  obtain ⟨revocation, hrevoke⟩ := perform_revocationCall
    ([declared.toJson, offer] ++ [activated.toJson]) hactive
  rw [List.singleton_append] at hpublish
  simp only [List.cons_append, List.nil_append] at hactivate hrevoke
  refine ⟨declared.toJson, offer, activated.toJson, revocation, ?_, ?_⟩
  · refine (performAll_cons perform_genesisCall).trans ?_
    refine (performAll_cons hsetup).trans ?_
    refine (performAll_cons hpublish).trans ?_
    refine (performAll_cons hactivate).trans ?_
    exact performAll_cons hrevoke
  -- every record before the revocation is of noon
  have hnoon : ∀ record, Contains [declared.toJson, offer, activated.toJson] record →
      record.occurredAt = noon.1 := by
    intro record hcontains
    simp only [contains_cons, hdeclared, hoffer, createRecordEnvelope_toJson, Except.ok.injEq] at hcontains
    rcases hcontains with rfl | rfl | rfl | hnil
    · exact hroutes.occurredAt.trans hdeclaredAt
    · exact hlistedAt
    · exact hactivatedAt
    · exact absurd hnil contains_nil
  have hheld {records : List JsonValue} (hmem : declared.toJson ∈ records) (communityId : String)
      (hselected : some "garden" = some communityId) :
      existingDeclaration transparentCrypto communityId ada.feedPublicKey records ≠ none :=
    existingDeclaration_ne_none hmem hdeclared hdescribes hroutes
      (hcommunity.trans (Option.some.inj hselected)) hfeed
  refine .cons ⟨fun hgenesis ↦ absurd rfl hgenesis, fun _ h ↦ absurd h (by simp [genesisCall])⟩
    perform_genesisCall ?_
  refine .cons ⟨fun _ hsetup ↦ absurd rfl hsetup, fun _ h ↦ absurd h (by simp [setupCall])⟩ hsetup ?_
  refine .cons ⟨fun _ _ _ ↦ hheld List.mem_cons_self, fun _ h ↦ absurd h (by simp [offerCall])⟩
    hpublish ?_
  refine .cons ⟨fun _ _ _ ↦ hheld List.mem_cons_self, fun _ h ↦ absurd h (by simp [activationCall])⟩
    hactivate ?_
  refine .cons ⟨fun _ _ _ ↦ hheld List.mem_cons_self, fun _ _ _ _ held hholds _ _ ↦ .inl ?_⟩ hrevoke
    trivial
  obtain ⟨-, record, hcontains, -, hroutesEvent⟩ := hholds
  rw [← hroutesEvent.occurredAt, hnoon record hcontains]
  decide

/-- After every call the feed resolves, and its records are covered. -/
theorem own_feed_resolves_garden :
    ∃ declaration offer activation revocation,
      performAll compare ada.feedPublicKey newDesktop declaredCalls =
        storedDesktop [] [declaration, offer, activation, revocation] ∧
      ∀ done rest, declaredCalls = done ++ rest →
        (∀ communityId, Text.blank communityId = false →
          Succeeds (resolveTimebankMemberFeeds transparentCrypto compare communityId
            [⟨ada.feedPublicKey, (performAll compare ada.feedPublicKey newDesktop done).records⟩])) ∧
        ∀ record, Contains (performAll compare ada.feedPublicKey newDesktop done).records record →
          ∃ memberId, DeclaresFeed transparentCrypto record.communityId
            [⟨ada.feedPublicKey, (performAll compare ada.feedPublicKey newDesktop done).records⟩]
            ada.feedPublicKey memberId := by
  obtain ⟨declaration, offer, activation, revocation, hperformed, hcovered⟩ := declared_run
  refine ⟨declaration, offer, activation, revocation, hperformed, fun done rest hcalls ↦ ?_⟩
  exact own_feed_resolves ada.hypercoreKey rfl nodup_uuidsOf_declaredCalls hcovered hcalls

end Garden

end PeerHours.Exchanges
