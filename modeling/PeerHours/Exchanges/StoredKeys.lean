import PeerHours.Desktop.DeviceKeyRuns
import PeerHours.Exchanges.IdentityRuns

/-!
# The device keys that a desktop stores

However activations and revocations give way to each other, the stored keys stay those that the feed does not
revoke, while no call writes back an identity that has changed since it was read. A revocation that began
before an activation and writes after it loses the new key.
-/

namespace PeerHours.Exchanges

open Checked Json
open Desktop Interleaving
open Stateful
open TimebankIdentity

variable {crypto : Crypto} {localeCompare : String → String → Ordering}

/-- A service at rest, with its stored identity and the records in its feed. -/
def restingService (stored : IdentityMaterial crypto) (records : List JsonValue)
    (activated : List (StoredDeviceSigningKey crypto)) : DeviceKeyService crypto where
  identityStore := some stored
  records := records
  deviceKeyActivationInProgress := false
  activated := activated

/-- In every run of activations and revocations that do not fail, from a stored identity without a key that the
feed revokes, in which no call writes back keys that have changed since it read them: once no call is pending,
the stored keys are exactly the first ones and the activated ones that have no revocation in the feed. -/
theorem stored_keys_match_feed {initial : IdentityMaterial crypto} {records : List JsonValue}
    (hnone : ∀ key ∈ initial.deviceSigningKeys, ¬ RevokesKey initial.root records key.keyId)
    {after : DeviceKeyService crypto}
    (hrun : Run BeginsDeviceKey (resumeDeviceKey localeCompare) (KeepsKeys localeCompare)
      ⟨restingService initial records [], []⟩ ⟨after, []⟩) :
    ∃ current, after.identityStore = some current ∧ current.root = initial.root ∧
      ∀ key, key ∈ current.deviceSigningKeys ↔
        (key ∈ initial.deviceSigningKeys ∨ key ∈ after.activated) ∧
          ¬ RevokesKey initial.root after.records key.keyId := by
  have hidle : (deviceKeyInvariant initial.root).Holds ⟨restingService initial records [], []⟩ :=
    (deviceKeyInvariant initial.root).holds_idle ⟨initial, rfl, rfl⟩
  have htracks : TracksKeys initial.root initial.deviceSigningKeys
      (restingService initial records []) [] := by
    refine ⟨fun current hcurrent key hkey ↦ ?_, fun current hcurrent key hkey ↦ ?_,
      fun current hcurrent key hkey hrevoked ↦ ?_⟩
    all_goals obtain rfl := Option.some.inj hcurrent
    · exact .inl hkey
    · refine .inl (hkey.resolve_right ?_)
      rintro (hactivated | ⟨stage, hstage, -⟩)
      · exact absurd hactivated List.not_mem_nil
      · exact absurd hstage List.not_mem_nil
    · exact absurd hrevoked (hnone key hkey)
  have hafter := @Invariant.Kept.run_with _ _ _ _ _ _ _ deviceKeyInvariant_kept
    (TracksKeys initial.root initial.deviceSigningKeys) (fun _ _ _ ↦ TracksKeys.perm)
    (fun _ _ _ ↦ TracksKeys.start) (fun context stage service others hcondition hholds h ↦
      h.step hcondition (hholds.waiting stage List.mem_cons_self) hholds.shared) _ _ hidle htracks hrun
  obtain ⟨current, hcurrent, hroot⟩ := (deviceKeyInvariant_kept.run hidle hrun).shared
  refine ⟨current, hcurrent, hroot, fun key ↦ ⟨fun hkey ↦ ⟨?_, fun hrevoked ↦ ?_⟩, fun hheld ↦ ?_⟩⟩
  · exact (hafter.held current hcurrent key hkey).imp_right fun h ↦
      h.resolve_right fun ⟨stage, hstage, _⟩ ↦ absurd hstage List.not_mem_nil
  · obtain ⟨stage, hstage, -⟩ := hafter.removed current hcurrent key hkey hrevoked
    exact absurd hstage List.not_mem_nil
  · exact (hafter.stored current hcurrent key (hheld.1.imp_right .inl)).resolve_right hheld.2

/-! ## A revocation around an activation -/

namespace Garden

/-- Ada's identity with some device keys. -/
def adaIdentity (keys : List (StoredDeviceSigningKey transparentCrypto)) :
    IdentityMaterial transparentCrypto := ⟨ada.stored, keys⟩

/-- The surroundings of an activation. -/
def keyContext : CallContext transparentCrypto :=
  desktopContext (uuidOf '1' isUuid_one) (uuidOf '2' isUuid_two)

/-- The surroundings of a revocation. -/
def revocationContext : CallContext transparentCrypto :=
  desktopContext (uuidOf '3' isUuid_three) (uuidOf '4' isUuid_four)

/-- The key that an activation generates. -/
def newKey : StoredDeviceSigningKey transparentCrypto :=
  ⟨"device:" ++ keyContext.keyUuid, keyContext.generatedKeys⟩

/-- The phone key that Ada has stored. -/
def phoneKey : StoredDeviceSigningKey transparentCrypto := ⟨"phone", ben.stored⟩

/-- The service while an activation is in progress. -/
def activatingService (stored : IdentityMaterial transparentCrypto) (records : List JsonValue)
    (activated : List (StoredDeviceSigningKey transparentCrypto)) :
    DeviceKeyService transparentCrypto :=
  { restingService stored records activated with deviceKeyActivationInProgress := true }

theorem protectedIdentity_ada {context : CallContext transparentCrypto}
    (hencryption : context.isEncryptionAvailable = true)
    {keys : List (StoredDeviceSigningKey transparentCrypto)} {action : String}
    (hkeys : ∀ key ∈ keys, key.keyId ≠ "") :
    protectedIdentity context (some "garden") (some (adaIdentity keys)) action =
      .ok (adaIdentity keys, "garden") := by
  have hstored : assertStoredIdentity (adaIdentity keys) = .ok () :=
    require_eq_ok.mpr ⟨provesIntegrity_eq_true _,
      fun key hmem ↦ ⟨hkeys key hmem, provesIntegrity_eq_true _⟩⟩
  simp only [protectedIdentity, bind_eq_ok]
  exact ⟨"garden", rfl, _, rfl, (), require_eq_ok.mpr hencryption, (), hstored, rfl⟩

/-- The activation of the phone key: its record alone displays the key as active, and does not revoke it. -/
theorem phone_recorded :
    ∃ phone, CarriesStatement ada.stored phone "phone" False ∧
      ¬ RevokesKey ada.stored [phone] phoneKey.keyId ∧
      ∃ key ∈ deviceSigningKeyStatuses transparentCrypto compare (some "garden") ada.stored.memberId
          ada.stored.rootPublicKey.publicKeyPem [phone],
        key.keyId = "phone" ∧ key.state = .active := by
  let context := desktopContext (uuidOf '5' (by decide)) (uuidOf '6' (by decide))
  obtain ⟨record, statement, hrecord, hrecorded, haction⟩ := activation_recorded context
    (adaIdentity [phoneKey]) phoneKey (by decide : Text.blank "garden" = false) (by decide)
  have hcarries := statementRecord_activation hrecord
  have hactive := @active_of_last _ _ compare _ _ [] _ _ _ (by simp) hrecorded haction
  refine ⟨record.toJson, hcarries, fun hrevoked ↦ ?_, hactive⟩
  cases (@CarriesStatement.revokesKey_iff _ _ [] _ _ phoneKey.keyId _ hcarries).mp hrevoked with
  | inl hnone =>
      obtain ⟨_, hmem, _⟩ := hnone
      exact absurd hmem List.not_mem_nil
  | inr hsame => exact hsame.2

/-- The statements about the phone do not name the new key. -/
theorem unnamed_newKey {phone revocation : JsonValue} {left right : Prop}
    (hphone : CarriesStatement ada.stored phone "phone" left)
    (hrevocation : CarriesStatement ada.stored revocation "phone" right) :
    ¬ NamesKey transparentCrypto [phone, revocation] newKey.keyId := by
  have hdifferent : newKey.keyId ≠ "phone" := by decide
  intro hnamed
  have hphoneNamed := (@CarriesStatement.namesKey_iff _ _ [phone] _ _ newKey.keyId _
    hrevocation).mp hnamed
  cases (@CarriesStatement.namesKey_iff _ _ [] _ _ newKey.keyId _ hphone).mp
    (hphoneNamed.resolve_right hdifferent) with
  | inl hnone =>
      obtain ⟨_, hmem, _⟩ := hnone
      exact absurd hmem List.not_mem_nil
  | inr hsame => exact hdifferent hsame

section Runs

variable {condition : Condition (CallContext transparentCrypto) (DeviceKeyStage transparentCrypto)
    (DeviceKeyService transparentCrypto)} {rest : List (DeviceKeyStage transparentCrypto)}

/-- The first pending call takes a step. -/
theorem key_step {context : CallContext transparentCrypto} {stage : DeviceKeyStage transparentCrypto}
    {next : Option (DeviceKeyStage transparentCrypto)}
    {service after : DeviceKeyService transparentCrypto}
    (houtcome : outcome (goOnDeviceKey compare context stage) service = (.ok next, after))
    (hcondition : GoesOn compare context stage service → condition context stage service rest) :
    Step BeginsDeviceKey (resumeDeviceKey compare) condition ⟨service, stage :: rest⟩
      ⟨after, next.toList ++ rest⟩ :=
  .go [] rest (resumeDeviceKey_of_ok houtcome) (hcondition ⟨next, after, houtcome⟩)

/-- The condition admits the steps of an activation of the new key. -/
def AdmitsActivation (condition : Condition (CallContext transparentCrypto)
      (DeviceKeyStage transparentCrypto) (DeviceKeyService transparentCrypto))
    (records : List JsonValue) (rest : List (DeviceKeyStage transparentCrypto)) : Prop :=
  ∀ stage service, GoesOn compare keyContext stage service →
    ((∃ communityId found, stage = .identityRead found communityId .activateDeviceSigningKey) →
      service.records = records) →
    (∀ stored communityId deviceKey, stage = .writeActivation stored communityId deviceKey →
      service.identityStore = some stored) →
    (∀ stored keyId, stage ≠ .writeRevocation stored keyId) → condition keyContext stage service rest

/-- An activation begins, and waits for the stored identity. -/
theorem activation_begins {keys : List (StoredDeviceSigningKey transparentCrypto)}
    {records : List JsonValue} (hcondition : AdmitsActivation condition records rest) :
    Run BeginsDeviceKey (resumeDeviceKey compare) condition
      ⟨restingService (adaIdentity keys) records [], rest⟩
      ⟨activatingService (adaIdentity keys) records [],
        .readIdentity (some "garden") .activateDeviceSigningKey :: rest⟩ := by
  have hcalled : outcome (goOnDeviceKey compare keyContext (.called .activateDeviceSigningKey))
      (restingService (adaIdentity keys) records []) =
        (.ok (some (.readIdentity (some "garden") .activateDeviceSigningKey)),
          activatingService (adaIdentity keys) records []) := rfl
  refine .head (.start (.intro _)) (.single (key_step hcalled fun hgoes ↦ ?_))
  exact hcondition _ _ hgoes (by simp) (by simp) (by simp)

/-- An activation that waits for the stored identity goes on to its end, beside calls that wait. -/
theorem activation_goes_on {keys : List (StoredDeviceSigningKey transparentCrypto)}
    {records : List JsonValue} (hkeys : ∀ key ∈ keys, key.keyId ≠ "")
    (hcondition : AdmitsActivation condition records rest) :
    ∃ source, CarriesStatement ada.stored source newKey.keyId False ∧
      Run BeginsDeviceKey (resumeDeviceKey compare) condition
        ⟨activatingService (adaIdentity keys) records [],
          .readIdentity (some "garden") .activateDeviceSigningKey :: rest⟩
        ⟨restingService (adaIdentity (keys ++ [newKey])) (records ++ [source]) [newKey], rest⟩ := by
  obtain ⟨record, statement, hrecord, -, -⟩ := activation_recorded keyContext (adaIdentity keys) newKey
    (by decide : Text.blank "garden" = false) (by decide)
  have hcarries := statementRecord_activation hrecord
  refine ⟨record.toJson, hcarries, ?_⟩
  have hgo (stage : DeviceKeyStage transparentCrypto) (service : DeviceKeyService transparentCrypto)
      (hread : (∃ communityId found, stage =
        .identityRead found communityId .activateDeviceSigningKey) → service.records = records)
      (hwrite : ∀ stored communityId deviceKey, stage = .writeActivation stored communityId deviceKey →
        service.identityStore = some stored)
      (hrevocation : ∀ stored keyId, stage ≠ .writeRevocation stored keyId)
      (hgoes : GoesOn compare keyContext stage service) : condition keyContext stage service rest :=
    hcondition stage service hgoes hread hwrite hrevocation
  -- the service with what the activation has written so far
  let before := activatingService (adaIdentity keys) records []
  let written := activatingService (adaIdentity (keys ++ [newKey])) records []
  let appended := activatingService (adaIdentity (keys ++ [newKey])) (records ++ [record.toJson]) []
  have hread : outcome (goOnDeviceKey compare keyContext
      (.readIdentity (some "garden") .activateDeviceSigningKey)) before =
        (.ok (some (.identityRead (some (adaIdentity keys)) (some "garden")
          .activateDeviceSigningKey)), before) := rfl
  have hidentity : outcome (goOnDeviceKey compare keyContext
      (.identityRead (some (adaIdentity keys)) (some "garden") .activateDeviceSigningKey)) before =
        (.ok (some (.writeActivation (adaIdentity keys) "garden" newKey)), before) :=
    outcome_check_bind (protectedIdentity_ada rfl hkeys)
  have hwrite : outcome (goOnDeviceKey compare keyContext
      (.writeActivation (adaIdentity keys) "garden" newKey)) before =
        (.ok (some (.activationWritten (adaIdentity keys) "garden" newKey)), written) := rfl
  have hstatement : outcome (goOnDeviceKey compare keyContext
      (.activationWritten (adaIdentity keys) "garden" newKey)) written =
        (.ok (some (.append record.toJson (.activated newKey))), written) :=
    outcome_check_bind hrecord
  have happend : outcome (goOnDeviceKey compare keyContext (.append record.toJson (.activated newKey)))
      written = (.ok (some (.appended true (.activated newKey))), appended) := rfl
  have hreturn : outcome (goOnDeviceKey compare keyContext (.appended true (.activated newKey)))
      appended = (.ok (some .finishing),
        activatingService (adaIdentity (keys ++ [newKey])) (records ++ [record.toJson]) [newKey]) := rfl
  have hfinish : outcome (goOnDeviceKey compare keyContext .finishing)
      (activatingService (adaIdentity (keys ++ [newKey])) (records ++ [record.toJson]) [newKey]) =
        (.ok none, restingService (adaIdentity (keys ++ [newKey])) (records ++ [record.toJson])
          [newKey]) := rfl
  refine .head (key_step hread (hgo _ _ nofun nofun nofun)) ?_
  refine .head (key_step hidentity (hgo _ _ (fun _ ↦ rfl) nofun nofun)) ?_
  refine .head (key_step hwrite (hgo _ _ nofun (fun stored communityId deviceKey hstage ↦ ?_) nofun)) ?_
  · rw [← (DeviceKeyStage.writeActivation.inj hstage).1]
    rfl
  refine .head (key_step hstatement (hgo _ _ nofun nofun nofun)) ?_
  refine .head (key_step happend (hgo _ _ nofun nofun nofun)) ?_
  refine .head (key_step hreturn (hgo _ _ nofun nofun nofun)) ?_
  exact .single (key_step hfinish (hgo _ _ nofun nofun nofun))

/-- The condition admits the steps of a revocation up to its write. -/
def AdmitsRevocation (condition : Condition (CallContext transparentCrypto)
      (DeviceKeyStage transparentCrypto) (DeviceKeyService transparentCrypto))
    (rest : List (DeviceKeyStage transparentCrypto)) : Prop :=
  ∀ stage service, GoesOn compare revocationContext stage service →
    (∀ found communityId, stage ≠ .identityRead found communityId .activateDeviceSigningKey) →
    (∀ stored communityId deviceKey, stage ≠ .writeActivation stored communityId deviceKey) →
    (∀ stored keyId, stage ≠ .writeRevocation stored keyId) → condition revocationContext stage service rest

/-- A revocation of the phone key, up to its write of the identity without the key. -/
theorem revocation_run {phone : JsonValue} {service : DeviceKeyService transparentCrypto}
    (hstored : service.identityStore = some (adaIdentity [phoneKey])) (hrecords : service.records = [phone])
    (hcondition : AdmitsRevocation condition rest)
    (hactive : ∃ key ∈ deviceSigningKeyStatuses transparentCrypto compare (some "garden")
        ada.stored.memberId ada.stored.rootPublicKey.publicKeyPem [phone],
      key.keyId = "phone" ∧ key.state = .active) :
    ∃ source, CarriesStatement ada.stored source "phone" True ∧
      Run BeginsDeviceKey (resumeDeviceKey compare) condition
        ⟨service, .called (.revokeDeviceSigningKey "phone") :: rest⟩
        ⟨{ service with records := [phone, source] },
          .writeRevocation (adaIdentity [phoneKey]) "phone" :: rest⟩ := by
  obtain ⟨record, statement, hrecord, -, -⟩ := revocation_recorded revocationContext
    (adaIdentity [phoneKey]) (by decide : Text.blank "garden" = false)
    (by decide : Text.blank "phone" = false)
  have hcarries := statementRecord_revocation hrecord
  refine ⟨record.toJson, hcarries, ?_⟩
  let after : DeviceKeyService transparentCrypto := { service with records := [phone, record.toJson] }
  have hcalled : outcome (goOnDeviceKey compare revocationContext
      (.called (.revokeDeviceSigningKey "phone"))) service =
        (.ok (some (.readIdentity (some "garden") (.revokeDeviceSigningKey "phone"))), service) := rfl
  have hread : outcome (goOnDeviceKey compare revocationContext
      (.readIdentity (some "garden") (.revokeDeviceSigningKey "phone"))) service =
        (.ok (some (.identityRead (some (adaIdentity [phoneKey])) (some "garden")
          (.revokeDeviceSigningKey "phone"))), service) := by
    rw [← hstored]
    rfl
  have hidentity : outcome (goOnDeviceKey compare revocationContext
      (.identityRead (some (adaIdentity [phoneKey])) (some "garden")
        (.revokeDeviceSigningKey "phone"))) service =
        (.ok (some (.readRecords (adaIdentity [phoneKey]) "garden" "phone")), service) :=
    outcome_check_bind (protectedIdentity_ada rfl (by decide))
  have hfeed : outcome (goOnDeviceKey compare revocationContext
      (.readRecords (adaIdentity [phoneKey]) "garden" "phone")) service =
        (.ok (some (.recordsRead [phone] (adaIdentity [phoneKey]) "garden" "phone")), service) := by
    rw [← hrecords]
    rfl
  have hstatement : outcome (goOnDeviceKey compare revocationContext
      (.recordsRead [phone] (adaIdentity [phoneKey]) "garden" "phone")) service =
        (.ok (some (.append record.toJson (.revoked (adaIdentity [phoneKey]) "phone"))), service) :=
    (outcome_check_bind (show require _ _ = .ok () from require_eq_ok.mpr hactive)).trans
      (outcome_check_bind hrecord)
  have happend : outcome (goOnDeviceKey compare revocationContext
      (.append record.toJson (.revoked (adaIdentity [phoneKey]) "phone"))) service =
        (.ok (some (.appended true (.revoked (adaIdentity [phoneKey]) "phone"))), after) := by
    have hafter : after = { service with records := service.records ++ [record.toJson] } := by
      rw [hrecords]
      rfl
    rw [hafter]
    rfl
  have hpublished : outcome (goOnDeviceKey compare revocationContext
      (.appended true (.revoked (adaIdentity [phoneKey]) "phone"))) after =
        (.ok (some (.writeRevocation (adaIdentity [phoneKey]) "phone")), after) := rfl
  refine .head (key_step hcalled fun hgoes ↦ hcondition _ _ hgoes (by simp) (by simp) (by simp)) ?_
  refine .head (key_step hread fun hgoes ↦ hcondition _ _ hgoes (by simp) (by simp) (by simp)) ?_
  refine .head (key_step hidentity fun hgoes ↦ hcondition _ _ hgoes (by simp) (by simp) (by simp)) ?_
  refine .head (key_step hfeed fun hgoes ↦ hcondition _ _ hgoes (by simp) (by simp) (by simp)) ?_
  refine .head (key_step hstatement fun hgoes ↦ hcondition _ _ hgoes (by simp) (by simp) (by simp)) ?_
  refine .head (key_step happend fun hgoes ↦ hcondition _ _ hgoes (by simp) (by simp) (by simp)) ?_
  exact .single (key_step hpublished fun hgoes ↦ hcondition _ _ hgoes (by simp) (by simp) (by simp))

/-- A revocation writes back the identity without the key, whatever the store holds by then. -/
theorem revocation_writes {service : DeviceKeyService transparentCrypto}
    (hwrites : ∀ stage, stage = .writeRevocation (adaIdentity [phoneKey]) "phone" →
      GoesOn compare revocationContext stage service → condition revocationContext stage service rest)
    (hends : ∀ left, GoesOn compare revocationContext .revocationWritten left →
      condition revocationContext .revocationWritten left rest) :
    Run BeginsDeviceKey (resumeDeviceKey compare) condition
      ⟨service, .writeRevocation (adaIdentity [phoneKey]) "phone" :: rest⟩
      ⟨{ service with identityStore := some (adaIdentity []) }, rest⟩ := by
  have hwrite : outcome (goOnDeviceKey compare revocationContext
      (.writeRevocation (adaIdentity [phoneKey]) "phone")) service =
        (.ok (some .revocationWritten), { service with identityStore := some (adaIdentity []) }) := rfl
  have hend (left : DeviceKeyService transparentCrypto) :
      outcome (goOnDeviceKey compare revocationContext .revocationWritten) left = (.ok none, left) := rfl
  exact .head (key_step hwrite (hwrites _ rfl)) (.single (key_step (hend _) (hends _)))

end Runs

/-- An activation begins, the phone key is revoked before the activation reads the stored identity, and the
activation ends: only the new key is stored, and only the phone key is revoked. -/
theorem stored_keys_match_feed_ada :
    ∃ phone revocation activation current,
      Run BeginsDeviceKey (resumeDeviceKey compare) (KeepsKeys compare)
        ⟨restingService (adaIdentity [phoneKey]) [phone] [], []⟩
        ⟨activatingService (adaIdentity [phoneKey]) [phone] [],
          [.called (.revokeDeviceSigningKey "phone"),
            .readIdentity (some "garden") .activateDeviceSigningKey]⟩ ∧
      Run BeginsDeviceKey (resumeDeviceKey compare) (KeepsKeys compare)
        ⟨activatingService (adaIdentity [phoneKey]) [phone] [],
          [.called (.revokeDeviceSigningKey "phone"),
            .readIdentity (some "garden") .activateDeviceSigningKey]⟩
        ⟨restingService (adaIdentity [newKey]) [phone, revocation, activation] [newKey], []⟩ ∧
      (restingService (adaIdentity [newKey]) [phone, revocation, activation] [newKey]).identityStore =
        some current ∧
      current.root = ada.stored ∧
      ∀ key, key ∈ current.deviceSigningKeys ↔ (key ∈ [phoneKey] ∨ key ∈ [newKey]) ∧
        ¬ RevokesKey ada.stored [phone, revocation, activation] key.keyId := by
  obtain ⟨phone, hphone, hunrevoked, hactive⟩ := phone_recorded
  let waiting : DeviceKeyStage transparentCrypto :=
    .readIdentity (some "garden") .activateDeviceSigningKey
  have hadmits {records : List JsonValue} (hunnamed : ¬ NamesKey transparentCrypto records newKey.keyId) :
      AdmitsActivation (KeepsKeys compare) records [] := by
    intro stage service hgoes hread hwrite hrevocation
    refine ⟨hgoes, fun found communityId hstage ↦ ⟨?_, fun _ hother ↦ absurd hother List.not_mem_nil⟩,
      ⟨fun stored communityId deviceKey hstage current hcurrent ↦ ?_,
        fun stored keyId hstage ↦ absurd hstage (hrevocation stored keyId)⟩⟩
    · rw [hread ⟨communityId, found, hstage⟩]
      exact hunnamed
    · have hsame := hcurrent.symm.trans (hwrite stored communityId deviceKey hstage)
      rw [Option.some.inj hsame]
  have hrevoking : AdmitsRevocation (KeepsKeys compare) [waiting] :=
    fun stage service hgoes hread hwrite hrevocation ↦
      ⟨hgoes, fun found communityId hstage ↦ absurd hstage (hread found communityId),
        ⟨fun stored communityId deviceKey hstage ↦ absurd hstage (hwrite stored communityId deviceKey),
          fun stored keyId hstage ↦ absurd hstage (hrevocation stored keyId)⟩⟩
  obtain ⟨revocation, hrevocation, hrevokes⟩ := @revocation_run (KeepsKeys compare) [waiting] phone
    (activatingService (adaIdentity [phoneKey]) [phone] []) rfl rfl hrevoking hactive
  have hunnamed := unnamed_newKey hphone hrevocation
  obtain ⟨activation, -, hactivates⟩ := @activation_goes_on (KeepsKeys compare) [] []
    [phone, revocation] (by simp) (hadmits hunnamed)
  -- the store still holds what the revocation read
  have hwrites := @revocation_writes (KeepsKeys compare) [waiting]
    (activatingService (adaIdentity [phoneKey]) [phone, revocation] [])
    (fun stage hstage hgoes ↦ ⟨hgoes, by simp [FreshKeyId, hstage],
      ⟨by simp [hstage], fun stored keyId hsame current hcurrent ↦ by
        have hstored : adaIdentity [phoneKey] = stored :=
          (DeviceKeyStage.writeRevocation.inj (hstage.symm.trans hsame)).1
        rw [← hstored, ← Option.some.inj hcurrent]⟩⟩)
    fun left hgoes ↦ ⟨hgoes, by simp [FreshKeyId], ⟨by simp, by simp⟩⟩
  have hfirst := (@activation_begins (KeepsKeys compare) [] [phoneKey] [phone]
    (hadmits fun hnamed ↦ hunnamed (hnamed.mono (by simp)))).tail
      (.start (.intro (.revokeDeviceSigningKey "phone")))
  have hsecond := hrevokes.trans (hwrites.trans hactivates)
  obtain ⟨current, hcurrent, hroot, hkeys⟩ := @stored_keys_match_feed _ compare
    (adaIdentity [phoneKey]) [phone] (fun key hkey ↦ List.mem_singleton.mp hkey ▸ hunrevoked) _
    (hfirst.trans hsecond)
  exact ⟨phone, revocation, activation, current, hfirst, hsecond, hcurrent, hroot, hkeys⟩

/-- A call does not fail, and new keys have ids of their own. -/
def AllSucceed : Condition (CallContext transparentCrypto) (DeviceKeyStage transparentCrypto)
    (DeviceKeyService transparentCrypto) :=
  fun context stage service others ↦
    GoesOn compare context stage service ∧ FreshKeyId context stage service others

/-- A revocation reads the stored identity, an activation adds a key to it, and the revocation writes back what
it read: the key that was activated is not stored, and nothing revokes it. -/
theorem activated_key_lost :
    ∃ phone revocation activation,
      ¬ RevokesKey ada.stored [phone] phoneKey.keyId ∧
      Run BeginsDeviceKey (resumeDeviceKey compare) AllSucceed
        ⟨restingService (adaIdentity [phoneKey]) [phone] [], []⟩
        ⟨restingService (adaIdentity []) [phone, revocation, activation] [newKey], []⟩ ∧
      ¬ RevokesKey ada.stored [phone, revocation, activation] newKey.keyId := by
  obtain ⟨phone, hphone, hunrevoked, hactive⟩ := phone_recorded
  have hquiet {context : CallContext transparentCrypto} {stage : DeviceKeyStage transparentCrypto}
      {service : DeviceKeyService transparentCrypto} {others : List (DeviceKeyStage transparentCrypto)}
      (hread : ∀ found communityId, stage ≠ .identityRead found communityId .activateDeviceSigningKey)
      (hgoes : GoesOn compare context stage service) : AllSucceed context stage service others :=
    ⟨hgoes, fun found communityId hstage ↦ absurd hstage (hread found communityId)⟩
  obtain ⟨revocation, hrevocation, hrevokes⟩ := @revocation_run AllSucceed [] phone
    (restingService (adaIdentity [phoneKey]) [phone] []) rfl rfl
    (fun stage service hgoes hread _ _ ↦ hquiet hread hgoes) hactive
  have hadmits : AdmitsActivation AllSucceed [phone, revocation]
      [.writeRevocation (adaIdentity [phoneKey]) "phone"] := by
    intro stage service hgoes hread _ _
    refine ⟨hgoes, fun found communityId hstage ↦ ⟨?_, fun other hother ↦ ?_⟩⟩
    · rw [hread ⟨communityId, found, hstage⟩]
      exact unnamed_newKey hphone hrevocation
    · rw [List.mem_singleton.mp hother]
      nofun
  obtain ⟨activation, hactivation, hactivates⟩ := @activation_goes_on AllSucceed
    [.writeRevocation (adaIdentity [phoneKey]) "phone"] [phoneKey] [phone, revocation]
    (by decide) hadmits
  refine ⟨phone, revocation, activation, hunrevoked,
    .head (.start (.intro _)) (hrevokes.trans ((activation_begins hadmits).trans
      (hactivates.trans ?_))), fun hrevoked ↦ ?_⟩
  · exact revocation_writes (fun stage hstage ↦ hquiet (by simp [hstage])) fun _ ↦ hquiet (by simp)
  · cases (@CarriesStatement.revokesKey_iff _ _ [phone, revocation] _ _ newKey.keyId _
      hactivation).mp hrevoked with
    | inl hbefore => exact unnamed_newKey hphone hrevocation hbefore.namesKey
    | inr hsame => exact hsame.2

end Garden

end PeerHours.Exchanges
