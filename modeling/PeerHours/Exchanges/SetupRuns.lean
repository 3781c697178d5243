import PeerHours.Desktop.RootIdentity
import PeerHours.Exchanges.IdentityRuns

/-!
# The root identity of a desktop

However setups and genesis signers give way to each other, the first root identity of a desktop stays while only
one of them creates it. Two genesis signers that both find no identity replace the one by the other.
-/

namespace PeerHours.Exchanges

open Desktop Interleaving Json Stateful
open TimebankIdentity

variable {crypto : Crypto}

/-- In every run of setups and genesis signers from an empty identity store, in which no call reads the empty
store beside one that has still to write the identity that it creates: a stored identity stays stored, and every
signer, declaration and announcement is of the stored root key. -/
theorem root_identity_kept (hverifies : VerifiesOwnKeyOnly crypto)
    {localeCompare : String → String → Ordering} {feedPublicKey : String} {records : List JsonValue}
    {before after : System (SetupStage crypto) (SetupService crypto)}
    (hbefore : Run BeginsSetup (resumeSetup localeCompare feedPublicKey) (CreatesAlone crypto)
      ⟨emptyService records, []⟩ before)
    (hafter : Run BeginsSetup (resumeSetup localeCompare feedPublicKey) (CreatesAlone crypto)
      before after) :
    (∀ stored, before.shared.identityStore = some stored →
      after.shared.identityStore = some stored) ∧
    ∀ produced ∈ after.shared.produced, ∃ stored, after.shared.identityStore = some stored ∧
      Uses stored.root produced := by
  have hempty : (rootInvariant crypto none).shared (emptyService records) := ⟨nofun, nofun⟩
  have hholds := (rootInvariant_kept hverifies).run ((rootInvariant crypto none).holds_idle hempty)
    hbefore
  have hkept : (rootInvariant crypto before.shared.identityStore).Holds before :=
    ⟨⟨fun _ hstored ↦ hstored, hholds.shared.2⟩, hholds.waiting, hholds.apart⟩
  exact ((rootInvariant_kept hverifies).run hkept hafter).shared

/-! ## Two signers -/

namespace Garden

/-- A step of a call in the garden, in which the desktop generates these keys. -/
def setupContext (keys : StoredMemberIdentity transparentCrypto) : SetupContext transparentCrypto where
  toCallContext :=
    { desktopContext (uuidOf '1' isUuid_one) (uuidOf '2' isUuid_two) with generatedKeys := keys }
  hourLater := ⟨"2025-06-01T13:00:00.000Z", by decide⟩
  publishesAnnouncements := true

/-- The signer of a root key. -/
def signerOf (keys : StoredMemberIdentity transparentCrypto) : GenesisSigner :=
  ⟨keys.memberId, keys.rootPublicKey.publicKeyPem, keys.sign⟩

/-- The desktop with a root key, after it has handed out signers. -/
def setupDesktop (root : Option (StoredMemberIdentity transparentCrypto))
    (signers : List (StoredMemberIdentity transparentCrypto)) : SetupService transparentCrypto where
  identityStore := root.map fun root ↦ ⟨root, []⟩
  records := []
  identitySetupInProgress := false
  produced := signers.map fun keys ↦ .signer (signerOf keys)

/-- A call for a genesis signer, and where it waits. -/
def signerCall : SetupStage transparentCrypto := .called .communityGenesisSigner

def signerReads : SetupStage transparentCrypto := .readIdentity .communityGenesisSigner

def signerFoundNone : SetupStage transparentCrypto := .identityRead none .communityGenesisSigner

def signerWrites (keys : StoredMemberIdentity transparentCrypto) : SetupStage transparentCrypto :=
  .writeIdentity ⟨keys, []⟩ .communityGenesisSigner

def signerWritten (keys : StoredMemberIdentity transparentCrypto) : SetupStage transparentCrypto :=
  .identityWritten ⟨keys, []⟩ .communityGenesisSigner

variable {feedPublicKey : String} {keys : StoredMemberIdentity transparentCrypto}
  {root : Option (StoredMemberIdentity transparentCrypto)}
  {signers : List (StoredMemberIdentity transparentCrypto)}

theorem resume_signerCall : resumeSetup compare feedPublicKey (setupContext keys) signerCall
    (setupDesktop root signers) = (some signerReads, setupDesktop root signers) := rfl

theorem resume_signerReads : resumeSetup compare feedPublicKey (setupContext keys) signerReads
    (setupDesktop none signers) = (some signerFoundNone, setupDesktop none signers) := rfl

theorem resume_signerFoundNone :
    resumeSetup compare feedPublicKey (setupContext keys) signerFoundNone
      (setupDesktop root signers) = (some (signerWrites keys), setupDesktop root signers) := rfl

theorem resume_signerWrites :
    resumeSetup compare feedPublicKey (setupContext keys) (signerWrites keys)
      (setupDesktop root signers) = (some (signerWritten keys), setupDesktop (some keys) signers) := rfl

/-- A signer is returned once its identity is written. -/
theorem resume_signerWritten :
    resumeSetup compare feedPublicKey (setupContext keys) (signerWritten keys)
      (setupDesktop root signers) = (none, setupDesktop root (signers ++ [keys])) := by
  have houtcome : outcome (useIdentity (⟨keys, []⟩ : IdentityMaterial transparentCrypto)
      .communityGenesisSigner) (setupDesktop root signers) =
      (.ok none, setupDesktop root (signers ++ [keys])) := by
    refine (outcome_check_bind (assertStoredIdentity_root keys)).trans ?_
    simp only [setupDesktop, List.map_append]
    rfl
  exact resumeSetup_of_ok houtcome

section Signers

variable {condition : Condition (SetupContext transparentCrypto) (SetupStage transparentCrypto)
  (SetupService transparentCrypto)}

/-- Two signers that both read the empty store: each writes the identity that it creates. -/
theorem signers_run (hcondition : ∀ context stage service others,
      condition context stage service others) :
    Run BeginsSetup (resumeSetup compare feedPublicKey) condition ⟨setupDesktop none [], []⟩
        ⟨setupDesktop (some ada.stored) [ada.stored], [signerWrites ben.stored]⟩ ∧
      Run BeginsSetup (resumeSetup compare feedPublicKey) condition
        ⟨setupDesktop (some ada.stored) [ada.stored], [signerWrites ben.stored]⟩
        ⟨setupDesktop (some ben.stored) [ada.stored, ben.stored], []⟩ := by
  have hstart : Step BeginsSetup (resumeSetup compare feedPublicKey) condition
      ⟨setupDesktop none [], []⟩ ⟨setupDesktop none [], [signerCall]⟩ := .start (.intro _)
  have hagain : Step BeginsSetup (resumeSetup compare feedPublicKey) condition
      ⟨setupDesktop none [], [signerCall]⟩ ⟨setupDesktop none [], [signerCall, signerCall]⟩ :=
    .start (.intro _)
  constructor
  · refine .head hstart (.head hagain ?_)
    -- both calls read the store, and both find it empty
    refine .head (.go [] [signerCall] (@resume_signerCall _ ada.stored _ _) (hcondition _ _ _ _)) ?_
    refine .head (.go [signerReads] [] (@resume_signerCall _ ben.stored _ _) (hcondition _ _ _ _)) ?_
    refine .head (.go [] [signerReads] (@resume_signerReads _ ada.stored _) (hcondition _ _ _ _)) ?_
    refine .head (.go [signerFoundNone] [] (@resume_signerReads _ ben.stored _)
      (hcondition _ _ _ _)) ?_
    -- one of them writes its identity and returns, the other still has to write
    refine .head (.go [] [signerFoundNone] (@resume_signerFoundNone _ ada.stored _ _)
      (hcondition _ _ _ _)) ?_
    refine .head (.go [signerWrites ada.stored] [] (@resume_signerFoundNone _ ben.stored _ _)
      (hcondition _ _ _ _)) ?_
    refine .head (.go [] [signerWrites ben.stored] (@resume_signerWrites _ ada.stored _ _)
      (hcondition _ _ _ _)) ?_
    exact .single (.go [] [signerWrites ben.stored] (@resume_signerWritten _ ada.stored _ _)
      (hcondition _ _ _ _))
  · refine .head (.alone (@resume_signerWrites _ ben.stored _ _) (hcondition _ _ _ _)) ?_
    exact .single (.alone (@resume_signerWritten _ ben.stored _ _) (hcondition _ _ _ _))

end Signers

/-- Transparent signatures are the bytes of their key. -/
theorem verifiesOwnKeyOnly_transparent : VerifiesOwnKeyOnly transparentCrypto := by
  intro keys publicKey payload hsigned
  obtain ⟨bytes, hdecode, hverify⟩ := hsigned
  obtain ⟨own, hownDecode, hownVerify⟩ := keys.complete payload
  obtain rfl : bytes = own := Option.some.inj (hdecode.symm.trans hownDecode)
  simp only [transparentCrypto, decide_eq_true_eq] at hverify hownVerify
  exact hverify.symm.trans hownVerify

/-! ## A setup beside a signer -/

/-- The desktop while a setup is in progress. -/
def settingUp (root : Option (StoredMemberIdentity transparentCrypto)) (records : List JsonValue)
    (produced : List (Produced transparentCrypto)) : SetupService transparentCrypto where
  identityStore := root.map fun root ↦ ⟨root, []⟩
  records := records
  identitySetupInProgress := true
  produced := produced

/-- A setup that waits for the identity store. -/
def setupReads : SetupStage transparentCrypto := .readIdentity (.createAndAnnounce "garden")

/-- A signer creates Ada's identity. A setup that began meanwhile reads the store once the identity is written, and
declares the feed with it. -/
theorem root_identity_kept_ada :
    ∃ declaration record,
      Run BeginsSetup (resumeSetup compare ada.feedPublicKey) (CreatesAlone transparentCrypto)
        ⟨emptyService [], []⟩ ⟨settingUp (some ada.stored) [] [], [setupReads, signerWritten ada.stored]⟩ ∧
      Run BeginsSetup (resumeSetup compare ada.feedPublicKey) (CreatesAlone transparentCrypto)
        ⟨settingUp (some ada.stored) [] [], [setupReads, signerWritten ada.stored]⟩
        ⟨settingUp (some ada.stored) [record] [.signer (signerOf ada.stored), .declaration declaration],
          [.appended true ⟨ada.stored, []⟩ declaration]⟩ ∧
      ∀ produced ∈ [.signer (signerOf ada.stored), .declaration declaration],
        Uses ada.stored produced := by
  obtain ⟨declaration, record, -, hcreate, hrecord, -⟩ :=
    declare_spec ada.stored (by decide : Text.blank "garden" = false) ada.hypercoreKey noon.2
  let context := setupContext ada.stored
  let stored : IdentityMaterial transparentCrypto := ⟨ada.stored, []⟩
  let signer : Produced transparentCrypto := .signer (signerOf ada.stored)
  have hclear {stage : SetupStage transparentCrypto} {service : SetupService transparentCrypto}
      {others : List (SetupStage transparentCrypto)} (hstage : ∀ call, stage ≠ .readIdentity call) :
      CreatesAlone transparentCrypto context stage service others :=
    fun hread ↦ hread.elim fun call hsame ↦ absurd hsame (hstage call)
  have hfirst : Run BeginsSetup (resumeSetup compare ada.feedPublicKey) (CreatesAlone transparentCrypto)
      ⟨emptyService [], []⟩
      ⟨settingUp (some ada.stored) [] [], [setupReads, signerWritten ada.stored]⟩ := by
    refine .head (.start (.intro .communityGenesisSigner)) ?_
    refine .head (.alone (@resume_signerCall _ ada.stored none []) (hclear (by simp))) ?_
    refine .head (.alone (@resume_signerReads _ ada.stored []) fun _ _ other hother ↦
      absurd hother List.not_mem_nil) ?_
    refine .head (.alone (@resume_signerFoundNone _ ada.stored none [])
      (hclear (by simp [signerFoundNone]))) ?_
    refine .head (.start (.intro .createAndAnnounce)) ?_
    have hbegins : resumeSetup compare ada.feedPublicKey context (.called .createAndAnnounce)
        (setupDesktop none []) = (some setupReads, settingUp none [] []) := rfl
    refine .head (.go [] [signerWrites ada.stored] hbegins (hclear (by simp))) ?_
    have hwrites : resumeSetup compare ada.feedPublicKey context (signerWrites ada.stored)
        (settingUp none [] []) = (some (signerWritten ada.stored), settingUp (some ada.stored) [] []) := rfl
    exact .single (.go [setupReads] [] hwrites (hclear (by simp [signerWrites])))
  have hsecond : Run BeginsSetup (resumeSetup compare ada.feedPublicKey) (CreatesAlone transparentCrypto)
      ⟨settingUp (some ada.stored) [] [], [setupReads, signerWritten ada.stored]⟩
      ⟨settingUp (some ada.stored) [record.toJson] [signer, .declaration declaration],
        [.appended true stored declaration]⟩ := by
    -- the store is not empty any more
    have hreads : resumeSetup compare ada.feedPublicKey context setupReads
        (settingUp (some ada.stored) [] []) =
          (some (.identityRead (some stored) (.createAndAnnounce "garden")),
            settingUp (some ada.stored) [] []) := rfl
    refine .head (.go [] [signerWritten ada.stored] hreads fun _ hnone ↦ absurd hnone (by
      simp [settingUp])) ?_
    have huses : resumeSetup compare ada.feedPublicKey context
        (.identityRead (some stored) (.createAndAnnounce "garden")) (settingUp (some ada.stored) [] []) =
          (some (.readRecords stored "garden"), settingUp (some ada.stored) [] []) :=
      resumeSetup_of_ok (outcome_check_bind (assertStoredIdentity_root ada.stored))
    refine .head (.go [] [signerWritten ada.stored] huses (hclear (by simp))) ?_
    have hreturns : resumeSetup compare ada.feedPublicKey context (signerWritten ada.stored)
        (settingUp (some ada.stored) [] []) = (none, settingUp (some ada.stored) [] [signer]) :=
      resumeSetup_of_ok (outcome_check_bind (assertStoredIdentity_root ada.stored))
    refine .head (.go [.readRecords stored "garden"] [] hreturns (hclear (by simp [signerWritten]))) ?_
    have hrecords : resumeSetup compare ada.feedPublicKey context (.readRecords stored "garden")
        (settingUp (some ada.stored) [] [signer]) =
          (some (.recordsRead [] stored "garden"), settingUp (some ada.stored) [] [signer]) := rfl
    refine .head (.alone hrecords (hclear (by simp))) ?_
    have hdeclares : resumeSetup compare ada.feedPublicKey context (.recordsRead [] stored "garden")
        (settingUp (some ada.stored) [] [signer]) =
          (some (.append record.toJson stored declaration), settingUp (some ada.stored) [] [signer]) :=
      resumeSetup_of_ok ((outcome_check_bind hcreate).trans (outcome_check_bind hrecord))
    refine .head (.alone hdeclares (hclear (by simp))) ?_
    have happends : resumeSetup compare ada.feedPublicKey context
        (.append record.toJson stored declaration) (settingUp (some ada.stored) [] [signer]) =
          (some (.appended true stored declaration),
            settingUp (some ada.stored) [record.toJson] [signer, .declaration declaration]) := rfl
    exact .single (.alone happends (hclear (by simp)))
  obtain ⟨hkept, huses⟩ := root_identity_kept verifiesOwnKeyOnly_transparent hfirst hsecond
  refine ⟨declaration, record.toJson, hfirst, hsecond, fun produced hproduced ↦ ?_⟩
  obtain ⟨found, hfound, hofRoot⟩ := huses produced hproduced
  obtain rfl : stored = found := Option.some.inj ((hkept stored rfl).symm.trans hfound)
  exact hofRoot

/-- A stored root identity is replaced, and a signer of the replaced key has been returned. -/
theorem root_identity_replaced :
    ∃ before after : System (SetupStage transparentCrypto) (SetupService transparentCrypto),
      Run BeginsSetup (resumeSetup compare ada.feedPublicKey) (fun _ _ _ _ ↦ True)
        ⟨emptyService [], []⟩ before ∧
      Run BeginsSetup (resumeSetup compare ada.feedPublicKey) (fun _ _ _ _ ↦ True) before after ∧
      after.pending = [] ∧ before.shared.identityStore = some ⟨ada.stored, []⟩ ∧
      after.shared.identityStore = some ⟨ben.stored, []⟩ ∧ ada.memberId ≠ ben.memberId ∧
      .signer (signerOf ada.stored) ∈ after.shared.produced := by
  obtain ⟨hfirst, hsecond⟩ := @signers_run ada.feedPublicKey (fun _ _ _ _ ↦ True)
    fun _ _ _ _ ↦ trivial
  exact ⟨_, _, hfirst, hsecond, rfl, rfl, rfl, by decide +kernel, List.mem_cons_self⟩

end Garden

end PeerHours.Exchanges
