import PeerHours.Desktop.IdentitySetup
import PeerHours.Identity.Transparent

/-!
# The root identity across interleaved setups

While no call reads an empty identity store beside another one that found it empty and has still to write, the
root identity that is written first stays, and all that the calls hand out is of its key.
-/

namespace PeerHours.Desktop

open Checked Interleaving Json Stateful
open TimebankIdentity
open TimebankRecords

variable {crypto : Crypto}

/-! ## Declarations and announcements -/

/-- Signatures verify only under the public key of the pair that made them. -/
def VerifiesOwnKeyOnly (crypto : Crypto) : Prop :=
  ∀ (keys : StoredMemberIdentity crypto) (publicKey : Ed25519PublicKey crypto) (payload : Buffer),
    SignedBy publicKey payload (keys.sign payload) →
    crypto.exportSpkiDer publicKey.key = crypto.exportSpkiDer keys.rootPublicKey.key

/-- What a call hands out is of the root key. -/
def Uses (root : StoredMemberIdentity crypto) : Produced crypto → Prop
  | .signer signer => signer = ⟨root.memberId, root.rootPublicKey.publicKeyPem, root.sign⟩
  | .declaration declaration => declaration.rootPublicKey = root.rootPublicKey
  | .announcement announcement =>
      crypto.exportSpkiDer announcement.declaration.rootPublicKey.key =
          crypto.exportSpkiDer root.rootPublicKey.key ∧
        announcement.signature = root.sign (canonicalMemberFeedAnnouncementPayload
          announcement.declaration announcement.announcedAt announcement.expiresAt)
  | .status status => ∀ memberId ∈ status.memberId, memberId = root.memberId

/-- The declaration is created again from its own object. -/
def Redeclares (declaration : MemberFeedDeclaration crypto) : Prop :=
  createMemberFeedDeclaration crypto declaration.toJson = .ok declaration

/-- A created declaration is of the root key that signs it. -/
theorem createDeclaration_spec {stored : StoredMemberIdentity crypto}
    {communityId feedPublicKey occurredAt : String} {declaration : MemberFeedDeclaration crypto}
    (h : createDeclaration stored communityId feedPublicKey occurredAt = .ok declaration) :
    declaration.rootPublicKey = stored.rootPublicKey ∧ Redeclares declaration := by
  have hroot := (createMemberFeedDeclaration_eq_ok.mp h).rootPublicKey
  have hpem : stored.rootPublicKey.publicKeyPem = declaration.rootPublicKey.publicKeyPem :=
    JsonValue.str.inj (Option.some.inj hroot)
  exact ⟨Ed25519PublicKey.ext hpem.symm, createMemberFeedDeclaration_toJson h⟩

theorem redeclares_of_existingDeclaration {communityId feedPublicKey : String}
    {records : List JsonValue} {declaration : MemberFeedDeclaration crypto}
    (h : existingDeclaration crypto communityId feedPublicKey records = some declaration) :
    Redeclares declaration := by
  obtain ⟨record, -, hread⟩ := List.exists_of_findSome?_eq_some h
  unfold readOwnDeclaration at hread
  split at hread
  · exact absurd hread nofun
  · split at hread
    · exact absurd hread nofun
    · rename_i found hfound
      split at hread
      · obtain rfl := Option.some.inj hread
        obtain ⟨envelope, henvelope, hrest⟩ := bind_eq_ok.mp hfound
        obtain ⟨hdescribes, -⟩ := (memberFeedDeclarationFromRecord_eq_ok henvelope).mp hfound
        exact createMemberFeedDeclaration_toJson (createMemberFeedDeclaration_eq_ok.mpr hdescribes)
      · exact absurd hread nofun

/-- An announcement is created only of a declaration of the root key that signs it. -/
theorem uses_of_createAnnouncement (hverifies : VerifiesOwnKeyOnly crypto)
    {context : SetupContext crypto} {stored : IdentityMaterial crypto}
    {declaration : MemberFeedDeclaration crypto} {announcement : MemberFeedAnnouncement crypto}
    (hdeclares : Redeclares declaration)
    (h : createAnnouncement context stored declaration = .ok announcement) :
    Uses stored.root (.announcement announcement) := by
  simp only [createAnnouncement, createMemberFeedAnnouncement, bind_eq_ok, require_eq_ok,
    assertCanonicalTimestamp_eq_ok] at h
  obtain ⟨_, -, created, hcreated, announcedAt, hannounced, expiresAt, hexpires, h⟩ := h
  have hsame : created = declaration := Except.ok.inj (hcreated.symm.trans hdeclares)
  subst hsame
  have hnow : announcedAt.1 = context.now.1 := JsonValue.str.inj (Option.some.inj hannounced).symm
  have hlater : expiresAt.1 = context.hourLater.1 := JsonValue.str.inj (Option.some.inj hexpires).symm
  split at h
  · split at h
    · obtain ⟨signature, hsignature, h⟩ := bind_eq_ok.mp h
      have hsign : signature = stored.root.sign (canonicalMemberFeedAnnouncementPayload created
          announcedAt expiresAt) := by
        rw [hnow, hlater]
        exact (Except.ok.inj hsignature).symm
      split at h
      · rename_i hsigned
        obtain rfl := pure_eq_ok.mp h
        rw [hsign] at hsigned
        exact ⟨hverifies stored.root created.rootPublicKey _ hsigned, hsign⟩
      · cases h
    · cases h
  · cases h

/-! ## One step -/

/-- The call found no identity and has still to write the one that it creates. -/
def SetupStage.creates : SetupStage crypto → Prop
  | .identityRead none _ | .writeIdentity _ _ => True
  | _ => False

/-- What a waiting call relies on. -/
def SetupStage.Waits (service : SetupService crypto) : SetupStage crypto → Prop
  | .called _ | .readIdentity _ | .finishing => True
  | .identityRead found _ => service.identityStore = found
  | .writeIdentity _ _ => service.identityStore = none
  | .identityWritten stored _ | .readRecords stored _ | .recordsRead _ stored _
  | .readStatusRecords stored _ => service.identityStore = some stored
  | .append _ stored declaration | .appended _ stored declaration =>
      service.identityStore = some stored ∧ declaration.rootPublicKey = stored.root.rootPublicKey ∧
        Redeclares declaration
  | .readStatus _ => service.identityStore ≠ none
  | .statusRead found _ => service.identityStore = found ∧ found ≠ none

/-- Where a call waits after a step that went on or stopped. -/
def SetupStage.nextOf (stage : SetupStage crypto) :
    Except String (Option (SetupStage crypto)) → Option (SetupStage crypto)
  | .ok next => next
  | .error _ => stage.stopped

/-- What one step of a call does: it writes the store only from where it waits to, what it hands out is of the
stored root key, and it creates an identity only after it found none. -/
structure SetupStep (service : SetupService crypto) (stage : SetupStage crypto)
    (next : Option (SetupStage crypto)) (after : SetupService crypto) : Prop where
  store : after.identityStore = service.identityStore ∨
    ∃ stored call, stage = .writeIdentity stored call ∧ after.identityStore = some stored
  produced : ∀ produced ∈ after.produced, produced ∈ service.produced ∨
    ∃ stored, after.identityStore = some stored ∧ Uses stored.root produced
  waits : ∀ waiting ∈ next, waiting.Waits after
  creates : ∀ waiting ∈ next, waiting.creates →
    stage.creates ∨ (∃ call, stage = .readIdentity call) ∧ service.identityStore = none

section Steps

variable {service after : SetupService crypto} {stage : SetupStage crypto}

/-- A step that leaves the store and what was handed out. -/
theorem SetupStep.goes {next : SetupStage crypto} (hstore : after.identityStore = service.identityStore)
    (hproduced : after.produced = service.produced) (hwaits : next.Waits after)
    (hcreates : ¬ next.creates) : SetupStep service stage (some next) after where
  store := .inl hstore
  produced _ hmem := .inl (hproduced ▸ hmem)
  waits _ hmem := Option.some.inj hmem ▸ hwaits
  creates _ hmem hcreating := absurd (Option.some.inj hmem ▸ hcreating) hcreates

/-- A step that hands out what is of the stored root key. -/
theorem SetupStep.produces {next : Option (SetupStage crypto)} {stored : IdentityMaterial crypto}
    (hstored : service.identityStore = some stored)
    (hstore : after.identityStore = service.identityStore)
    (hproduced : ∀ produced ∈ after.produced,
      produced ∈ service.produced ∨ Uses stored.root produced)
    (hnext : ∀ waiting ∈ next, waiting.Waits after ∧ ¬ waiting.creates) :
    SetupStep service stage next after where
  store := .inl hstore
  produced other hmem := (hproduced other hmem).imp id fun huses ↦ ⟨stored, hstore.trans hstored, huses⟩
  waits waiting hmem := (hnext waiting hmem).1
  creates waiting hmem hcreating := absurd hcreating (hnext waiting hmem).2

/-- What was handed out before, or is handed out now. -/
theorem uses_concat {root : StoredMemberIdentity crypto} {before : List (Produced crypto)}
    {new : Produced crypto} (huses : Uses root new) :
    ∀ produced ∈ before ++ [new], produced ∈ before ∨ Uses root produced := by
  intro produced hmem
  cases List.mem_append.mp hmem with
  | inl hold => exact .inl hold
  | inr hnew => exact .inr (List.mem_singleton.mp hnew ▸ huses)

/-- A call that stops only has to finish. -/
theorem SetupStep.stops : SetupStep service stage stage.stopped service := by
  have hfinishing : ∀ waiting ∈ stage.stopped, waiting = .finishing := by
    intro waiting hmem
    cases stage <;> simp_all [SetupStage.stopped]
  refine ⟨.inl rfl, fun _ hmem ↦ .inl hmem, ?_, ?_⟩
  · intro waiting hmem
    rw [hfinishing waiting hmem]
    trivial
  · intro waiting hmem hcreating
    rw [hfinishing waiting hmem] at hcreating
    exact absurd hcreating not_false

/-- The step of a call that goes on from here. -/
def StepsFrom (stage : SetupStage crypto) (action : SetupAction crypto)
    (service : SetupService crypto) : Prop :=
  Ensures action service fun result after ↦ SetupStep service stage (stage.nextOf result) after

variable {context : SetupContext crypto} {stored : IdentityMaterial crypto}

theorem beginSetup_step {operation : SetupOperation} :
    StepsFrom (.called operation) (beginSetup context operation) service := by
  unfold StepsFrom
  cases operation with
  | communityGenesisSigner =>
      unfold beginSetup
      exact Ensures.check_bind (fun _ ↦ SetupStep.stops) fun _ _ ↦
        SetupStep.goes rfl rfl trivial not_false
  | createAndAnnounce =>
      unfold beginSetup
      refine ensures_get_bind.mpr ?_
      split
      · exact ⟨.inl rfl, fun _ hmem ↦ .inl hmem, nofun, nofun⟩
      · refine ensures_modify_bind.mpr ?_
        dsimp only
        split
        · exact SetupStep.goes rfl rfl trivial not_false
        · exact SetupStep.goes rfl rfl trivial not_false

theorem useIdentity_step {call : SetupCall} (hstored : service.identityStore = some stored) :
    StepsFrom stage (useIdentity stored call) service := by
  unfold StepsFrom
  cases call with
  | communityGenesisSigner =>
      exact Ensures.check_bind (fun _ ↦ SetupStep.stops) fun _ _ ↦
        SetupStep.produces hstored rfl (uses_concat rfl) nofun
  | createAndAnnounce communityId =>
      exact Ensures.check_bind (fun _ ↦ SetupStep.stops) fun _ _ ↦
        SetupStep.goes rfl rfl hstored not_false

theorem announce_step (hverifies : VerifiesOwnKeyOnly crypto)
    {declaration : MemberFeedDeclaration crypto} (hstored : service.identityStore = some stored)
    (hdeclares : Redeclares declaration) :
    StepsFrom stage (announce context stored declaration) service := by
  unfold StepsFrom announce
  refine Ensures.check_bind (fun _ ↦ SetupStep.stops) fun announcement hannouncement ↦ ?_
  refine Ensures.check_bind (fun _ ↦ SetupStep.stops) fun _ _ ↦ ?_
  have huses := uses_of_createAnnouncement hverifies hdeclares hannouncement
  refine ensures_modify_bind.mpr ?_
  split
  · refine SetupStep.produces hstored rfl (fun produced hmem ↦ ?_) fun waiting hmem ↦ ?_
    · have hunavailable : Uses stored.root
          (.status ⟨.unavailable, none, context.communityId, []⟩ : Produced crypto) := nofun
      cases uses_concat hunavailable produced hmem with
      | inl hold => exact uses_concat huses produced hold
      | inr hnew => exact .inr hnew
    · exact Option.some.inj hmem ▸ ⟨trivial, not_false⟩
  · refine SetupStep.produces hstored rfl (uses_concat huses) fun waiting hmem ↦ ?_
    have hwaits : service.identityStore ≠ none := by
      rw [hstored]
      nofun
    exact Option.some.inj hmem ▸ ⟨hwaits, not_false⟩

theorem declareIdentity_step (hverifies : VerifiesOwnKeyOnly crypto) {feedPublicKey communityId : String}
    {records : List JsonValue} (hstored : service.identityStore = some stored) :
    StepsFrom stage (declareIdentity feedPublicKey context records stored communityId) service := by
  unfold declareIdentity
  split
  · rename_i declaration hexisting
    exact announce_step hverifies hstored (redeclares_of_existingDeclaration hexisting)
  · refine Ensures.check_bind (fun _ ↦ SetupStep.stops) fun declaration hdeclaration ↦ ?_
    refine Ensures.check_bind (fun _ ↦ SetupStep.stops) fun record _ ↦ ?_
    exact SetupStep.goes rfl rfl ⟨hstored, createDeclaration_spec hdeclaration⟩ not_false

/-- Each step of a call does what its stage allows. -/
theorem goOnSetup_step (hverifies : VerifiesOwnKeyOnly crypto)
    {localeCompare : String → String → Ordering} {feedPublicKey : String}
    (hwaits : stage.Waits service) :
    StepsFrom stage (goOnSetup localeCompare feedPublicKey context stage) service := by
  cases stage with
  | called operation => exact beginSetup_step
  | readIdentity call =>
      refine ⟨.inl rfl, fun _ hmem ↦ .inl hmem, fun waiting hmem ↦ ?_, fun waiting hmem hcreates ↦ ?_⟩
      · exact Option.some.inj hmem ▸ rfl
      · refine .inr ⟨⟨call, rfl⟩, ?_⟩
        rw [← Option.some.inj hmem] at hcreates
        cases hstored : service.identityStore with
        | none => rfl
        | some stored => simp [SetupStage.creates, hstored] at hcreates
  | identityRead found call =>
      cases found with
      | none =>
          refine ⟨.inl rfl, fun _ hmem ↦ .inl hmem, fun waiting hmem ↦ ?_, fun _ _ _ ↦ .inl trivial⟩
          exact Option.some.inj hmem ▸ hwaits
      | some stored => exact useIdentity_step hwaits
  | writeIdentity stored call =>
      refine ⟨.inr ⟨stored, call, rfl, rfl⟩, fun _ hmem ↦ .inl hmem, fun waiting hmem ↦ ?_,
        fun waiting hmem hcreates ↦ ?_⟩
      · exact Option.some.inj hmem ▸ rfl
      · rw [← Option.some.inj hmem] at hcreates
        exact absurd hcreates not_false
  | identityWritten stored call => exact useIdentity_step hwaits
  | readRecords stored communityId => exact SetupStep.goes rfl rfl hwaits not_false
  | recordsRead records stored communityId => exact declareIdentity_step hverifies hwaits
  | append record stored declaration =>
      have huses : Uses stored.root (.declaration declaration) := hwaits.2.1
      simp only [StepsFrom, goOnSetup]
      split
      · refine SetupStep.produces hwaits.1 rfl (uses_concat huses) fun waiting hmem ↦ ?_
        exact Option.some.inj hmem ▸ ⟨hwaits, not_false⟩
      · exact SetupStep.goes rfl rfl hwaits not_false
  | appended succeeded stored declaration =>
      simp only [goOnSetup]
      split
      · exact announce_step hverifies hwaits.1 hwaits.2.2
      · exact SetupStep.stops
  | readStatus communityId => exact SetupStep.goes rfl rfl ⟨rfl, hwaits⟩ not_false
  | statusRead found communityId =>
      cases found with
      | none => exact absurd rfl hwaits.2
      | some stored =>
          exact Ensures.check_bind (fun _ ↦ SetupStep.stops) fun _ _ ↦
            SetupStep.goes rfl rfl hwaits.1 not_false
  | readStatusRecords stored communityId =>
      refine SetupStep.produces hwaits rfl (uses_concat fun memberId hmem ↦ ?_) fun waiting hmem ↦ ?_
      · exact (Option.some.inj hmem).symm
      · exact Option.some.inj hmem ▸ ⟨trivial, not_false⟩
  | finishing => exact ⟨.inl rfl, fun _ hmem ↦ .inl hmem, nofun, nofun⟩

theorem resumeSetup_step (hverifies : VerifiesOwnKeyOnly crypto)
    {localeCompare : String → String → Ordering} {feedPublicKey : String}
    (hwaits : stage.Waits service) :
    SetupStep service stage (resumeSetup localeCompare feedPublicKey context stage service).1
      (resumeSetup localeCompare feedPublicKey context stage service).2 := by
  have hstep := @goOnSetup_step _ service stage context hverifies localeCompare feedPublicKey hwaits
  unfold StepsFrom Ensures at hstep
  unfold resumeSetup
  cases hresult : outcome (goOnSetup localeCompare feedPublicKey context stage) service with
  | mk result after =>
      rw [hresult] at hstep
      cases result <;> exact hstep

end Steps

/-! ## Runs -/

/-- A call reads an empty store only beside calls that have no identity left to write. -/
def CreatesAlone (crypto : Crypto) :
    Condition (SetupContext crypto) (SetupStage crypto) (SetupService crypto) :=
  fun _ stage service others ↦
    (∃ call, stage = .readIdentity call) → service.identityStore = none →
      ∀ other ∈ others, ¬ other.creates

/-- The calls that may start. -/
inductive BeginsSetup : SetupStage crypto → Prop where
  | intro (operation : SetupOperation) : BeginsSetup (.called operation)

variable (crypto) in
/-- An identity that is kept stays in the store, what was handed out is of the stored root key, and one call at
most creates an identity. -/
def rootInvariant (kept : Option (IdentityMaterial crypto)) :
    Invariant (SetupStage crypto) (SetupService crypto) where
  shared service := (∀ stored, kept = some stored → service.identityStore = some stored) ∧
    ∀ produced ∈ service.produced, ∃ stored, service.identityStore = some stored ∧
      Uses stored.root produced
  waiting service stage := stage.Waits service
  apart left right := ¬ (left.creates ∧ right.creates)

/-- Calls that create nothing do not rely on an empty store. -/
theorem waits_of_written {service after : SetupService crypto} {stage : SetupStage crypto}
    (hempty : service.identityStore = none) (hwaits : stage.Waits service)
    (hcreates : ¬ stage.creates) : stage.Waits after := by
  cases stage with
  | called | readIdentity | finishing => trivial
  | identityRead found call =>
      cases found with
      | none => exact absurd trivial hcreates
      | some stored => exact absurd (hempty.symm.trans hwaits) nofun
  | writeIdentity => exact absurd trivial hcreates
  | identityWritten | readRecords | recordsRead | readStatusRecords =>
      exact absurd (hempty.symm.trans hwaits) nofun
  | append | appended => exact absurd (hempty.symm.trans hwaits.1) nofun
  | readStatus => exact absurd hempty hwaits
  | statusRead found communityId => exact absurd (hwaits.1.symm.trans hempty) hwaits.2

theorem waits_of_store {service after : SetupService crypto} {stage : SetupStage crypto}
    (hstore : after.identityStore = service.identityStore) (hwaits : stage.Waits service) :
    stage.Waits after := by
  cases stage <;> simp only [SetupStage.Waits, hstore] at hwaits ⊢ <;> exact hwaits

theorem rootInvariant_kept (hverifies : VerifiesOwnKeyOnly crypto)
    {localeCompare : String → String → Ordering} {feedPublicKey : String}
    {kept : Option (IdentityMaterial crypto)} :
    (rootInvariant crypto kept).Kept BeginsSetup (resumeSetup localeCompare feedPublicKey)
      (CreatesAlone crypto) where
  symm hapart hboth := hapart hboth.symm
  start shared stage hentry := by
    cases hentry
    exact ⟨trivial, fun other hboth ↦ hboth.1⟩
  resumed context stage service others hcondition hshared hwaits hothers := by
    have hstep := @resumeSetup_step _ service stage context hverifies localeCompare feedPublicKey hwaits
    cases hstep.store with
    | inl hstore =>
        refine ⟨⟨fun stored hkept ↦ hstore.trans (hshared.1 stored hkept), fun produced hmem ↦ ?_⟩,
          fun next hnext ↦ ⟨hstep.waits next hnext, fun other hother hboth ↦ ?_⟩,
          fun other hother ↦ waits_of_store hstore (hothers other hother).1⟩
        · cases hstep.produced produced hmem with
          | inl hold => exact hstore ▸ hshared.2 produced hold
          | inr hnew => exact hnew
        · cases hstep.creates next hnext hboth.1 with
          | inl hcreates => exact (hothers other hother).2 ⟨hcreates, hboth.2⟩
          | inr hread => exact hcondition hread.1 hread.2 other hother hboth.2
    | inr hwrites =>
        obtain ⟨stored, call, rfl, hstore⟩ := hwrites
        have hempty : service.identityStore = none := hwaits
        have hothersWait (other : SetupStage crypto) (hother : other ∈ others) : ¬ other.creates :=
          fun hcreates ↦ (hothers other hother).2 ⟨trivial, hcreates⟩
        refine ⟨⟨fun kept hkept ↦ ?_, fun produced hmem ↦ ?_⟩, fun next hnext ↦
          ⟨hstep.waits next hnext, fun other hother hboth ↦ hothersWait other hother hboth.2⟩,
          fun other hother ↦ waits_of_written hempty (hothers other hother).1 (hothersWait other hother)⟩
        · exact absurd (hempty.symm.trans (hshared.1 kept hkept)) nofun
        · cases hstep.produced produced hmem with
          | inl hold =>
              obtain ⟨earlier, hearlier, -⟩ := hshared.2 produced hold
              exact absurd (hempty.symm.trans hearlier) nofun
          | inr hnew => exact hnew

/-- The service before the first call, with the records that are in its feed. -/
def emptyService (records : List JsonValue) : SetupService crypto where
  identityStore := none
  records := records
  identitySetupInProgress := false
  produced := []

end PeerHours.Desktop
