import PeerHours.Desktop.DeclaredFeeds
import PeerHours.Desktop.GuardedAppends
import PeerHours.Desktop.RootIdentity
import PeerHours.Desktop.ServiceEffects
import PeerHours.Records.Encoding
import PeerHours.Settlement.Rules

/-!
# Guarded appends across interleaved calls

Whatever the order in which acknowledgements and setups give way to each other, and whichever of their reads,
writes and appends fail, the feed takes each acknowledgement and each declaration at most once, and each guard
is held exactly while a call that took it is pending.
-/

namespace PeerHours.Desktop

open Checked Interleaving Json Stateful
open TimebankDomain (ExchangeProposal)
open TimebankIdentity
open TimebankRecords
open TimebankSettlement (SettlementAcknowledgement createSettlementAcknowledgement)

variable {crypto : Crypto}

/-! ## What a feed holds -/

/-- The id of the acknowledgement that a record carries. -/
def acknowledgementId? (record : JsonValue) : Option String :=
  (decodeSettlementAcknowledgementRecord record).toOption.map fun acknowledgement ↦ acknowledgement.id

/-- The ids of the acknowledgements that a feed holds. -/
def acknowledgementIds (records : List JsonValue) : List String :=
  records.filterMap acknowledgementId?

variable (crypto) in
/-- The declaration that a record carries. -/
def declaration? (record : JsonValue) : Option (MemberFeedDeclaration crypto) :=
  (memberFeedDeclarationFromRecord crypto record).toOption

/-- The community and the feed of a declaration. -/
def declaredFeed (declaration : MemberFeedDeclaration crypto) : String × JsonValue :=
  (declaration.communityId, declaration.feedPublicKey)

variable (crypto) in
/-- The declarations that a feed holds. -/
def declarations (records : List JsonValue) : List (MemberFeedDeclaration crypto) :=
  records.filterMap (declaration? crypto)

variable (crypto) in
/-- The communities and feeds that the declarations of a feed are for. -/
def declaredFeeds (records : List JsonValue) : List (String × JsonValue) :=
  (declarations crypto records).map declaredFeed

/-- The feed was searched for the acknowledgement. -/
theorem hasSettlementAcknowledgement_eq_false {records : List JsonValue} {acknowledgementId : String} :
    hasSettlementAcknowledgement records acknowledgementId = false ↔
      acknowledgementId ∉ acknowledgementIds records := by
  simp only [hasSettlementAcknowledgement, List.any_eq_false, acknowledgementIds, List.mem_filterMap,
    not_exists, not_and]
  refine forall₂_congr fun record _ ↦ ?_
  cases hdecode : decodeSettlementAcknowledgementRecord record with
  | error message => simp [acknowledgementId?, hdecode, Except.toOption]
  | ok acknowledgement => simp [acknowledgementId?, hdecode, Except.toOption]

/-- A record that carries a declaration names its kind. -/
theorem kind_of_declaration? {record : JsonValue} {declaration : MemberFeedDeclaration crypto}
    (h : memberFeedDeclarationFromRecord crypto record = .ok declaration) :
    record.field "kind" = some (.str memberFeedDeclarationRecordKind) := by
  obtain ⟨envelope, henvelope, -⟩ := bind_eq_ok.mp h
  obtain ⟨-, hroutes⟩ := (memberFeedDeclarationFromRecord_eq_ok henvelope).mp h
  rw [(createRecordEnvelope_eq_ok.mp henvelope).kind, hroutes.kind]

/-- The feed was searched for a declaration of the community and the feed. -/
theorem existingDeclaration_eq_none {communityId feedPublicKey : String} {records : List JsonValue} :
    existingDeclaration crypto communityId feedPublicKey records = none ↔
      (communityId, .str feedPublicKey) ∉ declaredFeeds crypto records := by
  have hread (record : JsonValue) : readOwnDeclaration crypto communityId feedPublicKey record = none ↔
      ∀ declaration, declaration? crypto record = some declaration →
        declaredFeed declaration ≠ (communityId, .str feedPublicKey) := by
    unfold readOwnDeclaration declaration?
    cases hdecode : memberFeedDeclarationFromRecord crypto record with
    | error message => simp [Except.toOption]
    | ok declaration =>
        simp [Except.toOption, kind_of_declaration? hdecode, declaredFeed]
  simp only [existingDeclaration, List.findSome?_eq_none_iff, hread, declaredFeeds, declarations,
    List.mem_map, List.mem_filterMap, not_exists, not_and]
  constructor
  · intro h declaration hrecord
    obtain ⟨record, hmem, hcarries⟩ := hrecord
    exact h record hmem declaration hcarries
  · intro h record hmem declaration hcarries
    exact h declaration ⟨record, hmem, hcarries⟩

/-- A declaration that was found is in the feed. -/
theorem mem_of_existingDeclaration {communityId feedPublicKey : String} {records : List JsonValue}
    {declaration : MemberFeedDeclaration crypto}
    (h : existingDeclaration crypto communityId feedPublicKey records = some declaration) :
    declaration ∈ declarations crypto records ∧
      declaredFeed declaration = (communityId, .str feedPublicKey) := by
  obtain ⟨record, hmem, hread⟩ := List.exists_of_findSome?_eq_some h
  unfold readOwnDeclaration at hread
  split at hread
  · exact absurd hread (by simp)
  · split at hread
    · exact absurd hread (by simp)
    · rename_i found hfound
      split at hread
      · rename_i hsame
        obtain rfl := Option.some.inj hread
        refine ⟨List.mem_filterMap.mpr ⟨record, hmem, ?_⟩, Prod.ext hsame.1 hsame.2⟩
        simp [declaration?, hfound, Except.toOption]
      · exact absurd hread (by simp)

@[simp] theorem acknowledgementIds_append (records : List JsonValue) (record : JsonValue) :
    acknowledgementIds (records ++ [record]) =
      acknowledgementIds records ++ (acknowledgementId? record).toList := by
  cases h : acknowledgementId? record <;> simp [acknowledgementIds, h]

@[simp] theorem declarations_append (records : List JsonValue) (record : JsonValue) :
    declarations crypto (records ++ [record]) =
      declarations crypto records ++ (declaration? crypto record).toList := by
  cases h : declaration? crypto record <;> simp [declarations, h]

@[simp] theorem declaredFeeds_append (records : List JsonValue) (record : JsonValue) :
    declaredFeeds crypto (records ++ [record]) =
      declaredFeeds crypto records ++ ((declaration? crypto record).map declaredFeed).toList := by
  cases h : declaration? crypto record <;> simp [declaredFeeds, h]

/-! ## Records to append -/

theorem acknowledgementId?_of_kind {record : JsonValue} {envelope : RecordEnvelope}
    (hcreated : createRecordEnvelope record = .ok envelope)
    (hkind : envelope.kind = memberFeedDeclarationRecordKind) : acknowledgementId? record = none := by
  cases hdecode : decodeSettlementAcknowledgementRecord record with
  | error message => simp [acknowledgementId?, hdecode, Except.toOption]
  | ok acknowledgement =>
      have hcarries := (RecordKind.decode_eq_ok hcreated).mp hdecode
      exact absurd (hcarries.kindName.symm.trans hkind) (by decide)

theorem declaration?_of_kind {record : JsonValue} {envelope : RecordEnvelope}
    (hcreated : createRecordEnvelope record = .ok envelope)
    (hkind : envelope.kind ≠ memberFeedDeclarationRecordKind) : declaration? crypto record = none := by
  cases hdecode : memberFeedDeclarationFromRecord crypto record with
  | error message => simp [declaration?, hdecode, Except.toOption]
  | ok declaration =>
      have hroutes := ((memberFeedDeclarationFromRecord_eq_ok hcreated).mp hdecode).2
      exact absurd hroutes.kind hkind

/-- The record of an acknowledgement is built where the feed does not hold it, and carries it. -/
theorem acknowledgementRecord_spec {context : CallContext crypto}
    {records : Except String (List JsonValue)} {acknowledgement : SettlementAcknowledgement}
    {stored : IdentityMaterial crypto} {record : JsonValue}
    (h : acknowledgementRecord context records acknowledgement stored = .ok record) :
    (∃ held, records = .ok held ∧ acknowledgement.id ∉ acknowledgementIds held) ∧
      acknowledgementId? record = some acknowledgement.id ∧ declaration? crypto record = none := by
  simp only [acknowledgementRecord, bind_eq_ok, require_eq_ok, exists_const] at h
  obtain ⟨held, hheld, hhas, envelope, hencode, hsign⟩ := h
  refine ⟨⟨held, hheld, hasSettlementAcknowledgement_eq_false.mp hhas⟩, ?_⟩
  simp only [toSettlementAcknowledgementRecord, RecordKind.encode, bind_eq_ok, require_eq_ok,
    exists_const] at hencode
  obtain ⟨normalized, hnormalize, hauthor, hcreated⟩ := hencode
  obtain ⟨hproperties, hvalid⟩ := normalizeSettlementAcknowledgement_eq_ok.mp hnormalize
  have hid : acknowledgement.id = normalized.id := by
    have hfield := hproperties ("id", .str normalized.id) (by
      simp [SettlementAcknowledgement.toJson, JsonValue.properties])
    exact JsonValue.str.inj (Option.some.inj hfield)
  obtain ⟨carrying, hcarrying, hcarries, -⟩ :=
    @RecordKind.Encodes.envelope _ _ _ encodes_settlementAcknowledgement _ hvalid
      ⟨context.now, stored.root.memberId⟩ hauthor context.now.2
  have hsame : carrying = envelope := Except.ok.inj (hcarrying.symm.trans hcreated)
  subst hsame
  obtain ⟨source, hsource, hsigned⟩ := signRecord_spec stored.root carrying
  have hrecord : source = record := Except.ok.inj (hsource.symm.trans hsign)
  subst hrecord
  have hdecode : decodeSettlementAcknowledgementRecord source = .ok normalized :=
    (RecordKind.decode_eq_ok hsigned.create).mpr hcarries
  refine ⟨?_, declaration?_of_kind hsigned.create fun hkind ↦ ?_⟩
  · simp [acknowledgementId?, hdecode, Except.toOption, hid]
  · exact absurd (hcarries.kindName.symm.trans hkind) (by decide)

/-- The record of a declaration that a desktop creates carries a declaration of the same terms. -/
theorem declarationRecord_spec {stored : StoredMemberIdentity crypto}
    {communityId feedPublicKey : String} {occurredAt : CanonicalTimestamp}
    {declaration : MemberFeedDeclaration crypto} {record : RecordEnvelope}
    (hcreate : createDeclaration stored communityId feedPublicKey occurredAt = .ok declaration)
    (hrecord : memberFeedDeclarationToRecord declaration = .ok record) :
    acknowledgementId? record.toJson = none ∧
      ∃ carried, declaration? crypto record.toJson = some carried ∧
        declaredFeed carried = (communityId, .str feedPublicKey) ∧
        carried.rootPublicKey = stored.rootPublicKey := by
  have hdescribes := createMemberFeedDeclaration_eq_ok.mp hcreate
  have hcommunity : declaration.communityId = communityId :=
    (JsonValue.str.inj (Option.some.inj hdescribes.communityId)).symm
  have hfeed : declaration.feedPublicKey = .str feedPublicKey :=
    (Option.some.inj hdescribes.feedPublicKey).symm
  have hkey : isHypercoreKey feedPublicKey = true := by
    obtain ⟨htext, hkey⟩ := declaration.hypercoreKey
    rw [hfeed] at htext
    have hsame : feedPublicKey = declaration.feedPublicKeyText := Option.some.inj htext
    rw [hsame]
    exact hkey
  obtain ⟨created, encoded, carried, hcreated, hencoded, hcarried, hroutes, hdeclares⟩ :=
    declare_spec stored (hcommunity ▸ declaration.present) hkey occurredAt.2
  have hsame : created = declaration := Except.ok.inj (hcreated.symm.trans hcreate)
  subst hsame
  have hrecords : encoded = record := Except.ok.inj (hencoded.symm.trans hrecord)
  subst hrecords
  have henvelope := createRecordEnvelope_toJson encoded
  refine ⟨acknowledgementId?_of_kind henvelope hroutes.kind, carried, ?_,
    Prod.ext hdeclares.community hdeclares.feed, hdeclares.root⟩
  have hdecode := (memberFeedDeclarationFromRecord_eq_ok henvelope).mpr ⟨hcarried, hroutes⟩
  simp [declaration?, hdecode, Except.toOption]

/-! ## What a call relies on -/

/-- The acknowledgement whose guard a call holds. -/
def AppendStage.acknowledging? : AppendStage crypto → Option String
  | .readRecords acknowledgement _ | .recordsRead _ acknowledgement _ | .append _ acknowledgement
  | .appended _ acknowledgement => some acknowledgement.id
  | _ => none

/-- The setup that a call carries out. -/
def AppendStage.setup? : AppendStage crypto → Option Nat
  | .setup operation _ | .setUp operation => some operation
  | _ => none

/-- The acknowledgement that a call has appended. -/
def AppendStage.acknowledged? : AppendStage crypto → Option String
  | .appended (.ok _) acknowledgement | .acknowledged (.ok acknowledgement) => some acknowledgement.id
  | _ => none

/-- The feed takes what it is given once, and a setup that has not settled is in progress. -/
structure AppendsOnce (service : AppendingService crypto) : Prop where
  acknowledgements : (acknowledgementIds service.records).Nodup
  declarations : (declaredFeeds crypto service.records).Nodup
  setups : ∀ operation : Nat, service.setups[operation]? = some none →
    service.identitySetupInProgress = some operation

/-- The declarations of the feed are of the stored root key. -/
def DeclaresRoot (service : AppendingService crypto) : Prop :=
  ∀ declaration ∈ declarations crypto service.records, ∃ stored,
    service.identityStore = some stored ∧ declaration.rootPublicKey = stored.root.rootPublicKey

/-- The feed takes what it is given once, from the owner of the stored root key. -/
structure OwnWrites (service : AppendingService crypto) : Prop extends AppendsOnce service where
  roots : DeclaresRoot service

/-- What a setup knows of the store and the feed where it waits. -/
def SetupWork.Relies (service : AppendingService crypto) : SetupWork crypto → Prop
  | .identityRead found _ => ∀ value, found = .ok value → service.identityStore = value
  | .writeIdentity _ _ => service.identityStore = none
  | .identityWritten written stored _ => written = .ok () → service.identityStore = some stored
  | .readRecords stored _ => service.identityStore = some stored
  | .recordsRead records stored _ => service.identityStore = some stored ∧
      ∀ held, records = .ok held → declaredFeeds crypto held = declaredFeeds crypto service.records
  | .append record stored _ => service.identityStore = some stored ∧
      acknowledgementId? record = none ∧ ∃ carried, declaration? crypto record = some carried ∧
        declaredFeed carried ∉ declaredFeeds crypto service.records ∧
        carried.rootPublicKey = stored.root.rootPublicKey
  | _ => True

/-- What a call knows of the guards and the feed where it waits. -/
def AppendStage.Relies (service : AppendingService crypto) : AppendStage crypto → Prop
  | .readRecords acknowledgement _ =>
      acknowledgement.id ∈ service.settlementAcknowledgementsInProgress
  | .recordsRead records acknowledgement _ =>
      acknowledgement.id ∈ service.settlementAcknowledgementsInProgress ∧
        ∀ held, records = .ok held → acknowledgement.id ∈ acknowledgementIds service.records →
          acknowledgement.id ∈ acknowledgementIds held
  | .append record acknowledgement =>
      acknowledgement.id ∈ service.settlementAcknowledgementsInProgress ∧
        acknowledgement.id ∉ acknowledgementIds service.records ∧
        acknowledgementId? record = some acknowledgement.id ∧ declaration? crypto record = none
  | .appended taken acknowledgement =>
      acknowledgement.id ∈ service.settlementAcknowledgementsInProgress ∧
        (taken = .ok () → acknowledgement.id ∈ acknowledgementIds service.records)
  | .acknowledged result => ∀ acknowledgement, result = .ok acknowledgement →
      acknowledgement.id ∈ acknowledgementIds service.records
  | .setup operation work => service.identitySetupInProgress = some operation ∧
      service.setups[operation]? = some none ∧ work.Relies service
  | .setUp operation => service.identitySetupInProgress = some operation ∧
      ∃ result, service.setups[operation]? = some (some result)
  | .announced operation result => service.setups[operation]? = some (some result)
  | _ => True

/-- Two calls hold no guard together, and have not appended one acknowledgement. -/
structure Apart (left right : AppendStage crypto) : Prop where
  acknowledging : ∀ id, left.acknowledging? = some id → right.acknowledging? ≠ some id
  setup : left.setup? = none ∨ right.setup? = none
  acknowledged : ∀ id, left.acknowledged? = some id → right.acknowledged? ≠ some id

theorem Apart.symm {left right : AppendStage crypto} (h : Apart left right) : Apart right left where
  acknowledging id hright hleft := h.acknowledging id hleft hright
  setup := h.setup.symm
  acknowledged id hright hleft := h.acknowledged id hleft hright

section Relies

variable {service after : AppendingService crypto} {stage next other : AppendStage crypto}

theorem AppendStage.Relies.guard (h : stage.Relies service) {id : String}
    (hid : stage.acknowledging? = some id) : id ∈ service.settlementAcknowledgementsInProgress := by
  cases stage with
  | readRecords => exact Option.some.inj hid ▸ h
  | recordsRead | append | appended => exact Option.some.inj hid ▸ h.1
  | _ => exact absurd hid (by simp [AppendStage.acknowledging?])

theorem AppendStage.Relies.setup (h : stage.Relies service) {operation : Nat}
    (hoperation : stage.setup? = some operation) :
    service.identitySetupInProgress = some operation := by
  cases stage with
  | setup | setUp => exact Option.some.inj hoperation ▸ h.1
  | _ => exact absurd hoperation (by simp [AppendStage.setup?])

theorem AppendStage.Relies.acknowledged (h : stage.Relies service) {id : String}
    (hid : stage.acknowledged? = some id) : id ∈ acknowledgementIds service.records := by
  cases stage with
  | appended taken acknowledgement =>
      cases taken with
      | error message => exact absurd hid (by simp [AppendStage.acknowledged?])
      | ok value => exact Option.some.inj hid ▸ h.2 rfl
  | acknowledged result =>
      cases result with
      | error message => exact absurd hid (by simp [AppendStage.acknowledged?])
      | ok acknowledgement => exact Option.some.inj hid ▸ h acknowledgement rfl
  | _ => exact absurd hid (by simp [AppendStage.acknowledged?])

/-- A change of the service leaves what another call relies on. -/
structure Spares (other : AppendStage crypto) (service after : AppendingService crypto) : Prop where
  guard : ∀ id, other.acknowledging? = some id →
    id ∈ service.settlementAcknowledgementsInProgress →
      id ∈ after.settlementAcknowledgementsInProgress
  acknowledging : ∀ id, other.acknowledging? = some id →
    id ∈ acknowledgementIds after.records → id ∈ acknowledgementIds service.records
  acknowledged : acknowledgementIds service.records ⊆ acknowledgementIds after.records
  setup : other.setup? ≠ none →
    after.identitySetupInProgress = service.identitySetupInProgress ∧
      after.setups = service.setups ∧ after.identityStore = service.identityStore ∧
      declaredFeeds crypto after.records = declaredFeeds crypto service.records
  settled : ∀ (operation : Nat) result, service.setups[operation]? = some (some result) →
    after.setups[operation]? = some (some result)

theorem Spares.refl : Spares other service service where
  guard _ _ h := h
  acknowledging _ _ h := h
  acknowledged _ h := h
  setup _ := ⟨rfl, rfl, rfl, rfl⟩
  settled _ _ h := h

theorem Spares.work (h : Spares other service after) (hsetup : other.setup? ≠ none)
    {work : SetupWork crypto} (hwork : work.Relies service) : work.Relies after := by
  obtain ⟨-, -, hstore, hdeclared⟩ := h.setup hsetup
  cases work <;> simp only [SetupWork.Relies, hstore, hdeclared] at hwork ⊢ <;> exact hwork

/-- A call relies on what a change spares. -/
theorem Spares.relies (h : Spares other service after) (hother : other.Relies service) :
    other.Relies after := by
  cases other with
  | called | readIdentity | identityRead | joins => trivial
  | readRecords acknowledgement stored => exact h.guard _ rfl hother
  | recordsRead records acknowledgement stored =>
      exact ⟨h.guard _ rfl hother.1, fun held hheld hmem ↦
        hother.2 held hheld (h.acknowledging _ rfl hmem)⟩
  | append record acknowledgement =>
      obtain ⟨hguard, hfresh, hrecord⟩ := hother
      exact ⟨h.guard _ rfl hguard, fun hmem ↦ hfresh (h.acknowledging _ rfl hmem), hrecord⟩
  | appended taken acknowledgement =>
      exact ⟨h.guard _ rfl hother.1, fun htaken ↦ h.acknowledged (hother.2 htaken)⟩
  | acknowledged result =>
      exact fun acknowledgement hresult ↦ h.acknowledged (hother acknowledgement hresult)
  | setup operation work =>
      have hkept := h.setup (by simp [AppendStage.setup?])
      obtain ⟨hprogress, hpending, hwork⟩ := hother
      refine ⟨hkept.1.trans hprogress, ?_, h.work (by simp [AppendStage.setup?]) hwork⟩
      rw [hkept.2.1]
      exact hpending
  | setUp operation =>
      have hkept := h.setup (by simp [AppendStage.setup?])
      obtain ⟨hprogress, result, hresult⟩ := hother
      exact ⟨hkept.1.trans hprogress, result, h.settled operation result hresult⟩
  | announced operation result => exact h.settled operation result hother

end Relies

/-! ## Steps -/

/-- What one step of a call does: the feed and the guards stay in order, the other calls keep what they rely
on, and a guard is taken only where no call holds it and left only where the call that holds it goes on. -/
structure AppendStep (stage next : AppendStage crypto) (service after : AppendingService crypto) :
    Prop where
  own : AppendsOnce after
  roots : DeclaresRoot service → DeclaresRoot after
  relies : next.Relies after
  spares : ∀ other, Apart stage other → other.Relies service → Spares other service after
  acknowledging : ∀ id, next.acknowledging? = some id →
    stage.acknowledging? = some id ∨ id ∉ service.settlementAcknowledgementsInProgress
  setup : next.setup? ≠ none → stage.setup? ≠ none ∨ service.identitySetupInProgress = none
  acknowledged : ∀ id, next.acknowledged? = some id →
    stage.acknowledged? = some id ∨ id ∉ acknowledgementIds service.records
  held : ∀ id ∈ after.settlementAcknowledgementsInProgress, next.acknowledging? = some id ∨
    id ∈ service.settlementAcknowledgementsInProgress ∧ stage.acknowledging? ≠ some id
  setupHeld : ∀ operation, after.identitySetupInProgress = some operation →
    next.setup? = some operation ∨
      service.identitySetupInProgress = some operation ∧ stage.setup? ≠ some operation

section Steps

variable {service after : AppendingService crypto} {stage next : AppendStage crypto}

/-- What is held stays held by the call that goes on, or is held by another call. -/
theorem held_or_other {α : Type} [DecidableEq α] {before now : Option α} (hsame : now = before)
    {value : α} {held : Prop} (hheld : held) : now = some value ∨ held ∧ before ≠ some value := by
  by_cases hvalue : before = some value
  · exact .inl (hsame.trans hvalue)
  · exact .inr ⟨hheld, hvalue⟩

/-- A step that leaves the service and keeps its guards. -/
theorem AppendStep.waits (hown : AppendsOnce service) (hrelies : next.Relies service)
    (hguard : next.acknowledging? = stage.acknowledging?) (hsetup : next.setup? = stage.setup?)
    (hacknowledged : next.acknowledged? = none ∨ next.acknowledged? = stage.acknowledged?) :
    AppendStep stage next service service where
  own := hown
  roots := id
  relies := hrelies
  spares _ _ _ := Spares.refl
  acknowledging _ hid := .inl (hguard.symm.trans hid)
  setup hnext := .inl (hsetup ▸ hnext)
  acknowledged id hid := hacknowledged.elim (fun hnone ↦ absurd (hnone.symm.trans hid) (by simp))
    fun hsame ↦ .inl (hsame.symm.trans hid)
  held _ hmem := held_or_other hguard hmem
  setupHeld _ hmem := held_or_other hsetup hmem

/-- An acknowledgement takes its guard. -/
theorem AppendStep.takes {acknowledgement : SettlementAcknowledgement}
    {stored : IdentityMaterial crypto} (hown : AppendsOnce service)
    (hfree : acknowledgement.id ∉ service.settlementAcknowledgementsInProgress)
    (hguard : stage.acknowledging? = none) (hsetup : stage.setup? = none) :
    AppendStep stage (.readRecords acknowledgement stored) service
      (takeAcknowledgement acknowledgement.id service) where
  own := ⟨hown.acknowledgements, hown.declarations, hown.setups⟩
  roots := id
  relies := List.mem_cons_self
  spares _ _ _ :=
    ⟨fun _ _ hmem ↦ List.mem_cons_of_mem _ hmem, fun _ _ hmem ↦ hmem, fun _ hmem ↦ hmem,
      fun _ ↦ ⟨rfl, rfl, rfl, rfl⟩, fun _ _ hmem ↦ hmem⟩
  acknowledging id hid := .inr (Option.some.inj hid ▸ hfree)
  setup hnext := absurd rfl hnext
  acknowledged id hid := absurd hid (by simp [AppendStage.acknowledged?])
  held id hmem := by
    cases List.mem_cons.mp hmem with
    | inl hsame => exact .inl (congrArg some hsame.symm)
    | inr hmem => exact .inr ⟨hmem, by simp [hguard]⟩
  setupHeld operation hmem := .inr ⟨hmem, by simp [hsetup]⟩

/-- An acknowledgement gives its guard back. -/
theorem AppendStep.releases {result : Except String SettlementAcknowledgement} {acknowledgementId : String}
    (hown : AppendsOnce service) (hguard : stage.acknowledging? = some acknowledgementId)
    (hsetup : stage.setup? = none)
    (hresult : ∀ acknowledgement, result = .ok acknowledgement →
      stage.acknowledged? = some acknowledgement.id ∧
        acknowledgement.id ∈ acknowledgementIds service.records) :
    AppendStep stage (.acknowledged result) service (finishAcknowledgement acknowledgementId service) where
  own := ⟨hown.acknowledgements, hown.declarations, hown.setups⟩
  roots := id
  relies acknowledgement hok := (hresult acknowledgement hok).2
  spares other hapart _ := by
    refine ⟨fun id hid hmem ↦ List.mem_filter.mpr ⟨hmem, decide_eq_true fun hsame ↦ ?_⟩,
      fun _ _ hmem ↦ hmem, fun _ hmem ↦ hmem, fun _ ↦ ⟨rfl, rfl, rfl, rfl⟩, fun _ _ hmem ↦ hmem⟩
    exact hapart.acknowledging acknowledgementId hguard (hsame ▸ hid)
  acknowledging id hid := absurd hid (by simp [AppendStage.acknowledging?])
  setup hnext := absurd rfl hnext
  acknowledged id hid := by
    cases result with
    | error message => exact absurd hid (by simp [AppendStage.acknowledged?])
    | ok acknowledgement => exact .inl (Option.some.inj hid ▸ (hresult acknowledgement rfl).1)
  held id hmem := by
    obtain ⟨hmem, hother⟩ := List.mem_filter.mp hmem
    refine .inr ⟨hmem, fun hsame ↦ of_decide_eq_true hother ?_⟩
    exact Option.some.inj (hsame.symm.trans hguard)
  setupHeld operation hmem := .inr ⟨hmem, by simp [hsetup]⟩

/-- The record of an acknowledgement is appended. -/
theorem AppendStep.acknowledges {record : JsonValue} {acknowledgement : SettlementAcknowledgement}
    (hown : AppendsOnce service)
    (hrelies : (AppendStage.append record acknowledgement : AppendStage crypto).Relies service) :
    AppendStep (.append record acknowledgement) (.appended (.ok ()) acknowledgement) service
      { service with records := service.records ++ [record] } := by
  obtain ⟨hguard, hfresh, hrecord, hdeclares⟩ := hrelies
  have hheld : acknowledgementIds (service.records ++ [record]) =
      acknowledgementIds service.records ++ [acknowledgement.id] := by
    rw [acknowledgementIds_append, hrecord]
    rfl
  have hdeclarations : declarations crypto (service.records ++ [record]) =
      declarations crypto service.records := by
    rw [declarations_append, hdeclares]
    exact List.append_nil _
  have hdeclared : declaredFeeds crypto (service.records ++ [record]) =
      declaredFeeds crypto service.records := by
    rw [declaredFeeds, declaredFeeds, hdeclarations]
  refine ⟨⟨?_, ?_, hown.setups⟩, fun hroots ↦ ?_, ⟨hguard, fun _ ↦ ?_⟩, fun other hapart _ ↦ ?_, fun _ ↦ .inl,
    fun hnext ↦ absurd rfl hnext, fun id hid ↦ ?_, fun _ hmem ↦ held_or_other rfl hmem,
    fun _ hmem ↦ held_or_other rfl hmem⟩
  · show (acknowledgementIds (service.records ++ [record])).Nodup
    rw [hheld]
    exact List.nodup_append.mpr ⟨hown.acknowledgements, List.nodup_singleton _, fun id hmem other hother hsame ↦
      hfresh (List.mem_singleton.mp hother ▸ hsame ▸ hmem)⟩
  · show (declaredFeeds crypto (service.records ++ [record])).Nodup
    rw [hdeclared]
    exact hown.declarations
  · show ∀ declaration ∈ declarations crypto (service.records ++ [record]), _
    rw [hdeclarations]
    exact hroots
  · show acknowledgement.id ∈ acknowledgementIds (service.records ++ [record])
    rw [hheld]
    exact List.mem_append_right _ (List.mem_singleton_self _)
  · refine ⟨fun _ _ hmem ↦ hmem, fun id hid hmem ↦ ?_, fun id hmem ↦ ?_,
      fun _ ↦ ⟨rfl, rfl, rfl, hdeclared⟩, fun _ _ hmem ↦ hmem⟩
    · have hmem : id ∈ acknowledgementIds (service.records ++ [record]) := hmem
      rw [hheld] at hmem
      cases List.mem_append.mp hmem with
      | inl hold => exact hold
      | inr hnew =>
          -- the guard of the new acknowledgement is held by the call that appends it
          exact absurd (List.mem_singleton.mp hnew ▸ hid) (hapart.acknowledging _ rfl)
    · show id ∈ acknowledgementIds (service.records ++ [record])
      rw [hheld]
      exact List.mem_append_left _ hmem
  · exact .inr (Option.some.inj hid ▸ hfresh)

/-- A setup that is asked for begins where none is in progress. -/
theorem AppendStep.begins {settled : Option (Except String MemberIdentityStatus)} (hown : AppendsOnce service)
    (hfree : service.identitySetupInProgress = none) (hguard : stage.acknowledging? = none)
    (hnext : next.setup? = some service.setups.length) (hidle : next.acknowledging? = none)
    (hacknowledged : next.acknowledged? = none)
    (hrelies : next.Relies { service with
      identitySetupInProgress := some service.setups.length
      setups := service.setups ++ [settled] }) :
    AppendStep stage next service { service with
      identitySetupInProgress := some service.setups.length
      setups := service.setups ++ [settled] } where
  own := by
    refine ⟨hown.acknowledgements, hown.declarations, fun operation hpending ↦ ?_⟩
    have hpending : (service.setups ++ [settled])[operation]? = some none := hpending
    by_cases hlast : operation = service.setups.length
    · exact congrArg some hlast.symm
    · by_cases hold : operation < service.setups.length
      · rw [List.getElem?_append_left hold] at hpending
        exact absurd (hfree.symm.trans (hown.setups operation hpending)) (by simp)
      · have hbeyond : (service.setups ++ [settled]).length ≤ operation := by
          rw [List.length_append, List.length_singleton]
          omega
        rw [List.getElem?_eq_none hbeyond] at hpending
        exact absurd hpending (by simp)
  roots := id
  relies := hrelies
  spares other _ hother := by
    refine ⟨fun _ _ hmem ↦ hmem, fun _ _ hmem ↦ hmem, fun _ hmem ↦ hmem, fun hsetup ↦ ?_,
      fun operation result hresult ↦ ?_⟩
    · obtain ⟨operation, hoperation⟩ := Option.ne_none_iff_exists'.mp hsetup
      exact absurd (hfree.symm.trans (hother.setup hoperation)) (by simp)
    · have hlength : operation < service.setups.length :=
        (List.getElem?_eq_some_iff.mp hresult).1
      show (service.setups ++ [settled])[operation]? = some (some result)
      rw [List.getElem?_append_left hlength]
      exact hresult
  acknowledging id hid := absurd (hidle.symm.trans hid) (by simp)
  setup _ := .inr hfree
  acknowledged id hid := absurd (hacknowledged.symm.trans hid) (by simp)
  held id hmem := .inr ⟨hmem, by simp [hguard]⟩
  setupHeld operation hmem := .inl (hnext.trans hmem)

end Steps

/-! ## Setups -/

/-- What one step of a setup does: it leaves the guards and the acknowledgements, and goes on where it relies on
what it left. -/
structure WorkStep (service : AppendingService crypto)
    (result : Except String (SetupWork crypto ⊕ MemberIdentityStatus))
    (after : AppendingService crypto) : Prop where
  acknowledging : after.settlementAcknowledgementsInProgress = service.settlementAcknowledgementsInProgress
  setup : after.identitySetupInProgress = service.identitySetupInProgress
  setups : after.setups = service.setups
  acknowledgements : acknowledgementIds after.records = acknowledgementIds service.records
  own : AppendsOnce after
  roots : DeclaresRoot service → DeclaresRoot after
  relies : ∀ next, result = .ok (.inl next) → next.Relies after

section Work

variable {service : AppendingService crypto} {context : SetupContext crypto}
  {stored : IdentityMaterial crypto}

/-- A step that leaves the service. -/
theorem WorkStep.leaves {result : Except String (SetupWork crypto ⊕ MemberIdentityStatus)}
    (hown : AppendsOnce service)
    (hrelies : ∀ next, result = .ok (.inl next) → next.Relies service) :
    WorkStep service result service :=
  ⟨rfl, rfl, rfl, rfl, hown, id, hrelies⟩

theorem WorkStep.waits {next : SetupWork crypto} (hown : AppendsOnce service)
    (hrelies : next.Relies service) : WorkStep service (.ok (.inl next)) service :=
  .leaves hown fun _ hnext ↦ Sum.inl.inj (Except.ok.inj hnext) ▸ hrelies

theorem WorkStep.stops (hown : AppendsOnce service) (message : String) :
    WorkStep service (.error message) service :=
  .leaves hown fun _ hnext ↦ absurd hnext (by simp)

theorem WorkStep.returns (hown : AppendsOnce service) (status : MemberIdentityStatus) :
    WorkStep service (.ok (.inr status)) service :=
  .leaves hown fun _ hnext ↦ absurd hnext (by simp)

/-- Nothing is declared while the store is empty. -/
theorem DeclaresRoot.creates (hroots : DeclaresRoot service) (hempty : service.identityStore = none) :
    DeclaresRoot { service with identityStore := some stored } := by
  intro declaration hmem
  obtain ⟨other, hother, -⟩ := hroots declaration hmem
  exact absurd (hempty.symm.trans hother) (by simp)

/-- The identity that a setup creates is written to an empty store. -/
theorem WorkStep.creates (hown : AppendsOnce service) (hempty : service.identityStore = none)
    {communityId : String} :
    WorkStep service (.ok (.inl (.identityWritten (.ok ()) stored communityId)))
      { service with identityStore := some stored } where
  acknowledging := rfl
  setup := rfl
  setups := rfl
  acknowledgements := rfl
  own := ⟨hown.acknowledgements, hown.declarations, hown.setups⟩
  roots hroots := DeclaresRoot.creates hroots hempty
  relies next hnext := by
    obtain rfl := Sum.inl.inj (Except.ok.inj hnext)
    exact fun _ ↦ rfl

/-- The record of a declaration is appended. -/
theorem WorkStep.declares {record : JsonValue} {declaration : MemberFeedDeclaration crypto}
    (hown : AppendsOnce service)
    (hrelies : (SetupWork.append record stored declaration).Relies service) :
    WorkStep service (.ok (.inl (.appended (.ok ()) stored declaration)))
      { service with records := service.records ++ [record] } := by
  obtain ⟨hstore, hacknowledges, carried, hcarried, hfresh, hroot⟩ := hrelies
  have hheld : acknowledgementIds (service.records ++ [record]) = acknowledgementIds service.records := by
    rw [acknowledgementIds_append, hacknowledges]
    exact List.append_nil _
  refine ⟨rfl, rfl, rfl, hheld, ⟨?_, ?_, hown.setups⟩, fun hroots ↦ ?_, fun next hnext ↦ ?_⟩
  · show (acknowledgementIds (service.records ++ [record])).Nodup
    rw [hheld]
    exact hown.acknowledgements
  · show (declaredFeeds crypto (service.records ++ [record])).Nodup
    rw [declaredFeeds_append, hcarried]
    refine List.nodup_append.mpr ⟨hown.declarations, List.nodup_singleton _, fun feed hmem other hother hsame ↦ ?_⟩
    exact hfresh (List.mem_singleton.mp hother ▸ hsame ▸ hmem)
  · show ∀ declaration ∈ declarations crypto (service.records ++ [record]), _
    rw [declarations_append, hcarried]
    intro other hmem
    cases List.mem_append.mp hmem with
    | inl hold => exact hroots other hold
    | inr hnew => exact ⟨stored, hstore, List.mem_singleton.mp hnew ▸ hroot⟩
  · obtain rfl := Sum.inl.inj (Except.ok.inj hnext)
    trivial

theorem announceDeclaration_step (hown : AppendsOnce service) {declaration : MemberFeedDeclaration crypto} :
    Ensures (announceDeclaration context stored declaration) service (WorkStep service) := by
  unfold announceDeclaration
  refine Ensures.check_bind (WorkStep.stops hown) fun _ _ ↦ ?_
  refine Ensures.check_bind (WorkStep.stops hown) fun _ _ ↦ ?_
  split
  · exact WorkStep.returns hown _
  · exact WorkStep.waits hown trivial

theorem declareFeed_step (hown : AppendsOnce service) {feedPublicKey communityId : String}
    {held : List JsonValue} (hstore : service.identityStore = some stored)
    (hheld : declaredFeeds crypto held = declaredFeeds crypto service.records) :
    Ensures (declareFeed feedPublicKey context held stored communityId) service (WorkStep service) := by
  unfold declareFeed
  cases hexisting : existingDeclaration crypto communityId feedPublicKey held with
  | some declaration => exact announceDeclaration_step hown
  | none =>
      refine Ensures.check_bind (WorkStep.stops hown) fun declaration hcreate ↦ ?_
      refine Ensures.check_bind (WorkStep.stops hown) fun record hrecord ↦ ?_
      obtain ⟨hacknowledges, carried, hcarried, hfeed, hroot⟩ := declarationRecord_spec hcreate hrecord
      refine WorkStep.waits hown ⟨hstore, hacknowledges, carried, hcarried, ?_, hroot⟩
      rw [hfeed, ← hheld]
      exact existingDeclaration_eq_none.mp hexisting

theorem answer_eq_ok {α : Type} {available : Bool} {value result : α} :
    answer available value = .ok result ↔ available = true ∧ value = result := by
  simp only [answer, bind_eq_ok, require_eq_ok, exists_const, pure_eq_ok]

/-- Each step of a setup does what its place allows. -/
theorem goOnSetupWork_step {localeCompare : String → String → Ordering} {feedPublicKey : String}
    {context : AppendContext crypto} {work : SetupWork crypto} (hown : AppendsOnce service)
    (hrelies : work.Relies service) :
    Ensures (goOnSetupWork localeCompare feedPublicKey context work) service (WorkStep service) := by
  cases work with
  | readIdentity communityId =>
      exact WorkStep.waits hown fun value hvalue ↦ (answer_eq_ok.mp hvalue).2
  | identityRead found communityId =>
      refine Ensures.check_bind (WorkStep.stops hown) fun value hvalue ↦ ?_
      have hstore := hrelies value hvalue
      cases value with
      | none => exact WorkStep.waits hown hstore
      | some stored =>
          exact Ensures.check_bind (WorkStep.stops hown) fun _ _ ↦ WorkStep.waits hown hstore
  | writeIdentity stored communityId =>
      simp only [goOnSetupWork]
      by_cases hwritable : context.storeWritable = true
      · rw [if_pos hwritable, answer_eq_ok.mpr ⟨hwritable, rfl⟩]
        exact WorkStep.creates hown hrelies
      · rw [if_neg hwritable]
        refine WorkStep.waits hown fun hwritten ↦ ?_
        exact absurd (answer_eq_ok.mp hwritten).1 hwritable
  | identityWritten written stored communityId =>
      refine Ensures.check_bind (WorkStep.stops hown) fun _ hwritten ↦ ?_
      exact Ensures.check_bind (WorkStep.stops hown) fun _ _ ↦ WorkStep.waits hown (hrelies hwritten)
  | readRecords stored communityId =>
      refine WorkStep.waits hown ⟨hrelies, fun held hheld ↦ ?_⟩
      rw [(answer_eq_ok.mp hheld).2]
  | recordsRead records stored communityId =>
      refine Ensures.check_bind (WorkStep.stops hown) fun held hheld ↦ ?_
      exact declareFeed_step hown hrelies.1 (hrelies.2 held hheld)
  | append record stored declaration =>
      simp only [goOnSetupWork]
      by_cases hwritable : context.feedWritable = true
      · rw [if_pos hwritable, answer_eq_ok.mpr ⟨hwritable, rfl⟩]
        exact WorkStep.declares hown hrelies
      · rw [if_neg hwritable]
        exact WorkStep.waits hown trivial
  | appended taken stored declaration =>
      exact Ensures.check_bind (WorkStep.stops hown) fun _ _ ↦ announceDeclaration_step hown
  | readStatus communityId => exact WorkStep.waits hown trivial
  | statusRead found communityId =>
      refine Ensures.check_bind (WorkStep.stops hown) fun value _ ↦ ?_
      cases value with
      | none => exact WorkStep.returns hown _
      | some stored =>
          refine Ensures.check_bind (WorkStep.stops hown) fun _ _ ↦ ?_
          cases communityId with
          | none => exact WorkStep.returns hown _
          | some communityId => exact WorkStep.waits hown trivial
  | readStatusRecords stored communityId => exact WorkStep.waits hown trivial
  | statusRecordsRead records stored communityId =>
      exact Ensures.check_bind (WorkStep.stops hown) fun _ _ ↦ WorkStep.returns hown _

end Work

/-! ## Calls -/

section Calls

variable {service after : AppendingService crypto} {localeCompare : String → String → Ordering}
  {feedPublicKey : String} {context : AppendContext crypto}

/-- A setup in progress goes on. -/
theorem AppendStep.worked {operation : Nat} {work : SetupWork crypto} {next : AppendStage crypto}
    {setups : List (Option (Except String MemberIdentityStatus))}
    (hrelies : (AppendStage.setup operation work).Relies service)
    {result : Except String (SetupWork crypto ⊕ MemberIdentityStatus)}
    (hwork : WorkStep service result after)
    (hsetups : setups = service.setups ∨ ∃ settled, setups = service.setups.set operation (some settled))
    (hnext : next.setup? = some operation) (hidle : next.acknowledging? = none)
    (hacknowledged : next.acknowledged? = none) (hnextRelies : next.Relies { after with setups := setups }) :
    AppendStep (.setup operation work) next service { after with setups := setups } where
  own := by
    refine ⟨hwork.own.acknowledgements, hwork.own.declarations, fun other hother ↦ ?_⟩
    refine hwork.own.setups other ?_
    rw [hwork.setups]
    have hother : setups[other]? = some none := hother
    cases hsetups with
    | inl hsame => exact hsame ▸ hother
    | inr hset =>
        -- only the setup that settles changes, and it is pending no more
        obtain ⟨settled, rfl⟩ := hset
        by_cases hsame : operation = other
        · subst hsame
          rw [List.getElem?_set_self (List.getElem?_eq_some_iff.mp hrelies.2.1).1] at hother
          exact absurd hother (by simp)
        · rwa [List.getElem?_set_ne hsame] at hother
  roots := hwork.roots
  relies := hnextRelies
  spares other hapart hother := by
    have hnone : other.setup? = none := hapart.setup.elim (fun h ↦ absurd h (by simp [AppendStage.setup?])) id
    refine ⟨fun id _ hmem ↦ ?_, fun id _ hmem ↦ ?_, fun id hmem ↦ ?_, fun hsetup ↦ absurd hnone hsetup,
      fun settledOperation settledResult hsettled ↦ ?_⟩
    · show id ∈ after.settlementAcknowledgementsInProgress
      rw [hwork.acknowledging]
      exact hmem
    · exact hwork.acknowledgements ▸ hmem
    · show id ∈ acknowledgementIds after.records
      rw [hwork.acknowledgements]
      exact hmem
    · show setups[settledOperation]? = some (some settledResult)
      cases hsetups with
      | inl hsame => exact hsame ▸ hsettled
      | inr hset =>
          obtain ⟨settled, rfl⟩ := hset
          by_cases hsame : operation = settledOperation
          · subst hsame
            exact absurd (hrelies.2.1.symm.trans hsettled) (by simp)
          · rw [List.getElem?_set_ne hsame]
            exact hsettled
  acknowledging id hid := absurd (hidle.symm.trans hid) (by simp)
  setup _ := .inl (by simp [AppendStage.setup?])
  acknowledged id hid := absurd (hacknowledged.symm.trans hid) (by simp)
  held id hmem := .inr ⟨hwork.acknowledging ▸ hmem, by simp [AppendStage.acknowledging?]⟩
  setupHeld other hother := by
    refine .inl (hnext.trans (hrelies.1.symm.trans ?_))
    rw [← hwork.setup]
    exact hother

/-- A setup that has settled is finished, and its own call returns its result. -/
theorem AppendStep.finishes {operation : Nat} {result : Except String MemberIdentityStatus}
    (hown : AppendsOnce service)
    (hrelies : (AppendStage.setUp operation : AppendStage crypto).Relies service)
    (hresult : service.setups[operation]? = some (some result)) :
    AppendStep (.setUp operation) (.announced operation result) service
      { service with identitySetupInProgress := none } where
  own := by
    refine ⟨hown.acknowledgements, hown.declarations, fun other hother ↦ ?_⟩
    have hprogress := hown.setups other hother
    have hsame : operation = other := Option.some.inj (hrelies.1.symm.trans hprogress)
    subst hsame
    exact absurd (hresult.symm.trans hother) (by simp)
  roots := id
  relies := hresult
  spares other hapart _ := by
    have hnone : other.setup? = none :=
      hapart.setup.elim (fun h ↦ absurd h (by simp [AppendStage.setup?])) id
    exact ⟨fun _ _ hmem ↦ hmem, fun _ _ hmem ↦ hmem, fun _ hmem ↦ hmem,
      fun hsetup ↦ absurd hnone hsetup, fun _ _ hmem ↦ hmem⟩
  acknowledging id hid := absurd hid (by simp [AppendStage.acknowledging?])
  setup hnext := absurd rfl hnext
  acknowledged id hid := absurd hid (by simp [AppendStage.acknowledged?])
  held id hmem := .inr ⟨hmem, by simp [AppendStage.acknowledging?]⟩
  setupHeld other hother := absurd hother (by simp)

/-- A setup in progress goes on with its work, and settles where the work ends. -/
theorem appendStep_setup {operation : Nat} {work : SetupWork crypto} (hown : AppendsOnce service)
    (hrelies : (AppendStage.setup operation work).Relies service) :
    AppendStep (.setup operation work)
      (resumeAppend localeCompare feedPublicKey context (.setup operation work) service).1 service
      (resumeAppend localeCompare feedPublicKey context (.setup operation work) service).2 := by
  have hwork := @goOnSetupWork_step _ service localeCompare feedPublicKey context work hown hrelies.2.2
  unfold Ensures at hwork
  simp only [resumeAppend]
  cases houtcome : outcome (goOnSetupWork localeCompare feedPublicKey context work) service with
  | mk result after =>
      rw [houtcome] at hwork
      have hsettles (settled : Except String MemberIdentityStatus) :
          AppendStep (.setup operation work) (.setUp operation) service
            (settleSetup operation settled after) := by
        have hset : after.setups.set operation (some settled) =
            service.setups.set operation (some settled) := by
          rw [hwork.setups]
        refine .worked hrelies hwork (.inr ⟨settled, hset⟩) rfl rfl rfl
          ⟨hwork.setup.trans hrelies.1, settled, ?_⟩
        refine List.getElem?_set_self ?_
        rw [hwork.setups]
        exact (List.getElem?_eq_some_iff.mp hrelies.2.1).1
      cases result with
      | error message => exact hsettles (.error message)
      | ok value =>
          cases value with
          | inr status => exact hsettles (.ok status)
          | inl next =>
              have hpending : after.setups[operation]? = some none := by
                rw [hwork.setups]
                exact hrelies.2.1
              exact @AppendStep.worked _ service after operation work (.setup operation next)
                after.setups hrelies _ hwork (.inl hwork.setups) rfl rfl rfl
                ⟨hwork.setup.trans hrelies.1, hpending, hwork.relies next rfl⟩

/-- What a call does when it goes on, whatever it is given. -/
theorem resumeAppend_step {stage : AppendStage crypto} (hown : AppendsOnce service)
    (hrelies : stage.Relies service) :
    AppendStep stage (resumeAppend localeCompare feedPublicKey context stage service).1 service
      (resumeAppend localeCompare feedPublicKey context stage service).2 := by
  cases stage with
  | called operation =>
      cases operation with
      | acknowledgeSettlement proposal => exact .waits hown trivial rfl rfl (.inl rfl)
      | createAndAnnounce =>
          simp only [resumeAppend, beginCreateAndAnnounce]
          cases hprogress : service.identitySetupInProgress with
          | some operation => exact .waits hown trivial rfl rfl (.inl rfl)
          | none =>
              cases setupCommunity context.toCallContext with
              | ok communityId =>
                  refine .begins hown hprogress rfl rfl rfl rfl ⟨rfl, ?_, trivial⟩
                  exact List.getElem?_concat_length
              | error message =>
                  refine .begins hown hprogress rfl rfl rfl rfl ⟨rfl, .error message, ?_⟩
                  exact List.getElem?_concat_length
  | readIdentity communityId proposal => exact .waits hown trivial rfl rfl (.inl rfl)
  | identityRead found communityId proposal =>
      simp only [resumeAppend]
      cases hchecked : acknowledgeSettlement context.toCallContext service found communityId proposal with
      | error message => exact .waits hown (fun _ hok ↦ absurd hok (by simp)) rfl rfl (.inl rfl)
      | ok taken =>
          obtain ⟨acknowledgement, stored⟩ := taken
          simp only [acknowledgeSettlement, bind_eq_ok, require_eq_ok, exists_const, pure_eq_ok,
            Prod.mk.injEq] at hchecked
          obtain ⟨_, -, _, -, -, created, -, hfree, rfl, -⟩ := hchecked
          exact .takes hown hfree rfl rfl
  | readRecords acknowledgement stored =>
      refine .waits hown ⟨hrelies, fun held hheld hmem ↦ ?_⟩ rfl rfl (.inl rfl)
      exact (answer_eq_ok.mp hheld).2 ▸ hmem
  | recordsRead records acknowledgement stored =>
      simp only [resumeAppend]
      cases hrecord : acknowledgementRecord context.toCallContext records acknowledgement stored with
      | error message => exact .releases hown rfl rfl fun _ hok ↦ absurd hok (by simp)
      | ok record =>
          obtain ⟨⟨held, hheld, hfresh⟩, hcarries⟩ := acknowledgementRecord_spec hrecord
          refine .waits hown ⟨hrelies.1, fun hmem ↦ ?_, hcarries⟩ rfl rfl (.inl rfl)
          exact hfresh (hrelies.2 held hheld hmem)
  | append record acknowledgement =>
      simp only [resumeAppend]
      by_cases hwritable : context.feedWritable = true
      · rw [if_pos hwritable, answer_eq_ok.mpr ⟨hwritable, rfl⟩]
        exact .acknowledges hown hrelies
      · rw [if_neg hwritable]
        have herror : (answer context.feedWritable () : Except String Unit) =
            .error "The storage did not answer." := by
          simp [answer, require, hwritable]
        rw [herror]
        exact .waits hown ⟨hrelies.1, fun hok ↦ absurd hok (by simp)⟩ rfl rfl (.inl rfl)
  | appended taken acknowledgement =>
      refine .releases hown rfl rfl fun other hother ↦ ?_
      cases taken with
      | error message => exact absurd hother (by simp [Except.map])
      | ok value =>
          obtain rfl := Except.ok.inj hother
          exact ⟨rfl, hrelies.2 rfl⟩
  | acknowledged result => exact .waits hown hrelies rfl rfl (.inr rfl)
  | setup operation work => exact appendStep_setup hown hrelies
  | setUp operation =>
      obtain ⟨hprogress, result, hresult⟩ := hrelies
      have hawait : awaitSetup operation (.setUp operation) service = .announced operation result := by
        rw [awaitSetup, hresult]
        rfl
      simp only [resumeAppend, finishSetup, hawait, hprogress, if_true]
      exact .finishes hown ⟨hprogress, result, hresult⟩ hresult
  | joins operation =>
      simp only [resumeAppend, awaitSetup]
      cases hresult : service.setups[operation]?.join with
      | none => exact .waits hown trivial rfl rfl (.inl rfl)
      | some result => exact .waits hown (Option.join_eq_some_iff.mp hresult) rfl rfl (.inl rfl)
  | announced operation result => exact .waits hown hrelies rfl rfl (.inl rfl)

end Calls

/-! ## Runs -/

variable (crypto) in
/-- What holds in a run of guarded calls. -/
def appendInvariant : Invariant (AppendStage crypto) (AppendingService crypto) where
  shared := AppendsOnce
  waiting service stage := stage.Relies service
  apart := Apart

/-- Any call may go on with any surroundings. -/
abbrev Anyhow (crypto : Crypto) :
    Condition (AppendContext crypto) (AppendStage crypto) (AppendingService crypto) :=
  fun _ _ _ _ ↦ True

section Runs

variable {localeCompare : String → String → Ordering} {feedPublicKey : String}

theorem appendInvariant_kept :
    (appendInvariant crypto).Kept BeginsAppend (resumeAppends localeCompare feedPublicKey)
      (Anyhow crypto) where
  symm := Apart.symm
  start service stage hentry := by
    obtain ⟨operation⟩ := hentry
    refine ⟨trivial, fun other ↦ ⟨fun id hid ↦ ?_, .inl rfl, fun id hid ↦ ?_⟩⟩
    · exact absurd hid (by simp [AppendStage.acknowledging?])
    · exact absurd hid (by simp [AppendStage.acknowledged?])
  resumed context stage service others _ hown hrelies hothers := by
    have hstep := @resumeAppend_step _ service localeCompare feedPublicKey context stage hown hrelies
    refine ⟨hstep.own, fun next hnext ↦ ?_, fun other hother ↦ ?_⟩
    · obtain rfl := Option.some.inj hnext
      refine ⟨hstep.relies, fun other hother ↦ ⟨fun id hid hotherId ↦ ?_, ?_, fun id hid hotherId ↦ ?_⟩⟩
      · cases hstep.acknowledging id hid with
        | inl hstage => exact (hothers other hother).2.acknowledging id hstage hotherId
        | inr hfree => exact hfree ((hothers other hother).1.guard hotherId)
      · by_cases hsetup : (resumeAppend localeCompare feedPublicKey context stage service).1.setup? = none
        · exact .inl hsetup
        · refine .inr ?_
          cases hstep.setup hsetup with
          | inl hstage => exact (hothers other hother).2.setup.resolve_left hstage
          | inr hfree =>
              refine Option.eq_none_iff_forall_ne_some.mpr fun operation hoperation ↦ ?_
              have hheld := (hothers other hother).1.setup hoperation
              exact absurd (hfree.symm.trans hheld) (by simp)
      · cases hstep.acknowledged id hid with
        | inl hstage => exact (hothers other hother).2.acknowledged id hstage hotherId
        | inr hfresh => exact hfresh ((hothers other hother).1.acknowledged hotherId)
    · obtain ⟨hotherRelies, hapart⟩ := hothers other hother
      exact (hstep.spares other hapart hotherRelies).relies hotherRelies

/-- Each guard that is held is held by a pending call. -/
def GuardsHeld (service : AppendingService crypto) (pending : List (AppendStage crypto)) : Prop :=
  (∀ id ∈ service.settlementAcknowledgementsInProgress, ∃ stage ∈ pending,
    stage.acknowledging? = some id) ∧
  ∀ operation, service.identitySetupInProgress = some operation → ∃ stage ∈ pending,
    stage.setup? = some operation

/-- A value that was held by some call stays held by one, where the call that goes on gives up only its own. -/
theorem held_after_step {α : Type} {hold : AppendStage crypto → Option α} {stage next : AppendStage crypto}
    {others : List (AppendStage crypto)} {value : α} {heldBefore : Prop}
    (hbefore : heldBefore → ∃ other ∈ stage :: others, hold other = some value)
    (hstep : hold next = some value ∨ heldBefore ∧ hold stage ≠ some value) :
    ∃ other ∈ next :: others, hold other = some value := by
  cases hstep with
  | inl hnext => exact ⟨next, List.mem_cons_self, hnext⟩
  | inr hheld =>
      obtain ⟨other, hmem, hother⟩ := hbefore hheld.1
      cases List.mem_cons.mp hmem with
      | inl hsame => exact absurd (hsame ▸ hother) hheld.2
      | inr hmem => exact ⟨other, List.mem_cons_of_mem _ hmem, hother⟩

theorem guardsHeld_run {before after : System (AppendStage crypto) (AppendingService crypto)}
    (hholds : (appendInvariant crypto).Holds before) (hheld : GuardsHeld before.shared before.pending)
    (hrun : Run BeginsAppend (resumeAppends localeCompare feedPublicKey) (Anyhow crypto) before after) :
    GuardsHeld after.shared after.pending := by
  refine appendInvariant_kept.run_with ?_ ?_ ?_ hholds hheld hrun
  · intro service left right hperm hleft
    refine ⟨fun id hmem ↦ ?_, fun operation hsetup ↦ ?_⟩
    · obtain ⟨stage, hstage, hid⟩ := hleft.1 id hmem
      exact ⟨stage, hperm.mem_iff.mp hstage, hid⟩
    · obtain ⟨stage, hstage, hid⟩ := hleft.2 operation hsetup
      exact ⟨stage, hperm.mem_iff.mp hstage, hid⟩
  · intro service stage others _ hothers
    refine ⟨fun id hmem ↦ ?_, fun operation hsetup ↦ ?_⟩
    · obtain ⟨other, hother, hid⟩ := hothers.1 id hmem
      exact ⟨other, List.mem_cons_of_mem _ hother, hid⟩
    · obtain ⟨other, hother, hid⟩ := hothers.2 operation hsetup
      exact ⟨other, List.mem_cons_of_mem _ hother, hid⟩
  · intro context stage service others _ hfront hstage
    have hstep := @resumeAppend_step _ service localeCompare feedPublicKey context stage hfront.shared
      (hfront.waiting stage List.mem_cons_self)
    exact ⟨fun id hmem ↦ held_after_step (hstage.1 id) (hstep.held id hmem),
      fun operation hsetup ↦ held_after_step (hstage.2 operation) (hstep.setupHeld operation hsetup)⟩

theorem declaresRoot_run {before after : System (AppendStage crypto) (AppendingService crypto)}
    (hholds : (appendInvariant crypto).Holds before) (hroots : DeclaresRoot before.shared)
    (hrun : Run BeginsAppend (resumeAppends localeCompare feedPublicKey) (Anyhow crypto) before after) :
    DeclaresRoot after.shared := by
  refine @Invariant.Kept.run_with _ _ _ _ _ _ _ appendInvariant_kept (fun service _ ↦ DeclaresRoot service)
    (fun _ _ _ _ hservice ↦ hservice) (fun _ _ _ _ hservice ↦ hservice) ?_ before after hholds hroots hrun
  intro context stage service others _ hfront hservice
  exact (@resumeAppend_step _ service localeCompare feedPublicKey context stage hfront.shared
    (hfront.waiting stage List.mem_cons_self)).roots hservice

end Runs

end PeerHours.Desktop
