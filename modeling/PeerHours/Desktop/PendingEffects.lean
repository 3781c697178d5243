import PeerHours.Desktop.PendingCalls
import PeerHours.Desktop.ServiceEffects
import PeerHours.Records.RecordIds

/-!
# What a pending call does when it goes on

One inversion lemma says all that a pending call can do to the service and where it can wait next. What a
call works on while no other call may is its slot; a slot names the ids of the records that its call may
append.
-/

namespace PeerHours.Desktop

open Checked Json Stateful
open TimebankIdentity
open TimebankRecords
open TimebankSettlement

variable {crypto : Crypto}

/-! ## Slots -/

/-- What a call works on while no other call may. -/
inductive Slot where
  | closure (listingId : String)
  | acceptance (proposalId : String)
  | advancement (proposalId : String)
deriving DecidableEq

variable (crypto) in
/-- The ids of the records that the call of a slot may append. -/
inductive Slot.Names : Slot → String → Prop where
  | closed (listingId : String) :
      Names (.closure listingId) (closedListingRecordId listingId)
  | accepted (proposalId : String) :
      Names (.acceptance proposalId) (proposalRecordId "accepted" proposalId)
  | attested (proposalId : String) (root : Ed25519PublicKey crypto) :
      Names (.advancement proposalId)
        (proposalId ++ "/settlement-attestation/" ++ selfOwnedMemberId root)
  | settled (proposalId : String) : Names (.advancement proposalId) (proposalId ++ "/settlement")

variable (crypto) in
/-- A slot by the segments of an id that it names. -/
inductive Slot.OfSegments : Slot → String → String → Prop where
  | closed (listingId : String) : OfSegments (.closure listingId) listingId "closed"
  | accepted (proposalId : String) : OfSegments (.acceptance proposalId) proposalId "accepted"
  | settled (proposalId : String) : OfSegments (.advancement proposalId) proposalId "settlement"
  | attested (proposalId : String) (root : Ed25519PublicKey crypto) :
      OfSegments (.advancement proposalId) (proposalId ++ "/settlement-attestation")
        (selfOwnedMemberId root)

theorem Slot.Names.segments {slot : Slot} {id : String} (h : slot.Names crypto id) :
    ∃ stem last, Segments id stem last ∧ slot.OfSegments crypto stem last := by
  cases h with
  | closed listingId => exact ⟨_, _, segments_closedListingRecordId listingId, .closed listingId⟩
  | accepted proposalId => exact ⟨_, _, segments_acceptedRecordId proposalId, .accepted proposalId⟩
  | attested proposalId root =>
      exact ⟨_, _, segments_attestationId proposalId root, .attested proposalId root⟩
  | settled proposalId => exact ⟨_, _, segments_settlementId proposalId, .settled proposalId⟩

theorem Slot.OfSegments.unique {left right : Slot} {stem last : String}
    (hleft : left.OfSegments crypto stem last) (hright : right.OfSegments crypto stem last) :
    left = right := by
  have hne (root : Ed25519PublicKey crypto) (word : String)
      (hword : word.toList.head? ≠ some 'p') : selfOwnedMemberId root = word → False :=
    selfOwnedMemberId_ne hword root
  generalize hstem : stem = stem' at hright
  generalize hlast : last = last' at hright
  cases hleft with
  | closed listingId =>
      cases hright with
      | closed => rw [hstem]
      | accepted => exact absurd hlast (by decide)
      | settled => exact absurd hlast (by decide)
      | attested _ root => exact (hne root _ (by decide) hlast.symm).elim
  | accepted proposalId =>
      cases hright with
      | closed => exact absurd hlast (by decide)
      | accepted => rw [hstem]
      | settled => exact absurd hlast (by decide)
      | attested _ root => exact (hne root _ (by decide) hlast.symm).elim
  | settled proposalId =>
      cases hright with
      | closed => exact absurd hlast (by decide)
      | accepted => exact absurd hlast (by decide)
      | settled => rw [hstem]
      | attested _ root => exact (hne root _ (by decide) hlast.symm).elim
  | attested proposalId root =>
      cases hright with
      | closed => exact (hne root _ (by decide) hlast).elim
      | accepted => exact (hne root _ (by decide) hlast).elim
      | settled => exact (hne root _ (by decide) hlast).elim
      | attested => rw [(String.append_left_inj _).mp hstem]

/-- An id belongs to one slot. -/
theorem Slot.Names.unique {left right : Slot} {id : String} (hleft : left.Names crypto id)
    (hright : right.Names crypto id) : left = right := by
  obtain ⟨stem, last, hsegments, hslot⟩ := hleft.segments
  obtain ⟨stem', last', hsegments', hslot'⟩ := hright.segments
  obtain ⟨rfl, rfl⟩ := hsegments.unique hsegments'
  exact hslot.unique hslot'

/-- The slot that a record was made in. -/
def AfterAppend.slot : AfterAppend crypto → Slot
  | .closed listingId => .closure listingId
  | .accepted proposalId => .acceptance proposalId
  | .attested advancement => .advancement advancement.input.proposal.id
  | .transferred proposalId => .advancement proposalId

/-- The slot that a waiting call holds. -/
def Waiting.slot? : Waiting crypto → Option Slot
  | .readIdentity _ _ => none
  | .append _ next => some next.slot
  | .appended _ (.accepted _) => none
  | .appended _ next => some next.slot
  | .readRecords advancement => some (.advancement advancement.input.proposal.id)
  | .recordsRead _ advancement => some (.advancement advancement.input.proposal.id)

/-- The advancement that a waiting call goes on with. -/
def Waiting.advancement? : Waiting crypto → Option (Advancement crypto)
  | .readIdentity _ _ => none
  | .append _ (.attested advancement) => some advancement
  | .append _ _ => none
  | .appended _ (.attested advancement) => some advancement
  | .appended _ _ => none
  | .readRecords advancement => some advancement
  | .recordsRead _ advancement => some advancement

/-- Takes a slot. Nothing guards acceptances. -/
def GuardedService.take (service : GuardedService crypto) : Slot → GuardedService crypto
  | .closure listingId =>
      { service with listingClosuresInProgress := listingId :: service.listingClosuresInProgress }
  | .acceptance _ => service
  | .advancement proposalId =>
      { service with
        settlementAdvancementsInProgress :=
          proposalId :: service.settlementAdvancementsInProgress }

/-- Gives a slot back. -/
def GuardedService.release (service : GuardedService crypto) : Slot → GuardedService crypto
  | .closure listingId => finishClosure listingId service
  | .acceptance _ => service
  | .advancement proposalId => finishAdvancement proposalId service

/-- The guard lets no other call take the slot. -/
def GuardedService.Guards (service : GuardedService crypto) : Slot → Prop
  | .closure listingId => listingId ∈ service.listingClosuresInProgress
  | .acceptance _ => True
  | .advancement proposalId => proposalId ∈ service.settlementAdvancementsInProgress

/-- The guard lets a call take the slot. -/
def GuardedService.Admits (service : GuardedService crypto) : Slot → Prop
  | .closure listingId => listingId ∉ service.listingClosuresInProgress
  | .acceptance _ => True
  | .advancement proposalId => proposalId ∉ service.settlementAdvancementsInProgress

/-- An id that is put into a set that lacks it, and taken out again, leaves the set as it was. -/
theorem filter_ne_cons {ids : List String} {id : String} (h : id ∉ ids) :
    ((id :: ids).filter fun other ↦ decide (other ≠ id)) = ids := by
  rw [List.filter_cons_of_neg (by simp), List.filter_eq_self]
  intro other hother
  exact decide_eq_true fun hsame ↦ h (hsame ▸ hother)

/-- A slot that is taken and given back leaves no trace. -/
theorem GuardedService.release_take {service : GuardedService crypto} {slot : Slot}
    (h : service.Admits slot) : (service.take slot).release slot = service := by
  cases slot with
  | closure listingId =>
      show { service with
        listingClosuresInProgress := (listingId :: service.listingClosuresInProgress).filter
          fun other ↦ decide (other ≠ listingId) } = service
      rw [filter_ne_cons h]
  | acceptance => rfl
  | advancement proposalId =>
      show { service with
        settlementAdvancementsInProgress :=
          (proposalId :: service.settlementAdvancementsInProgress).filter
            fun other ↦ decide (other ≠ proposalId) } = service
      rw [filter_ne_cons h]

/-! ## The effects -/

/-- An advancement goes on with the terms of its proposal and a plain attestation. -/
structure Advancement.Sound (advancement : Advancement crypto) : Prop where
  terms : advancement.terms = settlementTerms advancement.input.proposal
  plain : advancement.ownAttestation.attestation.rest = []

/-- What a pending call can do when it goes on: where it waits next, and the service it leaves behind. -/
inductive CallEffect (waiting : Waiting crypto) (service : GuardedService crypto) :
    Option (Waiting crypto) → GuardedService crypto → Prop where
  | stopped (hslot : waiting.slot? = none) : CallEffect waiting service none service
  | closing (communityId : Option String) (input : CloseListingInput) (source : JsonValue)
      (record : RecordEnvelope)
      (hwaiting : waiting = .readIdentity communityId (.closeListing input))
      (hadmits : service.Admits (.closure input.listing.id))
      (hcreate : createRecordEnvelope source = .ok record)
      (hid : record.id = closedListingRecordId input.listing.id) :
      CallEffect waiting service (some (.append source (.closed input.listing.id)))
        (service.take (.closure input.listing.id))
  | accepting (communityId : Option String) (input : AcceptProposalInput) (source : JsonValue)
      (record : RecordEnvelope)
      (hwaiting : waiting = .readIdentity communityId (.acceptProposal input))
      (hcreate : createRecordEnvelope source = .ok record)
      (hid : record.id = proposalRecordId "accepted" input.proposal.id) :
      CallEffect waiting service (some (.append source (.accepted input.proposal.id))) service
  | attesting (communityId : Option String) (input : VerifiedSettlementInput)
      (advancement : Advancement crypto) (root : StoredMemberIdentity crypto) (source : JsonValue)
      (record : RecordEnvelope)
      (hwaiting : waiting = .readIdentity communityId (.advanceSettlement input))
      (hadmits : service.Admits (.advancement input.proposal.id))
      (hroot : service.root? = some root)
      (hnone : ∀ container ∈ input.attestations, container.attestation.memberId ≠ root.memberId)
      (hinput : advancement.input = input) (hsound : advancement.Sound)
      (hcreate : createRecordEnvelope source = .ok record)
      (hid : record.id = input.proposal.id ++ "/settlement-attestation/" ++ root.memberId) :
      CallEffect waiting service (some (.append source (.attested advancement)))
        (service.take (.advancement input.proposal.id))
  | attested (communityId : Option String) (input : VerifiedSettlementInput)
      (advancement : Advancement crypto)
      (hwaiting : waiting = .readIdentity communityId (.advanceSettlement input))
      (hadmits : service.Admits (.advancement input.proposal.id))
      (hinput : advancement.input = input) (hsound : advancement.Sound) :
      CallEffect waiting service (some (.readRecords advancement))
        (service.take (.advancement input.proposal.id))
  | refused (source : JsonValue) (next : AfterAppend crypto)
      (hwaiting : waiting = .append source next) :
      CallEffect waiting service (some (.appended false next)) service
  | taken (source : JsonValue) (next : AfterAppend crypto)
      (hwaiting : waiting = .append source next) :
      CallEffect waiting service (some (.appended true next))
        { service with records := service.records ++ [source] }
  | released (slot : Slot) (hslot : waiting.slot? = some slot) :
      CallEffect waiting service none (service.release slot)
  | collected (advancement : Advancement crypto)
      (hwaiting : waiting = .appended true (.attested advancement)) :
      CallEffect waiting service (some (.readRecords advancement)) service
  | read (advancement : Advancement crypto) (hwaiting : waiting = .readRecords advancement) :
      CallEffect waiting service (some (.recordsRead service.records advancement)) service
  | settling (records : List JsonValue) (advancement : Advancement crypto) (source : JsonValue)
      (record : RecordEnvelope) (transfer : TimebankLedger.Transfer)
      (hwaiting : waiting = .recordsRead records advancement)
      (hnone : hasLedgerTransfer records advancement.terms.id = false)
      (hcreate : createRecordEnvelope source = .ok record)
      (hcarries : ledgerTransferRecords.Carries record transfer)
      (hterms : transfer.toTransferTerms = advancement.terms) :
      CallEffect waiting service
        (some (.append source (.transferred advancement.input.proposal.id))) service

/-- Where a call waits next by what its computation returns. -/
def nextOf : Except String (Option (Waiting crypto)) → Option (Waiting crypto)
  | .ok next => next
  | .error _ => none

variable {context : CallContext crypto} {localeCompare : String → String → Ordering}
  {service : GuardedService crypto} {communityId : Option String}

/-- A call that has no slot yet may stop without any effect. -/
theorem CallEffect.stop {operation : GuardedOperation} {message : String} :
    CallEffect (.readIdentity communityId operation) service
      (nextOf (.error message : Except String (Option (Waiting crypto)))) service :=
  .stopped rfl

theorem protectedIdentity_root {identityStore : Option (IdentityMaterial crypto)} {action : String}
    {stored : IdentityMaterial crypto} {selected : String}
    (h : protectedIdentity context communityId identityStore action = .ok (stored, selected)) :
    identityStore = some stored := by
  simp only [protectedIdentity, bind_eq_ok, require_eq_ok, pure_eq_ok, present_eq_ok,
    Prod.mk.injEq] at h
  obtain ⟨_, -, _, hstored, -, -, -, -, rfl, -⟩ := h
  exact hstored

theorem closeListing_effect {input : CloseListingInput} :
    Ensures (closeListing context communityId input) service fun result after ↦
      CallEffect (.readIdentity communityId (.closeListing input)) service (nextOf result) after := by
  unfold closeListing
  rw [ensures_get_bind]
  refine .check_bind (fun _ ↦ .stop) fun ⟨stored, selected⟩ _ ↦ ?_
  refine .check_bind (fun _ ↦ .stop) fun _ _ ↦ ?_
  refine .check_bind (fun _ ↦ .stop) fun owner _ ↦ ?_
  refine .check_bind (fun _ ↦ .stop) fun _ _ ↦ ?_
  refine .check_bind (fun _ ↦ .stop) fun _ hfree ↦ ?_
  have hlisting := require_eq_ok.mp hfree
  have hadmits : service.Admits (.closure input.listing.id) := hlisting
  rw [ensures_modify_bind, ensures_onFailure]
  -- `finally` takes the listing out again wherever the record cannot be made
  have hstop : CallEffect (.readIdentity communityId (.closeListing input)) service none
      (finishClosure input.listing.id (service.take (.closure input.listing.id))) := by
    have hsame : finishClosure input.listing.id (service.take (.closure input.listing.id)) = service :=
      GuardedService.release_take hadmits
    rw [hsame]
    exact .stopped rfl
  refine .check_bind (fun _ ↦ hstop) fun record hrecord ↦ ?_
  refine .check_bind (fun _ ↦ hstop) fun signed hsigned ↦ ?_
  obtain ⟨source, hsource, hrootSigned⟩ := signRecord_spec stored.root record
  obtain rfl : source = signed := Except.ok.inj (hsource.symm.trans hsigned)
  exact .closing communityId input source record rfl hadmits hrootSigned.create
    (toClosedListingRecord_id hrecord)

theorem acceptProposal_effect {input : AcceptProposalInput} :
    Ensures (acceptProposal context communityId input) service fun result after ↦
      CallEffect (.readIdentity communityId (.acceptProposal input)) service (nextOf result)
        after := by
  unfold acceptProposal
  rw [ensures_get_bind]
  refine .check_bind (fun _ ↦ .stop) fun ⟨stored, selected⟩ _ ↦ ?_
  refine .check_bind (fun _ ↦ .stop) fun provider _ ↦ ?_
  refine .check_bind (fun _ ↦ .stop) fun recipient _ ↦ ?_
  refine .check_bind (fun _ ↦ .stop) fun accepted haccepted ↦ ?_
  refine .check_bind (fun _ ↦ .stop) fun record hrecord ↦ ?_
  refine .check_bind (fun _ ↦ .stop) fun signed hsigned ↦ ?_
  obtain ⟨source, hsource, hrootSigned⟩ := signRecord_spec stored.root record
  obtain rfl : source = signed := Except.ok.inj (hsource.symm.trans hsigned)
  refine .accepting communityId input source record rfl hrootSigned.create ?_
  rw [toAcceptedExchangeProposalRecord_id hrecord]
  congr 1
  -- accepting keeps the id of the proposal
  simp only [TimebankDomain.acceptExchangeProposal, bind_eq_ok, require_eq_ok, pure_eq_ok]
    at haccepted
  obtain ⟨-, -, -, -, -, -, -, -, -, -, -, -, rfl⟩ := haccepted
  rfl

/-- The signature of settlement terms is plain and named after the member. -/
theorem attestSettlement_spec {stored : IdentityMaterial crypto} {input : VerifiedSettlementInput}
    {terms : TimebankLedger.TransferTerms} {container : SettlementTransferAttestation}
    (h : attestSettlement localeCompare stored input terms = .ok container) :
    container.attestation.rest = [] ∧
      container.id = input.proposal.id ++ "/settlement-attestation/" ++ stored.root.memberId := by
  obtain ⟨attestation, hattestation, hcontainer⟩ := bind_eq_ok.mp h
  obtain ⟨-, -, -, rfl⟩ := (createSettlementTransferAttestation_eq_ok
    input.accepted.settleable).mp hcontainer
  simp only [createParticipantTransferAttestation, bind_eq_ok, require_eq_ok, pure_eq_ok]
    at hattestation
  obtain ⟨_, -, _, -, _, -, _, -, _, -, _, -, _, -, rfl⟩ := hattestation
  exact ⟨rfl, rfl⟩

/-- Going on to publication takes the attestations of both participants. -/
theorem awaitParticipants_spec {advancement : Advancement crypto} :
    Ensures (awaitParticipants advancement) service fun result after ↦
      result = .ok none ∧ after = finishAdvancement advancement.input.proposal.id service ∨
        result = .ok (some (.readRecords advancement)) ∧ after = service := by
  unfold awaitParticipants
  dsimp only
  split
  · exact .inl ⟨rfl, rfl⟩
  · exact .inr ⟨rfl, rfl⟩

theorem advanceSettlement_effect {input : VerifiedSettlementInput} :
    Ensures (advanceSettlement localeCompare context communityId input) service fun result after ↦
      CallEffect (.readIdentity communityId (.advanceSettlement input)) service (nextOf result)
        after := by
  unfold advanceSettlement
  rw [ensures_get_bind]
  refine .check_bind (fun _ ↦ .stop) fun ⟨stored, selected⟩ hstored ↦ ?_
  refine .check_bind (fun _ ↦ .stop) fun _ _ ↦ ?_
  refine .check_bind (fun _ ↦ .stop) fun _ _ ↦ ?_
  refine .check_bind (fun _ ↦ .stop) fun _ hfree ↦ ?_
  have hproposal := require_eq_ok.mp hfree
  have hadmits : service.Admits (.advancement input.proposal.id) := hproposal
  have hroot : service.root? = some stored.root := by
    rw [MemberIdentityService.root?, protectedIdentity_root hstored, Option.map_some]
  rw [ensures_modify_bind, ensures_onFailure]
  -- `finally` takes the proposal out again wherever the call ends here
  have hstop : CallEffect (.readIdentity communityId (.advanceSettlement input)) service none
      (finishAdvancement input.proposal.id (service.take (.advancement input.proposal.id))) := by
    have hsame : finishAdvancement input.proposal.id
        (service.take (.advancement input.proposal.id)) = service :=
      GuardedService.release_take hadmits
    rw [hsame]
    exact .stopped rfl
  unfold attestOnce
  refine .check_bind (fun _ ↦ hstop) fun terms hterms ↦ ?_
  obtain ⟨-, -, rfl⟩ := (createDualConfirmedSettlementTransferTerms_eq_ok
    input.accepted.settleable).mp hterms
  cases hown : input.attestations.find? fun container ↦
      decide (container.attestation.memberId = stored.root.memberId) with
  | some ownExisting =>
      refine awaitParticipants_spec.mono fun result after hspec ↦ ?_
      rcases hspec with ⟨rfl, rfl⟩ | ⟨rfl, rfl⟩
      · exact hstop
      · exact .attested communityId input _ rfl hadmits rfl
          ⟨rfl, input.plain _ (List.mem_of_find?_eq_some hown)⟩
  | none =>
      refine .check_bind (fun _ ↦ hstop) fun ownAttestation hattestation ↦ ?_
      refine .check_bind (fun _ ↦ hstop) fun record hrecord ↦ ?_
      refine .check_bind (fun _ ↦ hstop) fun signed hsigned ↦ ?_
      obtain ⟨source, hsource, hrootSigned⟩ := signRecord_spec stored.root record
      obtain rfl : source = signed := Except.ok.inj (hsource.symm.trans hsigned)
      obtain ⟨hplain, hid⟩ := attestSettlement_spec hattestation
      refine .attesting communityId input _ stored.root source record rfl hadmits hroot ?_ rfl
        ⟨rfl, hplain⟩ hrootSigned.create
        ((toSettlementTransferAttestationRecord_id hrecord).trans hid)
      intro container hcontainer
      simpa using List.find?_eq_none.mp hown container hcontainer

/-- The attestations of a sound advancement are plain. -/
theorem Advancement.Sound.attestations_plain {advancement : Advancement crypto}
    (h : advancement.Sound) :
    ∀ attestation ∈ advancement.attestations.map (·.attestation), attestation.rest = [] := by
  intro attestation hattestation
  obtain ⟨container, hcontainer, rfl⟩ := List.mem_map.mp hattestation
  cases List.mem_append.mp hcontainer with
  | inl hinput => exact advancement.input.plain container (List.mem_filter.mp hinput).1
  | inr hown => exact List.mem_singleton.mp hown ▸ h.plain

theorem publishTransfer_effect {records : List JsonValue} {advancement : Advancement crypto}
    (hsound : advancement.Sound) :
    Ensures (publishTransfer localeCompare context records advancement) service fun result after ↦
      CallEffect (.recordsRead records advancement) service (nextOf result) after := by
  have hstop : CallEffect (.recordsRead records advancement) service none
      (finishAdvancement advancement.input.proposal.id service) :=
    .released (.advancement advancement.input.proposal.id) rfl
  unfold publishTransfer
  by_cases hpublished : hasLedgerTransfer records advancement.terms.id = true
  · simp only [hpublished, if_true]
    exact hstop
  · simp only [hpublished]
    rw [if_neg (by simp), ensures_onFailure]
    refine .check_bind (fun _ ↦ hstop) fun record hrecord ↦ ?_
    refine .check_bind (fun _ ↦ hstop) fun signed hsigned ↦ ?_
    obtain ⟨source, hsource, hrootSigned⟩ := signRecord_spec advancement.stored.root record
    obtain rfl : source = signed := Except.ok.inj (hsource.symm.trans hsigned)
    obtain ⟨transfer, hcarries, hterms⟩ := toDualConfirmedSettlementTransferRecord_spec
      advancement.input.accepted.settleable hsound.attestations_plain hrecord
    exact .settling records advancement source record transfer rfl
      (Bool.not_eq_true _ ▸ hpublished) hrootSigned.create hcarries (hterms.trans hsound.terms.symm)

theorem afterAppend_effect {succeeded : Bool} {next : AfterAppend crypto} :
    Ensures (afterAppend succeeded next) service fun result after ↦
      CallEffect (.appended succeeded next) service (nextOf result) after := by
  cases next with
  | closed listingId => exact .released (.closure listingId) rfl
  | accepted proposalId => exact .stopped rfl
  | attested advancement =>
      have hstop : CallEffect (.appended succeeded (.attested advancement)) service none
          (finishAdvancement advancement.input.proposal.id service) :=
        .released (.advancement advancement.input.proposal.id) rfl
      cases succeeded with
      | false => exact hstop
      | true =>
          refine awaitParticipants_spec.mono fun result after hspec ↦ ?_
          rcases hspec with ⟨rfl, rfl⟩ | ⟨rfl, rfl⟩
          · exact hstop
          · exact .collected advancement rfl
  | transferred proposalId => exact .released (.advancement proposalId) rfl

/-- All that a pending call can do when it goes on. -/
theorem goOn_effect {waiting : Waiting crypto}
    (hsound : ∀ advancement ∈ waiting.advancement?, advancement.Sound) :
    Ensures (goOn localeCompare context waiting) service fun result after ↦
      CallEffect waiting service (nextOf result) after := by
  cases waiting with
  | readIdentity communityId operation =>
      cases operation with
      | closeListing input => exact closeListing_effect
      | acceptProposal input => exact acceptProposal_effect
      | advanceSettlement input => exact advanceSettlement_effect
  | append record next =>
      cases hwritable : context.feedWritable with
      | true =>
          simp only [goOn, hwritable]
          exact .taken record next rfl
      | false =>
          simp only [goOn, hwritable]
          exact .refused record next rfl
  | appended succeeded next => exact afterAppend_effect
  | readRecords advancement => exact .read advancement rfl
  | recordsRead records advancement => exact publishTransfer_effect (hsound advancement rfl)

theorem resumeCall_effect {waiting : Waiting crypto}
    (hsound : ∀ advancement ∈ waiting.advancement?, advancement.Sound) :
    CallEffect waiting service (resumeCall localeCompare context waiting service).1
      (resumeCall localeCompare context waiting service).2 := by
  have heffect := @goOn_effect _ context localeCompare service _ hsound
  unfold Ensures at heffect
  unfold resumeCall
  rcases hresult : outcome (goOn localeCompare context waiting) service with ⟨message | next, after⟩
  · simpa [hresult, nextOf] using heffect
  · simpa [hresult, nextOf] using heffect

end PeerHours.Desktop
