import PeerHours.Settlement.Exchange

/-!
# What the settlement validators accept

For a settleable proposal the acknowledgement of a member, the terms of the transfer and the
container of an attestation are functions of the proposal. Each validator accepts exactly the value
of its function, so two accepted values for one participant are equal.
-/

namespace PeerHours.TimebankSettlement

open Checked Json KeyedMap Sorting
open TimebankDomain (ExchangeProposal)
open TimebankIdentity (MemberSigningKeyAuthorization Attests Compatible transferPayloadDigest_of_valid
  canonicalTerms assertAuthorizedTransferAttestations_eq_ok)
open TimebankLedger (TransferTerms Transfer TransferAttestation createTransfer createTransfer_eq_ok
  createTransfer_toJson createTransferTerms_eq_ok describes_properties normalizeAttestations_eq_ok
  readAttestation_toJson)

/-- An accepted proposal whose terms can be settled. -/
structure Settleable (proposal : ExchangeProposal) : Prop where
  status : proposal.status = .accepted
  acceptedBy : proposal.acceptedByMemberId ≠ none
  id : Text.blank proposal.id = false
  communityId : Text.blank proposal.communityId = false
  providerMemberId : Text.blank proposal.providerMemberId = false
  receiverMemberId : Text.blank proposal.receiverMemberId = false
  positive : 0 < proposal.minutes
  distinct : proposal.providerMemberId ≠ proposal.receiverMemberId

/-- The acknowledgement of a proposal by a member. -/
def acknowledgementOf (proposal : ExchangeProposal) (memberId : String) :
    SettlementAcknowledgement :=
  { id := proposal.id ++ "/settlement-ack/" ++ memberId
    communityId := proposal.communityId
    sourceProposalId := proposal.id
    providerMemberId := proposal.providerMemberId
    recipientMemberId := proposal.receiverMemberId
    minutes := proposal.minutes
    acknowledgedByMemberId := memberId }

/-- The terms of the transfer that settles a proposal. -/
def settlementTerms (proposal : ExchangeProposal) : TransferTerms :=
  { id := proposal.id ++ "/settlement"
    communityId := proposal.communityId
    sourceProposalId := some (.str proposal.id)
    providerMemberId := proposal.providerMemberId
    recipientMemberId := proposal.receiverMemberId
    minutes := proposal.minutes
    reversesTransferId := none }

/-- The digest of the terms of the transfer that settles a proposal. -/
def settlementDigest (crypto : Crypto) (proposal : ExchangeProposal) : String :=
  Base64Url.encode (crypto.sha256 (jsonBytes (canonicalTerms (settlementTerms proposal))))

/-- The container of an attestation of the transfer that settles a proposal. -/
def attestationContainer (proposal : ExchangeProposal) (attestation : TransferAttestation) :
    SettlementTransferAttestation :=
  { id := proposal.id ++ "/settlement-attestation/" ++ attestation.memberId
    communityId := proposal.communityId
    sourceProposalId := proposal.id
    attestation := attestation }

/-- The member takes part in the exchange. -/
def Participates (proposal : ExchangeProposal) (memberId : String) : Prop :=
  memberId = proposal.providerMemberId ∨ memberId = proposal.receiverMemberId

instance (proposal : ExchangeProposal) (memberId : String) :
    Decidable (Participates proposal memberId) :=
  inferInstanceAs (Decidable (_ ∨ _))

variable {proposal : ExchangeProposal}

theorem Settleable.blank_participant (h : Settleable proposal) {memberId : String}
    (hmember : Participates proposal memberId) : Text.blank memberId = false := by
  rcases hmember with rfl | rfl
  · exact h.providerMemberId
  · exact h.receiverMemberId

theorem Settleable.assertAcceptedProposal_eq_ok (h : Settleable proposal) :
    assertAcceptedProposal proposal = .ok () :=
  require_eq_ok.mpr ⟨h.status, h.acceptedBy⟩

@[simp] theorem assertText_eq_ok {value label : String} {result : Unit} :
    assertText value label = .ok result ↔ Text.blank value = false := by
  simp [assertText]

theorem settlementAcknowledgementId_eq_ok {proposalId memberId id : String} :
    settlementAcknowledgementId proposalId memberId = .ok id ↔
      Text.blank proposalId = false ∧ Text.blank memberId = false ∧
        proposalId ++ "/settlement-ack/" ++ memberId = id := by
  simp only [settlementAcknowledgementId, bind_eq_ok, assertText_eq_ok, exists_const, pure_eq_ok]

/-- A member acknowledges a settleable proposal exactly when taking part in it. -/
theorem createSettlementAcknowledgement_eq_ok (h : Settleable proposal) {memberId : String}
    {acknowledgement : SettlementAcknowledgement} :
    createSettlementAcknowledgement proposal memberId = .ok acknowledgement ↔
      Participates proposal memberId ∧ acknowledgementOf proposal memberId = acknowledgement := by
  simp only [createSettlementAcknowledgement, h.assertAcceptedProposal_eq_ok, ok_bind,
    assertParticipant, bind_eq_ok, assertText_eq_ok, require_eq_ok, exists_const,
    settlementAcknowledgementId_eq_ok, pure_eq_ok]
  constructor
  · rintro ⟨⟨-, hmember⟩, _, ⟨-, -, rfl⟩, rfl⟩
    exact ⟨hmember, rfl⟩
  · rintro ⟨hmember, rfl⟩
    have hblank := h.blank_participant hmember
    exact ⟨⟨hblank, hmember⟩, _, ⟨h.id, hblank, rfl⟩, rfl⟩

/-- The acknowledgements of a settleable proposal are those its participants create. -/
theorem validateSettlementAcknowledgement_eq_ok (h : Settleable proposal)
    {acknowledgement result : SettlementAcknowledgement} :
    validateSettlementAcknowledgement proposal acknowledgement = .ok result ↔
      Participates proposal acknowledgement.acknowledgedByMemberId ∧
      acknowledgement = acknowledgementOf proposal acknowledgement.acknowledgedByMemberId ∧
      acknowledgement = result := by
  simp only [validateSettlementAcknowledgement, h.assertAcceptedProposal_eq_ok, ok_bind,
    assertParticipant, assertPositiveWholeMinutes, bind_eq_ok, assertText_eq_ok, require_eq_ok,
    exists_const, settlementAcknowledgementId_eq_ok, pure_eq_ok]
  obtain ⟨id, community, source, provider, recipient, minutes, member⟩ := acknowledgement
  simp only [acknowledgementOf, SettlementAcknowledgement.mk.injEq, and_true]
  constructor
  · rintro ⟨-, -, -, -, -, -, -, _, ⟨-, -, rfl⟩, hid, hterms, ⟨-, hmember⟩, hresult⟩
    exact ⟨hmember, ⟨hid, hterms⟩, hresult⟩
  · rintro ⟨hmember, ⟨rfl, rfl, rfl, rfl, rfl, rfl⟩, hresult⟩
    have hblank := h.blank_participant hmember
    exact ⟨by simp [h.id], h.communityId, h.id, h.providerMemberId, h.receiverMemberId, hblank,
      h.positive, _, ⟨h.id, hblank, rfl⟩, rfl, ⟨rfl, rfl, rfl, rfl, rfl⟩, ⟨hblank, hmember⟩, hresult⟩

/-- The acknowledgement is the one its member creates for the proposal. -/
def Acknowledges (proposal : ExchangeProposal) (acknowledgement : SettlementAcknowledgement) : Prop :=
  Participates proposal acknowledgement.acknowledgedByMemberId ∧
    acknowledgement = acknowledgementOf proposal acknowledgement.acknowledgedByMemberId

/-- Both participants acknowledged the proposal. -/
def DualAcknowledged (proposal : ExchangeProposal)
    (acknowledgements : List SettlementAcknowledgement) : Prop :=
  acknowledgementOf proposal proposal.providerMemberId ∈ acknowledgements ∧
    acknowledgementOf proposal proposal.receiverMemberId ∈ acknowledgements

theorem succeeds_validateSettlementAcknowledgement (h : Settleable proposal)
    {acknowledgement : SettlementAcknowledgement} :
    Succeeds (validateSettlementAcknowledgement proposal acknowledgement) ↔
      Acknowledges proposal acknowledgement := by
  simp only [Succeeds, validateSettlementAcknowledgement_eq_ok h, Acknowledges]
  exact ⟨fun ⟨_, hmember, hack, _⟩ ↦ ⟨hmember, hack⟩, fun ⟨hmember, hack⟩ ↦ ⟨_, hmember, hack, rfl⟩⟩

/-- The object of an acknowledgement determines it. -/
theorem SettlementAcknowledgement.toJson_inj {left right : SettlementAcknowledgement} :
    left.toJson = right.toJson ↔ left = right := by
  obtain ⟨_, _, _, _, _, _, _⟩ := left
  obtain ⟨_, _, _, _, _, _, _⟩ := right
  simp [toJson]

theorem determines_acknowledgements :
    Determines SettlementAcknowledgement.acknowledgedByMemberId
      (fun acknowledgement ↦ stringify acknowledgement.toJson)
      (validateSettlementAcknowledgement proposal) :=
  determines_of_injective fun _ _ h ↦
    SettlementAcknowledgement.toJson_inj.mp (stringify_inj.mp h)

/-- Valid acknowledgements never conflict. -/
theorem succeeds_acknowledgementsByParticipant (h : Settleable proposal)
    {acknowledgements : List SettlementAcknowledgement} :
    Succeeds (acknowledgementsByParticipant proposal acknowledgements) ↔
      ∀ acknowledgement ∈ acknowledgements, Acknowledges proposal acknowledgement := by
  rw [acknowledgementsByParticipant, succeeds_collect determines_acknowledgements]
  simp only [succeeds_validateSettlementAcknowledgement h, validateSettlementAcknowledgement_eq_ok h]
  constructor
  · exact And.left
  · refine fun hall ↦ ⟨hall, ?_⟩
    rintro left - _ ⟨-, hleft, rfl⟩ right - _ ⟨-, hright, rfl⟩ hmember
    rw [hleft, hright, hmember]

theorem mem_acknowledgementsByParticipant (h : Settleable proposal)
    {acknowledgements byParticipant : List SettlementAcknowledgement}
    (hcollect : acknowledgementsByParticipant proposal acknowledgements = .ok byParticipant)
    (acknowledgement : SettlementAcknowledgement) :
    acknowledgement ∈ byParticipant ↔ acknowledgement ∈ acknowledgements := by
  have hall := (succeeds_acknowledgementsByParticipant h).mp ⟨_, hcollect⟩
  rw [mem_collect determines_acknowledgements hcollect]
  simp only [validateSettlementAcknowledgement_eq_ok h]
  constructor
  · rintro ⟨source, hsource, -, -, rfl⟩
    exact hsource
  · exact fun hmem ↦ ⟨_, hmem, (hall _ hmem).1, (hall _ hmem).2, rfl⟩

theorem isDualConfirmed_eq_true (h : Settleable proposal)
    {acknowledgements byParticipant : List SettlementAcknowledgement}
    (hcollect : acknowledgementsByParticipant proposal acknowledgements = .ok byParticipant) :
    isDualConfirmed proposal byParticipant = true ↔ DualAcknowledged proposal acknowledgements := by
  have hall := (succeeds_acknowledgementsByParticipant h).mp ⟨_, hcollect⟩
  have hmember : ∀ memberId,
      (lookup (·.acknowledgedByMemberId) memberId byParticipant).isSome = true ↔
        acknowledgementOf proposal memberId ∈ acknowledgements := by
    intro memberId
    rw [← mem_acknowledgementsByParticipant h hcollect, Option.isSome_iff_exists]
    constructor
    · rintro ⟨found, hfound⟩
      obtain ⟨hmem, rfl⟩ := lookup_eq_some hfound
      rw [← (hall found ((mem_acknowledgementsByParticipant h hcollect found).mp hmem)).2]
      exact hmem
    · intro hmem
      exact ⟨_, lookup_of_mem (nodup_collect determines_acknowledgements hcollect) hmem⟩
  rw [isDualConfirmed, Bool.and_eq_true, hmember, hmember, DualAcknowledged]

variable {localeCompare : String → String → Ordering}

/-- Resolution succeeds exactly for valid acknowledgements; it reports those given, and
dual confirmation when both participants acknowledged. -/
theorem resolveSettlementAcknowledgements_eq_ok (h : Settleable proposal)
    {acknowledgements : List SettlementAcknowledgement} :
    (Succeeds (resolveSettlementAcknowledgements localeCompare proposal acknowledgements) ↔
      ∀ acknowledgement ∈ acknowledgements, Acknowledges proposal acknowledgement) ∧
    ∀ state, resolveSettlementAcknowledgements localeCompare proposal acknowledgements =
        .ok state →
      state.proposalId = proposal.id ∧
      (state.status = .dualConfirmed ↔ DualAcknowledged proposal acknowledgements) ∧
      ∀ acknowledgement, acknowledgement ∈ state.acknowledgements ↔
        acknowledgement ∈ acknowledgements := by
  rw [resolveSettlementAcknowledgements, h.assertAcceptedProposal_eq_ok, ok_bind]
  constructor
  · rw [← succeeds_acknowledgementsByParticipant h]
    simp only [Succeeds, bind_eq_ok, pure_eq_ok]
    constructor
    · rintro ⟨_, byParticipant, hcollect, -⟩
      exact ⟨byParticipant, hcollect⟩
    · rintro ⟨byParticipant, hcollect⟩
      exact ⟨_, byParticipant, hcollect, rfl⟩
  · intro state hstate
    obtain ⟨byParticipant, hcollect, hstate⟩ := bind_eq_ok.mp hstate
    obtain rfl := pure_eq_ok.mp hstate
    refine ⟨rfl, ?_, fun acknowledgement ↦ ?_⟩
    · rw [← isDualConfirmed_eq_true h hcollect]
      by_cases hdual : isDualConfirmed proposal byParticipant = true <;> simp [hdual]
    · rw [mem_sortBy, mem_acknowledgementsByParticipant h hcollect]

/-- A step that needs dual confirmation runs exactly after two valid acknowledgements. -/
theorem bind_dualConfirmed_eq_ok (h : Settleable proposal) {α : Type}
    {acknowledgements : List SettlementAcknowledgement} {message : String}
    {next : Except String α} {result : α} :
    (resolveSettlementAcknowledgements localeCompare proposal acknowledgements >>= fun confirmation ↦
      require (confirmation.status = .dualConfirmed) message >>= fun _ ↦ next) = .ok result ↔
      (∀ acknowledgement ∈ acknowledgements, Acknowledges proposal acknowledgement) ∧
        DualAcknowledged proposal acknowledgements ∧ next = .ok result := by
  obtain ⟨hsucceeds, hstate⟩ := @resolveSettlementAcknowledgements_eq_ok proposal localeCompare h
    acknowledgements
  simp only [bind_eq_ok, require_eq_ok, exists_const]
  constructor
  · rintro ⟨state, hresolve, hdual, hnext⟩
    exact ⟨hsucceeds.mp ⟨state, hresolve⟩, (hstate state hresolve).2.1.mp hdual, hnext⟩
  · rintro ⟨hall, hdual, hnext⟩
    obtain ⟨state, hresolve⟩ := hsucceeds.mpr hall
    exact ⟨state, hresolve, (hstate state hresolve).2.1.mpr hdual, hnext⟩

/-- Settlement terms exist exactly after two valid acknowledgements. -/
theorem createDualConfirmedSettlementTransferTerms_eq_ok (h : Settleable proposal)
    {acknowledgements : List SettlementAcknowledgement} {terms : TransferTerms} :
    createDualConfirmedSettlementTransferTerms localeCompare proposal acknowledgements = .ok terms ↔
      (∀ acknowledgement ∈ acknowledgements, Acknowledges proposal acknowledgement) ∧
        DualAcknowledged proposal acknowledgements ∧ settlementTerms proposal = terms := by
  rw [createDualConfirmedSettlementTransferTerms, bind_dualConfirmed_eq_ok h]
  simp [settlementTransferId, h.id, require, settlementTerms]

/-- The terms of a settlement are valid transfer terms. -/
theorem Settleable.settlementTerms_valid (h : Settleable proposal) :
    (settlementTerms proposal).Valid where
  id := by simp [settlementTerms, h.id]
  communityId := h.communityId
  providerMemberId := h.providerMemberId
  recipientMemberId := h.receiverMemberId
  positive := h.positive
  distinct := h.distinct
  reverses := nofun
  settles := fun _ ↦ ⟨proposal.id, rfl, h.id⟩

variable {crypto : Crypto}

/-- The attestation may stand in a container for the proposal. -/
def AttestsProposal (crypto : Crypto) (proposal : ExchangeProposal)
    (attestation : TransferAttestation) : Prop :=
  Participates proposal attestation.memberId ∧
    attestation.payloadDigest = settlementDigest crypto proposal

/-- A container is created exactly for a participant who names the digest of the terms. -/
theorem createSettlementTransferAttestation_eq_ok (h : Settleable proposal)
    {acknowledgements : List SettlementAcknowledgement} {attestation : TransferAttestation}
    {container : SettlementTransferAttestation} :
    createSettlementTransferAttestation crypto localeCompare proposal acknowledgements attestation =
        .ok container ↔
      (∀ acknowledgement ∈ acknowledgements, Acknowledges proposal acknowledgement) ∧
        DualAcknowledged proposal acknowledgements ∧ AttestsProposal crypto proposal attestation ∧
        attestationContainer proposal attestation = container := by
  simp only [createSettlementTransferAttestation, bind_eq_ok,
    createDualConfirmedSettlementTransferTerms_eq_ok h, require_eq_ok, exists_const]
  constructor
  · rintro ⟨_, ⟨hall, hdual, rfl⟩, hmember, digest, hdigest, hpayload, id, hid, hcontainer⟩
    rw [transferPayloadDigest_of_valid crypto h.settlementTerms_valid, Except.ok.injEq] at hdigest
    simp only [settlementTransferAttestationId, bind_eq_ok, require_eq_ok, exists_const,
      pure_eq_ok] at hid
    obtain ⟨-, rfl⟩ := hid
    exact ⟨hall, hdual, ⟨hmember, hpayload.trans hdigest.symm⟩, pure_eq_ok.mp hcontainer⟩
  · rintro ⟨hall, hdual, ⟨hmember, hpayload⟩, rfl⟩
    refine ⟨_, ⟨hall, hdual, rfl⟩, hmember, settlementDigest crypto proposal,
      transferPayloadDigest_of_valid crypto h.settlementTerms_valid, hpayload, _, ?_, rfl⟩
    have hblank := h.blank_participant hmember
    simp [settlementTransferAttestationId, require, sourceProposalText, settlementTerms, h.id, hblank]

theorem validateSettlementTransferAttestation_eq_ok (h : Settleable proposal)
    {acknowledgements : List SettlementAcknowledgement}
    {container result : SettlementTransferAttestation} :
    validateSettlementTransferAttestation crypto localeCompare proposal acknowledgements container =
        .ok result ↔
      (∀ acknowledgement ∈ acknowledgements, Acknowledges proposal acknowledgement) ∧
        DualAcknowledged proposal acknowledgements ∧
        AttestsProposal crypto proposal container.attestation ∧
        container = attestationContainer proposal container.attestation ∧ container = result := by
  simp only [validateSettlementTransferAttestation, bind_eq_ok,
    createSettlementTransferAttestation_eq_ok h, require_eq_ok, exists_const, pure_eq_ok]
  obtain ⟨id, community, source, attestation⟩ := container
  constructor
  · rintro ⟨_, ⟨hall, hdual, hattests, rfl⟩, ⟨hid, hcommunity, hsource⟩, rfl⟩
    have hcontainer : (⟨id, community, source, attestation⟩ : SettlementTransferAttestation) =
        attestationContainer proposal attestation := by
      rw [attestationContainer, SettlementTransferAttestation.mk.injEq]
      exact ⟨hid, hcommunity, hsource, rfl⟩
    exact ⟨hall, hdual, hattests, hcontainer, hcontainer⟩
  · rintro ⟨hall, hdual, hattests, hcontainer, rfl⟩
    refine ⟨_, ⟨hall, hdual, hattests, rfl⟩, ?_, hcontainer.symm⟩
    rw [← hcontainer]
    exact ⟨rfl, rfl, rfl⟩

/-- The object of a container determines it when its attestation has no further properties. -/
theorem SettlementTransferAttestation.toJson_inj {left right : SettlementTransferAttestation}
    (h : left.toJson = right.toJson) : left = right := by
  obtain ⟨_, _, _, _, _, _, _, _⟩ := left
  obtain ⟨_, _, _, _, _, _, _, _⟩ := right
  simpa [toJson, TransferAttestation.toJson] using h

theorem determines_attestations {acknowledgements : List SettlementAcknowledgement} :
    Determines (fun container : SettlementTransferAttestation ↦ container.attestation.memberId)
      (fun container ↦ stringify container.toJson)
      (validateSettlementTransferAttestation crypto localeCompare proposal acknowledgements) :=
  determines_of_injective fun _ _ h ↦
    SettlementTransferAttestation.toJson_inj (stringify_inj.mp h)

/-- The container belongs to the proposal and its participant names the digest of the terms. -/
def AttestationOf (crypto : Crypto) (proposal : ExchangeProposal)
    (container : SettlementTransferAttestation) : Prop :=
  AttestsProposal crypto proposal container.attestation ∧
    container = attestationContainer proposal container.attestation

theorem attestedStatus_eq_dualAttested {attested : Prop} [Decidable attested] :
    (if attested then AttestationStatus.dualAttested else .awaitingAttestations) = .dualAttested ↔
      attested := by
  split <;> simp_all

/-- The containers of a proposal resolve when its acknowledgements are valid, a container is only
there after both participants acknowledged, and each participant has at most one. -/
theorem resolveSettlementTransferAttestations_of_valid (h : Settleable proposal)
    {acknowledgements : List SettlementAcknowledgement}
    (hall : ∀ acknowledgement ∈ acknowledgements, Acknowledges proposal acknowledgement)
    {attestations : List SettlementTransferAttestation}
    (hvalid : ∀ container ∈ attestations,
      DualAcknowledged proposal acknowledgements ∧ AttestationOf crypto proposal container)
    (hunique : ∀ left ∈ attestations, ∀ right ∈ attestations,
      left.attestation.memberId = right.attestation.memberId → left = right) :
    ∃ state, resolveSettlementTransferAttestations crypto localeCompare proposal acknowledgements
        attestations = .ok state ∧ state.proposalId = proposal.id ∧
      (state.status = .dualAttested ↔ DualAcknowledged proposal acknowledgements ∧
        ∀ memberId, Participates proposal memberId →
          ∃ container ∈ attestations, container.attestation.memberId = memberId) := by
  obtain ⟨hsucceeds, hstate⟩ := @resolveSettlementAcknowledgements_eq_ok proposal localeCompare h
    acknowledgements
  obtain ⟨confirmation, hconfirmation⟩ := hsucceeds.mpr hall
  have hstatus := (hstate confirmation hconfirmation).2.1
  rw [resolveSettlementTransferAttestations, hconfirmation, ok_bind]
  by_cases hdual : DualAcknowledged proposal acknowledgements
  · rw [if_neg (not_not.mpr (hstatus.mpr hdual)),
      (createDualConfirmedSettlementTransferTerms_eq_ok h).mpr ⟨hall, hdual, rfl⟩, ok_bind]
    have hcollect := @succeeds_collect _ _ _ _ _
      (fun container : SettlementTransferAttestation ↦ container.attestation.memberId) _
      (fun container ↦ stringify container.toJson)
      "A participant cannot publish conflicting settlement attestations."
      (validateSettlementTransferAttestation crypto localeCompare proposal acknowledgements)
      determines_attestations attestations
    have hread : ∀ {source container : SettlementTransferAttestation},
        validateSettlementTransferAttestation crypto localeCompare proposal acknowledgements source =
          .ok container → source = container := fun hread ↦
      ((validateSettlementTransferAttestation_eq_ok h).mp hread).2.2.2.2
    have hreads : ∀ container ∈ attestations, validateSettlementTransferAttestation crypto
        localeCompare proposal acknowledgements container = .ok container :=
      fun container hcontainer ↦ (validateSettlementTransferAttestation_eq_ok h).mpr
        ⟨hall, hdual, (hvalid container hcontainer).2.1, (hvalid container hcontainer).2.2, rfl⟩
    obtain ⟨byParticipant, hbyParticipant⟩ := hcollect.mpr
      ⟨fun container hcontainer ↦ ⟨container, hreads container hcontainer⟩, by
        intro left hleft leftValue hleftRead right hright rightValue hrightRead hmember
        obtain rfl := hread hleftRead
        obtain rfl := hread hrightRead
        exact hunique right hright left hleft hmember⟩
    have hmem : ∀ container, container ∈ byParticipant ↔ container ∈ attestations := by
      intro container
      rw [mem_collect determines_attestations hbyParticipant]
      exact ⟨fun ⟨source, hsource, hsourceRead⟩ ↦ hread hsourceRead ▸ hsource,
        fun hcontainer ↦ ⟨container, hcontainer, hreads container hcontainer⟩⟩
    have hattested : ∀ memberId, (lookup (fun container : SettlementTransferAttestation ↦
        container.attestation.memberId) memberId byParticipant).isSome = true ↔
          ∃ container ∈ attestations, container.attestation.memberId = memberId := by
      intro memberId
      rw [Option.isSome_iff_exists]
      constructor
      · rintro ⟨container, hfound⟩
        obtain ⟨hcontainer, hmember⟩ := lookup_eq_some hfound
        exact ⟨container, (hmem container).mp hcontainer, hmember⟩
      · rintro ⟨container, hcontainer, rfl⟩
        exact ⟨container, lookup_of_mem (nodup_collect determines_attestations hbyParticipant)
          ((hmem container).mpr hcontainer)⟩
    rw [hbyParticipant, ok_bind]
    refine ⟨_, rfl, rfl, ?_⟩
    have hparticipants : (∀ memberId, Participates proposal memberId →
        ∃ container ∈ attestations, container.attestation.memberId = memberId) ↔
        (∃ container ∈ attestations, container.attestation.memberId = proposal.providerMemberId) ∧
          ∃ container ∈ attestations,
            container.attestation.memberId = proposal.receiverMemberId := by
      constructor
      · exact fun hall ↦ ⟨hall _ (.inl rfl), hall _ (.inr rfl)⟩
      · rintro ⟨hprovider, hreceiver⟩ memberId (rfl | rfl)
        · exact hprovider
        · exact hreceiver
    rw [hparticipants, ← hattested, ← hattested]
    simp only [settlementTerms, hdual, true_and]
    rw [← Bool.and_eq_true]
    exact attestedStatus_eq_dualAttested
  · rw [if_pos (fun hconfirmed ↦ hdual (hstatus.mp hconfirmed))]
    have hempty : attestations = [] := List.eq_nil_iff_forall_not_mem.mpr fun container hcontainer ↦
      hdual (hvalid container hcontainer).1
    refine ⟨⟨proposal.id, .awaitingConfirmation, []⟩, by simp [hempty, require], rfl, ?_⟩
    simp [hdual]

/-- The settlement of a proposal is validated exactly after two valid acknowledgements. -/
theorem validateDualConfirmedSettlementTransfer_eq_ok (h : Settleable proposal)
    {acknowledgements : List SettlementAcknowledgement} {transfer result : Transfer}
    (hvalid : transfer.Valid) :
    validateDualConfirmedSettlementTransfer localeCompare proposal acknowledgements transfer =
        .ok result ↔
      (∀ acknowledgement ∈ acknowledgements, Acknowledges proposal acknowledgement) ∧
        DualAcknowledged proposal acknowledgements ∧
        transfer.toTransferTerms = settlementTerms proposal ∧ transfer = result := by
  rw [validateDualConfirmedSettlementTransfer, bind_dualConfirmed_eq_ok h]
  refine and_congr_right fun _ ↦ and_congr_right fun _ ↦ ?_
  simp only [validateSettlementTransfer, createTransfer_toJson hvalid, ok_bind, bind_eq_ok,
    require_eq_ok, exists_const, pure_eq_ok, settlementTransferId]
  obtain ⟨⟨id, community, source, provider, recipient, minutes, reverses⟩, attestations⟩ := transfer
  simp only [settlementTerms, TransferTerms.mk.injEq]
  constructor
  · rintro ⟨_, ⟨-, rfl, rfl, rfl, ⟨rfl, rfl⟩, rfl, rfl⟩, _, ⟨-, rfl⟩, rfl, rfl⟩
    exact ⟨⟨rfl, rfl, rfl, rfl, rfl, rfl, rfl⟩, rfl⟩
  · rintro ⟨⟨rfl, rfl, rfl, rfl, rfl, rfl, rfl⟩, rfl⟩
    exact ⟨_, ⟨⟨h.status, h.acceptedBy⟩, rfl, rfl, rfl, ⟨rfl, rfl⟩, rfl, rfl⟩, _, ⟨h.id, rfl⟩, rfl,
      rfl⟩

/-- Two valid attestations of the participants, in either order, compose the transfer. -/
theorem createDualConfirmedSettlementTransfer_of_valid (h : Settleable proposal)
    {acknowledgements : List SettlementAcknowledgement}
    (hall : ∀ acknowledgement ∈ acknowledgements, Acknowledges proposal acknowledgement)
    (hdual : DualAcknowledged proposal acknowledgements) {provider receiver : TransferAttestation}
    (hprovider : provider.Valid) (hreceiver : receiver.Valid)
    (hproviderId : provider.memberId = proposal.providerMemberId)
    (hreceiverId : receiver.memberId = proposal.receiverMemberId)
    {attestations : List TransferAttestation}
    (hattestations : attestations = [provider, receiver] ∨ attestations = [receiver, provider]) :
    createDualConfirmedSettlementTransfer localeCompare proposal acknowledgements attestations =
      .ok { settlementTerms proposal with attestations := [provider, receiver] } := by
  have hterms := h.settlementTerms_valid
  have hvalid : Transfer.Valid { settlementTerms proposal with
      attestations := [provider, receiver] } :=
    ⟨hterms, provider, receiver, rfl, hprovider, hreceiver, hproviderId, hreceiverId⟩
  have hcreate : createTransfer (Transfer.toJson { settlementTerms proposal with
      attestations := attestations }) =
      .ok { settlementTerms proposal with attestations := [provider, receiver] } := by
    obtain ⟨hdescribes, -, hfield⟩ := describes_properties (settlementTerms proposal)
      (.arr (attestations.map TransferAttestation.toJson))
    refine createTransfer_eq_ok.mpr ⟨createTransferTerms_eq_ok.mpr ⟨hdescribes, hterms⟩, ?_⟩
    rw [Transfer.toJson, JsonValue.field_obj, hfield, normalizeAttestations_eq_ok hterms.distinct]
    have hreads := readAttestation_toJson hprovider
    have hreads' := readAttestation_toJson hreceiver
    rcases hattestations with rfl | rfl
    · exact ⟨_, _, provider, receiver, rfl, rfl, hproviderId, hreceiverId, .inl ⟨hreads, hreads'⟩⟩
    · exact ⟨_, _, provider, receiver, rfl, rfl, hproviderId, hreceiverId, .inr ⟨hreads', hreads⟩⟩
  rw [createDualConfirmedSettlementTransfer,
    (createDualConfirmedSettlementTransferTerms_eq_ok h).mpr ⟨hall, hdual, rfl⟩, ok_bind, hcreate,
    ok_bind]
  exact (validateDualConfirmedSettlementTransfer_eq_ok h hvalid).mpr ⟨hall, hdual, rfl, rfl⟩

theorem validateAuthorizedDualConfirmedSettlementTransfer_eq_ok (h : Settleable proposal)
    {acknowledgements : List SettlementAcknowledgement} {transfer result : Transfer}
    {authorizations : List (MemberSigningKeyAuthorization crypto)} (hvalid : transfer.Valid) :
    validateAuthorizedDualConfirmedSettlementTransfer localeCompare proposal acknowledgements transfer
        authorizations = .ok result ↔
      (∀ acknowledgement ∈ acknowledgements, Acknowledges proposal acknowledgement) ∧
        DualAcknowledged proposal acknowledgements ∧
        transfer.toTransferTerms = settlementTerms proposal ∧
        authorizations.Pairwise Compatible ∧
        (∀ attestation ∈ transfer.attestations,
          Attests authorizations transfer.toTransferTerms attestation) ∧ transfer = result := by
  simp only [validateAuthorizedDualConfirmedSettlementTransfer, bind_eq_ok,
    validateDualConfirmedSettlementTransfer_eq_ok h hvalid]
  constructor
  · rintro ⟨_, ⟨hall, hdual, hterms, rfl⟩, hattested⟩
    exact ⟨hall, hdual, hterms, (assertAuthorizedTransferAttestations_eq_ok hvalid).mp hattested⟩
  · rintro ⟨hall, hdual, hterms, hattested⟩
    exact ⟨_, ⟨hall, hdual, hterms, rfl⟩,
      (assertAuthorizedTransferAttestations_eq_ok hvalid).mpr hattested⟩

end PeerHours.TimebankSettlement
