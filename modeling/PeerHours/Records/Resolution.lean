import PeerHours.Ledger.Rules
import PeerHours.Records.Resolve
import PeerHours.Records.Rules

/-!
# What resolution admits

A history resolves exactly when its records are consistent and coherent under their authorizations:
conditions on the set of records that mention no order. The resolved state lists the values that the
history holds.
-/

namespace PeerHours.TimebankRecords

open Checked Json KeyedMap Sorting
open TimebankDomain (ExchangeProposal Listing)
open TimebankIdentity
open TimebankLedger (Admitted Admits Ledger LedgerRules Reverses Transfer TransferTerms applyTransfers
  createTransfer_toJson ledgerOf ledger_of_applyTransfers succeeds_applyTransfers)
open TimebankSettlement

/-! ## The values a history holds -/

variable {α : Type}

/-- One of the community's envelopes carries the value. -/
def RecordKind.Holds (kind : RecordKind α) (records : List JsonValue) (communityId : String)
    (value : α) : Prop :=
  kind.communityId value = communityId ∧ ∃ record, Contains records record ∧ kind.Carries record value

/-- Every envelope of the kind in the community carries a value. -/
def RecordKind.Decodes (kind : RecordKind α) (records : List JsonValue) (communityId : String) :
    Prop :=
  ∀ record, Contains records record → record.communityId = communityId → record.kind = kind.kind →
    ∃ value, kind.Carries record value

variable {records : List JsonValue} {communityId : String} {kind : RecordKind α} {Valid : α → Prop}

/-- In a consistent history an id names one value of a kind. -/
theorem RecordKind.Holds.unique (hrecords : Consistent records) {left right : α}
    (hleft : kind.Holds records communityId left) (hright : kind.Holds records communityId right)
    (hid : kind.id left = kind.id right) : left = right := by
  obtain ⟨-, leftRecord, hleftContains, hleftCarries⟩ := hleft
  obtain ⟨-, rightRecord, hrightContains, hrightCarries⟩ := hright
  have hsame : leftRecord = rightRecord :=
    hrecords.unique _ _ hleftContains hrightContains
      (by rw [hleftCarries.id, hrightCarries.id, hid])
  subst hsame
  exact hleftCarries.unique hrightCarries

theorem RecordKind.Holds.valid (hlawful : kind.Lawful Valid) {value : α}
    (h : kind.Holds records communityId value) : Valid value := by
  obtain ⟨-, record, -, hcarries⟩ := h
  exact hcarries.valid hlawful

/-- A larger history holds more. -/
theorem RecordKind.Holds.mono {larger : List JsonValue} (hsubset : records ⊆ larger) {value : α}
    (h : kind.Holds records communityId value) : kind.Holds larger communityId value := by
  obtain ⟨hcommunity, record, ⟨source, hsource, hcreate⟩, hcarries⟩ := h
  exact ⟨hcommunity, record, ⟨source, hsubset hsource, hcreate⟩, hcarries⟩

/-! ## Reduced records -/

/-- The list holds the envelopes of the community, each once. -/
structure Reduced (records : List JsonValue) (communityId : String)
    (communityRecords : List RecordEnvelope) : Prop where
  nodup : (communityRecords.map (·.id)).Nodup
  mem : ∀ record, record ∈ communityRecords ↔
    Contains records record ∧ record.communityId = communityId

theorem reduced_of_reduceRecordEnvelopes {localeCompare : String → String → Ordering}
    {normalizedRecords : List RecordEnvelope}
    (h : reduceRecordEnvelopes localeCompare records = .ok normalizedRecords) :
    Reduced records communityId
      (normalizedRecords.filter fun record ↦ decide (record.communityId = communityId)) := by
  obtain ⟨hnodup, hmem⟩ := (reduceRecordEnvelopes_spec localeCompare records).2 _ h
  refine ⟨hnodup.sublist (List.filter_sublist.map _), fun record ↦ ?_⟩
  rw [List.mem_filter, hmem, decide_eq_true_eq]

theorem mem_recordsOfKind {name : String} {envelopes : List RecordEnvelope}
    {record : RecordEnvelope} :
    record ∈ recordsOfKind name envelopes ↔ record ∈ envelopes ∧ record.kind = name := by
  rw [recordsOfKind, List.mem_filter, decide_eq_true_eq]

/-- A kind reduces exactly when its records decode; the result lists the values held. -/
theorem RecordKind.Lawful.reduce_spec (hlawful : kind.Lawful Valid)
    (localeCompare : String → String → Ordering) {communityRecords : List RecordEnvelope}
    (hreduced : Reduced records communityId communityRecords) :
    (Succeeds (kind.reduceRecords localeCompare (recordsOfKind kind.kind communityRecords)
        communityId) ↔
      Text.blank communityId = false ∧ kind.Decodes records communityId) ∧
    ∀ values, kind.reduceRecords localeCompare (recordsOfKind kind.kind communityRecords)
        communityId = .ok values →
      (values.map kind.id).Nodup ∧ ∀ value, value ∈ values ↔ kind.Holds records communityId value := by
  have hunique : ∀ left ∈ recordsOfKind kind.kind communityRecords,
      ∀ right ∈ recordsOfKind kind.kind communityRecords, left.id = right.id → left = right := by
    intro left hleft right hright hid
    exact List.inj_on_of_nodup_map hreduced.nodup (mem_recordsOfKind.mp hleft).1
      (mem_recordsOfKind.mp hright).1 hid
  obtain ⟨hsuccess, hvalues⟩ :=
    @RecordKind.Lawful.reduceRecords_spec _ _ _ hlawful localeCompare _ communityId hunique
  constructor
  · rw [hsuccess]
    refine and_congr_right fun _ ↦ ?_
    constructor
    · intro h record hcontains hcommunity hkind
      obtain ⟨value, hcarries, -⟩ := h record
        (mem_recordsOfKind.mpr ⟨(hreduced.mem record).mpr ⟨hcontains, hcommunity⟩, hkind⟩)
      exact ⟨value, hcarries⟩
    · intro h record hrecord
      obtain ⟨hmem, hkind⟩ := mem_recordsOfKind.mp hrecord
      obtain ⟨hcontains, hcommunity⟩ := (hreduced.mem record).mp hmem
      obtain ⟨value, hcarries⟩ := h record hcontains hcommunity hkind
      exact ⟨value, hcarries, hcarries.communityId ▸ hcommunity⟩
  · intro values hok
    obtain ⟨hnodup, hmem⟩ := hvalues values hok
    refine ⟨hnodup, fun value ↦ ?_⟩
    rw [hmem, RecordKind.Holds]
    refine and_congr_right fun hcommunity ↦ exists_congr fun record ↦ ?_
    rw [mem_recordsOfKind, hreduced.mem]
    constructor
    · rintro ⟨⟨⟨hcontains, -⟩, -⟩, hcarries⟩
      exact ⟨hcontains, hcarries⟩
    · rintro ⟨hcontains, hcarries⟩
      exact ⟨⟨⟨hcontains, hcarries.communityId.trans hcommunity⟩, hcarries.kindName⟩, hcarries⟩

/-! ## Signed domain records -/

/-- Every record of a member's domain decodes. -/
structure DomainDecodes (records : List JsonValue) (communityId : String) : Prop where
  publishedListings : publishedListingRecords.Decodes records communityId
  closedListings : closedListingRecords.Decodes records communityId
  proposedProposals : proposedExchangeProposalRecords.Decodes records communityId
  acceptedProposals : acceptedExchangeProposalRecords.Decodes records communityId
  acknowledgements : settlementAcknowledgementRecords.Decodes records communityId
  attestations : settlementTransferAttestationRecords.Decodes records communityId
  transfers : ledgerTransferRecords.Decodes records communityId

theorem RecordKind.assertAuthor_of_carries {source : JsonValue} {record : RecordEnvelope}
    (hcreate : createRecordEnvelope source = .ok record) {value : α} {message : String}
    (h : kind.Carries record value) : kind.assertAuthor message source = .ok () := by
  rw [RecordKind.assertAuthor, (decode_eq_ok hcreate).mpr h, ok_bind,
    (createRecordEnvelope_eq_ok.mp hcreate).authorId]
  exact require_eq_ok.mpr h.author

/-- The author of a decodable record takes part in what it says. -/
theorem DomainDecodes.assertRecordAuthorParticipates (h : DomainDecodes records communityId)
    {source : JsonValue} (hsource : source ∈ records) {record : RecordEnvelope}
    (hcreate : createRecordEnvelope source = .ok record)
    (hcommunity : record.communityId = communityId) (hmember : isMemberAuthoredDomainRecord source) :
    assertRecordAuthorParticipates source = .ok () := by
  have hcontains : Contains records record := ⟨source, hsource, hcreate⟩
  have hfield := (createRecordEnvelope_eq_ok.mp hcreate).kind
  have author : ∀ {β : Type} (kind : RecordKind β) (message : String),
      kind.Decodes records communityId → record.kind = kind.kind →
      kind.assertAuthor message source = .ok () := by
    intro β kind message hdecodes hkind
    obtain ⟨value, hcarries⟩ := hdecodes record hcontains hcommunity hkind
    exact RecordKind.assertAuthor_of_carries hcreate hcarries
  have named : ∀ {name : String}, source.field "kind" = some (.str name) → record.kind = name := by
    intro name hname
    rw [hfield] at hname
    exact JsonValue.str.inj (Option.some.inj hname)
  unfold PeerHours.TimebankRecords.assertRecordAuthorParticipates
  dsimp only
  split_ifs with hproposed haccepted hpublished hclosed hack hattestation
  · exact author _ _ h.proposedProposals (named hproposed)
  · exact author _ _ h.acceptedProposals (named haccepted)
  · exact author _ _ h.publishedListings (named hpublished)
  · exact author _ _ h.closedListings (named hclosed)
  · exact author _ _ h.acknowledgements (named hack)
  · exact author _ _ h.attestations (named hattestation)
  · obtain ⟨name, hname, hkind⟩ := hmember
    refine author _ _ h.transfers (named ?_)
    simp only [memberAuthoredDomainRecordKinds, List.mem_cons, List.not_mem_nil, or_false] at hname
    rcases hname with rfl | rfl | rfl | rfl | rfl | rfl | rfl
    · exact absurd hkind hpublished
    · exact absurd hkind hclosed
    · exact absurd hkind hproposed
    · exact absurd hkind haccepted
    · exact absurd hkind hack
    · exact absurd hkind hattestation
    · exact hkind

variable {crypto : Crypto} {authorizations : List (MemberSigningKeyAuthorization crypto)}

/-- Every record of a member's domain in the community is signed by an active key of its author. -/
def DomainSigned (records : List JsonValue) (communityId : String)
    (authorizations : List (MemberSigningKeyAuthorization crypto)) : Prop :=
  ∀ source ∈ records, source.field "communityId" = some (.str communityId) →
    isMemberAuthoredDomainRecord source → ∃ record, Authentic authorizations source record

theorem domainSigned_of_assert
    (h : assertMemberSignedDomainRecords records communityId authorizations = .ok ()) :
    DomainSigned records communityId authorizations := by
  intro source hsource hcommunity hmember
  have hchecked := checkAll_eq_ok.mp h source hsource
  rw [if_pos ⟨hcommunity, hmember⟩] at hchecked
  obtain ⟨_, -, hchecked⟩ := bind_eq_ok.mp hchecked
  obtain ⟨verified, hverified, hchecked⟩ := bind_eq_ok.mp hchecked
  obtain ⟨_, htrue, -⟩ := bind_eq_ok.mp hchecked
  rw [require_eq_ok.mp htrue] at hverified
  exact (verifyMemberSignedRecord_eq_ok_true.mp hverified).2

theorem DomainSigned.assert (h : DomainSigned records communityId authorizations)
    (hcompatible : authorizations.Pairwise Compatible) (hdecodes : DomainDecodes records communityId) :
    assertMemberSignedDomainRecords records communityId authorizations = .ok () := by
  refine checkAll_eq_ok.mpr fun source hsource ↦ ?_
  split
  · rename_i hdomain
    obtain ⟨record, hauthentic⟩ := h source hsource hdomain.1 hdomain.2
    obtain ⟨hcreate, hkey, hsignature⟩ := createMemberSignedRecord_eq_ok.mp hauthentic.1
    have hcommunity : record.communityId = communityId := by
      have hfield := (createRecordEnvelope_eq_ok.mp hcreate).communityId
      rw [hdomain.1] at hfield
      exact (JsonValue.str.inj (Option.some.inj hfield)).symm
    have hsigned : isMemberSignedRecord source = true := by
      simp [isMemberSignedRecord, hkey, hsignature]
    simp only [bind_eq_ok, require_eq_ok, exists_const]
    exact ⟨hsigned, true, verifyMemberSignedRecord_eq_ok_true.mpr ⟨hcompatible, record, hauthentic⟩,
      rfl, hdecodes.assertRecordAuthorParticipates hsource hcreate hcommunity hdomain.2⟩
  · rfl

/-! ## Linked records -/

theorem pushedUnder_map {β : Type} (id : String) (source : β → String) (values : List β) :
    pushedUnder id (values.map fun value ↦ (source value, value)) =
      values.filter fun value ↦ decide (source value = id) := by
  induction values with
  | nil => rfl
  | cons value rest ih =>
      rw [pushedUnder] at ih ⊢
      by_cases hkey : source value = id <;> simp [hkey, ih]

theorem assertClosesOwnListing_eq_ok {listings : List Listing} (hnodup : (listings.map (·.id)).Nodup)
    {closure : ClosedListing} {result : Unit} :
    assertClosesOwnListing listings closure = .ok result ↔
      ∃ listing ∈ listings, listing.id = closure.listingId ∧ listing.memberId = closure.memberId ∧
        listing.communityId = closure.communityId := by
  unfold assertClosesOwnListing
  dsimp only
  split
  · rename_i hnone
    have hall := lookup_eq_none.mp hnone
    simp only [reduceCtorEq, false_iff]
    rintro ⟨listing, hlisting, hid, -⟩
    exact hall listing hlisting hid
  · rename_i found hfound
    obtain ⟨hmem, hid⟩ := lookup_eq_some hfound
    rw [require_eq_ok]
    constructor
    · intro hrules
      exact ⟨found, hmem, hid, hrules⟩
    · rintro ⟨listing, hlisting, hlistingId, hrules⟩
      obtain rfl : listing = found :=
        List.inj_on_of_nodup_map hnodup hlisting hmem (hlistingId.trans hid.symm)
      exact hrules

theorem assertAcceptedProposalsPreservePublishedTerms_eq_ok
    {proposed accepted : List ExchangeProposal} (hnodup : (proposed.map (·.id)).Nodup)
    {result : Unit} :
    assertAcceptedProposalsPreservePublishedTerms proposed accepted = .ok result ↔
      ∀ acceptance ∈ accepted, ∀ proposal ∈ proposed, proposal.id = acceptance.id →
        preservesPublishedTerms proposal acceptance := by
  rw [assertAcceptedProposalsPreservePublishedTerms, checkAll_eq_ok]
  refine forall₂_congr fun acceptance _ ↦ ?_
  split
  · rename_i hnone
    have hall := lookup_eq_none.mp hnone
    simp only [true_iff]
    exact fun proposal hproposal hid ↦ absurd hid (hall proposal hproposal)
  · rename_i found hfound
    obtain ⟨hmem, hid⟩ := lookup_eq_some hfound
    rw [require_eq_ok]
    constructor
    · intro hterms proposal hproposal hproposalId
      obtain rfl : proposal = found :=
        List.inj_on_of_nodup_map hnodup hproposal hmem (hproposalId.trans hid.symm)
      exact hterms
    · exact fun hall ↦ hall found hmem hid

/-- An ordinary transfer settles an accepted, dually acknowledged proposal on its exact terms. -/
def SettlesAccepted (authorizations : List (MemberSigningKeyAuthorization crypto))
    (accepted : List ExchangeProposal) (pushes : List (String × SettlementAcknowledgement))
    (transfer : Transfer) : Prop :=
  ∃ proposal ∈ accepted, DualAcknowledged proposal (pushedUnder proposal.id pushes) ∧
    transfer.toTransferTerms = settlementTerms proposal ∧ authorizations.Pairwise Compatible ∧
    ∀ attestation ∈ transfer.attestations,
      Attests authorizations transfer.toTransferTerms attestation

section Settlements

variable {localeCompare : String → String → Ordering} {accepted : List ExchangeProposal}
  (hnodup : (accepted.map (·.id)).Nodup) (hsettleable : ∀ proposal ∈ accepted, Settleable proposal)
include hnodup hsettleable

theorem linkAcknowledgement_eq_ok {acknowledgement : SettlementAcknowledgement}
    {push : String × SettlementAcknowledgement} :
    linkAcknowledgement accepted acknowledgement = .ok push ↔
      (∃ proposal ∈ accepted, proposal.id = acknowledgement.sourceProposalId ∧
        Acknowledges proposal acknowledgement) ∧
      push = (acknowledgement.sourceProposalId, acknowledgement) := by
  simp only [linkAcknowledgement, bind_eq_ok, present_eq_ok, lookup_eq_some_iff hnodup, pure_eq_ok]
  constructor
  · rintro ⟨proposal, ⟨hmem, hid⟩, _, hvalidate, rfl⟩
    have hvalid := (validateSettlementAcknowledgement_eq_ok (hsettleable proposal hmem)).mp hvalidate
    exact ⟨⟨proposal, hmem, hid, hvalid.1, hvalid.2.1⟩, by rw [hid]⟩
  · rintro ⟨⟨proposal, hmem, hid, hmember, hterms⟩, rfl⟩
    exact ⟨proposal, ⟨hmem, hid⟩, acknowledgement, (validateSettlementAcknowledgement_eq_ok
      (hsettleable proposal hmem)).mpr ⟨hmember, hterms, rfl⟩, by rw [hid]⟩

variable {pushes : List (String × SettlementAcknowledgement)}
  (hpushes : ∀ proposal ∈ accepted, ∀ acknowledgement ∈ pushedUnder proposal.id pushes,
    Acknowledges proposal acknowledgement)
include hpushes

theorem linkAttestation_eq_ok {container : SettlementTransferAttestation}
    {push : String × SettlementTransferAttestation} :
    linkAttestation localeCompare authorizations accepted pushes container = .ok push ↔
      (∃ proposal ∈ accepted, proposal.id = container.sourceProposalId ∧
        DualAcknowledged proposal (pushedUnder proposal.id pushes) ∧
        AttestationOf crypto proposal container ∧ authorizations.Pairwise Compatible ∧
        VerifiesUnder authorizations
          (attestationInput (settlementTerms proposal) container.attestation)) ∧
      push = (container.sourceProposalId, container) := by
  simp only [linkAttestation, bind_eq_ok, present_eq_ok, lookup_eq_some_iff hnodup, require_eq_ok,
    exists_const, pure_eq_ok, createEd25519MemberSignatureVerifier_eq_ok]
  constructor
  · rintro ⟨proposal, ⟨hmem, hid⟩, normalized, hnormalized, terms, hterms, _, ⟨hcompatible, rfl⟩,
      payload, hpayload, hverified, rfl⟩
    have hsettle := hsettleable proposal hmem
    obtain ⟨-, hdual, hattests, hcontainer, rfl⟩ :=
      (validateSettlementTransferAttestation_eq_ok hsettle).mp hnormalized
    obtain ⟨-, -, rfl⟩ := (createDualConfirmedSettlementTransferTerms_eq_ok hsettle).mp hterms
    rw [canonicalTransferPayload_of_valid hsettle.settlementTerms_valid, Except.ok.injEq] at hpayload
    subst hpayload
    refine ⟨⟨proposal, hmem, hid, hdual, ⟨hattests, hcontainer⟩, hcompatible, ?_⟩, by rw [hid]⟩
    exact verifyMemberSignature_indexedKeys.mp hverified
  · rintro ⟨⟨proposal, hmem, hid, hdual, ⟨hattests, hcontainer⟩, hcompatible, hverified⟩, rfl⟩
    have hsettle := hsettleable proposal hmem
    exact ⟨proposal, ⟨hmem, hid⟩, container, (validateSettlementTransferAttestation_eq_ok hsettle).mpr
      ⟨hpushes proposal hmem, hdual, hattests, hcontainer, rfl⟩, settlementTerms proposal,
      (createDualConfirmedSettlementTransferTerms_eq_ok hsettle).mpr
        ⟨hpushes proposal hmem, hdual, rfl⟩, _, ⟨hcompatible, rfl⟩, _,
      canonicalTransferPayload_of_valid hsettle.settlementTerms_valid,
      verifyMemberSignature_indexedKeys.mpr hverified, by rw [hid]⟩

theorem assertSettlesAcceptedProposal_eq_ok {transfer : Transfer} (hvalid : transfer.Valid)
    {result : Unit} :
    assertSettlesAcceptedProposal localeCompare authorizations accepted pushes transfer = .ok result ↔
      (transfer.reversesTransferId = none →
        SettlesAccepted authorizations accepted pushes transfer) := by
  unfold assertSettlesAcceptedProposal
  cases hreverses : transfer.reversesTransferId with
  | some reversed => simp
  | none =>
      obtain ⟨proposalId, hsource, -⟩ := hvalid.settles hreverses
      have htext : sourceProposalText transfer.toTransferTerms = proposalId := by
        simp [sourceProposalText, hsource]
      simp only [Option.isSome_none, Bool.false_eq_true, if_false, bind_eq_ok, present_eq_ok,
        lookup_eq_some_iff hnodup, htext, forall_const, SettlesAccepted, pure_eq_ok, and_true]
      constructor
      · rintro ⟨proposal, ⟨hmem, -⟩, _, hvalidate⟩
        obtain ⟨-, hdual, hterms, hcompatible, hattests, -⟩ :=
          (validateAuthorizedDualConfirmedSettlementTransfer_eq_ok (hsettleable proposal hmem)
            hvalid).mp hvalidate
        exact ⟨proposal, hmem, hdual, hterms, hcompatible, hattests⟩
      · rintro ⟨proposal, hmem, hdual, hterms, hcompatible, hattests⟩
        have hid : proposal.id = proposalId := by
          rw [hterms] at hsource
          exact JsonValue.str.inj (Option.some.inj hsource)
        exact ⟨proposal, ⟨hmem, hid⟩, transfer,
          (validateAuthorizedDualConfirmedSettlementTransfer_eq_ok (hsettleable proposal hmem)
            hvalid).mpr ⟨hpushes proposal hmem, hdual, hterms, hcompatible, hattests, rfl⟩⟩

end Settlements

/-! ## Coherent histories -/

/-- The authorizations that a history gives. -/
def authorizationsOf (crypto : Crypto) (localeCompare : String → String → Ordering)
    (communityId : String) (records : List JsonValue) :
    Except String (List (MemberSigningKeyAuthorization crypto)) := do
  let normalizedRecords ← reduceRecordEnvelopes localeCompare records
  resolveAuthorizations crypto localeCompare
    (normalizedRecords.filter fun record ↦ decide (record.communityId = communityId))

/-- The history holds the acknowledgements of both participants of the proposal. -/
def DualHeld (records : List JsonValue) (communityId : String) (proposal : ExchangeProposal) : Prop :=
  settlementAcknowledgementRecords.Holds records communityId
      (acknowledgementOf proposal proposal.providerMemberId) ∧
    settlementAcknowledgementRecords.Holds records communityId
      (acknowledgementOf proposal proposal.receiverMemberId)

/-- The history's acknowledgements each acknowledge an accepted proposal. -/
def Acknowledged (records : List JsonValue) (communityId : String) : Prop :=
  ∀ acknowledgement, settlementAcknowledgementRecords.Holds records communityId acknowledgement →
    ∃ proposal, acceptedExchangeProposalRecords.Holds records communityId proposal ∧
      proposal.id = acknowledgement.sourceProposalId ∧ Acknowledges proposal acknowledgement

/-- The history's attestations each attest a dually acknowledged proposal with a valid signature. -/
def AttestationsVerify (records : List JsonValue) (communityId : String)
    (authorizations : List (MemberSigningKeyAuthorization crypto)) : Prop :=
  ∀ container, settlementTransferAttestationRecords.Holds records communityId container →
    ∃ proposal, acceptedExchangeProposalRecords.Holds records communityId proposal ∧
      proposal.id = container.sourceProposalId ∧ DualHeld records communityId proposal ∧
      AttestationOf crypto proposal container ∧
      VerifiesUnder authorizations (attestationInput (settlementTerms proposal) container.attestation)

/-- The rules that tie the records of one community together, under given authorizations. -/
structure Coherent (records : List JsonValue) (communityId : String)
    (authorizations : List (MemberSigningKeyAuthorization crypto)) : Prop where
  community : Text.blank communityId = false
  compatible : authorizations.Pairwise Compatible
  signed : DomainSigned records communityId authorizations
  decodes : DomainDecodes records communityId
  closures : ∀ closure, closedListingRecords.Holds records communityId closure →
    ∃ listing, publishedListingRecords.Holds records communityId listing ∧
      listing.id = closure.listingId ∧ listing.memberId = closure.memberId
  terms : ∀ proposal acceptance, proposedExchangeProposalRecords.Holds records communityId proposal →
    acceptedExchangeProposalRecords.Holds records communityId acceptance →
    proposal.id = acceptance.id → preservesPublishedTerms proposal acceptance
  acknowledged : Acknowledged records communityId
  verified : AttestationsVerify records communityId authorizations
  settlements : ∀ transfer, ledgerTransferRecords.Holds records communityId transfer →
    transfer.reversesTransferId = none →
    ∃ proposal, acceptedExchangeProposalRecords.Holds records communityId proposal ∧
      DualHeld records communityId proposal ∧ transfer.toTransferTerms = settlementTerms proposal
  attested : ∀ transfer, ledgerTransferRecords.Holds records communityId transfer →
    ∀ attestation ∈ transfer.attestations,
      Attests authorizations transfer.toTransferTerms attestation
  reversals : ∀ reversal, ledgerTransferRecords.Holds records communityId reversal →
    reversal.reversesTransferId ≠ none →
    ∃ original, ledgerTransferRecords.Holds records communityId original ∧ Reverses reversal original

/-- The transfers of a coherent history keep the rules of the ledger. -/
theorem Coherent.ledgerRules (hrecords : Consistent records)
    (h : Coherent records communityId authorizations) :
    LedgerRules (ledgerTransferRecords.Holds records communityId) where
  unique _ _ hleft hright hid := RecordKind.Holds.unique hrecords hleft hright hid
  settlesOnce := by
    intro left right hleft hright hleftOrdinary hrightOrdinary hsame
    obtain ⟨proposal, hproposal, -, hterms⟩ := h.settlements left hleft hleftOrdinary
    obtain ⟨other, hother, -, hotherTerms⟩ := h.settlements right hright hrightOrdinary
    have hid : proposal.id = other.id := by
      rw [hterms, hotherTerms] at hsame
      exact JsonValue.str.inj (Option.some.inj hsame)
    obtain rfl : proposal = other := RecordKind.Holds.unique hrecords hproposal hother hid
    exact RecordKind.Holds.unique hrecords hleft hright
      (congrArg TransferTerms.id (hterms.trans hotherTerms.symm))
  reverses := h.reversals

/-- The list holds the values of a kind that the history holds, each once. -/
structure ListsHeld (kind : RecordKind α) (records : List JsonValue) (communityId : String)
    (values : List α) : Prop where
  nodup : (values.map kind.id).Nodup
  mem : ∀ value, value ∈ values ↔ kind.Holds records communityId value

section Stages

variable {localeCompare : String → String → Ordering} {listings : List Listing}
  {closures : List ClosedListing} {proposed accepted : List ExchangeProposal}
  {acknowledgements : List SettlementAcknowledgement}
  {attestations : List SettlementTransferAttestation} {transfers : List Transfer}

theorem closes_iff (hlistings : ListsHeld publishedListingRecords records communityId listings)
    (hclosures : ListsHeld closedListingRecords records communityId closures) :
    (∀ closure ∈ closures, assertClosesOwnListing listings closure = .ok ()) ↔
      ∀ closure, closedListingRecords.Holds records communityId closure →
        ∃ listing, publishedListingRecords.Holds records communityId listing ∧
          listing.id = closure.listingId ∧ listing.memberId = closure.memberId := by
  simp only [hclosures.mem]
  refine forall₂_congr fun closure hclosure ↦ ?_
  rw [assertClosesOwnListing_eq_ok hlistings.nodup]
  simp only [hlistings.mem]
  constructor
  · rintro ⟨listing, hlisting, hid, hmember, -⟩
    exact ⟨listing, hlisting, hid, hmember⟩
  · rintro ⟨listing, hlisting, hid, hmember⟩
    exact ⟨listing, hlisting, hid, hmember, hlisting.1.trans hclosure.1.symm⟩

theorem terms_iff (hproposed : ListsHeld proposedExchangeProposalRecords records communityId proposed)
    (haccepted : ListsHeld acceptedExchangeProposalRecords records communityId accepted) :
    assertAcceptedProposalsPreservePublishedTerms proposed accepted = .ok () ↔
      ∀ proposal acceptance, proposedExchangeProposalRecords.Holds records communityId proposal →
        acceptedExchangeProposalRecords.Holds records communityId acceptance →
        proposal.id = acceptance.id → preservesPublishedTerms proposal acceptance := by
  rw [assertAcceptedProposalsPreservePublishedTerms_eq_ok hproposed.nodup]
  simp only [hproposed.mem, haccepted.mem]
  exact ⟨fun h proposal acceptance hproposal hacceptance ↦ h acceptance hacceptance proposal hproposal,
    fun h acceptance hacceptance proposal hproposal ↦ h proposal acceptance hproposal hacceptance⟩

/-- The acknowledgements by the proposal they name. -/
def acknowledgementPushes (acknowledgements : List SettlementAcknowledgement) :
    List (String × SettlementAcknowledgement) :=
  acknowledgements.map fun acknowledgement ↦ (acknowledgement.sourceProposalId, acknowledgement)

/-- The attestation containers by the proposal they name. -/
def attestationPushes (attestations : List SettlementTransferAttestation) :
    List (String × SettlementTransferAttestation) :=
  attestations.map fun container ↦ (container.sourceProposalId, container)

/-- Listed acceptances can be settled. -/
theorem ListsHeld.settleable
    (haccepted : ListsHeld acceptedExchangeProposalRecords records communityId accepted) :
    ∀ proposal ∈ accepted, Settleable proposal := fun _ hproposal ↦
  (RecordKind.Holds.valid lawful_acceptedExchangeProposal
    ((haccepted.mem _).mp hproposal)).settleable

theorem acknowledgements_iff
    (haccepted : ListsHeld acceptedExchangeProposalRecords records communityId accepted)
    (hacknowledgements :
      ListsHeld settlementAcknowledgementRecords records communityId acknowledgements)
    {pushes : List (String × SettlementAcknowledgement)} :
    acknowledgements.mapM (linkAcknowledgement accepted) = .ok pushes ↔
      Acknowledged records communityId ∧ pushes = acknowledgementPushes acknowledgements := by
  have hlink := fun acknowledgement push ↦ @linkAcknowledgement_eq_ok accepted haccepted.nodup
    haccepted.settleable acknowledgement push
  rw [@mapM_eq_ok_map _ _ _ _
    (fun acknowledgement ↦ (acknowledgement.sourceProposalId, acknowledgement)) _ _
    fun acknowledgement _ push hpush ↦ ((hlink acknowledgement push).mp hpush).2]
  refine and_congr_left fun _ ↦ ?_
  simp only [Succeeds, hlink, exists_and_left, exists_eq, and_true, hacknowledgements.mem,
    haccepted.mem, Acknowledged]

theorem pushes_acknowledge
    (haccepted : ListsHeld acceptedExchangeProposalRecords records communityId accepted)
    (hacknowledgements :
      ListsHeld settlementAcknowledgementRecords records communityId acknowledgements)
    (hrecords : Consistent records) (h : Acknowledged records communityId) :
    ∀ proposal ∈ accepted,
      ∀ acknowledgement ∈ pushedUnder proposal.id (acknowledgementPushes acknowledgements),
        Acknowledges proposal acknowledgement := by
  intro proposal hproposal acknowledgement hpushed
  rw [acknowledgementPushes, pushedUnder_map, List.mem_filter, decide_eq_true_eq] at hpushed
  obtain ⟨other, hother, hid, hacknowledges⟩ :=
    h acknowledgement ((hacknowledgements.mem _).mp hpushed.1)
  obtain rfl : other = proposal :=
    RecordKind.Holds.unique hrecords hother ((haccepted.mem _).mp hproposal) (hid.trans hpushed.2)
  exact hacknowledges

theorem dualAcknowledged_iff
    (hacknowledgements :
      ListsHeld settlementAcknowledgementRecords records communityId acknowledgements)
    (proposal : ExchangeProposal) :
    DualAcknowledged proposal (pushedUnder proposal.id (acknowledgementPushes acknowledgements)) ↔
      DualHeld records communityId proposal := by
  simp [DualAcknowledged, DualHeld, acknowledgementPushes, pushedUnder_map, hacknowledgements.mem,
    acknowledgementOf]

theorem attestations_iff (hrecords : Consistent records)
    (haccepted : ListsHeld acceptedExchangeProposalRecords records communityId accepted)
    (hacknowledgements :
      ListsHeld settlementAcknowledgementRecords records communityId acknowledgements)
    (hattestations :
      ListsHeld settlementTransferAttestationRecords records communityId attestations)
    (hacknowledged : Acknowledged records communityId)
    (hcompatible : authorizations.Pairwise Compatible)
    {pushes : List (String × SettlementTransferAttestation)} :
    attestations.mapM (linkAttestation localeCompare authorizations accepted
        (acknowledgementPushes acknowledgements)) = .ok pushes ↔
      AttestationsVerify records communityId authorizations ∧
        pushes = attestationPushes attestations := by
  have hlink := fun container push ↦ @linkAttestation_eq_ok crypto authorizations localeCompare accepted
    haccepted.nodup haccepted.settleable (acknowledgementPushes acknowledgements)
    (pushes_acknowledge haccepted hacknowledgements hrecords hacknowledged) container push
  rw [@mapM_eq_ok_map _ _ _ _ (fun container ↦ (container.sourceProposalId, container)) _ _
    fun container _ push hpush ↦ ((hlink container push).mp hpush).2]
  refine and_congr_left fun _ ↦ ?_
  simp only [Succeeds, hlink, exists_and_left, exists_eq, and_true, hattestations.mem,
    haccepted.mem, AttestationsVerify, dualAcknowledged_iff hacknowledgements, hcompatible, true_and]

theorem confirmation_of_listed (hrecords : Consistent records)
    (haccepted : ListsHeld acceptedExchangeProposalRecords records communityId accepted)
    (hacknowledgements :
      ListsHeld settlementAcknowledgementRecords records communityId acknowledgements)
    (hacknowledged : Acknowledged records communityId) {proposal : ExchangeProposal}
    (hproposal : proposal ∈ accepted) :
    ∃ confirmation, resolveSettlementAcknowledgements localeCompare proposal
        (pushedUnder proposal.id (acknowledgementPushes acknowledgements)) = .ok confirmation ∧
      confirmation.proposalId = proposal.id ∧
      (confirmation.status = .dualConfirmed ↔ DualHeld records communityId proposal) := by
  obtain ⟨hsucceeds, hstate⟩ := @resolveSettlementAcknowledgements_eq_ok proposal localeCompare
    (haccepted.settleable proposal hproposal)
    (pushedUnder proposal.id (acknowledgementPushes acknowledgements))
  obtain ⟨confirmation, hconfirmation⟩ := hsucceeds.mpr
    (pushes_acknowledge haccepted hacknowledgements hrecords hacknowledged proposal hproposal)
  obtain ⟨hid, hstatus, -⟩ := hstate confirmation hconfirmation
  exact ⟨confirmation, hconfirmation, hid,
    hstatus.trans (dualAcknowledged_iff hacknowledgements proposal)⟩

theorem attestation_of_listed (hrecords : Consistent records)
    (haccepted : ListsHeld acceptedExchangeProposalRecords records communityId accepted)
    (hacknowledgements :
      ListsHeld settlementAcknowledgementRecords records communityId acknowledgements)
    (hattestations :
      ListsHeld settlementTransferAttestationRecords records communityId attestations)
    (hacknowledged : Acknowledged records communityId)
    (hverified : AttestationsVerify records communityId authorizations)
    {proposal : ExchangeProposal} (hproposal : proposal ∈ accepted) :
    ∃ state, resolveSettlementTransferAttestations crypto localeCompare proposal
        (pushedUnder proposal.id (acknowledgementPushes acknowledgements))
        (pushedUnder proposal.id (attestationPushes attestations)) = .ok state ∧
      state.proposalId = proposal.id ∧
      (state.status = .dualAttested ↔ DualHeld records communityId proposal ∧
        ∀ memberId, Participates proposal memberId →
          ∃ container, settlementTransferAttestationRecords.Holds records communityId container ∧
            container.sourceProposalId = proposal.id ∧ container.attestation.memberId = memberId) := by
  have hmem : ∀ container, container ∈ pushedUnder proposal.id (attestationPushes attestations) ↔
      settlementTransferAttestationRecords.Holds records communityId container ∧
        container.sourceProposalId = proposal.id := by
    intro container
    rw [attestationPushes, pushedUnder_map, List.mem_filter, decide_eq_true_eq, hattestations.mem]
  have hcontainers : ∀ container ∈ pushedUnder proposal.id (attestationPushes attestations),
      DualHeld records communityId proposal ∧ AttestationOf crypto proposal container := by
    intro container hcontainer
    obtain ⟨hheld, hsource⟩ := (hmem container).mp hcontainer
    obtain ⟨other, hother, hid, hdual, hattests, -⟩ := hverified container hheld
    obtain rfl : other = proposal :=
      RecordKind.Holds.unique hrecords hother ((haccepted.mem _).mp hproposal) (hid.trans hsource)
    exact ⟨hdual, hattests⟩
  simp only [← dualAcknowledged_iff hacknowledgements] at hcontainers
  obtain ⟨state, hstate, hid, hstatus⟩ := @resolveSettlementTransferAttestations_of_valid proposal
    localeCompare crypto (haccepted.settleable proposal hproposal) _
    (pushes_acknowledge haccepted hacknowledgements hrecords hacknowledged proposal hproposal) _
    hcontainers (by
      intro left hleft right hright hmember
      obtain ⟨hleftHeld, -⟩ := (hmem left).mp hleft
      obtain ⟨hrightHeld, -⟩ := (hmem right).mp hright
      refine RecordKind.Holds.unique hrecords hleftHeld hrightHeld ?_
      change left.id = right.id
      rw [(hcontainers left hleft).2.2, (hcontainers right hright).2.2, attestationContainer,
        attestationContainer, hmember])
  refine ⟨state, hstate, hid, ?_⟩
  rw [hstatus, dualAcknowledged_iff hacknowledgements]
  simp only [hmem, and_assoc]

theorem settlements_iff (hrecords : Consistent records)
    (haccepted : ListsHeld acceptedExchangeProposalRecords records communityId accepted)
    (hacknowledgements :
      ListsHeld settlementAcknowledgementRecords records communityId acknowledgements)
    (htransfers : ListsHeld ledgerTransferRecords records communityId transfers)
    (hacknowledged : Acknowledged records communityId)
    (hcompatible : authorizations.Pairwise Compatible) :
    (∀ transfer ∈ transfers, assertSettlesAcceptedProposal localeCompare authorizations accepted
        (acknowledgementPushes acknowledgements) transfer = .ok ()) ↔
      ∀ transfer, ledgerTransferRecords.Holds records communityId transfer →
        transfer.reversesTransferId = none →
        ∃ proposal, acceptedExchangeProposalRecords.Holds records communityId proposal ∧
          DualHeld records communityId proposal ∧
          transfer.toTransferTerms = settlementTerms proposal ∧
          ∀ attestation ∈ transfer.attestations,
            Attests authorizations transfer.toTransferTerms attestation := by
  simp only [htransfers.mem]
  refine forall₂_congr fun transfer htransfer ↦ ?_
  rw [assertSettlesAcceptedProposal_eq_ok haccepted.nodup haccepted.settleable
    (pushes_acknowledge haccepted hacknowledgements hrecords hacknowledged)
    (htransfer.valid lawful_ledgerTransfer)]
  simp only [SettlesAccepted, haccepted.mem, dualAcknowledged_iff hacknowledgements, hcompatible,
    true_and]

variable {verifier : TimebankLedger.SignatureVerifier}

/-- The ledger admits exactly the listed transfers that are attested. -/
theorem admits_toJson (hverifier : createEd25519SignatureVerifier authorizations = .ok verifier)
    {transfer other : Transfer} (hvalid : transfer.Valid) :
    Admits communityId verifier transfer.toJson other ↔
      transfer = other ∧ transfer.communityId = communityId ∧
        ∀ attestation ∈ transfer.attestations,
          Attests authorizations transfer.toTransferTerms attestation := by
  rw [Admits, createTransfer_toJson hvalid, Except.ok.injEq]
  refine and_congr_right fun hsame ↦ ?_
  subst hsame
  refine and_congr_right fun _ ↦ forall₂_congr fun attestation _ ↦ ?_
  exact (signatureVerifier_eq_ok_true hverifier hvalid attestation).1

/-- The ledger exists exactly for attested transfers that keep the rules between transfers. -/
theorem ledger_iff (htransfers : ListsHeld ledgerTransferRecords records communityId transfers)
    (hverifier : createEd25519SignatureVerifier authorizations = .ok verifier) :
    Succeeds (applyTransfers localeCompare communityId (transfers.map Transfer.toJson) verifier) ↔
      Text.blank communityId = false ∧
        (∀ transfer, ledgerTransferRecords.Holds records communityId transfer →
          ∀ attestation ∈ transfer.attestations,
            Attests authorizations transfer.toTransferTerms attestation) ∧
        LedgerRules (ledgerTransferRecords.Holds records communityId) := by
  have hvalid : ∀ transfer, ledgerTransferRecords.Holds records communityId transfer →
      transfer.Valid := fun _ h ↦ h.valid lawful_ledgerTransfer
  rw [succeeds_applyTransfers]
  refine and_congr_right fun _ ↦ ?_
  rw [List.forall_mem_map]
  have hattested : (∀ transfer ∈ transfers, ∃ other,
      Admits communityId verifier transfer.toJson other) ↔
      ∀ transfer, ledgerTransferRecords.Holds records communityId transfer →
        ∀ attestation ∈ transfer.attestations,
          Attests authorizations transfer.toTransferTerms attestation := by
    simp only [htransfers.mem]
    refine forall₂_congr fun transfer htransfer ↦ ?_
    simp only [admits_toJson hverifier (hvalid transfer htransfer), exists_eq_left']
    exact and_iff_right htransfer.1
  rw [hattested]
  refine and_congr_right fun hall ↦ ?_
  have hsame : Admitted communityId verifier (transfers.map Transfer.toJson) =
      ledgerTransferRecords.Holds records communityId := by
    funext transfer
    refine propext ?_
    simp only [Admitted, List.mem_map, htransfers.mem]
    constructor
    · rintro ⟨_, ⟨other, hother, rfl⟩, hadmits⟩
      obtain ⟨rfl, -⟩ := (admits_toJson hverifier (hvalid other hother)).mp hadmits
      exact hother
    · intro htransfer
      exact ⟨_, ⟨transfer, htransfer, rfl⟩, (admits_toJson hverifier (hvalid transfer htransfer)).mpr
        ⟨rfl, htransfer.1, hall transfer htransfer⟩⟩
  rw [hsame]

theorem ledger_eq (htransfers : ListsHeld ledgerTransferRecords records communityId transfers)
    (hverifier : createEd25519SignatureVerifier authorizations = .ok verifier) {ledger : Ledger}
    (h : applyTransfers localeCompare communityId (transfers.map Transfer.toJson) verifier =
      .ok ledger) :
    ledger = ledgerOf localeCompare communityId (sortBy (on localeCompare (·.id)) transfers) := by
  obtain ⟨-, hall, -⟩ := (ledger_iff htransfers hverifier).mp ⟨ledger, h⟩
  obtain ⟨-, byId, hbyId, -, -, rfl⟩ := TimebankLedger.applyTransfers_eq_ok.mp h
  have hlisted : TimebankLedger.collectTransfers communityId verifier
      (transfers.map Transfer.toJson) = .ok transfers := by
    refine collect_map_of_nodup (fun transfer htransfer ↦ ?_) htransfers.nodup
    have hheld := (htransfers.mem transfer).mp htransfer
    exact TimebankLedger.readTransfer_eq_ok.mpr ((admits_toJson hverifier
      (hheld.valid lawful_ledgerTransfer)).mpr ⟨rfl, hheld.1, hall transfer hheld⟩)
  rw [hlisted, Except.ok.injEq] at hbyId
  rw [hbyId]

end Stages

/-! ## Resolution -/

variable {localeCompare : String → String → Ordering}

/-- The state lists the values that the history holds. -/
structure Resolved (localeCompare : String → String → Ordering) (records : List JsonValue)
    (communityId : String) (state : ResolvedTimebankState crypto) : Prop where
  community : state.communityId = communityId
  authorizations :
    authorizationsOf crypto localeCompare communityId records = .ok state.authorizations
  listings : ∀ listing, listing ∈ state.publishedListings ↔
    publishedListingRecords.Holds records communityId listing ∧
      ∀ closure, closedListingRecords.Holds records communityId closure →
        closure.listingId ≠ listing.id
  proposed : ListsHeld proposedExchangeProposalRecords records communityId state.proposedProposals
  accepted : ListsHeld acceptedExchangeProposalRecords records communityId state.acceptedProposals
  acknowledgements : ListsHeld settlementAcknowledgementRecords records communityId
    state.settlementAcknowledgements
  confirmed : ∀ proposal ∈ state.acceptedProposals, ∃ confirmation ∈ state.settlementConfirmations,
    confirmation.proposalId = proposal.id ∧
      (confirmation.status = .dualConfirmed ↔ DualHeld records communityId proposal)
  attested : ∀ proposal ∈ state.acceptedProposals, ∃ attestation ∈ state.settlementAttestations,
    attestation.proposalId = proposal.id ∧
      (attestation.status = .dualAttested ↔ DualHeld records communityId proposal ∧
        ∀ memberId, Participates proposal memberId →
          ∃ container, settlementTransferAttestationRecords.Holds records communityId container ∧
            container.sourceProposalId = proposal.id ∧ container.attestation.memberId = memberId)
  transfers : ListsHeld ledgerTransferRecords records communityId state.transfers
  ledger : state.ledger =
    ledgerOf localeCompare communityId (sortBy (on localeCompare (·.id)) state.transfers)

/-- A settlement of a resolved state is accepted, or rejected for the credit limit. -/
theorem Resolved.accepted_or_rejected {state : ResolvedTimebankState crypto}
    (h : Resolved localeCompare records communityId state) {transfer : Transfer}
    (htransfer : transfer ∈ state.transfers) (hordinary : transfer.reversesTransferId = none) :
    transfer ∈ state.ledger.transfers ∨
      ⟨transfer, .minimumBalance⟩ ∈ state.ledger.rejectedTransfers := by
  rw [h.ledger]
  exact TimebankLedger.accepted_or_rejected (mem_sortBy.mpr htransfer) hordinary

/-- The transfers of the ledger are held by the records. -/
theorem Resolved.ledger_held {state : ResolvedTimebankState crypto}
    (h : Resolved localeCompare records communityId state) {transfer : Transfer}
    (htransfer : transfer ∈ state.ledger.transfers) :
    ledgerTransferRecords.Holds records communityId transfer := by
  rw [h.ledger] at htransfer
  have hmem := (TimebankLedger.accounts_ledgerOf localeCompare communityId
    (sortBy (on localeCompare (·.id)) state.transfers)).1.subset (List.mem_append_left _ htransfer)
  exact (h.transfers.mem transfer).mp (mem_sortBy.mp hmem)

theorem RecordKind.Lawful.listsHeld (hlawful : kind.Lawful Valid)
    {communityRecords : List RecordEnvelope}
    (hreduced : Reduced records communityId communityRecords) {values : List α}
    (h : kind.reduceRecords localeCompare (recordsOfKind kind.kind communityRecords) communityId =
      .ok values) : ListsHeld kind records communityId values := by
  obtain ⟨hnodup, hmem⟩ := (hlawful.reduce_spec localeCompare hreduced).2 values h
  exact ⟨hnodup, hmem⟩

/-- A resolved history is consistent and coherent, and its state lists what it holds. -/
theorem resolved_of_eq_ok {state : ResolvedTimebankState crypto}
    (h : resolveTimebankRecords crypto localeCompare communityId records = .ok state) :
    Consistent records ∧ Coherent records communityId state.authorizations ∧
      Resolved localeCompare records communityId state := by
  simp only [resolveTimebankRecords, bind_eq_ok] at h
  obtain ⟨normalized, hnormalized, authorizations, hauthorizations, _, hsigned, listings, hlistings,
    closures, hclosures, _, hcloses, accepted, haccepted, proposed, hproposed, acknowledgements,
    hacknowledgements, transfers, htransfers, attestations, hattestations, _, hterms, ackPushes,
    hackPushes, confirmations, hconfirmations, containerPushes, hcontainerPushes, states, hstates, _,
    hsettles, verifier, hverifier, ledger, hledger, hstate⟩ := h
  obtain rfl := pure_eq_ok.mp hstate
  have hrecords : Consistent records :=
    (reduceRecordEnvelopes_spec localeCompare records).1.mp ⟨normalized, hnormalized⟩
  have hreduced : Reduced records communityId _ := reduced_of_reduceRecordEnvelopes hnormalized
  have hcompatible := succeeds_createEd25519SignatureVerifier.mp ⟨verifier, hverifier⟩
  have hdecodes : DomainDecodes records communityId :=
    { publishedListings := ((lawful_publishedListing.reduce_spec localeCompare hreduced).1.mp
        ⟨listings, hlistings⟩).2
      closedListings := ((lawful_closedListing.reduce_spec localeCompare hreduced).1.mp
        ⟨closures, hclosures⟩).2
      proposedProposals := ((lawful_proposedExchangeProposal.reduce_spec localeCompare hreduced).1.mp
        ⟨proposed, hproposed⟩).2
      acceptedProposals := ((lawful_acceptedExchangeProposal.reduce_spec localeCompare hreduced).1.mp
        ⟨accepted, haccepted⟩).2
      acknowledgements := ((lawful_settlementAcknowledgement.reduce_spec localeCompare
        hreduced).1.mp ⟨acknowledgements, hacknowledgements⟩).2
      attestations := ((lawful_settlementTransferAttestation.reduce_spec localeCompare
        hreduced).1.mp ⟨attestations, hattestations⟩).2
      transfers := ((lawful_ledgerTransfer.reduce_spec localeCompare hreduced).1.mp
        ⟨transfers, htransfers⟩).2 }
  have hlistings := lawful_publishedListing.listsHeld hreduced hlistings
  have hclosures := lawful_closedListing.listsHeld hreduced hclosures
  have haccepted := lawful_acceptedExchangeProposal.listsHeld hreduced haccepted
  have hproposed := lawful_proposedExchangeProposal.listsHeld hreduced hproposed
  have hacknowledgements := lawful_settlementAcknowledgement.listsHeld hreduced hacknowledgements
  have hattestations := lawful_settlementTransferAttestation.listsHeld hreduced hattestations
  have htransfers := lawful_ledgerTransfer.listsHeld hreduced htransfers
  obtain ⟨hacknowledged, rfl⟩ := (acknowledgements_iff haccepted hacknowledgements).mp hackPushes
  obtain ⟨hverified, rfl⟩ := (attestations_iff hrecords haccepted hacknowledgements hattestations
    hacknowledged hcompatible).mp hcontainerPushes
  have hsettlements := (settlements_iff hrecords haccepted hacknowledgements htransfers hacknowledged
    hcompatible).mp (checkAll_eq_ok.mp hsettles)
  obtain ⟨hcommunity, hattested, hrules⟩ := (ledger_iff htransfers hverifier).mp ⟨ledger, hledger⟩
  refine ⟨hrecords, ?_, ?_⟩
  · exact
      { community := hcommunity
        compatible := hcompatible
        signed := domainSigned_of_assert hsigned
        decodes := hdecodes
        closures := (closes_iff hlistings hclosures).mp (checkAll_eq_ok.mp hcloses)
        terms := (terms_iff hproposed haccepted).mp hterms
        acknowledged := hacknowledged
        verified := hverified
        settlements := fun transfer htransfer hordinary ↦
          by
            obtain ⟨proposal, hproposal, hdual, hsettled, -⟩ :=
              hsettlements transfer htransfer hordinary
            exact ⟨proposal, hproposal, hdual, hsettled⟩
        attested := hattested
        reversals := hrules.reverses }
  · refine
      { community := rfl
        authorizations := ?_
        listings := fun listing ↦ ?_
        proposed := hproposed
        accepted := haccepted
        acknowledgements := hacknowledgements
        confirmed := fun proposal hproposal ↦ ?_
        attested := fun proposal hproposal ↦ ?_
        transfers := htransfers
        ledger := ledger_eq htransfers hverifier hledger }
    · rw [authorizationsOf, hnormalized]
      exact hauthorizations
    · simp only [List.mem_filter, hlistings.mem, decide_eq_true_eq, List.mem_map, not_exists,
        not_and, hclosures.mem]
    · obtain ⟨confirmation, hconfirmation, hrules⟩ := @confirmation_of_listed _ _ localeCompare _ _
        hrecords haccepted hacknowledgements hacknowledged proposal hproposal
      exact ⟨confirmation,
        (mem_of_mapM hconfirmations confirmation).mpr ⟨proposal, hproposal, hconfirmation⟩, hrules⟩
    · obtain ⟨state, hstate, hrules⟩ := @attestation_of_listed _ _ crypto _ localeCompare _ _ _
        hrecords haccepted hacknowledgements hattestations hacknowledged hverified proposal hproposal
      exact ⟨state, (mem_of_mapM hstates state).mpr ⟨proposal, hproposal, hstate⟩, hrules⟩

/-- A consistent history whose records are coherent under its authorizations resolves. -/
theorem succeeds_of_coherent (hrecords : Consistent records)
    (hauthorizations : authorizationsOf crypto localeCompare communityId records = .ok authorizations)
    (h : Coherent records communityId authorizations) :
    Succeeds (resolveTimebankRecords crypto localeCompare communityId records) := by
  obtain ⟨normalized, hnormalized, hauthorizations⟩ := bind_eq_ok.mp hauthorizations
  have hreduced : Reduced records communityId _ := reduced_of_reduceRecordEnvelopes hnormalized
  have reduce : ∀ {β : Type} {kind : RecordKind β} {Valid : β → Prop}, kind.Lawful Valid →
      kind.Decodes records communityId →
      ∃ values, kind.reduceRecords localeCompare (recordsOfKind kind.kind
        (normalized.filter fun record ↦ decide (record.communityId = communityId))) communityId =
          .ok values :=
    fun hlawful hdecodes ↦ (hlawful.reduce_spec localeCompare hreduced).1.mpr ⟨h.community, hdecodes⟩
  obtain ⟨listings, hlistingsOk⟩ := reduce lawful_publishedListing h.decodes.publishedListings
  obtain ⟨closures, hclosuresOk⟩ := reduce lawful_closedListing h.decodes.closedListings
  obtain ⟨accepted, hacceptedOk⟩ :=
    reduce lawful_acceptedExchangeProposal h.decodes.acceptedProposals
  obtain ⟨proposed, hproposedOk⟩ :=
    reduce lawful_proposedExchangeProposal h.decodes.proposedProposals
  obtain ⟨acknowledgements, hacknowledgementsOk⟩ :=
    reduce lawful_settlementAcknowledgement h.decodes.acknowledgements
  obtain ⟨transfers, htransfersOk⟩ := reduce lawful_ledgerTransfer h.decodes.transfers
  obtain ⟨attestations, hattestationsOk⟩ :=
    reduce lawful_settlementTransferAttestation h.decodes.attestations
  have hlistings := lawful_publishedListing.listsHeld hreduced hlistingsOk
  have hclosures := lawful_closedListing.listsHeld hreduced hclosuresOk
  have haccepted := lawful_acceptedExchangeProposal.listsHeld hreduced hacceptedOk
  have hproposed := lawful_proposedExchangeProposal.listsHeld hreduced hproposedOk
  have hacknowledgements := lawful_settlementAcknowledgement.listsHeld hreduced hacknowledgementsOk
  have htransfers := lawful_ledgerTransfer.listsHeld hreduced htransfersOk
  have hattestations := lawful_settlementTransferAttestation.listsHeld hreduced hattestationsOk
  obtain ⟨confirmations, hconfirmations⟩ := succeeds_mapM.mpr fun proposal hproposal ↦
    have ⟨confirmation, hconfirmation, _⟩ := @confirmation_of_listed _ _ localeCompare _ _ hrecords
      haccepted hacknowledgements h.acknowledged proposal hproposal
    ⟨confirmation, hconfirmation⟩
  obtain ⟨states, hstates⟩ := succeeds_mapM.mpr fun proposal hproposal ↦
    have ⟨state, hstate, _⟩ := @attestation_of_listed _ _ crypto _ localeCompare _ _ _ hrecords
      haccepted hacknowledgements hattestations h.acknowledged h.verified proposal hproposal
    ⟨state, hstate⟩
  obtain ⟨verifier, hverifier⟩ := succeeds_createEd25519SignatureVerifier.mpr h.compatible
  obtain ⟨ledger, hledger⟩ := (@ledger_iff _ _ _ authorizations localeCompare _ verifier htransfers
    hverifier).mpr ⟨h.community, h.attested, h.ledgerRules hrecords⟩
  have hsettles := (@settlements_iff _ _ _ _ localeCompare _ _ _ hrecords haccepted
    hacknowledgements htransfers h.acknowledged h.compatible).mpr
      fun transfer htransfer hordinary ↦
        have ⟨proposal, hproposal, hdual, hsettled⟩ := h.settlements transfer htransfer hordinary
        ⟨proposal, hproposal, hdual, hsettled, h.attested transfer htransfer⟩
  simp only [Succeeds, resolveTimebankRecords, bind_eq_ok, pure_eq_ok]
  exact ⟨_, normalized, hnormalized, authorizations, hauthorizations, (),
    h.signed.assert h.compatible h.decodes, listings, hlistingsOk, closures, hclosuresOk, (),
    checkAll_eq_ok.mpr ((closes_iff hlistings hclosures).mpr h.closures), accepted, hacceptedOk,
    proposed, hproposedOk, acknowledgements, hacknowledgementsOk, transfers, htransfersOk,
    attestations, hattestationsOk, (), (terms_iff hproposed haccepted).mpr h.terms, _,
    (acknowledgements_iff haccepted hacknowledgements).mpr ⟨h.acknowledged, rfl⟩, confirmations,
    hconfirmations, _, (attestations_iff hrecords haccepted hacknowledgements hattestations
      h.acknowledged h.compatible).mpr ⟨h.verified, rfl⟩, states, hstates, (),
    checkAll_eq_ok.mpr hsettles, verifier, hverifier, ledger, hledger, rfl⟩

/-- A history resolves exactly when it is consistent and coherent under its authorizations. -/
theorem succeeds_resolveTimebankRecords :
    Succeeds (resolveTimebankRecords crypto localeCompare communityId records) ↔
      Consistent records ∧ ∃ authorizations,
        authorizationsOf crypto localeCompare communityId records = .ok authorizations ∧
        Coherent records communityId authorizations := by
  constructor
  · rintro ⟨state, hstate⟩
    obtain ⟨hrecords, hcoherent, hresolved⟩ := resolved_of_eq_ok hstate
    exact ⟨hrecords, state.authorizations, hresolved.authorizations, hcoherent⟩
  · rintro ⟨hrecords, authorizations, hauthorizations, hcoherent⟩
    exact succeeds_of_coherent hrecords hauthorizations hcoherent

end PeerHours.TimebankRecords
