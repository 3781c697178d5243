import PeerHours.Records.TimebankRecords
import PeerHours.Settlement.Rules

/-!
# What the record decoders accept

Each normalizer accepts exactly the payloads that describe a valid value, and a valid value's own
object describes it. Decoding and reduction follow for all kinds from that one law.
-/

namespace PeerHours.TimebankRecords

open Checked Json KeyedMap Sorting
open JsonValue (field get_cons get_nil field_obj)
open TimebankDomain (ExchangeProposal Listing ListingKind)
open TimebankIdentity (PresentText assertPresent_eq_ok)
open TimebankLedger (Transfer createTransfer createTransfer_eq_ok createTransfer_toJson
  valid_of_createTransfer)
open TimebankSettlement (SettlementAcknowledgement SettlementTransferAttestation Settleable
  settlementAcknowledgementId_eq_ok settlementTransferAttestationId)

/-! ## Payloads -/

theorem assertRecord_eq_ok {value : JsonValue} {message : String} {result : Unit} :
    assertRecord value message = .ok result ↔ value.isObject = true := by
  simp [assertRecord]

theorem isObject_of_field {value : JsonValue} {name : String} {found : JsonValue}
    (h : value.field name = some found) : value.isObject = true := by
  cases value with
  | obj => rfl
  | _ => cases h

theorem assertMinutes_eq_ok {value : Option JsonValue} {label : String} {minutes : Int} :
    assertMinutes value label = .ok minutes ↔ value = some (.int minutes) ∧ 0 < minutes := by
  simp only [assertMinutes, bind_eq_ok, present_eq_ok, require_eq_ok, exists_const, pure_eq_ok,
    JsonValue.int?_eq_some]
  constructor
  · rintro ⟨_, h, hpositive, rfl⟩
    exact ⟨h, hpositive⟩
  · rintro ⟨h, hpositive⟩
    exact ⟨minutes, h, hpositive, rfl⟩

/-- The rules for a published listing. -/
structure ListingValid (listing : Listing) : Prop where
  id : Text.blank listing.id = false
  communityId : Text.blank listing.communityId = false
  memberId : Text.blank listing.memberId = false
  title : Text.blank listing.title = false
  description : Text.blank listing.description = false
  positive : 0 < listing.minutes
  published : listing.status = .published

/-- A created draft that its owner published is a valid listing with the terms of its input. -/
theorem listingValid_of_published {kind : ListingKind} {input : TimebankDomain.CreateListingInput}
    {draft listing : Listing} {owner : TimebankDomain.MemberProfile}
    (hcreated : TimebankDomain.createListing kind input = .ok draft)
    (hpublished : TimebankDomain.publishListing draft owner = .ok listing) :
    ListingValid listing ∧ listing.id = input.id ∧ listing.memberId = owner.id ∧
      listing.communityId = input.communityId := by
  simp only [TimebankDomain.createListing, TimebankDomain.assertPresent,
    TimebankDomain.assertListingDescription, TimebankDomain.assertPositiveWholeMinutes, bind_eq_ok,
    require_eq_ok, exists_const, pure_eq_ok] at hcreated
  obtain ⟨hid, hcommunity, hmember, htitle, hdescription, hpositive, rfl⟩ := hcreated
  simp only [TimebankDomain.publishListing, TimebankDomain.assertListingOwner, bind_eq_ok,
    require_eq_ok, exists_const, pure_eq_ok] at hpublished
  obtain ⟨-, ⟨howner, -⟩, rfl⟩ := hpublished
  exact ⟨⟨hid, hcommunity, hmember, htitle, hdescription.1, hpositive, rfl⟩, rfl, howner.symm, rfl⟩

/-- The object has the properties that a value's own object has. -/
def HasProperties (payload : JsonValue) (properties : List (String × JsonValue)) : Prop :=
  ∀ property ∈ properties, payload.field property.1 = some property.2

/-- An object with distinct names has its own properties. -/
theorem hasProperties_obj {properties : List (String × JsonValue)}
    (hnodup : (properties.map Prod.fst).Nodup) : HasProperties (.obj properties) properties := by
  intro property hproperty
  rw [field_obj, JsonValue.get, lookup_of_mem hnodup hproperty]
  rfl

/-- Sorting the properties of an object keeps them. -/
theorem hasProperties_sorted {properties : List (String × JsonValue)}
    (hnodup : (properties.map Prod.fst).Nodup) :
    HasProperties (.obj (sortBy compareProperties properties)) properties := by
  intro property hproperty
  rw [field_obj, get_sortBy]
  exact hasProperties_obj hnodup property hproperty

/-- Payloads of a listing are the objects with its properties. -/
theorem normalizePublishedListing_eq_ok {payload : JsonValue} {listing : Listing} :
    normalizePublishedListing payload = .ok listing ↔
      HasProperties payload (listingToJson listing).properties ∧ ListingValid listing := by
  simp only [normalizePublishedListing, bind_eq_ok, assertRecord_eq_ok, exists_const,
    assertPresent_eq_ok, assertMinutes_eq_ok, present_eq_ok, require_eq_ok, pure_eq_ok]
  simp only [HasProperties, listingToJson, JsonValue.properties, List.forall_mem_cons]
  constructor
  · rintro ⟨-, id, hid, community, hcommunity, member, hmember, title, htitle, description,
      hdescription, minutes, ⟨hminutes, hpositive⟩, kind, hkind, hstatus, rfl⟩
    refine ⟨⟨hid, hcommunity, hmember, ?_, htitle, hdescription, hminutes, hstatus, by simp⟩,
      ⟨id.2, community.2, member.2, title.2, description.2, hpositive, rfl⟩⟩
    split at hkind
    · rename_i hoffer
      obtain rfl := Option.some.inj hkind
      exact hoffer
    · split at hkind
      · rename_i hrequest
        obtain rfl := Option.some.inj hkind
        exact hrequest
      · cases hkind
  · obtain ⟨id, community, member, kind, title, description, minutes, status⟩ := listing
    rintro ⟨⟨hid, hcommunity, hmember, hkind, htitle, hdescription, hminutes, hstatus, -⟩, hvalid⟩
    obtain rfl : status = .published := hvalid.published
    refine ⟨isObject_of_field hid, ⟨id, hvalid.id⟩, hid, ⟨community, hvalid.communityId⟩, hcommunity,
      ⟨member, hvalid.memberId⟩, hmember, ⟨title, hvalid.title⟩, htitle,
      ⟨description, hvalid.description⟩, hdescription, minutes, ⟨hminutes, hvalid.positive⟩, kind,
      ?_, hstatus, rfl⟩
    have hfield : payload.field "kind" = some (.str (listingKindText kind)) := hkind
    rw [hfield]
    cases kind <;> simp [listingKindText]

/-- The rules for a listing closure. -/
structure ClosureValid (closure : ClosedListing) : Prop where
  id : closure.id = closedListingRecordId closure.listingId
  communityId : Text.blank closure.communityId = false
  listingId : Text.blank closure.listingId = false
  memberId : Text.blank closure.memberId = false

/-- Payloads of a closure are the objects with its properties. -/
theorem normalizeClosedListing_eq_ok {payload : JsonValue} {closure : ClosedListing} :
    normalizeClosedListing payload = .ok closure ↔
      HasProperties payload closure.toJson.properties ∧ ClosureValid closure := by
  simp only [normalizeClosedListing, bind_eq_ok, assertRecord_eq_ok, exists_const,
    assertPresent_eq_ok, require_eq_ok, pure_eq_ok]
  simp only [HasProperties, ClosedListing.toJson, JsonValue.properties, List.forall_mem_cons]
  constructor
  · rintro ⟨-, id, hid, community, hcommunity, listing, hlisting, member, hmember, hname, rfl⟩
    exact ⟨⟨hid, hcommunity, hlisting, hmember, by simp⟩,
      ⟨hname, community.2, listing.2, member.2⟩⟩
  · obtain ⟨id, community, listing, member⟩ := closure
    rintro ⟨⟨hid, hcommunity, hlisting, hmember, -⟩, hvalid⟩
    obtain rfl : id = closedListingRecordId listing := hvalid.id
    have hblank : Text.blank (closedListingRecordId listing) = false := by
      simp [closedListingRecordId, hvalid.listingId]
    exact ⟨isObject_of_field hid, ⟨_, hblank⟩, hid, ⟨community, hvalid.communityId⟩, hcommunity,
      ⟨listing, hvalid.listingId⟩, hlisting, ⟨member, hvalid.memberId⟩, hmember, rfl, rfl⟩

/-- The rules that pending and accepted proposals share. -/
structure ProposalTermsValid (proposal : ExchangeProposal) : Prop where
  id : Text.blank proposal.id = false
  communityId : Text.blank proposal.communityId = false
  offerId : Text.blank proposal.offerId = false
  requestId : Text.blank proposal.requestId = false
  providerMemberId : Text.blank proposal.providerMemberId = false
  receiverMemberId : Text.blank proposal.receiverMemberId = false
  creatorMemberId : Text.blank proposal.creatorMemberId = false
  positive : 0 < proposal.minutes
  distinct : proposal.providerMemberId ≠ proposal.receiverMemberId
  creator : proposal.creatorMemberId = proposal.providerMemberId ∨
    proposal.creatorMemberId = proposal.receiverMemberId

/-- The member who may accept a proposal. -/
def acceptorOf (proposal : ExchangeProposal) : String :=
  TimebankDomain.otherParticipant proposal.creatorMemberId proposal.providerMemberId
    proposal.receiverMemberId

/-- The rules for an accepted proposal. -/
structure AcceptedValid (proposal : ExchangeProposal) : Prop extends
    ProposalTermsValid proposal where
  status : proposal.status = .accepted
  acceptedBy : proposal.acceptedByMemberId = some (acceptorOf proposal)

/-- The rules for a pending proposal. -/
structure ProposedValid (proposal : ExchangeProposal) : Prop extends
    ProposalTermsValid proposal where
  status : proposal.status = .proposed
  acceptedBy : proposal.acceptedByMemberId = none

/-- The acceptor of a proposal is one of its participants. -/
theorem acceptorOf_eq (proposal : ExchangeProposal) :
    acceptorOf proposal = proposal.providerMemberId ∨
      acceptorOf proposal = proposal.receiverMemberId := by
  unfold acceptorOf TimebankDomain.otherParticipant
  split
  · exact .inr rfl
  · exact .inl rfl

/-- An accepted proposal can be settled. -/
theorem AcceptedValid.settleable {proposal : ExchangeProposal} (h : AcceptedValid proposal) :
    Settleable proposal where
  status := h.status
  acceptedBy := by simp [h.acceptedBy]
  id := h.id
  communityId := h.communityId
  providerMemberId := h.providerMemberId
  receiverMemberId := h.receiverMemberId
  positive := h.positive
  distinct := h.distinct

theorem AcceptedValid.blank_acceptor {proposal : ExchangeProposal} (h : AcceptedValid proposal) :
    Text.blank (acceptorOf proposal) = false := by
  rcases acceptorOf_eq proposal with hacceptor | hacceptor <;> rw [hacceptor]
  · exact h.providerMemberId
  · exact h.receiverMemberId

/-- The terms of a proposal before its lifecycle stage is known. -/
def proposalTerms (proposal : ExchangeProposal) : ExchangeProposal :=
  { proposal with acceptedByMemberId := none, minutes := 0, status := .proposed }

/-- The identifiers that the object of a proposal begins with. -/
def proposalIds (proposal : ExchangeProposal) : List (String × JsonValue) :=
  [("id", .str proposal.id), ("communityId", .str proposal.communityId),
    ("offerId", .str proposal.offerId), ("requestId", .str proposal.requestId),
    ("providerMemberId", .str proposal.providerMemberId),
    ("receiverMemberId", .str proposal.receiverMemberId),
    ("creatorMemberId", .str proposal.creatorMemberId)]

theorem normalizeProposalTerms_of_hasProperties {payload : JsonValue} {proposal : ExchangeProposal}
    (hvalid : ProposalTermsValid proposal) (h : HasProperties payload (proposalIds proposal)) :
    normalizeProposalTerms payload = .ok (proposalTerms proposal) := by
  simp only [HasProperties, proposalIds, List.forall_mem_cons] at h
  obtain ⟨hid, hcommunity, hoffer, hrequest, hprovider, hreceiver, hcreator, -⟩ := h
  simp only [normalizeProposalTerms, bind_eq_ok, assertPresent_eq_ok, pure_eq_ok]
  exact ⟨⟨_, hvalid.id⟩, hid, ⟨_, hvalid.communityId⟩, hcommunity, ⟨_, hvalid.offerId⟩, hoffer,
    ⟨_, hvalid.requestId⟩, hrequest, ⟨_, hvalid.providerMemberId⟩, hprovider,
    ⟨_, hvalid.receiverMemberId⟩, hreceiver, ⟨_, hvalid.creatorMemberId⟩, hcreator, rfl⟩

/-- The identifiers of a proposal are present texts. -/
def IdsPresent (proposal : ExchangeProposal) : Prop :=
  ∀ text ∈ [proposal.id, proposal.communityId, proposal.offerId, proposal.requestId,
    proposal.providerMemberId, proposal.receiverMemberId, proposal.creatorMemberId],
    Text.blank text = false

theorem of_normalizeProposalTerms {payload : JsonValue} {terms : ExchangeProposal}
    (h : normalizeProposalTerms payload = .ok terms) :
    HasProperties payload (proposalIds terms) ∧ IdsPresent terms ∧ terms = proposalTerms terms := by
  simp only [normalizeProposalTerms, bind_eq_ok, assertPresent_eq_ok, pure_eq_ok] at h
  obtain ⟨id, hid, community, hcommunity, offer, hoffer, request, hrequest, provider, hprovider,
    receiver, hreceiver, creator, hcreator, rfl⟩ := h
  refine ⟨?_, ?_, rfl⟩
  · simp only [HasProperties, proposalIds, List.forall_mem_cons]
    exact ⟨hid, hcommunity, hoffer, hrequest, hprovider, hreceiver, hcreator, by simp⟩
  · simp only [IdsPresent, List.forall_mem_cons]
    exact ⟨id.2, community.2, offer.2, request.2, provider.2, receiver.2, creator.2, by simp⟩

theorem hasProperties_append {payload : JsonValue} {first second : List (String × JsonValue)} :
    HasProperties payload (first ++ second) ↔
      HasProperties payload first ∧ HasProperties payload second :=
  List.forall_mem_append

/-- Payloads of an accepted proposal are the objects with its properties. -/
theorem normalizeAcceptedProposal_eq_ok {payload : JsonValue} {proposal : ExchangeProposal} :
    normalizeAcceptedProposal payload = .ok proposal ↔
      HasProperties payload (proposalToJson proposal).properties ∧ AcceptedValid proposal := by
  have hjson : ∀ {proposal : ExchangeProposal} {acceptor : String},
      proposal.acceptedByMemberId = some acceptor →
      (proposalToJson proposal).properties = proposalIds proposal ++
        [("acceptedByMemberId", .str acceptor), ("minutes", .int proposal.minutes),
          ("status", .str (proposalStatusText proposal.status))] := by
    intro proposal acceptor h
    simp [proposalToJson, JsonValue.properties, proposalIds, h]
  simp only [normalizeAcceptedProposal, bind_eq_ok, assertRecord_eq_ok, exists_const,
    assertPresent_eq_ok, assertMinutes_eq_ok, require_eq_ok, pure_eq_ok]
  constructor
  · rintro ⟨-, terms, hterms, acceptor, hacceptor, hstatus, minutes, ⟨hminutes, hpositive⟩,
      hdistinct, hcreator, hexpected, rfl⟩
    obtain ⟨hids, hpresent, -⟩ := of_normalizeProposalTerms hterms
    simp only [IdsPresent, List.forall_mem_cons] at hpresent
    obtain ⟨hid, hcommunity, hoffer, hrequest, hprovider, hreceiver, hcreatorId, -⟩ := hpresent
    refine ⟨?_, ⟨hid, hcommunity, hoffer, hrequest, hprovider, hreceiver, hcreatorId, hpositive,
      hdistinct, hcreator⟩, rfl, congrArg some hexpected⟩
    rw [hjson rfl, hasProperties_append]
    refine ⟨hids, ?_⟩
    simp only [HasProperties, List.forall_mem_cons]
    exact ⟨hacceptor, hminutes, hstatus, by simp⟩
  · rintro ⟨hproperties, hvalid⟩
    rw [hjson hvalid.acceptedBy, hasProperties_append] at hproperties
    obtain ⟨hids, hrest⟩ := hproperties
    simp only [HasProperties, List.forall_mem_cons] at hrest
    obtain ⟨hacceptor, hminutes, hstatus, -⟩ := hrest
    rw [hvalid.status] at hstatus
    refine ⟨isObject_of_field hacceptor, _,
      normalizeProposalTerms_of_hasProperties hvalid.toProposalTermsValid hids,
      ⟨_, hvalid.blank_acceptor⟩, hacceptor, hstatus, _, ⟨hminutes, hvalid.positive⟩,
      hvalid.distinct, hvalid.creator, rfl, ?_⟩
    change { proposal with acceptedByMemberId := some (acceptorOf proposal), status := .accepted } =
      proposal
    rw [← hvalid.acceptedBy, ← hvalid.status]

/-- Payloads of a pending proposal are the objects with its properties that name no acceptor. -/
theorem normalizeProposedProposal_eq_ok {payload : JsonValue} {proposal : ExchangeProposal} :
    normalizeProposedProposal payload = .ok proposal ↔
      HasProperties payload (proposalToJson proposal).properties ∧
        payload.field "acceptedByMemberId" = none ∧ ProposedValid proposal := by
  have hjson : ∀ proposal : ExchangeProposal, proposal.acceptedByMemberId = none →
      (proposalToJson proposal).properties = proposalIds proposal ++
        [("minutes", .int proposal.minutes),
          ("status", .str (proposalStatusText proposal.status))] := by
    intro proposal h
    simp [proposalToJson, JsonValue.properties, proposalIds, h]
  simp only [normalizeProposedProposal, bind_eq_ok, assertRecord_eq_ok, exists_const,
    assertMinutes_eq_ok, require_eq_ok, pure_eq_ok]
  constructor
  · rintro ⟨-, terms, hterms, ⟨hstatus, hnone⟩, minutes, ⟨hminutes, hpositive⟩,
      ⟨hdistinct, hcreator⟩, rfl⟩
    obtain ⟨hids, hpresent, hstage⟩ := of_normalizeProposalTerms hterms
    simp only [IdsPresent, List.forall_mem_cons] at hpresent
    obtain ⟨hid, hcommunity, hoffer, hrequest, hprovider, hreceiver, hcreatorId, -⟩ := hpresent
    have hproposed : terms.status = .proposed := congrArg (·.status) hstage
    have hacceptor : terms.acceptedByMemberId = none := congrArg (·.acceptedByMemberId) hstage
    refine ⟨?_, hnone, ⟨hid, hcommunity, hoffer, hrequest, hprovider, hreceiver, hcreatorId,
      hpositive, hdistinct, hcreator⟩, hproposed, hacceptor⟩
    rw [hjson { terms with minutes := minutes } hacceptor, hasProperties_append]
    refine ⟨hids, ?_⟩
    simp only [HasProperties, List.forall_mem_cons, hproposed]
    exact ⟨hminutes, hstatus, by simp⟩
  · rintro ⟨hproperties, hnone, hvalid⟩
    rw [hjson proposal hvalid.acceptedBy, hasProperties_append] at hproperties
    obtain ⟨hids, hrest⟩ := hproperties
    simp only [HasProperties, List.forall_mem_cons] at hrest
    obtain ⟨hminutes, hstatus, -⟩ := hrest
    rw [hvalid.status] at hstatus
    refine ⟨isObject_of_field hminutes, _,
      normalizeProposalTerms_of_hasProperties hvalid.toProposalTermsValid hids, ⟨hstatus, hnone⟩, _,
      ⟨hminutes, hvalid.positive⟩, ⟨hvalid.distinct, hvalid.creator⟩, ?_⟩
    change { proposal with acceptedByMemberId := none, status := .proposed } = proposal
    rw [← hvalid.acceptedBy, ← hvalid.status]

/-- The rules for an acknowledgement on its own. -/
structure AcknowledgementValid (acknowledgement : SettlementAcknowledgement) : Prop where
  id : acknowledgement.id =
    acknowledgement.sourceProposalId ++ "/settlement-ack/" ++ acknowledgement.acknowledgedByMemberId
  communityId : Text.blank acknowledgement.communityId = false
  sourceProposalId : Text.blank acknowledgement.sourceProposalId = false
  providerMemberId : Text.blank acknowledgement.providerMemberId = false
  recipientMemberId : Text.blank acknowledgement.recipientMemberId = false
  acknowledgedBy : Text.blank acknowledgement.acknowledgedByMemberId = false
  positive : 0 < acknowledgement.minutes
  distinct : acknowledgement.providerMemberId ≠ acknowledgement.recipientMemberId
  participant : acknowledgement.acknowledgedByMemberId = acknowledgement.providerMemberId ∨
    acknowledgement.acknowledgedByMemberId = acknowledgement.recipientMemberId

/-- Payloads of an acknowledgement are the objects with its properties. -/
theorem normalizeSettlementAcknowledgement_eq_ok {payload : JsonValue}
    {acknowledgement : SettlementAcknowledgement} :
    normalizeSettlementAcknowledgement payload = .ok acknowledgement ↔
      HasProperties payload acknowledgement.toJson.properties ∧
        AcknowledgementValid acknowledgement := by
  simp only [normalizeSettlementAcknowledgement, bind_eq_ok, assertRecord_eq_ok, exists_const,
    assertPresent_eq_ok, assertMinutes_eq_ok, require_eq_ok, settlementAcknowledgementId_eq_ok,
    pure_eq_ok]
  simp only [HasProperties, SettlementAcknowledgement.toJson, JsonValue.properties,
    List.forall_mem_cons]
  constructor
  · rintro ⟨-, id, hid, community, hcommunity, source, hsource, provider, hprovider, recipient,
      hrecipient, member, hmember, minutes, ⟨hminutes, hpositive⟩, hdistinct, hparticipant, _,
      ⟨-, -, rfl⟩, hname, rfl⟩
    exact ⟨⟨hid, hcommunity, hsource, hprovider, hrecipient, hminutes, hmember, by simp⟩,
      ⟨hname, community.2, source.2, provider.2, recipient.2, member.2, hpositive, hdistinct,
        hparticipant⟩⟩
  · obtain ⟨id, community, source, provider, recipient, minutes, member⟩ := acknowledgement
    rintro ⟨⟨hid, hcommunity, hsource, hprovider, hrecipient, hminutes, hmember, -⟩, hvalid⟩
    have hname : id = source ++ _ := hvalid.id.trans String.append_assoc
    have hblank : Text.blank id = false := by
      rw [hname, Text.blank_append, show Text.blank source = false from hvalid.sourceProposalId]
      rfl
    exact ⟨isObject_of_field hid, ⟨id, hblank⟩, hid, ⟨community, hvalid.communityId⟩, hcommunity,
      ⟨source, hvalid.sourceProposalId⟩, hsource, ⟨provider, hvalid.providerMemberId⟩, hprovider,
      ⟨recipient, hvalid.recipientMemberId⟩, hrecipient, ⟨member, hvalid.acknowledgedBy⟩, hmember,
      minutes, ⟨hminutes, hvalid.positive⟩, hvalid.distinct, hvalid.participant, _,
      ⟨hvalid.sourceProposalId, hvalid.acknowledgedBy, rfl⟩, hvalid.id, rfl⟩

/-- The rules for an attestation container on its own. -/
structure AttestationValid (container : SettlementTransferAttestation) : Prop where
  id : container.id =
    container.sourceProposalId ++ "/settlement-attestation/" ++ container.attestation.memberId
  communityId : Text.blank container.communityId = false
  sourceProposalId : Text.blank container.sourceProposalId = false
  attestation : container.attestation.Valid
  rest : container.attestation.rest = []

/-- Payloads of an attestation container are the objects with its properties. -/
theorem normalizeSettlementTransferAttestation_eq_ok {payload : JsonValue}
    {container : SettlementTransferAttestation} :
    normalizeSettlementTransferAttestation payload = .ok container ↔
      HasProperties payload [("id", .str container.id), ("communityId", .str container.communityId),
          ("sourceProposalId", .str container.sourceProposalId)] ∧
        HasProperties ((payload.field "attestation").getD .null)
          container.attestation.toJson.properties ∧
        AttestationValid container := by
  simp only [normalizeSettlementTransferAttestation, bind_eq_ok, assertRecord_eq_ok, exists_const,
    assertPresent_eq_ok, require_eq_ok, settlementTransferAttestationId, pure_eq_ok]
  simp only [HasProperties, TimebankLedger.TransferAttestation.toJson, JsonValue.properties,
    List.forall_mem_cons]
  constructor
  · rintro ⟨-, id, hid, community, hcommunity, source, hsource, -, member, hmember, key, hkey, digest,
      hdigest, signature, hsignature, _, ⟨-, rfl⟩, hname, rfl⟩
    exact ⟨⟨hid, hcommunity, hsource, by simp⟩, ⟨hmember, hkey, hdigest, hsignature, by simp⟩,
      ⟨hname, community.2, source.2, ⟨member.2, key.2, digest.2, signature.2, by simp⟩, rfl⟩⟩
  · obtain ⟨id, community, source, member, key, digest, signature, rest⟩ := container
    rintro ⟨⟨hid, hcommunity, hsource, -⟩, ⟨hmember, hkey, hdigest, hsignature, -⟩, hvalid⟩
    obtain rfl : rest = [] := hvalid.rest
    have hname : id = source ++ _ := hvalid.id.trans String.append_assoc
    have hblank : Text.blank id = false := by
      rw [hname, Text.blank_append, show Text.blank source = false from hvalid.sourceProposalId]
      rfl
    have hattestation := hvalid.attestation
    exact ⟨isObject_of_field hid, ⟨id, hblank⟩, hid, ⟨community, hvalid.communityId⟩, hcommunity,
      ⟨source, hvalid.sourceProposalId⟩, hsource, isObject_of_field hmember,
      ⟨member, hattestation.memberId⟩, hmember, ⟨key, hattestation.keyId⟩, hkey,
      ⟨digest, hattestation.payloadDigest⟩, hdigest, ⟨signature, hattestation.signature⟩, hsignature,
      _, ⟨⟨hvalid.sourceProposalId, hattestation.memberId⟩, rfl⟩, hvalid.id, rfl⟩

/-- Payloads of a transfer are the objects that the ledger creates it from. -/
theorem normalizeTransfer_eq_ok {payload : JsonValue} {transfer : Transfer} :
    normalizeTransfer payload = .ok transfer ↔ createTransfer payload = .ok transfer := by
  simp only [normalizeTransfer, bind_eq_ok, assertRecord_eq_ok, exists_const, mapError_eq_ok]
  refine ⟨And.right, fun h ↦ ⟨?_, h⟩⟩
  exact isObject_of_field (TimebankLedger.createTransferTerms_eq_ok.mp
    (createTransfer_eq_ok.mp h).1).1.id

/-! ## The law of a record kind -/

/-- A kind accepts only valid values, and a valid value is accepted again from its own object. -/
structure RecordKind.Lawful {α : Type} (kind : RecordKind α) (Valid : α → Prop) : Prop where
  accepts : ∀ payload value, kind.normalize payload = .ok value → Valid value
  again : ∀ value, Valid value → kind.normalize (kind.toJson value) = .ok value
  recordId_inj : ∀ left right, kind.recordId left = kind.recordId right → left = right

theorem lawful_publishedListing : publishedListingRecords.Lawful ListingValid where
  accepts _ _ h := (normalizePublishedListing_eq_ok.mp h).2
  again _ hvalid := normalizePublishedListing_eq_ok.mpr ⟨hasProperties_obj (by simp), hvalid⟩
  recordId_inj _ _ h := h

theorem lawful_closedListing : closedListingRecords.Lawful ClosureValid where
  accepts _ _ h := (normalizeClosedListing_eq_ok.mp h).2
  again _ hvalid := normalizeClosedListing_eq_ok.mpr ⟨hasProperties_obj (by simp), hvalid⟩
  recordId_inj _ _ h := h

theorem lawful_settlementAcknowledgement :
    settlementAcknowledgementRecords.Lawful AcknowledgementValid where
  accepts _ _ h := (normalizeSettlementAcknowledgement_eq_ok.mp h).2
  again _ hvalid := normalizeSettlementAcknowledgement_eq_ok.mpr
    ⟨hasProperties_obj (by simp), hvalid⟩
  recordId_inj _ _ h := h

theorem lawful_settlementTransferAttestation :
    settlementTransferAttestationRecords.Lawful AttestationValid where
  accepts _ _ h := (normalizeSettlementTransferAttestation_eq_ok.mp h).2.2
  again container hvalid := by
    refine normalizeSettlementTransferAttestation_eq_ok.mpr ⟨?_, ?_, hvalid⟩
    · change HasProperties container.toJson _
      simp [HasProperties, SettlementTransferAttestation.toJson]
    · exact hasProperties_obj (by simp [hvalid.rest])
  recordId_inj _ _ h := h

theorem lawful_ledgerTransfer : ledgerTransferRecords.Lawful Transfer.Valid where
  accepts _ _ h := valid_of_createTransfer (normalizeTransfer_eq_ok.mp h)
  again _ hvalid := normalizeTransfer_eq_ok.mpr (createTransfer_toJson hvalid)
  recordId_inj _ _ h := h

theorem proposalRecordId_inj {lifecycle left right : String}
    (h : proposalRecordId lifecycle left = proposalRecordId lifecycle right) : left = right := by
  simpa [proposalRecordId] using h

theorem lawful_acceptedExchangeProposal : acceptedExchangeProposalRecords.Lawful AcceptedValid where
  accepts _ _ h := (normalizeAcceptedProposal_eq_ok.mp h).2
  again proposal hvalid := by
    refine normalizeAcceptedProposal_eq_ok.mpr ⟨hasProperties_obj ?_, hvalid⟩
    change ((proposalToJson proposal).properties.map Prod.fst).Nodup
    simp [proposalToJson, JsonValue.properties, hvalid.acceptedBy]
  recordId_inj _ _ h := proposalRecordId_inj h

theorem lawful_proposedExchangeProposal : proposedExchangeProposalRecords.Lawful ProposedValid where
  accepts _ _ h := (normalizeProposedProposal_eq_ok.mp h).2.2
  again proposal hvalid := by
    refine normalizeProposedProposal_eq_ok.mpr ⟨hasProperties_obj ?_, ?_, hvalid⟩
    · change ((proposalToJson proposal).properties.map Prod.fst).Nodup
      simp [proposalToJson, JsonValue.properties, hvalid.acceptedBy]
    · change (proposalToJson proposal).field "acceptedByMemberId" = none
      simp [proposalToJson, hvalid.acceptedBy]
  recordId_inj _ _ h := proposalRecordId_inj h

/-! ## Decoding -/

variable {α : Type} {kind : RecordKind α} {Valid : α → Prop}

/-- The envelope carries the value as its payload, under the value's own id and community, from an
author of its kind. -/
structure RecordKind.Carries (kind : RecordKind α) (record : RecordEnvelope) (value : α) :
    Prop where
  schema : record.schema = timebankRecordSchema
  version : record.version = timebankRecordVersion
  kindName : record.kind = kind.kind
  payload : kind.normalize record.payload = .ok value
  id : record.id = kind.recordId (kind.id value)
  communityId : record.communityId = kind.communityId value
  author : kind.mayAuthor value record.authorId = true

theorem normalizeRecord_eq_ok {source : JsonValue} {record : RecordEnvelope} :
    normalizeRecord source = .ok record ↔ createRecordEnvelope source = .ok record := by
  simp only [normalizeRecord, bind_eq_ok, assertRecord_eq_ok, exists_const, mapError_eq_ok]
  exact ⟨And.right, fun h ↦ ⟨isObject_of_field (createRecordEnvelope_eq_ok.mp h).id, h⟩⟩

/-- A record is decoded exactly to the value that its envelope carries. -/
theorem RecordKind.decode_eq_ok {source : JsonValue} {record : RecordEnvelope}
    (hrecord : createRecordEnvelope source = .ok record) {value : α} :
    kind.decode source = .ok value ↔ kind.Carries record value := by
  rw [RecordKind.decode, normalizeRecord_eq_ok.mpr hrecord, ok_bind]
  simp only [assertTimebankEnvelope, assertRecordKind, bind_eq_ok, require_eq_ok, exists_const,
    pure_eq_ok]
  constructor
  · rintro ⟨⟨hschema, hversion⟩, hkind, _, hpayload, hid, hcommunity, hauthor, rfl⟩
    exact ⟨hschema, hversion, hkind, hpayload, hid, hcommunity, hauthor⟩
  · intro h
    exact ⟨⟨h.schema, h.version⟩, h.kindName, value, h.payload, h.id, h.communityId, h.author, rfl⟩

/-- An envelope carries at most one value of a kind. -/
theorem RecordKind.Carries.unique {record : RecordEnvelope} {left right : α}
    (hleft : kind.Carries record left) (hright : kind.Carries record right) : left = right :=
  Except.ok.inj (hleft.payload.symm.trans hright.payload)

theorem RecordKind.Carries.valid (hlawful : kind.Lawful Valid) {record : RecordEnvelope} {value : α}
    (h : kind.Carries record value) : Valid value :=
  hlawful.accepts _ _ h.payload

/-! ## Reduction -/

theorem RecordKind.read_eq_ok {communityId : String} {record : RecordEnvelope} {value : α} :
    kind.read communityId record = .ok value ↔
      kind.Carries record value ∧ kind.communityId value = communityId := by
  simp only [RecordKind.read, bind_eq_ok, require_eq_ok, exists_const, pure_eq_ok,
    decode_eq_ok (createRecordEnvelope_toJson record)]
  constructor
  · rintro ⟨_, hcarries, hcommunity, rfl⟩
    exact ⟨hcarries, hcommunity⟩
  · rintro ⟨hcarries, hcommunity⟩
    exact ⟨value, hcarries, hcommunity, rfl⟩

/-- The object of a readable value determines it. -/
theorem RecordKind.Lawful.determines (hlawful : kind.Lawful Valid) (communityId : String) :
    Determines kind.id (fun value ↦ stringify (kind.toJson value)) (kind.read communityId) := by
  intro left right leftValue rightValue hleft hright _ hcontent
  have hagain := hlawful.again leftValue ((read_eq_ok.mp hleft).1.valid hlawful)
  rw [stringify_inj.mp hcontent,
    hlawful.again rightValue ((read_eq_ok.mp hright).1.valid hlawful)] at hagain
  exact Except.ok.inj hagain.symm

/-- Records whose ids name one envelope each reduce exactly when each carries a value of the
community; the result lists those values once. -/
theorem RecordKind.Lawful.reduceRecords_spec (hlawful : kind.Lawful Valid)
    (localeCompare : String → String → Ordering) {records : List RecordEnvelope}
    {communityId : String}
    (hunique : ∀ left ∈ records, ∀ right ∈ records, left.id = right.id → left = right) :
    (Succeeds (kind.reduceRecords localeCompare records communityId) ↔
      Text.blank communityId = false ∧
        ∀ record ∈ records, ∃ value, kind.Carries record value ∧
          kind.communityId value = communityId) ∧
    ∀ values, kind.reduceRecords localeCompare records communityId = .ok values →
      (values.map kind.id).Nodup ∧
      ∀ value, value ∈ values ↔
        kind.communityId value = communityId ∧ ∃ record ∈ records, kind.Carries record value := by
  have hdet := hlawful.determines communityId
  have hsuccess := @succeeds_collect _ _ _ _ _ kind.id _
    (fun value ↦ stringify (kind.toJson value))
    ("Conflicting " ++ kind.label ++ " records share the same id.") (kind.read communityId) hdet
    records
  constructor
  · have hstages : Succeeds (kind.reduceRecords localeCompare records communityId) ↔
        Text.blank communityId = false ∧ Succeeds (collect kind.id
          (fun value ↦ stringify (kind.toJson value))
          ("Conflicting " ++ kind.label ++ " records share the same id.") (kind.read communityId)
          records) := by
      simp only [Succeeds, reduceRecords, bind_eq_ok, assertPresent_eq_ok, pure_eq_ok,
        Option.some.injEq, JsonValue.str.injEq]
      constructor
      · rintro ⟨_, text, rfl, byId, hbyId, -⟩
        exact ⟨text.2, byId, hbyId⟩
      · rintro ⟨hblank, byId, hbyId⟩
        exact ⟨_, ⟨communityId, hblank⟩, rfl, byId, hbyId, rfl⟩
    rw [hstages, hsuccess]
    simp only [Succeeds, read_eq_ok]
    refine and_congr_right fun _ ↦ ⟨And.left, fun hread ↦ ⟨hread, ?_⟩⟩
    rintro record hrecord value ⟨hcarries, -⟩ other hother otherValue ⟨hotherCarries, -⟩ hid
    have hsame : other = record := hunique other hother record hrecord
      (by rw [hotherCarries.id, hcarries.id, hid])
    subst hsame
    exact hotherCarries.unique hcarries
  · intro values hvalues
    obtain ⟨_, -, hvalues⟩ := bind_eq_ok.mp hvalues
    obtain ⟨byId, hbyId, hvalues⟩ := bind_eq_ok.mp hvalues
    obtain rfl := pure_eq_ok.mp hvalues
    refine ⟨(nodup_map_sortBy _).mpr (nodup_collect hdet hbyId), fun value ↦ ?_⟩
    rw [mem_sortBy, mem_collect hdet hbyId]
    simp only [read_eq_ok]
    constructor
    · rintro ⟨record, hrecord, hcarries, hcommunity⟩
      exact ⟨hcommunity, record, hrecord, hcarries⟩
    · rintro ⟨hcommunity, record, hrecord, hcarries⟩
      exact ⟨record, hrecord, hcarries, hcommunity⟩

end PeerHours.TimebankRecords
