import PeerHours.Records.RoundTrips

/-!
# Decoded values and the domain

The decoders check the domain rules on untyped payloads by themselves. What they return could have been made by
the domain package, except that they do not bound the description of a listing.
-/

namespace PeerHours.TimebankRecords

open Checked Json
open JsonValue (field field_obj)
open TimebankDomain

/-! ## Values that the domain package makes -/

/-- The input with the terms of a listing. -/
def listingInput (listing : Listing) : CreateListingInput where
  id := listing.id
  communityId := listing.communityId
  memberId := listing.memberId
  title := listing.title
  description := listing.description
  minutes := listing.minutes

/-- The owner created the listing as an offer or a request, from its own terms, and published it. -/
def PublishedByOwner (listing : Listing) : Prop :=
  ∃ draft owner, (createOffer (listingInput listing) = .ok draft ∨
      createRequest (listingInput listing) = .ok draft) ∧
    createMemberProfile owner = .ok owner ∧ publishListing draft owner = .ok listing

/-- The offer, the request and the two profiles of a proposal come from the domain package. -/
structure Published (input : ProposeExchangeInput) : Prop where
  offer : PublishedByOwner input.offer
  request : PublishedByOwner input.request
  provider : createMemberProfile input.provider = .ok input.provider
  recipient : createMemberProfile input.recipient = .ok input.recipient

/-- The proposal was proposed between published listings. -/
def ProposedFromListings (proposal : ExchangeProposal) : Prop :=
  ∃ input, Published input ∧ proposeExchange input = .ok proposal

/-- The proposal was proposed between published listings, and then accepted by the member that it names. -/
def AcceptedFromListings (proposal : ExchangeProposal) : Prop :=
  ∃ input pending acceptor, Published input ∧ proposeExchange input = .ok pending ∧
    proposal.acceptedByMemberId = some acceptor ∧
    acceptExchangeProposal
      { proposal := pending, offer := input.offer, request := input.request,
        provider := input.provider, recipient := input.recipient,
        acceptedByMemberId := acceptor } = .ok proposal

/-- The description that a record carries is no longer than a listing's may be. -/
def DescriptionWithin (record : JsonValue) : Prop :=
  ∀ payload description, record.field "payload" = some payload →
    payload.field "description" = some (.str description) → (Text.utf16 description).length ≤ 12000

/-! ## Listings -/

/-- A member's profile. -/
theorem createMemberProfile_eq_ok {profile result : MemberProfile} :
    createMemberProfile profile = .ok result ↔
      (Text.blank profile.id = false ∧ Text.blank profile.communityId = false ∧
        Text.blank profile.displayName = false) ∧ profile = result := by
  simp only [createMemberProfile, TimebankDomain.assertPresent, bind_eq_ok, require_eq_ok, exists_const,
    pure_eq_ok, and_assoc]

/-- Creating a draft checks what the records check, and the length of the description. -/
theorem createListing_eq_ok {kind : ListingKind} {listing draft : Listing} (hvalid : ListingValid listing) :
    createListing kind (listingInput listing) = .ok draft ↔
      (Text.utf16 listing.description).length ≤ 12000 ∧
        { listing with kind := kind, status := .draft } = draft := by
  simp only [createListing, TimebankDomain.assertPresent, assertListingDescription,
    TimebankDomain.assertPositiveWholeMinutes, bind_eq_ok, require_eq_ok, exists_const, pure_eq_ok]
  constructor
  · rintro ⟨_, _, _, _, hdescription, _, hdraft⟩
    exact ⟨hdescription.2, hdraft⟩
  · rintro ⟨hlength, hdraft⟩
    exact ⟨hvalid.id, hvalid.communityId, hvalid.memberId, hvalid.title,
      ⟨hvalid.description, hlength⟩, hvalid.positive, hdraft⟩

/-- A valid listing could have been created and published exactly when its description is short enough. -/
theorem publishedByOwner_iff {listing : Listing} (hvalid : ListingValid listing) :
    PublishedByOwner listing ↔ (Text.utf16 listing.description).length ≤ 12000 := by
  constructor
  · rintro ⟨draft, _, hcreated | hcreated, -⟩
    · exact ((createListing_eq_ok hvalid).mp hcreated).1
    · exact ((createListing_eq_ok hvalid).mp hcreated).1
  · intro hlength
    have hcreated := (@createListing_eq_ok listing.kind _ _ hvalid).mpr ⟨hlength, rfl⟩
    refine ⟨{ listing with status := .draft },
      ⟨listing.memberId, listing.communityId, listing.memberId⟩, ?_, ?_, ?_⟩
    · cases hkind : listing.kind with
      | offer =>
          rw [hkind] at hcreated
          exact .inl hcreated
      | request =>
          rw [hkind] at hcreated
          exact .inr hcreated
    · exact createMemberProfile_eq_ok.mpr ⟨⟨hvalid.memberId, hvalid.communityId, hvalid.memberId⟩, rfl⟩
    · simp only [publishListing, assertListingOwner, bind_eq_ok, require_eq_ok, exists_const,
        pure_eq_ok]
      refine ⟨trivial, ⟨trivial, trivial⟩, ?_⟩
      rw [← hvalid.published]

/-! ## Proposals -/

/-- A published listing of one participant with the terms of a proposal. -/
def proposalListing (kind : ListingKind) (id memberId : String) (proposal : ExchangeProposal) : Listing where
  id := id
  communityId := proposal.communityId
  memberId := memberId
  kind := kind
  title := "Exchange"
  description := "Exchange"
  minutes := proposal.minutes
  status := .published

/-- The listings and the profiles that a proposal's terms name. -/
def proposalInput (proposal : ExchangeProposal) : ProposeExchangeInput where
  id := proposal.id
  offer := proposalListing .offer proposal.offerId proposal.providerMemberId proposal
  request := proposalListing .request proposal.requestId proposal.receiverMemberId proposal
  provider := ⟨proposal.providerMemberId, proposal.communityId, "Provider"⟩
  recipient := ⟨proposal.receiverMemberId, proposal.communityId, "Recipient"⟩
  creatorMemberId := proposal.creatorMemberId
  minutes := proposal.minutes

/-- The listings of a proposal's terms are valid. -/
theorem publishedByOwner_proposalListing {proposal : ExchangeProposal}
    (hvalid : ProposalTermsValid proposal) {kind : ListingKind} {id memberId : String}
    (hid : Text.blank id = false) (hmember : Text.blank memberId = false) :
    PublishedByOwner (proposalListing kind id memberId proposal) := by
  have hword : Text.blank "Exchange" = false := by decide
  have hlisting : ListingValid (proposalListing kind id memberId proposal) :=
    ⟨hid, hvalid.communityId, hmember, hword, hword, hvalid.positive, rfl⟩
  refine (publishedByOwner_iff hlisting).mpr ?_
  show (Text.utf16 "Exchange").length ≤ 12000
  decide

/-- The terms of a valid proposal can be proposed between listings of its participants. -/
theorem proposeExchange_proposalInput {proposal : ExchangeProposal} (hvalid : ProposalTermsValid proposal) :
    Published (proposalInput proposal) ∧
      proposeExchange (proposalInput proposal) =
        .ok { proposal with acceptedByMemberId := none, status := .proposed } := by
  have hprovider : Text.blank "Provider" = false := by decide
  have hrecipient : Text.blank "Recipient" = false := by decide
  refine ⟨⟨publishedByOwner_proposalListing hvalid hvalid.offerId hvalid.providerMemberId,
    publishedByOwner_proposalListing hvalid hvalid.requestId hvalid.receiverMemberId, ?_, ?_⟩, ?_⟩
  · exact createMemberProfile_eq_ok.mpr
      ⟨⟨hvalid.providerMemberId, hvalid.communityId, hprovider⟩, rfl⟩
  · exact createMemberProfile_eq_ok.mpr
      ⟨⟨hvalid.receiverMemberId, hvalid.communityId, hrecipient⟩, rfl⟩
  · refine proposeExchange_eq_ok.mpr ⟨?_, rfl⟩
    exact ⟨rfl, rfl, rfl, rfl, rfl, hvalid.distinct, hvalid.positive, Int.le_refl _, Int.le_refl _,
      ⟨rfl, rfl⟩, ⟨rfl, rfl⟩, hvalid.creator⟩

/-- A valid pending proposal could have been proposed. -/
theorem proposedFromListings_of_valid {proposal : ExchangeProposal} (hvalid : ProposedValid proposal) :
    ProposedFromListings proposal := by
  obtain ⟨hpublished, hproposed⟩ := proposeExchange_proposalInput hvalid.toProposalTermsValid
  refine ⟨proposalInput proposal, hpublished, ?_⟩
  rw [hproposed, ← hvalid.acceptedBy, ← hvalid.status]

/-- A valid accepted proposal could have been proposed and accepted by the other participant. -/
theorem acceptedFromListings_of_valid {proposal : ExchangeProposal} (hvalid : AcceptedValid proposal) :
    AcceptedFromListings proposal := by
  obtain ⟨hpublished, hproposed⟩ := proposeExchange_proposalInput hvalid.toProposalTermsValid
  refine ⟨proposalInput proposal, _, acceptorOf proposal, hpublished, hproposed, hvalid.acceptedBy, ?_⟩
  have hmatches : Proposable (proposalInput proposal) := (proposeExchange_eq_ok.mp hproposed).1
  simp only [acceptExchangeProposal, assertMatchableListings, assertProposalParticipants,
    assertListingOwner, assertProposalCreator, TimebankDomain.assertPositiveWholeMinutes, bind_eq_ok,
    require_eq_ok, exists_const, pure_eq_ok]
  refine ⟨trivial, ⟨rfl, rfl, rfl, rfl, rfl⟩, ⟨⟨rfl, rfl⟩, rfl, ⟨rfl, rfl⟩, hmatches.distinct,
    hmatches.positive, hmatches.offerMinutes, hmatches.requestMinutes⟩,
    ⟨hmatches.provider, hmatches.recipient⟩, hmatches.creator, rfl, ?_⟩
  rw [← hvalid.acceptedBy, ← hvalid.status]

/-! ## Decoded values -/

/-- Only a text is normalized to a text. -/
theorem normalizeJson_eq_str {value : JsonValue} {text : String} :
    normalizeJson value = .ok (.str text) ↔ value = .str text := by
  cases value with
  | arr items =>
      rw [normalizeJson]
      cases normalizeItems items <;> simp [pure, Except.pure]
  | obj fields =>
      rw [normalizeJson]
      cases normalizeFields fields <;> simp [pure, Except.pure]
  | _ => simp [normalizeJson]

/-- A text under a name of a normalized object stands under the name in its source. -/
theorem field_of_normalizeJson {value normal : JsonValue} (h : normalizeJson value = .ok normal)
    {name text : String} (hfield : normal.field name = some (.str text)) :
    value.field name = some (.str text) := by
  cases value with
  | obj fields =>
      rw [normalizeJson] at h
      obtain ⟨properties, hproperties, hnormal⟩ := bind_eq_ok.mp h
      obtain rfl := pure_eq_ok.mp hnormal
      rw [field_obj, get_sortBy] at hfield
      have hget := get_of_normalizeFields hproperties name
      rw [hfield, Option.map_some] at hget
      obtain ⟨source, hsource, hread⟩ := Option.map_eq_some_iff.mp hget.symm
      rw [field_obj, hsource, normalizeJson_eq_str.mp hread]
  | arr items =>
      rw [normalizeJson] at h
      obtain ⟨_, -, hnormal⟩ := bind_eq_ok.mp h
      obtain rfl := pure_eq_ok.mp hnormal
      exact absurd hfield nofun
  | _ =>
      rw [normalizeJson] at h
      obtain rfl := Except.ok.inj h
      exact absurd hfield nofun

/-- The payload of an accepted record carries the listing's description. -/
theorem description_of_created {source : JsonValue} {record : RecordEnvelope} {listing : Listing}
    (hcreated : createRecordEnvelope source = .ok record)
    (hcarries : publishedListingRecords.Carries record listing) :
    ∃ payload, source.field "payload" = some payload ∧
      payload.field "description" = some (.str listing.description) := by
  obtain ⟨payload, hpayload, hnormal⟩ := (createRecordEnvelope_eq_ok.mp hcreated).payload
  obtain ⟨hproperties, -⟩ := normalizePublishedListing_eq_ok.mp hcarries.payload
  have hdescription : record.payload.field "description" = some (.str listing.description) :=
    hproperties ("description", .str listing.description) (by simp [listingToJson, JsonValue.properties])
  exact ⟨payload, hpayload, field_of_normalizeJson hnormal hdescription⟩

/-- A decoder that accepts a source accepts the record that is created from it. -/
theorem RecordKind.exists_carries {α : Type} {kind : RecordKind α} {source : JsonValue} {value : α}
    (h : kind.decode source = .ok value) :
    ∃ record, createRecordEnvelope source = .ok record ∧ kind.Carries record value := by
  have hdecode := h
  rw [RecordKind.decode] at hdecode
  obtain ⟨record, hrecord, -⟩ := bind_eq_ok.mp hdecode
  have hcreated := normalizeRecord_eq_ok.mp hrecord
  exact ⟨record, hcreated, (RecordKind.decode_eq_ok hcreated).mp h⟩

/-- Every value that a proposal decoder returns could have been made by the domain package; a published listing
could exactly when the description that its record carries has at most 12000 code units. -/
theorem decoded_values_from_domain (record : JsonValue) :
    (∀ listing, decodePublishedListingRecord record = .ok listing →
      (PublishedByOwner listing ↔ DescriptionWithin record)) ∧
    (∀ proposal, decodeProposedExchangeProposalRecord record = .ok proposal →
      ProposedFromListings proposal) ∧
    ∀ proposal, decodeAcceptedExchangeProposalRecord record = .ok proposal →
      AcceptedFromListings proposal := by
  refine ⟨fun listing hdecode ↦ ?_, fun proposal hdecode ↦ ?_, fun proposal hdecode ↦ ?_⟩
  · obtain ⟨created, hcreated, hcarries⟩ := RecordKind.exists_carries hdecode
    obtain ⟨payload, hpayload, hdescription⟩ := description_of_created hcreated hcarries
    rw [publishedByOwner_iff (hcarries.valid lawful_publishedListing)]
    constructor
    · intro hlength other description hother hread
      obtain rfl := Option.some.inj (hpayload.symm.trans hother)
      rw [hdescription, Option.some.injEq, JsonValue.str.injEq] at hread
      exact hread ▸ hlength
    · intro hwithin
      exact hwithin payload listing.description hpayload hdescription
  · obtain ⟨created, -, hcarries⟩ := RecordKind.exists_carries hdecode
    exact proposedFromListings_of_valid (hcarries.valid lawful_proposedExchangeProposal)
  · obtain ⟨created, -, hcarries⟩ := RecordKind.exists_carries hdecode
    exact acceptedFromListings_of_valid (hcarries.valid lawful_acceptedExchangeProposal)

/-- The records of the raking exchange are decoded to values that the domain package makes. -/
theorem decoded_values_from_domain_raking :
    PublishedByOwner rakingOffer ∧ ProposedFromListings rakingProposal ∧
      AcceptedFromListings acceptedRaking := by
  have htime := isCanonical_publishedBy
  have hterms := valid_rakingProposal
  have haccepts : AcceptedValid acceptedRaking :=
    ⟨⟨hterms.id, hterms.communityId, hterms.offerId, hterms.requestId, hterms.providerMemberId,
      hterms.receiverMemberId, hterms.creatorMemberId, hterms.positive, hterms.distinct,
      hterms.creator⟩, rfl, rfl⟩
  obtain ⟨listing, hlisting, hlists, -⟩ :=
    @RecordKind.Encodes.envelope _ _ _ encodes_publishedListing _ valid_rakingOffer
      (publishedBy "ada") rfl (htime _)
  obtain ⟨proposed, hproposed, hproposes, -⟩ :=
    @RecordKind.Encodes.envelope _ _ _ encodes_proposedExchangeProposal rakingProposal
      ⟨hterms, rfl, rfl⟩ (publishedBy "ada") rfl (htime _)
  obtain ⟨accepted, haccepted, hcarries, -⟩ :=
    @RecordKind.Encodes.envelope _ _ _ encodes_acceptedExchangeProposal _ haccepts
      (publishedBy "ben") rfl (htime _)
  refine ⟨?_, ?_, ?_⟩
  · refine ((decoded_values_from_domain _).1 rakingOffer
      ((RecordKind.decode_eq_ok hlisting).mpr hlists)).mpr ?_
    intro payload description hpayload hdescription
    obtain rfl := Option.some.inj hpayload
    have hshown : "An hour of raking leaves." = description := by
      have hread : JsonValue.field (listingToJson rakingOffer) "description" =
          some (.str "An hour of raking leaves.") := rfl
      exact JsonValue.str.inj (Option.some.inj (hread.symm.trans hdescription))
    rw [← hshown]
    decide
  · exact (decoded_values_from_domain _).2.1 rakingProposal
      ((RecordKind.decode_eq_ok hproposed).mpr hproposes)
  · exact (decoded_values_from_domain _).2.2 acceptedRaking
      ((RecordKind.decode_eq_ok haccepted).mpr hcarries)

/-- An offer whose description has one code unit too many. -/
def wordyOffer : Listing :=
  { rakingOffer with description := String.ofList (List.replicate 12001 'a') }

theorem valid_wordyOffer : ListingValid wordyOffer := by
  have hoffer := valid_rakingOffer
  refine ⟨hoffer.id, hoffer.communityId, hoffer.memberId, hoffer.title, ?_, hoffer.positive, rfl⟩
  have hletter : Text.isSpace 'a' = false := by decide
  show (String.ofList (List.replicate 12001 'a')).toList.all Text.isSpace = false
  rw [String.toList_ofList, List.replicate_succ, List.all_cons, hletter, Bool.false_and]

/-- A record with a description of 12001 code units is decoded, and no owner could have created its listing. -/
theorem decoded_listing_beyond_domain :
    ¬ ∀ (record : JsonValue) (listing : Listing), decodePublishedListingRecord record = .ok listing →
      PublishedByOwner listing := by
  intro h
  obtain ⟨record, hcreated, hcarries, -⟩ :=
    @RecordKind.Encodes.envelope _ _ _ encodes_publishedListing _ valid_wordyOffer
      (publishedBy "ada") rfl (isCanonical_publishedBy _)
  have hpublished := h _ wordyOffer ((RecordKind.decode_eq_ok hcreated).mpr hcarries)
  have hlength := (publishedByOwner_iff valid_wordyOffer).mp hpublished
  have hunits : (Text.utf16 wordyOffer.description).length = 12001 := by
    show ((String.ofList (List.replicate 12001 'a')).toList.flatMap Text.charUnits).length = 12001
    have hletter : Text.charUnits 'a' = [97] := by decide
    rw [String.toList_ofList, List.length_flatMap, List.map_replicate, hletter,
      List.sum_replicate_nat, List.length_singleton]
  omega

end PeerHours.TimebankRecords
