import PeerHours.Exchanges.Histories
import PeerHours.Records.Convergence

/-!
# Honest exchanges settle

Whatever listings and exchanges a community of honest members has, its feeds resolve, every exchange is
confirmed and attested by both participants, and every settlement reaches the ledger, where it is
accepted or rejected for the credit limit alone.
-/

namespace PeerHours.Exchanges

open Checked Json
open Desktop
open TimebankDomain
open TimebankIdentity (MemberSigningKeyAuthorization attestationInput Attests)
open TimebankLedger (Accounts RejectedTransfer Transfer accounts_resolveTransfers ledgerOf)
open TimebankRecords
open TimebankSettlement

variable {crypto : Crypto}

/-! ## Related lists -/

theorem exists_of_forall₂_right {α β : Type*} {R : α → β → Prop} {left : List α} {right : List β}
    (h : List.Forall₂ R left right) {b : β} (hb : b ∈ right) : ∃ a ∈ left, R a b := by
  induction h with
  | nil => cases hb
  | cons hhead _ ih =>
      cases hb with
      | head => exact ⟨_, List.mem_cons_self, hhead⟩
      | tail _ hb =>
          obtain ⟨a, ha, hab⟩ := ih hb
          exact ⟨a, List.mem_cons_of_mem _ ha, hab⟩

theorem exists_of_forall₂_left {α β : Type*} {R : α → β → Prop} {left : List α} {right : List β}
    (h : List.Forall₂ R left right) {a : α} (ha : a ∈ left) : ∃ b ∈ right, R a b :=
  exists_of_forall₂_right (R := flip R) h.flip ha

/-! ## Links within one exchange -/

section Links

variable {records : List JsonValue} {communityId : String}
  {authorizations : List (MemberSigningKeyAuthorization crypto)}

/-- A participant's attestation verifies under its root key. -/
theorem attestationBy_attests {owner : FeedOwner crypto} {accepted : ExchangeProposal}
    (hcommunity : accepted.communityId = communityId)
    (hroot : RootAuthorized owner.stored communityId authorizations) :
    Attests authorizations (settlementTerms accepted) (attestationBy owner accepted) := by
  refine ⟨rfl, ?_⟩
  subst hcommunity
  exact hroot.verifies _

/-- The records of an exchange refer to each other as resolution demands. -/
theorem Exchange.linked (exchange : Exchange crypto)
    (hcommunity : exchange.accepted.communityId = communityId)
    (haccepted : acceptedExchangeProposalRecords.Holds records communityId exchange.accepted)
    (hdual : DualHeld records communityId exchange.accepted)
    (honly : ∀ proposal, proposedExchangeProposalRecords.Holds records communityId proposal →
      proposal.id = exchange.id → proposal = exchange.proposal)
    (hprovider : RootAuthorized exchange.offer.owner.stored communityId authorizations)
    (hreceiver : RootAuthorized exchange.request.owner.stored communityId authorizations) :
    ∀ publication ∈ exchange.publications,
      publication.value.Linked records communityId authorizations := by
  have hack : ∀ memberId, Participates exchange.accepted memberId →
      (DomainValue.acknowledgement (acknowledgementOf exchange.accepted memberId)).Linked records
        communityId authorizations :=
    fun memberId hmember ↦ ⟨exchange.accepted, haccepted, rfl, hmember, rfl⟩
  have hattestation : ∀ owner : FeedOwner crypto, Participates exchange.accepted owner.memberId →
      RootAuthorized owner.stored communityId authorizations →
      (DomainValue.attestation (attestationContainer exchange.accepted
        (attestationBy owner exchange.accepted))).Linked records communityId authorizations :=
    fun owner howner hroot ↦ ⟨exchange.accepted, haccepted, rfl, hdual, ⟨⟨howner, rfl⟩, rfl⟩,
      (attestationBy_attests hcommunity hroot).2⟩
  have hpublished : exchange.proposal.id = exchange.id := exchange.proposal_spec.1.id
  intro publication hpublication
  simp only [Exchange.publications, List.mem_cons, List.not_mem_nil, or_false] at hpublication
  rcases hpublication with rfl | rfl | rfl | rfl | rfl | rfl | rfl
  · trivial
  · intro proposal hproposal (hid : proposal.id = exchange.accepted.id)
    rw [exchange.accepted_agrees.id] at hid
    rw [honly proposal hproposal hid, exchange.accepted_eq]
    exact ⟨rfl, rfl, rfl, rfl, rfl, rfl, rfl⟩
  · exact hack _ exchange.participates_provider
  · exact hack _ exchange.participates_receiver
  · exact hattestation _ exchange.participates_provider hprovider
  · exact hattestation _ exchange.participates_receiver hreceiver
  · refine ⟨fun _ ↦ ⟨exchange.accepted, haccepted, hdual, rfl⟩, ?_, fun hreversal ↦ ?_⟩
    · intro attestation hattestation
      have hpair : attestation = attestationBy exchange.offer.owner exchange.accepted ∨
          attestation = attestationBy exchange.request.owner exchange.accepted := by
        simpa [Exchange.settlement] using hattestation
      cases hpair with
      | inl h => exact h ▸ attestationBy_attests hcommunity hprovider
      | inr h => exact h ▸ attestationBy_attests hcommunity hreceiver
    · exact absurd rfl hreversal

end Links

/-! ## Record ids -/

/-- A character that a plain id may contain. -/
def isPlainChar (c : Char) : Bool :=
  decide (c ≠ '/' ∧ c ≠ ':')

theorem PlainId.all {id : String} (h : PlainId id) : ∀ c ∈ id.toList, isPlainChar c = true := by
  intro c hc
  refine decide_eq_true ⟨?_, ?_⟩
  · intro hslash
    exact h.2.1 (hslash ▸ hc)
  · intro hcolon
    exact h.2.2 (hcolon ▸ hc)

/-- A text that ends a plain id: it is empty or begins with a separator. -/
def EndsPlain (suffix : String) : Prop :=
  ∀ c ∈ suffix.toList.head?, isPlainChar c = false

/-- A plain id can be read off the record ids that begin with it. -/
theorem plain_append_inj {left right leftSuffix rightSuffix : String}
    (hleft : ∀ c ∈ left.toList, isPlainChar c = true)
    (hright : ∀ c ∈ right.toList, isPlainChar c = true) (hleftSuffix : EndsPlain leftSuffix)
    (hrightSuffix : EndsPlain rightSuffix) (h : left ++ leftSuffix = right ++ rightSuffix) :
    left = right ∧ leftSuffix = rightSuffix := by
  have hchars := congrArg String.toList h
  rw [String.toList_append, String.toList_append] at hchars
  obtain ⟨hids, hsuffixes⟩ := append_inj_of_class hleft hright hleftSuffix hrightSuffix hchars
  exact ⟨String.toList_inj.mp hids, String.toList_inj.mp hsuffixes⟩

/-- What follows the proposal id in the record ids of an exchange. -/
def Exchange.suffixes (exchange : Exchange crypto) : List String :=
  ["/proposed", "/accepted", "/settlement-ack/" ++ exchange.offer.owner.memberId,
    "/settlement-ack/" ++ exchange.request.owner.memberId,
    "/settlement-attestation/" ++ exchange.offer.owner.memberId,
    "/settlement-attestation/" ++ exchange.request.owner.memberId, "/settlement"]

theorem Exchange.recordIds (exchange : Exchange crypto) :
    exchange.publications.map (fun publication ↦ recordIdOf publication.value) =
      exchange.suffixes.map (exchange.id ++ ·) := by
  have hproposal := exchange.proposal_spec.1.id
  have haccepted := exchange.accepted_agrees.id
  have hproposed : recordIdOf (.proposedProposal exchange.proposal) = exchange.id ++ "/proposed" := by
    show proposalRecordId "proposed" exchange.proposal.id = _
    rw [hproposal]
    rfl
  have hacceptance : recordIdOf (.acceptedProposal exchange.accepted) =
      exchange.id ++ "/accepted" := by
    show proposalRecordId "accepted" exchange.accepted.id = _
    rw [haccepted]
    rfl
  have hack : ∀ memberId : String,
      recordIdOf (.acknowledgement (acknowledgementOf exchange.accepted memberId)) =
        exchange.id ++ ("/settlement-ack/" ++ memberId) := by
    intro memberId
    show exchange.accepted.id ++ "/settlement-ack/" ++ memberId = _
    rw [haccepted, String.append_assoc]
  have hattestation : ∀ owner : FeedOwner crypto,
      recordIdOf (.attestation (attestationContainer exchange.accepted
        (attestationBy owner exchange.accepted))) =
        exchange.id ++ ("/settlement-attestation/" ++ owner.memberId) := by
    intro owner
    show exchange.accepted.id ++ "/settlement-attestation/" ++ owner.memberId = _
    rw [haccepted, String.append_assoc]
  have hsettlement : recordIdOf (.transfer exchange.settlement) = exchange.id ++ "/settlement" := by
    show exchange.accepted.id ++ "/settlement" = _
    rw [haccepted]
  simp only [Exchange.publications, Exchange.suffixes, List.map_cons, List.map_nil, hproposed,
    hacceptance, hack, hattestation, hsettlement]

/-- The suffixes differ, since the participants do. -/
theorem Exchange.nodup_suffixes (exchange : Exchange crypto) : exchange.suffixes.Nodup := by
  have hdistinct := exchange.proposal_spec.2.2.2.2.1
  have hchars : exchange.offer.owner.memberId.toList ≠ exchange.request.owner.memberId.toList :=
    fun hsame ↦ hdistinct (String.toList_inj.mp hsame)
  simp [Exchange.suffixes, ← String.toList_inj, hchars]

/-- A text that is empty or begins with a slash. -/
def Slashed (suffix : String) : Prop :=
  ∀ c ∈ suffix.toList.head?, c = '/'

theorem Slashed.endsPlain {suffix : String} (h : Slashed suffix) : EndsPlain suffix := by
  intro c hc
  rw [h c hc]
  decide

theorem Exchange.slashed (exchange : Exchange crypto) {suffix : String}
    (h : suffix ∈ exchange.suffixes) : Slashed suffix ∧ suffix ≠ "" := by
  simp only [Exchange.suffixes, List.mem_cons, List.not_mem_nil, or_false] at h
  rcases h with rfl | rfl | rfl | rfl | rfl | rfl | rfl <;>
    simp [Slashed, ← String.toList_inj]

/-- The record ids of an exchange begin with its id. -/
theorem Exchange.recordId (exchange : Exchange crypto) {publication : Publication crypto}
    (h : publication ∈ exchange.publications) :
    ∃ suffix ∈ exchange.suffixes, recordIdOf publication.value = exchange.id ++ suffix := by
  have hmem := List.mem_map_of_mem (f := fun p : Publication crypto ↦ recordIdOf p.value) h
  rw [exchange.recordIds] at hmem
  obtain ⟨suffix, hsuffix, hid⟩ := List.mem_map.mp hmem
  exact ⟨suffix, hsuffix, hid.symm⟩

/-- A record id of an exchange names one of its publications. -/
theorem Exchange.publication_inj (exchange : Exchange crypto) {left right : Publication crypto}
    (hleft : left ∈ exchange.publications) (hright : right ∈ exchange.publications)
    (hid : recordIdOf left.value = recordIdOf right.value) : left = right := by
  have hnodup : (exchange.publications.map fun p ↦ recordIdOf p.value).Nodup := by
    rw [exchange.recordIds]
    exact exchange.nodup_suffixes.map fun _ _ h ↦ (String.append_right_inj _).mp h
  exact List.inj_on_of_nodup_map hnodup hleft hright hid

/-! ## What a community publishes -/

/-- The publications of a community: its listings and the records of its exchanges. -/
def Community.Published (community : Community crypto) (publication : Publication crypto) : Prop :=
  (∃ listing ∈ community.listings, publication = listing.publication) ∨
    ∃ exchange ∈ community.exchanges, publication ∈ exchange.publications

theorem Community.distinctMembers (community : Community crypto) :
    DistinctMembers community.members :=
  ⟨community.distinctRoots, community.collisionFree, community.distinctFeeds⟩

/-- The community of an exchange is that of its members. -/
theorem Community.exchange_community (community : Community crypto) {exchange : Exchange crypto}
    (hexchange : exchange ∈ community.exchanges) :
    exchange.offer.input.communityId = community.communityId ∧
      exchange.offer.owner ∈ community.members ∧ exchange.request.owner ∈ community.members := by
  obtain ⟨hoffer, hrequest⟩ := community.listed exchange hexchange
  obtain ⟨hprovider, hcommunity⟩ := community.listingOwners _ hoffer
  exact ⟨hcommunity, hprovider, (community.listingOwners _ hrequest).1⟩

/-- The author of each record of an exchange takes part in it, and its value is of the community. -/
theorem Exchange.publication_owner (exchange : Exchange crypto) {publication : Publication crypto}
    (h : publication ∈ exchange.publications) :
    (publication.owner = exchange.offer.owner ∨ publication.owner = exchange.request.owner) ∧
      communityOf publication.value = exchange.offer.input.communityId := by
  have hcreator : exchange.creator = exchange.offer.owner ∨
      exchange.creator = exchange.request.owner := by
    unfold Exchange.creator
    split
    · exact .inl rfl
    · exact .inr rfl
  have hacceptor : exchange.acceptor = exchange.offer.owner ∨
      exchange.acceptor = exchange.request.owner := by
    unfold Exchange.acceptor
    split
    · exact .inr rfl
    · exact .inl rfl
  have hproposal := exchange.proposal_spec.1.community
  have haccepted := exchange.accepted_agrees.community
  simp only [Exchange.publications, List.mem_cons, List.not_mem_nil, or_false] at h
  rcases h with rfl | rfl | rfl | rfl | rfl | rfl | rfl
  · exact ⟨hcreator, hproposal⟩
  · exact ⟨hacceptor, haccepted⟩
  · exact ⟨.inl rfl, haccepted⟩
  · exact ⟨.inr rfl, haccepted⟩
  · exact ⟨.inl rfl, haccepted⟩
  · exact ⟨.inr rfl, haccepted⟩
  · exact ⟨exchange.settler_eq, haccepted⟩

/-- The record id of a publication: a plain id with a suffix. -/
theorem Community.recordId (community : Community crypto) {publication : Publication crypto}
    (h : community.Published publication) :
    ∃ id suffix, (∀ c ∈ id.toList, isPlainChar c = true) ∧ Slashed suffix ∧
      recordIdOf publication.value = id ++ suffix := by
  cases h with
  | inl h =>
      obtain ⟨listing, hlisting, rfl⟩ := h
      exact ⟨listing.listing.id, "", (community.plainListingIds listing hlisting).all,
        by simp [Slashed], (String.append_empty).symm⟩
  | inr h =>
      obtain ⟨exchange, hexchange, hpublication⟩ := h
      obtain ⟨suffix, hsuffix, hid⟩ := exchange.recordId hpublication
      exact ⟨exchange.id, suffix, (community.plainProposalIds exchange hexchange).all,
        (exchange.slashed hsuffix).1, hid⟩

/-- A listing and an exchange share no record id. -/
theorem Community.listing_ne_exchange (community : Community crypto)
    {listing : ListingPublication crypto} (hlisting : listing ∈ community.listings)
    {exchange : Exchange crypto} (hexchange : exchange ∈ community.exchanges)
    {publication : Publication crypto} (hpublication : publication ∈ exchange.publications) :
    recordIdOf listing.publication.value ≠ recordIdOf publication.value := by
  obtain ⟨suffix, hsuffix, hid⟩ := exchange.recordId hpublication
  obtain ⟨hslashed, hne⟩ := exchange.slashed hsuffix
  intro hsame
  have hplain : listing.listing.id ++ "" = exchange.id ++ suffix := by
    rw [String.append_empty, ← hid]
    exact hsame
  have hempty := (plain_append_inj (community.plainListingIds listing hlisting).all
    (community.plainProposalIds exchange hexchange).all (by simp [EndsPlain]) hslashed.endsPlain
    hplain).2
  exact hne hempty.symm

/-- A record id of a community names one of its publications. -/
theorem Community.publication_inj (community : Community crypto)
    {left right : Publication crypto} (hleft : community.Published left)
    (hright : community.Published right) (hid : recordIdOf left.value = recordIdOf right.value) :
    left = right := by
  cases hleft with
  | inl hleft =>
      obtain ⟨listing, hlisting, rfl⟩ := hleft
      cases hright with
      | inl hright =>
          obtain ⟨other, hother, rfl⟩ := hright
          rw [community.listingIds listing hlisting other hother hid]
      | inr hright =>
          obtain ⟨exchange, hexchange, hpublication⟩ := hright
          exact absurd hid (community.listing_ne_exchange hlisting hexchange hpublication)
  | inr hleft =>
      obtain ⟨exchange, hexchange, hpublication⟩ := hleft
      cases hright with
      | inl hright =>
          obtain ⟨listing, hlisting, rfl⟩ := hright
          exact absurd hid.symm (community.listing_ne_exchange hlisting hexchange hpublication)
      | inr hright =>
          obtain ⟨other, hother, hotherPublication⟩ := hright
          obtain ⟨suffix, hsuffix, hrecord⟩ := exchange.recordId hpublication
          obtain ⟨otherSuffix, hotherSuffix, hotherRecord⟩ := other.recordId hotherPublication
          have hids := plain_append_inj (community.plainProposalIds exchange hexchange).all
            (community.plainProposalIds other hother).all (exchange.slashed hsuffix).1.endsPlain
            (other.slashed hotherSuffix).1.endsPlain (hrecord ▸ hotherRecord ▸ hid)
          obtain rfl := community.proposalIds exchange hexchange other hother hids.1
          exact exchange.publication_inj hpublication hotherPublication hid

/-- The publications of a community have ids of their own. -/
theorem Community.protocol (community : Community crypto) :
    Protocol community.communityId community.members community.Published where
  toDistinctMembers := community.distinctMembers
  present := community.present
  owners publication hpublished := by
    cases hpublished with
    | inl h =>
        obtain ⟨listing, hlisting, rfl⟩ := h
        obtain ⟨howner, hcommunity⟩ := community.listingOwners listing hlisting
        exact ⟨howner, listing.spec.2.2.trans hcommunity⟩
    | inr h =>
        obtain ⟨exchange, hexchange, hpublication⟩ := h
        obtain ⟨hcommunity, hprovider, hreceiver⟩ := community.exchange_community hexchange
        obtain ⟨howner, hvalue⟩ := exchange.publication_owner hpublication
        refine ⟨?_, hvalue.trans hcommunity⟩
        cases howner with
        | inl howner => exact howner ▸ hprovider
        | inr howner => exact howner ▸ hreceiver
  ids _ _ hleft hright hid := community.publication_inj hleft hright hid
  undeclared publication hpublished owner _ hid := by
    obtain ⟨id, suffix, hplain, hslashed, hrecord⟩ := community.recordId hpublished
    -- a declaration's id has a colon where a publication's has a slash or ends
    have hsplit : id ++ suffix = "member-feed" ++ (":" ++ (owner.memberId ++ (":" ++
        (community.communityId ++ (":" ++ owner.feedPublicKey))))) := by
      rw [← hrecord, hid, memberFeedRecordId, ← @String.append_assoc "member-feed"]
      rfl
    have hstem : PlainId "member-feed" := ⟨by decide, by decide, by decide⟩
    have hsuffix := (plain_append_inj hplain hstem.all hslashed.endsPlain
      (by simp [EndsPlain, isPlainChar]) hsplit).2
    have hcolon := hslashed ':' (by simp [hsuffix])
    exact absurd hcolon (by decide)

/-! ## The feeds of a community -/

/-- The entry is a member's declaration or a published record of its author. -/
def Community.Entry (community : Community crypto) (entry : FeedOwner crypto × JsonValue) : Prop :=
  (entry.1 ∈ community.members ∧ declareFeed community.communityId entry.1 = .ok entry) ∨
    ∃ publication, community.Published publication ∧ publication.PublishedAs entry

/-- The records of a community are its declarations and its publications. -/
theorem communityRecords_spec (localeCompare : String → String → Ordering)
    (community : Community crypto) :
    ∃ entries, communityRecords localeCompare community = .ok entries ∧
      (∀ entry ∈ entries, community.Entry entry) ∧
      (∀ owner ∈ community.members, ∃ source, (owner, source) ∈ entries ∧
        declareFeed community.communityId owner = .ok (owner, source)) ∧
      ∀ publication, community.Published publication →
        ∃ source, (publication.owner, source) ∈ entries ∧
          publication.PublishedAs (publication.owner, source) := by
  have hplain : ∀ exchange ∈ community.exchanges, Text.blank exchange.id = false :=
    fun exchange hexchange ↦ (community.plainProposalIds exchange hexchange).1
  obtain ⟨declared, hdeclared⟩ := succeeds_mapM.mpr fun owner (_ : owner ∈ community.members) ↦
    have ⟨source, _, _, hsource, _⟩ := declareFeed_spec community.present owner
    ⟨(owner, source), hsource⟩
  obtain ⟨listed, hlisted⟩ := succeeds_mapM.mpr fun listing (_ : listing ∈ community.listings) ↦
    have ⟨entry, hentry, _⟩ := publishListingRecord_spec listing
    ⟨entry, hentry⟩
  obtain ⟨exchanged, hexchanged⟩ := succeeds_mapM.mpr fun exchange hexchange ↦
    have ⟨entries, hentries, _⟩ := @exchangeRecords_spec _ localeCompare exchange
      (hplain exchange hexchange)
    ⟨entries, hentries⟩
  have hdeclaredMem := mem_of_mapM hdeclared
  have hlistedMem := mem_of_mapM hlisted
  have hexchangedMem := mem_of_mapM hexchanged
  refine ⟨declared ++ listed ++ exchanged.flatten, ?_, ?_, ?_, ?_⟩
  · rw [communityRecords, hdeclared, ok_bind, hlisted, ok_bind, hexchanged, ok_bind]
    rfl
  · intro entry hentry
    rw [List.mem_append, List.mem_append, List.mem_flatten] at hentry
    rcases hentry with (hentry | hentry) | ⟨entries, hentries, hentry⟩
    · obtain ⟨owner, howner, hdeclares⟩ := (hdeclaredMem entry).mp hentry
      obtain ⟨source, _, _, hsource, -⟩ := declareFeed_spec community.present owner
      obtain rfl := Except.ok.inj (hdeclares.symm.trans hsource)
      exact .inl ⟨howner, hsource⟩
    · obtain ⟨listing, hlisting, hpublishes⟩ := (hlistedMem entry).mp hentry
      obtain ⟨other, hother, hpublished⟩ := publishListingRecord_spec listing
      obtain rfl := Except.ok.inj (hpublishes.symm.trans hother)
      exact .inr ⟨listing.publication, .inl ⟨listing, hlisting, rfl⟩, hpublished⟩
    · obtain ⟨exchange, hexchange, hrecords⟩ := (hexchangedMem entries).mp hentries
      obtain ⟨others, hothers, hall⟩ := @exchangeRecords_spec _ localeCompare exchange
        (hplain exchange hexchange)
      obtain rfl := Except.ok.inj (hrecords.symm.trans hothers)
      obtain ⟨publication, hpublication, hpublished⟩ := exists_of_forall₂_right hall hentry
      exact .inr ⟨publication, .inr ⟨exchange, hexchange, hpublication⟩, hpublished⟩
  · intro owner howner
    obtain ⟨source, _, _, hsource, -⟩ := declareFeed_spec community.present owner
    refine ⟨source, ?_, hsource⟩
    exact List.mem_append_left _ (List.mem_append_left _
      ((hdeclaredMem _).mpr ⟨owner, howner, hsource⟩))
  · intro publication hpublished
    rcases hpublished with ⟨listing, hlisting, rfl⟩ | ⟨exchange, hexchange, hpublication⟩
    · obtain ⟨⟨owner, source⟩, hentry, (rfl : owner = _), hrecord⟩ := publishListingRecord_spec listing
      refine ⟨source, ?_, rfl, hrecord⟩
      exact List.mem_append_left _ (List.mem_append_right _
        ((hlistedMem _).mpr ⟨listing, hlisting, hentry⟩))
    · obtain ⟨entries, hentries, hall⟩ := @exchangeRecords_spec _ localeCompare exchange
        (hplain exchange hexchange)
      obtain ⟨⟨owner, source⟩, hentry, (rfl : owner = _), hrecord⟩ :=
        exists_of_forall₂_left hall hpublication
      refine ⟨source, ?_, rfl, hrecord⟩
      exact List.mem_append_right _ (List.mem_flatten.mpr
        ⟨entries, (hexchangedMem _).mpr ⟨exchange, hexchange, hentries⟩, hentry⟩)

/-- The feeds of the members, each with the entries of its owner. -/
def feedsOf (members : List (FeedOwner crypto)) (entries : List (FeedOwner crypto × JsonValue)) :
    List MemberFeedHistory :=
  members.map fun owner ↦
    { feedPublicKey := owner.feedPublicKey
      records := (entries.filter fun entry ↦
        decide (entry.1.feedPublicKey = owner.feedPublicKey)).map (·.2) }

/-- The feeds of declarations and publications, in any order and with any repetitions, hold what is
published. -/
theorem publishedIn_feedsOf {communityId : String} {members : List (FeedOwner crypto)}
    {published : Publication crypto → Prop} (hprotocol : Protocol communityId members published)
    {entries : List (FeedOwner crypto × JsonValue)}
    (hall : ∀ entry ∈ entries,
      (entry.1 ∈ members ∧ declareFeed communityId entry.1 = .ok entry) ∨
        ∃ publication, published publication ∧ publication.PublishedAs entry)
    (hdeclares : ∀ owner ∈ members, ∃ source, (owner, source) ∈ entries ∧
      declareFeed communityId owner = .ok (owner, source))
    (hpublishes : ∀ publication, published publication →
      ∃ source, (publication.owner, source) ∈ entries ∧
        publication.PublishedAs (publication.owner, source))
    {histories : List MemberFeedHistory} (hsame : SameHistories (feedsOf members entries) histories) :
    PublishedIn communityId members published histories := by
  have hauthors : ∀ entry ∈ entries, entry.1 ∈ members := by
    intro entry hentry
    cases hall entry hentry with
    | inl hdeclared => exact hdeclared.1
    | inr hpublished =>
        obtain ⟨publication, hpublished, howner, -⟩ := hpublished
        exact howner ▸ (hprotocol.owners publication hpublished).1
  -- a feed of the histories holds exactly its owner's entries
  have hfeed : ∀ owner ∈ members, ∀ source,
      InFeedOf histories owner source ↔ (owner, source) ∈ entries := by
    intro owner howner source
    rw [InFeedOf, ← hsame.records owner.feedPublicKey source]
    constructor
    · intro ⟨history, hhistory, hkey, hsource⟩
      obtain ⟨other, -, rfl⟩ := List.mem_map.mp hhistory
      obtain ⟨⟨author, record⟩, hentry, rfl⟩ := List.mem_map.mp hsource
      obtain ⟨hmem, hauthor⟩ := List.mem_filter.mp hentry
      have hsameFeed : author.feedPublicKey = owner.feedPublicKey :=
        (of_decide_eq_true hauthor).trans hkey
      rwa [hprotocol.feeds author (hauthors _ hmem) owner howner hsameFeed] at hmem
    · intro hmem
      refine ⟨_, List.mem_map_of_mem howner, rfl, List.mem_map.mpr ⟨(owner, source), ?_, rfl⟩⟩
      exact List.mem_filter.mpr ⟨hmem, decide_eq_true rfl⟩
  exact
    { feeds := fun history hhistory ↦ by
        obtain ⟨source, hsource, hkey⟩ := (hsame.feeds _).mpr ⟨history, hhistory, rfl⟩
        obtain ⟨owner, howner, rfl⟩ := List.mem_map.mp hsource
        exact ⟨owner, howner, hkey.symm⟩
      sources := fun owner howner source hin ↦ by
        cases hall _ ((hfeed owner howner source).mp hin) with
        | inl hdeclares => exact .inl hdeclares.2
        | inr hpublished => exact .inr hpublished
      declares := fun owner howner ↦ by
        obtain ⟨source, hmem, hdeclares⟩ := hdeclares owner howner
        exact ⟨source, (hfeed owner howner source).mpr hmem, hdeclares⟩
      publishes := fun publication hpublished ↦ by
        obtain ⟨source, hmem, hpublishes⟩ := hpublishes publication hpublished
        exact ⟨source, (hfeed _ (hprotocol.owners publication hpublished).1 source).mpr hmem,
          hpublishes⟩ }

/-- Publications that can be made are published in some feeds of the members. -/
theorem exists_publishedIn {communityId : String} {members : List (FeedOwner crypto)}
    {publications : List (Publication crypto)}
    (hprotocol : Protocol communityId members (· ∈ publications))
    (hpublishable : ∀ publication ∈ publications,
      ∃ source, publication.PublishedAs (publication.owner, source)) :
    ∃ histories, PublishedIn communityId members (· ∈ publications) histories := by
  obtain ⟨declarations, hdeclarations⟩ := succeeds_mapM.mpr fun owner (_ : owner ∈ members) ↦
    have ⟨source, _, _, hdeclares, _⟩ := declareFeed_spec hprotocol.present owner
    ⟨(owner, source), hdeclares⟩
  have hdeclared := mem_of_mapM hdeclarations
  have : Nonempty JsonValue := ⟨.null⟩
  choose! sourceOf hsourceOf using hpublishable
  let entries := declarations ++ publications.map fun publication ↦
    (publication.owner, sourceOf publication)
  refine ⟨feedsOf members entries, @publishedIn_feedsOf _ _ _ _ hprotocol entries ?_ ?_ ?_ _
    ⟨fun _ ↦ Iff.rfl, fun _ _ ↦ Iff.rfl⟩⟩
  · intro entry hentry
    cases List.mem_append.mp hentry with
    | inl hmem =>
        obtain ⟨owner, howner, hdeclares⟩ := (hdeclared entry).mp hmem
        obtain ⟨source, -, -, hdeclaresOwner, -⟩ := declareFeed_spec hprotocol.present owner
        obtain rfl := Except.ok.inj (hdeclaresOwner.symm.trans hdeclares)
        exact .inl ⟨howner, hdeclares⟩
    | inr hmem =>
        obtain ⟨publication, hpublication, rfl⟩ := List.mem_map.mp hmem
        exact .inr ⟨publication, hpublication, hsourceOf publication hpublication⟩
  · intro owner howner
    obtain ⟨source, -, -, hdeclares, -⟩ := declareFeed_spec hprotocol.present owner
    exact ⟨source, List.mem_append_left _ ((hdeclared _).mpr ⟨owner, howner, hdeclares⟩), hdeclares⟩
  · intro publication hpublication
    exact ⟨_, List.mem_append_right _ (List.mem_map_of_mem hpublication),
      hsourceOf publication hpublication⟩

/-- The feeds of a community, in any order and with any repetitions, hold what it publishes. -/
theorem publishedIn_of_memberFeeds {localeCompare : String → String → Ordering}
    (community : Community crypto) :
    ∃ built, memberFeeds localeCompare community = .ok built ∧
      ∀ histories, SameHistories built histories →
        PublishedIn community.communityId community.members community.Published histories := by
  obtain ⟨entries, hentries, hall, hdeclares, hpublishes⟩ :=
    communityRecords_spec localeCompare community
  exact ⟨_, by rw [memberFeeds, hentries, ok_bind]; rfl, fun _ ↦
    publishedIn_feedsOf community.protocol hall hdeclares hpublishes⟩

/-! ## Settlement -/

section Resolved

variable {localeCompare : String → String → Ordering} {community : Community crypto}
  {histories : List MemberFeedHistory}

/-- The histories of a community hold the values of its exchanges. -/
theorem Community.holds_exchange (h : PublishedIn community.communityId community.members
      community.Published histories) {exchange : Exchange crypto}
    (hexchange : exchange ∈ community.exchanges) {α : Type} {kind : RecordKind α}
    {make : α → DomainValue} (hmake : CarriesAs kind make)
    (hkind : kind.kind ∈ memberAuthoredDomainRecordKinds) {value : α} {owner : FeedOwner crypto}
    {occurredAt : TimebankIdentity.CanonicalTimestamp}
    (hvalue : ⟨owner, make value, occurredAt⟩ ∈ exchange.publications) :
    kind.Holds (histories.flatMap (·.records)) community.communityId value :=
  (h.holds_iff community.protocol hmake hkind).mpr
    ⟨_, .inr ⟨exchange, hexchange, hvalue⟩, rfl⟩

/-- Both participants of an exchange acknowledged it. -/
theorem Community.dualHeld (h : PublishedIn community.communityId community.members
      community.Published histories) {exchange : Exchange crypto}
    (hexchange : exchange ∈ community.exchanges) :
    DualHeld (histories.flatMap (·.records)) community.communityId exchange.accepted := by
  have hagrees := exchange.accepted_agrees
  rw [DualHeld, hagrees.provider, hagrees.receiver]
  have hprovider : (⟨exchange.offer.owner, .acknowledgement (acknowledgementOf exchange.accepted
      exchange.offer.owner.memberId), exchange.providerAcknowledgedAt⟩ : Publication crypto) ∈
      exchange.publications := by simp [Exchange.publications]
  have hreceiver : (⟨exchange.request.owner, .acknowledgement (acknowledgementOf exchange.accepted
      exchange.request.owner.memberId), exchange.receiverAcknowledgedAt⟩ : Publication crypto) ∈
      exchange.publications := by simp [Exchange.publications]
  exact ⟨Community.holds_exchange h hexchange carriesAs_acknowledgement (by decide) hprovider,
    Community.holds_exchange h hexchange carriesAs_acknowledgement (by decide) hreceiver⟩

theorem Community.accepted_held (h : PublishedIn community.communityId community.members
      community.Published histories) {exchange : Exchange crypto}
    (hexchange : exchange ∈ community.exchanges) :
    acceptedExchangeProposalRecords.Holds (histories.flatMap (·.records)) community.communityId
      exchange.accepted := by
  have hmem : (⟨exchange.acceptor, .acceptedProposal exchange.accepted, exchange.acceptedAt⟩ :
      Publication crypto) ∈ exchange.publications := by simp [Exchange.publications]
  exact Community.holds_exchange h hexchange carriesAs_acceptedProposal (by decide) hmem

theorem Community.settlement_held (h : PublishedIn community.communityId community.members
      community.Published histories) {exchange : Exchange crypto}
    (hexchange : exchange ∈ community.exchanges) :
    ledgerTransferRecords.Holds (histories.flatMap (·.records)) community.communityId
      exchange.settlement := by
  have hmem : (⟨exchange.settler, .transfer exchange.settlement, exchange.settledAt⟩ :
      Publication crypto) ∈ exchange.publications := by simp [Exchange.publications]
  exact Community.holds_exchange h hexchange carriesAs_transfer (by decide) hmem

/-- The transfers of a community are the settlements of its exchanges. -/
theorem Community.transfer_held_iff (h : PublishedIn community.communityId community.members
      community.Published histories) {transfer : Transfer} :
    ledgerTransferRecords.Holds (histories.flatMap (·.records)) community.communityId transfer ↔
      ∃ exchange ∈ community.exchanges, transfer = exchange.settlement := by
  constructor
  · intro hheld
    obtain ⟨publication, hpublished, hvalue⟩ :=
      (h.holds_iff community.protocol carriesAs_transfer (by decide)).mp hheld
    rcases hpublished with ⟨listing, -, rfl⟩ | ⟨exchange, hexchange, hpublication⟩
    · cases hvalue
    · refine ⟨exchange, hexchange, ?_⟩
      simp only [Exchange.publications, List.mem_cons, List.not_mem_nil, or_false] at hpublication
      rcases hpublication with rfl | rfl | rfl | rfl | rfl | rfl | rfl <;> cases hvalue
      rfl
  · rintro ⟨exchange, hexchange, rfl⟩
    exact Community.settlement_held h hexchange

/-- A pending proposal with the id of an exchange is that of the exchange. -/
theorem Community.proposal_held (h : PublishedIn community.communityId community.members
      community.Published histories) {exchange : Exchange crypto}
    (hexchange : exchange ∈ community.exchanges) {proposal : ExchangeProposal}
    (hheld : proposedExchangeProposalRecords.Holds (histories.flatMap (·.records))
      community.communityId proposal) (hid : proposal.id = exchange.id) :
    proposal = exchange.proposal := by
  obtain ⟨publication, hpublished, hvalue⟩ :=
    (h.holds_iff community.protocol carriesAs_proposedProposal (by decide)).mp hheld
  rcases hpublished with ⟨listing, -, rfl⟩ | ⟨other, hother, hpublication⟩
  · cases hvalue
  · have hproposal : proposal = other.proposal := by
      simp only [Exchange.publications, List.mem_cons, List.not_mem_nil, or_false] at hpublication
      rcases hpublication with rfl | rfl | rfl | rfl | rfl | rfl | rfl <;> cases hvalue
      rfl
    rw [hproposal, other.proposal_spec.1.id] at hid
    rw [hproposal, community.proposalIds other hother exchange hexchange hid]

/-- The feeds of a community resolve. -/
theorem Community.resolves (h : PublishedIn community.communityId community.members
      community.Published histories) :
    Succeeds (resolveTimebankMemberFeeds crypto localeCompare community.communityId histories) := by
  refine h.resolves community.protocol fun authorizations hroots publication hpublished ↦ ?_
  rcases hpublished with ⟨listing, -, rfl⟩ | ⟨exchange, hexchange, hpublication⟩
  · trivial
  · obtain ⟨hcommunity, hprovider, hreceiver⟩ := community.exchange_community hexchange
    exact exchange.linked (exchange.accepted_agrees.community.trans hcommunity)
      (Community.accepted_held h hexchange) (Community.dualHeld h hexchange)
      (fun _ hheld hid ↦ Community.proposal_held h hexchange hheld hid) (hroots _ hprovider)
      (hroots _ hreceiver) publication hpublication

/-- Each participant of an exchange attested its settlement. -/
theorem Community.attested (h : PublishedIn community.communityId community.members
      community.Published histories) {exchange : Exchange crypto}
    (hexchange : exchange ∈ community.exchanges) {memberId : String}
    (hmember : Participates exchange.accepted memberId) :
    ∃ container, settlementTransferAttestationRecords.Holds (histories.flatMap (·.records))
        community.communityId container ∧ container.sourceProposalId = exchange.accepted.id ∧
      container.attestation.memberId = memberId := by
  have hagrees := exchange.accepted_agrees
  have hheld : ∀ owner occurredAt, (⟨owner, .attestation (attestationContainer exchange.accepted
      (attestationBy owner exchange.accepted)), occurredAt⟩ : Publication crypto) ∈
        exchange.publications → settlementTransferAttestationRecords.Holds
          (histories.flatMap (·.records)) community.communityId
          (attestationContainer exchange.accepted (attestationBy owner exchange.accepted)) :=
    fun _ _ hmem ↦ Community.holds_exchange h hexchange carriesAs_attestation (by decide) hmem
  cases hmember with
  | inl hprovider =>
      exact ⟨_, hheld exchange.offer.owner exchange.providerAttestedAt
        (by simp [Exchange.publications]), rfl, (hprovider.trans hagrees.provider).symm⟩
  | inr hreceiver =>
      exact ⟨_, hheld exchange.request.owner exchange.receiverAttestedAt
        (by simp [Exchange.publications]), rfl, (hreceiver.trans hagrees.receiver).symm⟩

end Resolved

/-- Histories with a community's publications resolve to a state in which its exchanges are settled. -/
theorem Community.settles (localeCompare : String → String → Ordering) (community : Community crypto)
    {histories : List MemberFeedHistory}
    (h : PublishedIn community.communityId community.members community.Published histories) :
    ∃ state, resolveTimebankMemberFeeds crypto localeCompare community.communityId histories =
        .ok state ∧
      ∀ exchange ∈ community.exchanges,
        (∃ confirmation ∈ state.settlementConfirmations,
          confirmation.proposalId = exchange.id ∧ confirmation.status = .dualConfirmed) ∧
        (∃ attestation ∈ state.settlementAttestations,
          attestation.proposalId = exchange.id ∧ attestation.status = .dualAttested) ∧
        (exchange.settlement ∈ state.ledger.transfers ∨
          ⟨exchange.settlement, .minimumBalance⟩ ∈ state.ledger.rejectedTransfers) := by
  obtain ⟨state, hstate⟩ := @Community.resolves _ localeCompare community histories h
  refine ⟨state, hstate, fun exchange hexchange ↦ ?_⟩
  obtain ⟨-, -, -, hrecords⟩ := resolveTimebankMemberFeeds_eq_ok.mp hstate
  obtain ⟨-, -, hresolved⟩ := resolved_of_eq_ok hrecords
  have haccepted := (hresolved.accepted.mem _).mpr (Community.accepted_held h hexchange)
  have hid := exchange.accepted_agrees.id
  have hdual := Community.dualHeld h hexchange
  refine ⟨?_, ?_, ?_⟩
  · obtain ⟨confirmation, hconfirmation, hproposal, hstatus⟩ := hresolved.confirmed _ haccepted
    exact ⟨confirmation, hconfirmation, hproposal.trans hid, hstatus.mpr hdual⟩
  · obtain ⟨attestation, hattestation, hproposal, hstatus⟩ := hresolved.attested _ haccepted
    exact ⟨attestation, hattestation, hproposal.trans hid, hstatus.mpr ⟨hdual,
      fun _ hmember ↦ Community.attested h hexchange hmember⟩⟩
  · have htransfer := (hresolved.transfers.mem _).mpr (Community.settlement_held h hexchange)
    exact hresolved.accepted_or_rejected htransfer rfl

/-- Honest exchanges always settle: the feeds of a community, in any order and with any repetitions,
resolve to a state in which every exchange is confirmed and attested by both participants, and its
settlement is in the ledger or rejected there for the credit limit. -/
theorem honest_exchanges_settle (localeCompare : String → String → Ordering)
    (community : Community crypto) :
    ∃ built, memberFeeds localeCompare community = .ok built ∧
      ∀ histories, SameHistories built histories →
        ∃ state, resolveTimebankMemberFeeds crypto localeCompare community.communityId histories =
            .ok state ∧
          ∀ exchange ∈ community.exchanges,
            (∃ confirmation ∈ state.settlementConfirmations,
              confirmation.proposalId = exchange.id ∧ confirmation.status = .dualConfirmed) ∧
            (∃ attestation ∈ state.settlementAttestations,
              attestation.proposalId = exchange.id ∧ attestation.status = .dualAttested) ∧
            (exchange.settlement ∈ state.ledger.transfers ∨
              ⟨exchange.settlement, .minimumBalance⟩ ∈ state.ledger.rejectedTransfers) := by
  obtain ⟨built, hbuilt, hpublished⟩ := @publishedIn_of_memberFeeds _ localeCompare community
  exact ⟨built, hbuilt, fun histories hsame ↦ community.settles localeCompare (hpublished histories hsame)⟩

end PeerHours.Exchanges
