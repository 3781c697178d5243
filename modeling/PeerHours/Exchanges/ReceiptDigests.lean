import PeerHours.Exchanges.Growth
import PeerHours.Records.RoundTrips
import PeerHours.Runtime.ReceiptDigests

/-!
# Receipts of an exchange

What the members of a community publish is well formed, so a node and a desktop that hold their feeds resolve
well formed transfers and agree on their receipt digests.
-/

namespace PeerHours.Exchanges

open Checked Json Json.Plain PeerRuntime
open Desktop
open TimebankLedger (Transfer valid_of_createTransfer)
open TimebankRecords

variable {crypto : Crypto}

/-! ## Published records are well formed -/

/-- The object of a published value. -/
def valueToJson : DomainValue → JsonValue
  | .publishedListing value => publishedListingRecords.toJson value
  | .closedListing value => closedListingRecords.toJson value
  | .proposedProposal value => proposedExchangeProposalRecords.toJson value
  | .acceptedProposal value => acceptedExchangeProposalRecords.toJson value
  | .acknowledgement value => settlementAcknowledgementRecords.toJson value
  | .attestation value => settlementTransferAttestationRecords.toJson value
  | .transfer value => ledgerTransferRecords.toJson value

theorem payload_envelopeOf (metadata : CreateTimebankRecordMetadata) (value : DomainValue) :
    (envelopeOf metadata value).field "payload" = some (valueToJson value) := by
  cases value <;> rfl

/-- A record of a well formed value is well formed. -/
theorem wellFormed_publishedAs {publication : Publication crypto}
    {entry : FeedOwner crypto × JsonValue} (h : publication.PublishedAs entry)
    (hvalue : WellFormed (valueToJson publication.value)) : WellFormed entry.2 := by
  obtain ⟨-, record, hpublishes⟩ := h
  obtain ⟨payload, hpayload, hnormal⟩ := (createRecordEnvelope_eq_ok.mp hpublishes.encoded).payload
  rw [payload_envelopeOf, Option.some.injEq] at hpayload
  have hrecord : WellFormed record.payload := wellFormed_normalizeJson (hpayload ▸ hvalue) hnormal
  obtain ⟨signed, hsigned, hentry⟩ := bind_eq_ok.mp hpublishes.signed
  rw [← pure_eq_ok.mp hentry]
  refine wellFormed_memberSigned ?_
  rw [toRecordEnvelope_of_signed hsigned]
  exact hrecord

theorem wellFormed_declareFeed {communityId : String} {owner : FeedOwner crypto} {source : JsonValue}
    (h : declareFeed communityId owner = .ok (owner, source)) : WellFormed source := by
  obtain ⟨declaration, hdeclaration, h⟩ := bind_eq_ok.mp h
  obtain ⟨record, hrecord, h⟩ := bind_eq_ok.mp h
  obtain rfl := (Prod.mk.inj (pure_eq_ok.mp h)).2
  obtain ⟨normalized, hnormalized, hrecord⟩ := bind_eq_ok.mp hrecord
  have hgiven := (TimebankIdentity.createMemberFeedDeclaration_eq_ok.mp hdeclaration).properties
  have hkept := (TimebankIdentity.createMemberFeedDeclaration_eq_ok.mp hnormalized).properties
  obtain ⟨payload, hpayload, hnormal⟩ := (createRecordEnvelope_eq_ok.mp hrecord).payload
  obtain rfl : normalized.toJson = payload := Option.some.inj hpayload
  refine wellFormed_record (wellFormed_normalizeJson ?_ hnormal)
  rw [TimebankIdentity.MemberFeedDeclaration.toJson, ← hkept, TimebankIdentity.MemberFeedDeclaration.toJson,
    ← hgiven]
  exact ⟨.of_plainNames (by simp [plainNames, arrayIndex?, declarationInput, JsonValue.properties]),
    trivial, trivial, trivial, trivial, trivial, trivial, trivial, trivial⟩

theorem Exchange.wellFormed_publications (exchange : Exchange crypto) :
    ∀ publication ∈ exchange.publications, WellFormed (valueToJson publication.value) := by
  have hattestation (owner : FeedOwner crypto) :
      WellFormed (attestationBy owner exchange.accepted).toJson :=
    ⟨.of_plainNames (by simp [plainNames, arrayIndex?, attestationBy]), trivial, trivial, trivial, trivial,
      trivial⟩
  have hsettlement : WellFormed exchange.settlement.toJson := by
    refine wellFormed_transfer_iff.mpr ⟨?_, ?_⟩
    · intro source hsource
      obtain rfl := Option.some.inj hsource
      trivial
    · intro attestation hattested
      simp only [Exchange.settlement, List.mem_cons, List.not_mem_nil, or_false] at hattested
      rcases hattested with rfl | rfl
      · exact hattestation _
      · exact hattestation _
  intro publication hpublication
  simp only [Exchange.publications, List.mem_cons, List.not_mem_nil, or_false] at hpublication
  rcases hpublication with rfl | rfl | rfl | rfl | rfl | rfl | rfl
  · exact wellFormed_proposal _
  · exact wellFormed_proposal _
  · exact wellFormed_acknowledgement _
  · exact wellFormed_acknowledgement _
  · exact wellFormed_attestationContainer rfl
  · exact wellFormed_attestationContainer rfl
  · exact hsettlement

/-- Every record in the feeds of a community is well formed. -/
theorem Community.wellFormed {community : Community crypto} {histories : List MemberFeedHistory}
    (h : PublishedIn community.communityId community.members community.Published histories) :
    ∀ history ∈ histories, ∀ record ∈ history.records, WellFormed record := by
  intro history hhistory record hrecord
  obtain ⟨owner, howner, hfeed⟩ := h.feeds history hhistory
  rcases h.sources owner howner record ⟨history, hhistory, hfeed, hrecord⟩ with
    hdeclares | ⟨publication, hpublished, hentry⟩
  · exact wellFormed_declareFeed hdeclares
  · refine wellFormed_publishedAs hentry ?_
    rcases hpublished with ⟨listing, -, rfl⟩ | ⟨exchange, -, hexchange⟩
    · exact wellFormed_listing _
    · exact exchange.wellFormed_publications publication hexchange

/-! ## Agreement on digests -/

/-- Receipt digests bind the exact transfer: canonical texts are equal exactly for equal data, and where the
digest has no collision a node and a desktop compute the same digest exactly when their resolved transfers
have equal terms and attestations, whatever the order of properties on each side. -/
theorem receipt_digests_bind (left right : Plain) (hleft : left.OneOfEach)
    (hright : right.OneOfEach) :
    (canonicalText left = canonicalText right ↔ Same left right) ∧
    ∀ {communityId otherId : String} {retained shown : Transfer},
      NodeResolves crypto communityId retained → DesktopResolves crypto otherId shown →
      Same left (ofJson retained.toJson) → Same right (ofJson shown.toJson) →
      CollisionFreeData crypto left right →
      (receiptDigest crypto left = receiptDigest crypto right ↔ EqualTransfers retained shown) := by
  refine ⟨canonicalText_eq_iff hleft hright, fun {_ _ retained shown} hretained hshown hl hr hfree ↦ ?_⟩
  obtain ⟨payload, hpayload, hcreated⟩ := hretained.created
  obtain ⟨payload', hpayload', hcreated'⟩ := hshown.node.created
  calc receiptDigest crypto left = receiptDigest crypto right
      ↔ canonicalText left = canonicalText right := by
        refine ⟨fun h ↦ ?_, fun h ↦ by rw [receiptDigest, receiptDigest, h]⟩
        exact String.ofList_inj.mp (utf8_inj.mp (hfree (Hex.encode_inj.mp h)))
    _ ↔ left.orderedBy compare = right.orderedBy compare := by
        rw [canonicalText_eq_render, canonicalText_eq_render, Tree.render_inj]
    _ ↔ (ofJson retained.toJson).orderedBy compare = (ofJson shown.toJson).orderedBy compare := by
        rw [hretained.ordered_eq hleft hl, hshown.node.ordered_eq hright hr]
    _ ↔ SameJson retained.toJson shown.toJson :=
        orderedBy_eq_iff (oneOfEach_createTransfer hpayload hcreated)
          (oneOfEach_createTransfer hpayload' hcreated')
    _ ↔ EqualTransfers retained shown :=
        sameJson_transfer (valid_of_createTransfer hcreated) (valid_of_createTransfer hcreated')

namespace Garden

/-- A node and a desktop that hold the feeds of the garden both resolve Ada's hours with Ben. -/
theorem garden_retains : NodeResolves transparentCrypto "garden" adaExchange.settlement ∧
    DesktopResolves transparentCrypto "garden" adaExchange.settlement := by
  obtain ⟨histories, state, hpublished, hstate, hledger⟩ := garden_settles
  have hdesktop : DesktopResolves transparentCrypto "garden" adaExchange.settlement :=
    ⟨compare, histories, state, @Community.wellFormed _ (garden [adaExchange] (by simp)) _ hpublished, hstate,
      hledger ▸ List.mem_singleton_self _⟩
  exact ⟨hdesktop.node, hdesktop⟩

/-- The desktop may list the properties of Ada's hours with Ben backwards. -/
theorem receipt_digests_bind_garden :
    ∃ listed backwards : Plain, listed ≠ backwards ∧ canonicalText listed = canonicalText backwards ∧
      receiptDigest transparentCrypto listed = receiptDigest transparentCrypto backwards := by
  obtain ⟨hnode, hdesktop⟩ := garden_retains
  obtain ⟨payload, hpayload, hcreated⟩ := hnode.created
  have hsettlement := valid_of_createTransfer hcreated
  have hlisted := oneOfEach_createTransfer hpayload hcreated
  have hsame := (@orderedBy_eq_iff compare _ _ _ _ hlisted hlisted).mp rfl
  have hperm := List.reverse_perm (ofFields (adaExchange.settlement.properties ++
    [("attestations", .arr (adaExchange.settlement.attestations.map
      TimebankLedger.TransferAttestation.toJson))]))
  obtain ⟨hbackwards, hreversed⟩ := same_of_perm hperm.symm hlisted
  have hagain := same_of_perm hperm hbackwards
  obtain ⟨htext, hdigest⟩ :=
    @receipt_digests_bind transparentCrypto _ _ hlisted hbackwards
  have htexts := htext.mpr hreversed
  refine ⟨_, _, fun h ↦ ?_, htexts, (hdigest hnode hdesktop hsame hagain.2 (fun _ ↦ by rw [htexts])).mpr
    ((sameJson_transfer hsettlement hsettlement).mp hsame)⟩
  have hnames := congrArg (List.map Prod.fst) (Plain.obj.inj h)
  rw [List.map_reverse, map_fst_ofFields] at hnames
  exact absurd hnames (by decide +kernel)

end Garden

end PeerHours.Exchanges
