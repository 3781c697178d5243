import PeerHours.Exchanges.Settlement

/-!
# Reversing an exchange

Both participants of a settled exchange attest a transfer that returns its minutes. The terms of a
reversal may name any source proposal, and nothing compares it with that of the reversed settlement.
-/

namespace PeerHours.Exchanges

open Checked Json
open Desktop
open TimebankIdentity (MemberSigningKeyAuthorization Attests canonicalTerms)
open TimebankLedger (Reverses Transfer TransferAttestation TransferTerms)
open TimebankRecords
open TimebankSettlement

variable {crypto : Crypto}

/-- The attestation that an owner makes of transfer terms with its root key. -/
def attestationOver (owner : FeedOwner crypto) (terms : TransferTerms) : TransferAttestation :=
  { memberId := owner.memberId
    keyId := rootKeyIdForMember owner.memberId
    payloadDigest := Base64Url.encode (crypto.sha256 (jsonBytes (canonicalTerms terms)))
    signature := owner.stored.sign (jsonBytes (canonicalTerms terms))
    rest := [] }

theorem attestationOver_valid (owner : FeedOwner crypto) (terms : TransferTerms) :
    (attestationOver owner terms).Valid where
  memberId := blank_selfOwnedMemberId _
  keyId := by
    show Text.blank (rootKeyIdForMember owner.memberId) = false
    rw [rootKeyIdForMember, Text.blank_append]
    rfl
  payloadDigest := blank_encode_of_ne_nil (crypto.encode_sha256_ne_nil _)
  signature := blank_of_signedBy (owner.stored.complete _)
  rest := by simp [attestationOver]

/-- The attestation verifies under the owner's root key. -/
theorem attestationOver_attests {owner : FeedOwner crypto} {terms : TransferTerms}
    {authorizations : List (MemberSigningKeyAuthorization crypto)}
    (hroot : RootAuthorized owner.stored terms.communityId authorizations) :
    Attests authorizations terms (attestationOver owner terms) :=
  ⟨rfl, hroot.verifies _⟩

/-- The terms of the reversal of an exchange's settlement. -/
def Exchange.reversalTerms (exchange : Exchange crypto) (sourceProposalId : Option String) :
    TransferTerms :=
  { id := exchange.id ++ "-reversal"
    communityId := exchange.accepted.communityId
    sourceProposalId := sourceProposalId.map .str
    providerMemberId := exchange.request.owner.memberId
    recipientMemberId := exchange.offer.owner.memberId
    minutes := exchange.accepted.minutes
    reversesTransferId := some exchange.settlement.id }

/-- The reversal that both participants attest. -/
def Exchange.reversal (exchange : Exchange crypto) (sourceProposalId : Option String) : Transfer :=
  let terms := exchange.reversalTerms sourceProposalId
  { terms with
    attestations := [attestationOver exchange.request.owner terms,
      attestationOver exchange.offer.owner terms] }

theorem Exchange.reverses (exchange : Exchange crypto) (sourceProposalId : Option String) :
    Reverses (exchange.reversal sourceProposalId) exchange.settlement :=
  ⟨rfl, exchange.accepted_agrees.receiver.symm, exchange.accepted_agrees.provider.symm, rfl⟩

theorem Exchange.reversal_textual (exchange : Exchange crypto) (hid : Text.blank exchange.id = false)
    (sourceProposalId : Option String) : TextualTransfer (exchange.reversal sourceProposalId) where
  valid :=
    { id := by
        show Text.blank (exchange.id ++ "-reversal") = false
        rw [Text.blank_append, hid]
        rfl
      communityId := (exchange.settleable hid).communityId
      providerMemberId := blank_selfOwnedMemberId _
      recipientMemberId := blank_selfOwnedMemberId _
      positive := (exchange.settleable hid).positive
      distinct := exchange.proposal_spec.2.2.2.2.1.symm
      reverses := fun reversed hreversed ↦ by
        obtain rfl := Option.some.inj hreversed
        refine ⟨(exchange.settlement_valid hid).id, fun hsame ↦ ?_⟩
        have hids : exchange.accepted.id ++ "/settlement" = exchange.id ++ "-reversal" := hsame
        rw [exchange.accepted_agrees.id, String.append_right_inj] at hids
        exact absurd hids (by decide)
      settles := nofun
      attested := ⟨_, _, rfl, attestationOver_valid _ _, attestationOver_valid _ _, rfl, rfl⟩ }
  source source hsource := by
    obtain ⟨text, -, rfl⟩ := Option.map_eq_some_iff.mp hsource
    exact ⟨text, rfl⟩
  plain := by
    show ∀ attestation ∈ [_, _], _
    simp [attestationOver]

/-- The publication of a reversal by the receiver of the reversed minutes. -/
def Exchange.reversalPublication (exchange : Exchange crypto) (sourceProposalId : Option String) :
    Publication crypto :=
  ⟨exchange.request.owner, .transfer (exchange.reversal sourceProposalId), exchange.settledAt⟩

theorem Exchange.reversal_publishable (exchange : Exchange crypto)
    (hid : Text.blank exchange.id = false) (sourceProposalId : Option String) :
    ∃ source, (exchange.reversalPublication sourceProposalId).PublishedAs
      (exchange.request.owner, source) := by
  obtain ⟨_, ⟨owner, source⟩, -, -, -, hpublished⟩ := @publish_spec _ _ _ _
    encodes_textualTransfer _ carriesAs_transfer _ (exchange.reversal_textual hid sourceProposalId)
    exchange.request.owner exchange.settledAt (fun _ ↦ rfl)
    (by simp [ledgerTransferRecords, reversal, reversalTerms])
  obtain rfl : owner = exchange.request.owner := hpublished.1
  exact ⟨source, hpublished⟩

/-- A reversal stands wherever the settlement that it reverses is held. -/
theorem Exchange.reversal_linked (exchange : Exchange crypto) (sourceProposalId : Option String)
    {records : List JsonValue} {communityId : String}
    {authorizations : List (MemberSigningKeyAuthorization crypto)}
    (hcommunity : exchange.accepted.communityId = communityId)
    (hheld : ledgerTransferRecords.Holds records communityId exchange.settlement)
    (hprovider : RootAuthorized exchange.offer.owner.stored communityId authorizations)
    (hreceiver : RootAuthorized exchange.request.owner.stored communityId authorizations) :
    (exchange.reversalPublication sourceProposalId).value.Linked records communityId
      authorizations := by
  subst hcommunity
  refine ⟨nofun, ?_, fun _ ↦ ⟨_, hheld, exchange.reverses sourceProposalId⟩⟩
  show ∀ attestation ∈ [_, _], _
  simp only [List.forall_mem_cons, List.not_mem_nil, false_implies, implies_true, and_true]
  exact ⟨attestationOver_attests hreceiver, attestationOver_attests hprovider⟩

/-- What an exchange publishes can be published. -/
theorem Exchange.publishable (exchange : Exchange crypto) (hid : Text.blank exchange.id = false) :
    ∀ publication ∈ exchange.publications,
      ∃ source, publication.PublishedAs (publication.owner, source) := by
  intro publication hpublication
  obtain ⟨entries, -, hentries⟩ := @exchangeRecords_spec _ compare exchange hid
  obtain ⟨⟨owner, source⟩, -, hpublished⟩ := exists_of_forall₂_left hentries hpublication
  obtain rfl : owner = publication.owner := hpublished.1
  exact ⟨source, hpublished⟩

theorem ListingPublication.publishable (listing : ListingPublication crypto) :
    ∃ source, listing.publication.PublishedAs (listing.owner, source) := by
  obtain ⟨⟨owner, source⟩, -, hpublished⟩ := publishListingRecord_spec listing
  obtain rfl : owner = listing.owner := hpublished.1
  exact ⟨source, hpublished⟩

end PeerHours.Exchanges
