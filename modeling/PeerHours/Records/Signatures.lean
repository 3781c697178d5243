import PeerHours.Records.Extension

/-!
# The signatures a resolution checks

Every condition of a coherent history that mentions authorizations asks one signature to verify. These
signatures are a function of the domain records alone, so a coherent history stays coherent under other
authorizations exactly when these are compatible and verify them all.
-/

namespace PeerHours.TimebankRecords

open Checked Json KeyedMap
open TimebankIdentity

variable {crypto : Crypto} {communityId : String}
  {authorizations : List (MemberSigningKeyAuthorization crypto)}

/-- The signatures that a resolution of these records checks: those of the domain records, of the
settlement attestations over the terms of their accepted proposal, and of the attestations that
transfers carry. -/
inductive ChecksSignature (records : List JsonValue) (communityId : String) :
    VerifyMemberSignatureInput → Prop
  | record {source : JsonValue} {record : MemberSignedRecord} (hsource : source ∈ records)
      (hdomain : IsDomainRecord communityId source)
      (hcreate : createMemberSignedRecord source = .ok record) :
      ChecksSignature records communityId (recordSignatureInput record)
  | settlement {proposal : TimebankDomain.ExchangeProposal}
      {container : TimebankSettlement.SettlementTransferAttestation}
      (hproposal : acceptedExchangeProposalRecords.Holds records communityId proposal)
      (hcontainer : settlementTransferAttestationRecords.Holds records communityId container)
      (hid : proposal.id = container.sourceProposalId) :
      ChecksSignature records communityId
        (attestationInput (TimebankSettlement.settlementTerms proposal) container.attestation)
  | transfer {transfer : TimebankLedger.Transfer} {attestation : TimebankLedger.TransferAttestation}
      (htransfer : ledgerTransferRecords.Holds records communityId transfer)
      (hattestation : attestation ∈ transfer.attestations) :
      ChecksSignature records communityId (attestationInput transfer.toTransferTerms attestation)

/-- Every signature that a coherent history checks verifies under its authorizations. -/
theorem Coherent.verifies {records : List JsonValue} (hrecords : Consistent records)
    (h : Coherent records communityId authorizations) {input : VerifyMemberSignatureInput}
    (hchecks : ChecksSignature records communityId input) : VerifiesUnder authorizations input := by
  cases hchecks with
  | record hsource hdomain hcreate =>
      obtain ⟨record, hsame, hverifies⟩ := h.signed _ hsource hdomain.1 hdomain.2
      obtain rfl := Except.ok.inj (hcreate.symm.trans hsame)
      exact hverifies
  | settlement hproposal hcontainer hid =>
      obtain ⟨proposal, haccepted, hproposalId, -, -, hverifies⟩ := h.verified _ hcontainer
      rwa [RecordKind.Holds.unique hrecords haccepted hproposal (hproposalId.trans hid.symm)]
        at hverifies
  | transfer htransfer hattestation =>
      exact (h.attested _ htransfer _ hattestation).2

/-- A coherent history stays coherent under other authorizations exactly when these are compatible
and verify every signature that is checked. -/
theorem Coherent.iff_verifies {records : List JsonValue} (hrecords : Consistent records)
    (h : Coherent records communityId authorizations)
    {other : List (MemberSigningKeyAuthorization crypto)} :
    Coherent records communityId other ↔ other.Pairwise Compatible ∧
      ∀ input, ChecksSignature records communityId input → VerifiesUnder other input := by
  constructor
  · intro hother
    exact ⟨hother.compatible, fun input hchecks ↦ hother.verifies hrecords hchecks⟩
  · rintro ⟨hcompatible, hverifies⟩
    exact
      { community := h.community
        compatible := hcompatible
        signed := by
          intro source hsource hfield hmember
          obtain ⟨record, hcreate, -⟩ := h.signed source hsource hfield hmember
          exact ⟨record, hcreate, hverifies _ (.record hsource ⟨hfield, hmember⟩ hcreate)⟩
        decodes := h.decodes
        closures := h.closures
        terms := h.terms
        acknowledged := h.acknowledged
        verified := by
          intro container hcontainer
          obtain ⟨proposal, hproposal, hid, hdual, hattestation, -⟩ := h.verified container hcontainer
          exact ⟨proposal, hproposal, hid, hdual, hattestation,
            hverifies _ (.settlement hproposal hcontainer hid)⟩
        settlements := h.settlements
        attested := by
          intro transfer htransfer attestation hattestation
          exact ⟨(h.attested transfer htransfer attestation hattestation).1,
            hverifies _ (.transfer htransfer hattestation)⟩
        reversals := h.reversals }

end PeerHours.TimebankRecords
