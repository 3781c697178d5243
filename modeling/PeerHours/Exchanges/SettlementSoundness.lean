import PeerHours.Exchanges.Growth
import PeerHours.Identity.SharedKeys
import PeerHours.Records.Impersonation

/-!
# What stands behind a settled transfer

A transfer of the resolved ledger rests on records of several feeds: its own, the acceptance of its proposal
and the acknowledgements of both participants. Each of them came through a feed that its author's root
declared, and each attestation verifies under a key of the member it names.
-/

namespace PeerHours.Exchanges

open Checked Json
open TimebankDomain (ExchangeProposal)
open TimebankIdentity
open TimebankLedger (Reverses Transfer)
open TimebankRecords
open TimebankSettlement

variable {crypto : Crypto} {localeCompare : String → String → Ordering} {communityId : String}
  {histories : List MemberFeedHistory} {state : ResolvedTimebankState crypto}

/-! ## Delivery -/

/-- The value came in a record of its author, through a feed that the author's root declared. -/
def Delivered {α : Type} (crypto : Crypto) (communityId : String) (histories : List MemberFeedHistory)
    (kind : RecordKind α) (value : α) (authorId : String) : Prop :=
  ∃ history ∈ histories, ∃ source ∈ history.records, ∃ record,
    createRecordEnvelope source = .ok record ∧ kind.Carries record value ∧ record.authorId = authorId ∧
      DeclaresFeed crypto communityId histories history.feedPublicKey.toLower authorId

/-- What the histories hold of a kind with provenance was delivered by an author that the kind allows. -/
theorem delivered_of_holds {α : Type} {kind : RecordKind α}
    (hprovenance : Provenance crypto communityId histories)
    (hkind : kind.kind ∈ memberAuthoredRecordKinds) {value : α}
    (h : kind.Holds (histories.flatMap (·.records)) communityId value) :
    ∃ authorId, kind.mayAuthor value authorId = true ∧
      Delivered crypto communityId histories kind value authorId := by
  obtain ⟨hcommunity, record, ⟨source, hsource, hcreate⟩, hcarries⟩ := h
  obtain ⟨history, hhistory, hsource⟩ := List.mem_flatMap.mp hsource
  have hfields := createRecordEnvelope_eq_ok.mp hcreate
  have hcommunityField : source.field "communityId" = some (.str communityId) := by
    rw [hfields.communityId, hcarries.communityId, hcommunity]
  have hkindField : source.field "kind" = some (.str kind.kind) := by
    rw [hfields.kind, hcarries.kindName]
  obtain ⟨authorId, hauthor, hdeclares⟩ :=
    hprovenance history hhistory source hsource hcommunityField ⟨kind.kind, hkind, hkindField⟩
  have hsame : record.authorId = authorId := by
    rw [hfields.authorId, Option.some.injEq, JsonValue.str.injEq] at hauthor
    exact hauthor
  refine ⟨authorId, hsame ▸ hcarries.author, history, hhistory, source, hsource, record, hcreate,
    hcarries, hsame, hdeclares⟩

/-! ## Attestations -/

/-- The authorizations of a history are for its community. -/
theorem communityId_of_authorizationsOf {records : List JsonValue}
    {authorizations : List (MemberSigningKeyAuthorization crypto)}
    (h : authorizationsOf crypto localeCompare communityId records = .ok authorizations)
    {authorization : MemberSigningKeyAuthorization crypto} (hmem : authorization ∈ authorizations) :
    authorization.communityId = communityId := by
  obtain ⟨normalized, hnormalized, hresolve⟩ := bind_eq_ok.mp h
  obtain ⟨legacy, declared, rootSigned, rfl, -, hparts⟩ :=
    parts_of_resolveAuthorizations (reduced_of_reduceRecordEnvelopes hnormalized) hresolve
  rcases List.mem_append.mp hmem with hmem | hrootSigned
  · cases List.mem_append.mp hmem with
    | inl hlegacy =>
        obtain ⟨event, hevent, hactivates, -⟩ := hparts.fromLegacy _ hlegacy
        exact hactivates.2.1.symm.trans hevent.1
    | inr hdeclared =>
        obtain ⟨declaration, hheld, rfl⟩ := (hparts.fromDeclared _).mp hdeclared
        exact hheld.1
  · obtain ⟨statement, hheld, hactivates, -⟩ := hparts.fromRootSigned _ hrootSigned
    exact hactivates.2.1.symm.trans hheld.1

/-- A signature for a member and a key id without U+0000 verifies under an active authorization of exactly
that member and key id. -/
theorem verifiesByKey_of_verifiesUnder {records : List JsonValue}
    {authorizations : List (MemberSigningKeyAuthorization crypto)}
    (h : authorizationsOf crypto localeCompare communityId records = .ok authorizations)
    {input : VerifyMemberSignatureInput} (hcommunity : input.communityId = communityId)
    (hmember : '\x00' ∉ input.memberId.toList) (hkey : '\x00' ∉ input.keyId.toList)
    (hverifies : VerifiesUnder authorizations input) : VerifiesByKey authorizations input := by
  obtain ⟨publicKey, hfound, hsigned⟩ := hverifies
  obtain ⟨authorization, hmem, hactive, hindex, rfl⟩ := mem_of_activeKey? hfound
  have hauthorized := communityId_of_authorizationsOf h hmem
  rw [MemberSigningKeyAuthorization.indexKey, hauthorized, hcommunity] at hindex
  cases keyFor_cases hmember hindex with
  | inl hsame =>
      exact ⟨authorization, hmem, hactive, hauthorized.trans hcommunity.symm, hsame.1, hsame.2, hsigned⟩
  | inr hbeyond =>
      obtain ⟨rest, -, hlong⟩ := hbeyond
      rw [hlong] at hkey
      simp at hkey

/-! ## Settled transfers -/

/-- A proposal's acceptance and both its acknowledgements were delivered by the members who made them. -/
structure AgreedOn (crypto : Crypto) (communityId : String) (histories : List MemberFeedHistory)
    (proposal : ExchangeProposal) : Prop where
  accepted : ∃ acceptor, proposal.acceptedByMemberId = some acceptor ∧ Participates proposal acceptor ∧
    acceptor ≠ proposal.creatorMemberId ∧
    Delivered crypto communityId histories acceptedExchangeProposalRecords proposal acceptor
  acknowledged : ∀ memberId, Participates proposal memberId →
    Delivered crypto communityId histories settlementAcknowledgementRecords
      (acknowledgementOf proposal memberId) memberId

/-- What stands behind a transfer of the ledger. -/
structure Sound (communityId : String) (histories : List MemberFeedHistory)
    (state : ResolvedTimebankState crypto) (transfer : Transfer) : Prop where
  participants : transfer.providerMemberId ≠ transfer.recipientMemberId ∧
    transfer.attestations.map (·.memberId) = [transfer.providerMemberId, transfer.recipientMemberId]
  attested : ∀ attestation ∈ transfer.attestations,
    Attests state.authorizations transfer.toTransferTerms attestation ∧
      ('\x00' ∉ attestation.memberId.toList → '\x00' ∉ attestation.keyId.toList →
        VerifiesByKey state.authorizations (attestationInput transfer.toTransferTerms attestation))
  delivered : ∃ authorId ∈ [transfer.providerMemberId, transfer.recipientMemberId],
    Delivered crypto communityId histories ledgerTransferRecords transfer authorId
  settles : transfer.reversesTransferId = none → ∃ proposal ∈ state.acceptedProposals,
    transfer.toTransferTerms = settlementTerms proposal ∧
      AgreedOn crypto communityId histories proposal
  once : ∀ other ∈ state.ledger.transfers, transfer.reversesTransferId = none →
    other.reversesTransferId = none → other.sourceProposalId = transfer.sourceProposalId →
    other = transfer
  reverses : transfer.reversesTransferId ≠ none → ∃ original ∈ state.ledger.transfers,
    Reverses transfer original

/-- The acceptance of an accepted proposal was delivered by its acceptor. -/
theorem acceptance_delivered (hprovenance : Provenance crypto communityId histories)
    {proposal : ExchangeProposal}
    (hheld : acceptedExchangeProposalRecords.Holds (histories.flatMap (·.records)) communityId proposal) :
    ∃ acceptor, proposal.acceptedByMemberId = some acceptor ∧ Participates proposal acceptor ∧
      acceptor ≠ proposal.creatorMemberId ∧
      Delivered crypto communityId histories acceptedExchangeProposalRecords proposal acceptor := by
  have hvalid := hheld.valid lawful_acceptedExchangeProposal
  obtain ⟨acceptor, hauthor, hdelivered⟩ := delivered_of_holds hprovenance (by decide) hheld
  have haccepted : some acceptor = proposal.acceptedByMemberId := of_decide_eq_true hauthor
  have hacceptor : acceptor = acceptorOf proposal := by
    rw [hvalid.acceptedBy] at haccepted
    exact Option.some.inj haccepted
  refine ⟨acceptor, haccepted.symm, hacceptor ▸ acceptorOf_eq proposal, ?_, hdelivered⟩
  rw [hacceptor, acceptorOf, TimebankDomain.otherParticipant]
  split
  · rename_i hcreator
    rw [hcreator]
    exact hvalid.distinct.symm
  · rename_i hcreator
    exact fun hsame ↦ hcreator hsame.symm

/-- An acknowledgement that the histories hold was delivered by the member who acknowledges. -/
theorem acknowledgement_delivered (hprovenance : Provenance crypto communityId histories)
    {acknowledgement : SettlementAcknowledgement}
    (hheld : settlementAcknowledgementRecords.Holds (histories.flatMap (·.records)) communityId
      acknowledgement) :
    Delivered crypto communityId histories settlementAcknowledgementRecords acknowledgement
      acknowledgement.acknowledgedByMemberId := by
  obtain ⟨authorId, hauthor, hdelivered⟩ := delivered_of_holds hprovenance (by decide) hheld
  obtain rfl : authorId = acknowledgement.acknowledgedByMemberId := of_decide_eq_true hauthor
  exact hdelivered

/-- An accepted reversal reverses an accepted transfer. -/
theorem original_accepted {records : List JsonValue} (hrecords : Consistent records)
    (hcoherent : Coherent records communityId state.authorizations)
    (hresolved : Resolved localeCompare records communityId state) {reversal : Transfer}
    (hreversal : reversal ∈ state.ledger.transfers) (hreverses : reversal.reversesTransferId ≠ none) :
    ∃ original ∈ state.ledger.transfers, Reverses reversal original := by
  have hheld := hresolved.ledger_held hreversal
  obtain ⟨original, horiginal, hreversed⟩ := hcoherent.reversals reversal hheld hreverses
  refine ⟨original, ?_, hreversed⟩
  rw [hresolved.ledger, TimebankLedger.mem_ledgerOf_iff_grounded] at hreversal ⊢
  obtain ⟨settlement, htraces, hsettled⟩ := hreversal
  cases htraces with
  | settlement _ hordinary => exact absurd hordinary hreverses
  | @reversal _ traced _ _ hid htraced =>
      -- the traced transfer and the original have one id
      have htracedHeld : ledgerTransferRecords.Holds records communityId traced :=
        (hresolved.transfers.mem traced).mp (Sorting.mem_sortBy.mp htraced.held)
      have hsame : traced.id = original.id := Option.some.inj (hid.symm.trans hreversed.1)
      obtain rfl := RecordKind.Holds.unique hrecords htracedHeld horiginal hsame
      exact ⟨settlement, htraced, hsettled⟩

/-- Every transfer of a resolved ledger is attested by its two participants, each with a key of its own;
an ordinary one carries out a proposal on which both agreed through their own feeds, once, and a reversal
returns an accepted transfer. -/
theorem settlement_sound
    (h : resolveTimebankMemberFeeds crypto localeCompare communityId histories = .ok state)
    {transfer : Transfer} (htransfer : transfer ∈ state.ledger.transfers) :
    Sound communityId histories state transfer := by
  obtain ⟨-, -, hprovenance, hresolve⟩ := resolveTimebankMemberFeeds_eq_ok.mp h
  obtain ⟨hrecords, hcoherent, hresolved⟩ := resolved_of_eq_ok hresolve
  have hheld := hresolved.ledger_held htransfer
  have hvalid := hheld.valid lawful_ledgerTransfer
  refine
    { participants := ⟨hvalid.distinct, ?_⟩
      attested := fun attestation hattestation ↦ ?_
      delivered := ?_
      settles := fun hordinary ↦ ?_
      once := fun other hother hordinary hotherOrdinary hsame ↦ ?_
      reverses := original_accepted hrecords hcoherent hresolved htransfer }
  · obtain ⟨provider, recipient, hattestations, -, -, hprovider, hrecipient⟩ := hvalid.attested
    rw [hattestations, List.map_cons, List.map_cons, hprovider, hrecipient]
    rfl
  · have hattests := hcoherent.attested transfer hheld attestation hattestation
    exact ⟨hattests, fun hmember hkey ↦
      verifiesByKey_of_verifiesUnder hresolved.authorizations hheld.1 hmember hkey hattests.2⟩
  · obtain ⟨authorId, hauthor, hdelivered⟩ := delivered_of_holds hprovenance (by decide) hheld
    refine ⟨authorId, ?_, hdelivered⟩
    have hparticipant := (Bool.or_eq_true _ _).mp hauthor
    simpa using hparticipant
  · obtain ⟨proposal, hproposal, hdual, hterms⟩ := hcoherent.settlements transfer hheld hordinary
    refine ⟨proposal, (hresolved.accepted.mem proposal).mpr hproposal, hterms,
      acceptance_delivered hprovenance hproposal, ?_⟩
    rintro memberId (rfl | rfl)
    · exact acknowledgement_delivered hprovenance hdual.1
    · exact acknowledgement_delivered hprovenance hdual.2
  · exact (hcoherent.ledgerRules hrecords).settlesOnce other transfer (hresolved.ledger_held hother)
      hheld hotherOrdinary hordinary hsame

/-! ## Declared members -/

/-- The signature is made by one of the declared member's own keys, or under a key id with U+0000 whose slot
an unsigned record took. -/
def MadeByRootedKey (records : List JsonValue) (communityId : String)
    (declaration : MemberFeedDeclaration crypto) (input : VerifyMemberSignatureInput) : Prop :=
  (∃ publicKey, RootedKey records communityId declaration input.keyId publicKey ∧
    SignedBy publicKey input.payload input.signature) ∨
    AliasedBy crypto records communityId declaration.memberId input.keyId

/-- What the resolved histories say in the name of the member that a declaration certifies. -/
structure SpeaksForItself (communityId : String) (histories : List MemberFeedHistory)
    (state : ResolvedTimebankState crypto) (declaration : MemberFeedDeclaration crypto) : Prop where
  records : ∀ source ∈ histories.flatMap (·.records), IsDomainRecord communityId source →
    source.field "authorId" = some (.str declaration.memberId) →
    ∃ record, createMemberSignedRecord source = .ok record ∧
      MadeByRootedKey (histories.flatMap (·.records)) communityId declaration (recordSignatureInput record)
  settlements : ∀ proposal ∈ state.acceptedProposals, ∀ container,
    settlementTransferAttestationRecords.Holds (histories.flatMap (·.records)) communityId container →
    proposal.id = container.sourceProposalId → container.attestation.memberId = declaration.memberId →
    MadeByRootedKey (histories.flatMap (·.records)) communityId declaration
      (attestationInput (settlementTerms proposal) container.attestation)
  transfers : ∀ transfer ∈ state.transfers, ∀ attestation ∈ transfer.attestations,
    attestation.memberId = declaration.memberId →
    MadeByRootedKey (histories.flatMap (·.records)) communityId declaration
      (attestationInput transfer.toTransferTerms attestation)

/-- A declared member cannot be impersonated: the histories that resolve hold one declaration of it, and
every record and attestation in its name is signed with the declared root key or with a device key that the
root activated and never revoked. An unsigned record adds a key to that only where the key id contains
U+0000 and the record names a member id that goes on beyond it. -/
theorem no_impersonation
    (h : resolveTimebankMemberFeeds crypto localeCompare communityId histories = .ok state)
    {feedPublicKey memberId : String}
    (hdeclares : DeclaresFeed crypto communityId histories feedPublicKey memberId) :
    ∃ declaration : MemberFeedDeclaration crypto,
      HoldsDeclaration (histories.flatMap (·.records)) communityId declaration ∧
        declaration.memberId = memberId ∧
        (∀ other : MemberFeedDeclaration crypto,
          HoldsDeclaration (histories.flatMap (·.records)) communityId other →
          other.memberId = memberId → other = declaration) ∧
        SpeaksForItself communityId histories state declaration := by
  obtain ⟨-, -, -, hresolve⟩ := resolveTimebankMemberFeeds_eq_ok.mp h
  obtain ⟨hrecords, hcoherent, hresolved⟩ := resolved_of_eq_ok hresolve
  obtain ⟨declaration, hdeclaration, hmember, -⟩ := holdsDeclaration_of_declaresFeed hdeclares
  have hown : ∀ {input : VerifyMemberSignatureInput},
      ChecksSignature (histories.flatMap (·.records)) communityId input →
      input.memberId = declaration.memberId →
      MadeByRootedKey (histories.flatMap (·.records)) communityId declaration input :=
    hcoherent.rootedKey hrecords hresolved.authorizations hdeclaration
  refine ⟨declaration, hdeclaration, hmember, ?_, ?_⟩
  · intro other hother hsame
    exact eq_of_authorizationsOf hresolved.authorizations hcoherent.compatible hother hdeclaration
      (hsame.trans hmember.symm)
  · constructor
    · intro source hsource hdomain hauthor
      obtain ⟨record, hcreate, -⟩ := hcoherent.signed source hsource hdomain.1 hdomain.2
      refine ⟨record, hcreate, hown (.record hsource hdomain hcreate) ?_⟩
      obtain ⟨henvelope, -, -⟩ := createMemberSignedRecord_eq_ok.mp hcreate
      rw [(createRecordEnvelope_eq_ok.mp henvelope).authorId] at hauthor
      exact JsonValue.str.inj (Option.some.inj hauthor)
    · intro proposal hproposal container hcontainer hid hattester
      exact hown (.settlement ((hresolved.accepted.mem proposal).mp hproposal) hcontainer hid) hattester
    · intro transfer htransfer attestation hattestation hattester
      exact hown (.transfer ((hresolved.transfers.mem transfer).mp htransfer) hattestation) hattester

namespace Garden

theorem settlement_sound_ada : ∃ histories, ∃ state : ResolvedTimebankState transparentCrypto,
    adaExchange.settlement ∈ state.ledger.transfers ∧
      Sound "garden" histories state adaExchange.settlement := by
  obtain ⟨histories, state, -, hstate, hledger⟩ := garden_settles
  have hsettled : adaExchange.settlement ∈ state.ledger.transfers := hledger ▸ List.mem_singleton_self _
  exact ⟨histories, state, hsettled, settlement_sound hstate hsettled⟩

theorem no_impersonation_ada : ∃ histories, ∃ state : ResolvedTimebankState transparentCrypto,
    ∃ declaration : MemberFeedDeclaration transparentCrypto,
      adaExchange.settlement ∈ state.ledger.transfers ∧ declaration.memberId = ada.memberId ∧
      SpeaksForItself "garden" histories state declaration := by
  obtain ⟨histories, state, hpublished, hstate, hledger⟩ := garden_settles
  have hsettled : adaExchange.settlement ∈ state.ledger.transfers := hledger ▸ List.mem_singleton_self _
  have hdeclares := (declaresFeed_iff (garden [adaExchange] (by simp)).protocol hpublished).mpr
    ⟨ada, by simp [garden], rfl, rfl⟩
  obtain ⟨declaration, -, hmember, -, hspeaks⟩ := no_impersonation hstate hdeclares
  exact ⟨histories, state, declaration, hsettled, hmember, hspeaks⟩

end Garden

end PeerHours.Exchanges
