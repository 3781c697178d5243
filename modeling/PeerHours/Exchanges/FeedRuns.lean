import PeerHours.Desktop.PendingRuns
import PeerHours.Exchanges.IdentityRuns
import PeerHours.Exchanges.Settlement

/-!
# The own feed across interleaved calls

However the calls that close listings, accept proposals and advance settlements give way to each other, the
feed keeps one envelope for each id as long as no call appends what is already there. Nothing in the
service stops a closure that is asked for again.
-/

namespace PeerHours.Exchanges

open Checked Json
open Desktop Interleaving
open Stateful
open TimebankDomain (acceptExchangeProposal createMemberProfile)
open TimebankIdentity (CanonicalTimestamp)
open TimebankRecords

variable {crypto : Crypto} {localeCompare : String → String → Ordering}

/-- In a run of covered calls from a sound feed, two records of one id are one canonical envelope. -/
theorem own_feed_consistent {service : GuardedService crypto} (hfeed : SoundFeed service.records)
    {after : System (Waiting crypto) (GuardedService crypto)}
    (hrun : Run Begins (resumeCall localeCompare) CoveredCall ⟨service, []⟩ after)
    {left right : RecordEnvelope} (hleft : Contains after.shared.records left)
    (hright : Contains after.shared.records right) (hid : left.id = right.id) :
    canonicalRecordEnvelope left = canonicalRecordEnvelope right := by
  have hholds := feedInvariant_kept.run ((feedInvariant crypto).holds_idle hfeed) hrun
  have hconsistent : Consistent after.shared.records := hholds.shared.consistent
  rw [hconsistent.unique left right hleft hright hid]

namespace Garden

/-- Ada's desktop with the records in her feed. -/
def adaDesktop (records : List JsonValue) : GuardedService transparentCrypto where
  identityStore := some ⟨ada.stored, []⟩
  records := records
  listingClosuresInProgress := []
  settlementAdvancementsInProgress := []

/-- The surroundings of one step on Ada's desktop. -/
def stepContext (now : CanonicalTimestamp) : CallContext transparentCrypto :=
  { desktopContext (uuidOf '1' isUuid_one) (uuidOf '2' isUuid_two) with now := now }

/-- Ada's desktop while it closes her offer. -/
def closingDesktop (records : List JsonValue) : GuardedService transparentCrypto :=
  { adaDesktop records with listingClosuresInProgress := ["ada-offer"] }

/-- Ada asks to close her offer. -/
def closingCall : Waiting transparentCrypto :=
  .readIdentity (some "garden") (.closeListing ⟨adaOffer.listing⟩)

/-- Every call closes Ada's offer. -/
def closesAdaOffer :
    Condition (CallContext transparentCrypto) (Waiting transparentCrypto)
      (GuardedService transparentCrypto) :=
  fun _ waiting _ _ ↦ ∀ communityId operation, waiting = .readIdentity communityId operation →
    operation = .closeListing ⟨adaOffer.listing⟩

/-- The closure that is published at a time. -/
theorem closure_signed (now : CanonicalTimestamp) :
    ∃ source record, toClosedListingRecord adaOffer.listing ⟨now.1, ada.memberId⟩ = .ok record ∧
      signRecord ada.stored record = .ok source ∧ createRecordEnvelope source = .ok record ∧
      record.id = closedListingRecordId "ada-offer" ∧ record.occurredAt = now.1 := by
  have hvalid : ClosureValid
      { id := closedListingRecordId "ada-offer"
        communityId := "garden"
        listingId := "ada-offer"
        memberId := ada.memberId } :=
    ⟨rfl, by decide, by decide, blank_selfOwnedMemberId _⟩
  obtain ⟨record, hcreate, hcarries, -, htime⟩ := encodes_closedListing.envelope hvalid
    (by simp [closedListingRecords, ownedRecordKind] : closedListingRecords.mayAuthor _
      (⟨now.1, ada.memberId⟩ : CreateTimebankRecordMetadata).authorId = true) now.2
  have hnormalized : normalizePublishedListing (listingToJson adaOffer.listing) =
      .ok adaOffer.listing := encodes_publishedListing.again _ adaOffer.spec.1
  have hrecord : toClosedListingRecord adaOffer.listing ⟨now.1, ada.memberId⟩ = .ok record := by
    simp only [toClosedListingRecord, bind_eq_ok, require_eq_ok]
    exact ⟨_, hnormalized, (), rfl, hcreate⟩
  obtain ⟨source, hsource, hsigned⟩ := signRecord_spec ada.stored record
  exact ⟨source, record, hrecord, hsource, hsigned.create, hcarries.id, htime⟩

/-- Ada's identity is protected on her desktop. -/
theorem protectedIdentity_desktop (now : CanonicalTimestamp) (action : String) :
    protectedIdentity (stepContext now) (some "garden")
      (some (⟨ada.stored, []⟩ : IdentityMaterial transparentCrypto)) action =
        .ok (⟨ada.stored, []⟩, "garden") := by
  simp only [protectedIdentity, bind_eq_ok]
  exact ⟨"garden", rfl, _, rfl, (), rfl, (), assertStoredIdentity_root ada.stored, rfl⟩

theorem closeListing_adaOffer :
    TimebankDomain.closeListing adaOffer.listing (ada.profile "garden") =
      .ok { adaOffer.listing with status := .closed } := by
  simp [TimebankDomain.closeListing, TimebankDomain.assertListingOwner, adaOffer, publicationOf,
    listingOf, FeedOwner.profile, require]

/-- Before its guard a closing call changes nothing. -/
theorem outcome_closingCall (now : CanonicalTimestamp) (service : GuardedService transparentCrypto)
    (hstored : service.identityStore = some ⟨ada.stored, []⟩)
    {result : Except String (Option (Waiting transparentCrypto))}
    {after : GuardedService transparentCrypto}
    (hguarded : outcome (do
      check (require ("ada-offer" ∉ service.listingClosuresInProgress)
        "This listing is already being closed.")
      modify fun service ↦ { service with
        listingClosuresInProgress := "ada-offer" :: service.listingClosuresInProgress }
      onFailure (finishClosure "ada-offer") do
        let record ← check (toClosedListingRecord adaOffer.listing ⟨now.1, ada.memberId⟩)
        let signed ← check (signRecord ada.stored record)
        pure (some (.append signed (.closed "ada-offer")))) service = (result, after)) :
    outcome (closeListing (stepContext now) (some "garden") ⟨adaOffer.listing⟩) service =
      (result, after) := by
  have hidentity := protectedIdentity_desktop now "close a listing"
  rw [← hstored] at hidentity
  refine outcome_get_bind.trans ?_
  refine (outcome_check_bind hidentity).trans ?_
  refine (outcome_check_bind (show require (adaOffer.listing.communityId = "garden") _ = .ok ()
    from rfl)).trans ?_
  refine (outcome_check_bind (createMemberProfile_garden ada)).trans ?_
  exact (outcome_check_bind closeListing_adaOffer).trans hguarded

/-- A call that closes the offer goes on to append a closure. -/
theorem resume_closingCall (records : List JsonValue) (now : CanonicalTimestamp) :
    ∃ source record, createRecordEnvelope source = .ok record ∧
      record.id = closedListingRecordId "ada-offer" ∧ record.occurredAt = now.1 ∧
      resumeCall compare (stepContext now) closingCall (adaDesktop records) =
        (some (.append source (.closed "ada-offer")), closingDesktop records) := by
  obtain ⟨source, record, hrecord, hsource, hcreate, hid, htime⟩ := closure_signed now
  refine ⟨source, record, hcreate, hid, htime, resumeCall_of_ok ?_⟩
  refine outcome_closingCall now (adaDesktop records) rfl ?_
  refine (outcome_check_bind (show require ("ada-offer" ∉ ([] : List String)) _ = .ok ()
    from rfl)).trans ?_
  refine outcome_modify_bind.trans ?_
  refine outcome_onFailure ?_
  refine (outcome_check_bind hrecord).trans ?_
  exact outcome_check_bind hsource

/-- While the offer is being closed, another call that closes it stops at its guard. -/
theorem resume_closingCall_again (records : List JsonValue) (now : CanonicalTimestamp) :
    resumeCall compare (stepContext now) closingCall (closingDesktop records) =
      (none, closingDesktop records) := by
  have houtcome : outcome (goOn compare (stepContext now) closingCall) (closingDesktop records) =
      (.error "This listing is already being closed.", closingDesktop records) :=
    outcome_closingCall now (closingDesktop records) rfl rfl
  unfold resumeCall
  rw [houtcome]

/-- The feed takes a closure. -/
theorem resume_closure (records : List JsonValue) (source : JsonValue) :
    resumeCall compare (stepContext noon) (.append source (.closed "ada-offer"))
      (closingDesktop records) =
        (some (.appended true (.closed "ada-offer")), closingDesktop (records ++ [source])) := rfl

/-- A closure that was taken releases its guard. -/
theorem resume_closed (records : List JsonValue) :
    resumeCall compare (stepContext noon) (.appended true (.closed "ada-offer"))
      (closingDesktop records) = (none, adaDesktop records) := by
  have hreleased : finishClosure "ada-offer" (closingDesktop records) = adaDesktop records := by
    simp [finishClosure, closingDesktop, adaDesktop]
  rw [← hreleased]
  rfl

/-- Closing the offer appends one closure, whatever the feed holds. -/
theorem closing_run
    {condition : Condition (CallContext transparentCrypto) (Waiting transparentCrypto)
      (GuardedService transparentCrypto)} (records : List JsonValue) (now : CanonicalTimestamp)
    (hcondition : ∀ context waiting service, (∀ communityId operation,
        waiting = .readIdentity communityId operation →
          operation = .closeListing ⟨adaOffer.listing⟩) →
      condition context waiting service []) :
    ∃ source record, createRecordEnvelope source = .ok record ∧
      record.id = closedListingRecordId "ada-offer" ∧ record.occurredAt = now.1 ∧
      Run Begins (resumeCall compare) condition ⟨adaDesktop records, []⟩
        ⟨adaDesktop (records ++ [source]), []⟩ := by
  obtain ⟨source, record, hcreate, hid, htime, hread⟩ := resume_closingCall records now
  refine ⟨source, record, hcreate, hid, htime, ?_⟩
  have hclear (context : CallContext transparentCrypto) (waiting : Waiting transparentCrypto)
      (service : GuardedService transparentCrypto)
      (hwaiting : ∀ communityId operation, waiting ≠ .readIdentity communityId operation) :
      condition context waiting service [] :=
    hcondition _ _ _ fun communityId operation h ↦ absurd h (hwaiting communityId operation)
  have hentry : condition (stepContext now) closingCall (adaDesktop records) [] :=
    hcondition _ _ _ fun _ _ h ↦ (Waiting.readIdentity.inj h).2.symm
  have hstart : Step Begins (resumeCall compare) condition ⟨adaDesktop records, []⟩
      ⟨adaDesktop records, [closingCall]⟩ := .start (.intro _ _)
  refine .head hstart (.head (.alone hread hentry) ?_)
  refine .head (.alone (resume_closure records source) (hclear _ _ _ (by simp))) ?_
  exact .single (.alone (resume_closed (records ++ [source])) (hclear _ _ _ (by simp)))

/-! ## An acceptance beside two closures -/

/-- An exchange that Ben proposed to Ada. -/
def benExchange : Exchange transparentCrypto :=
  { adaExchange with
    id := "p3"
    creatorMemberId := ben.memberId
    minutes := 60
    proposal := { proposalOf "p3" adaOffer benRequest 60 with creatorMemberId := ben.memberId }
    accepted :=
      { proposalOf "p3" adaOffer benRequest 60 with
        creatorMemberId := ben.memberId
        status := .accepted
        acceptedByMemberId := some ada.memberId }
    proposes := by decide +kernel
    accepts := by decide +kernel }

/-- Ada accepts what Ben proposed. -/
def acceptingCall : Waiting transparentCrypto :=
  .readIdentity (some "garden")
    (.acceptProposal ⟨benExchange.proposal, adaOffer.listing, benRequest.listing⟩)

/-- A call that accepts the proposal goes on to append an acceptance. -/
theorem resume_acceptingCall (service : GuardedService transparentCrypto)
    (hstored : service.identityStore = some ⟨ada.stored, []⟩) :
    ∃ source record, createRecordEnvelope source = .ok record ∧
      record.id = proposalRecordId "accepted" "p3" ∧
      resumeCall compare (stepContext noon) acceptingCall service =
        (some (.append source (.accepted "p3")), service) := by
  have hauthor : acceptedExchangeProposalRecords.mayAuthor benExchange.accepted
      (⟨noon.1, ada.stored.memberId⟩ : CreateTimebankRecordMetadata).authorId = true := by
    decide +kernel
  have hvalid := benExchange.acceptedValid (by decide)
  obtain ⟨record, hcreated, hcarries, -, -⟩ :=
    encodes_acceptedExchangeProposal.envelope hvalid hauthor noon.2
  have hrecord : toAcceptedExchangeProposalRecord benExchange.accepted
      ⟨noon.1, ada.stored.memberId⟩ = .ok record :=
    (encodes_acceptedExchangeProposal.encode hvalid hauthor).trans hcreated
  obtain ⟨source, hsource, hsigned⟩ := signRecord_spec ada.stored record
  refine ⟨source, record, hsigned.create, hcarries.id, resumeCall_of_ok ?_⟩
  have hidentity := protectedIdentity_desktop noon "accept a proposal"
  rw [← hstored] at hidentity
  have haccepts : acceptExchangeProposal
      { proposal := benExchange.proposal
        offer := adaOffer.listing
        request := benRequest.listing
        provider := ada.profile "garden"
        recipient := ben.profile "garden"
        acceptedByMemberId := ada.stored.memberId } = .ok benExchange.accepted := by
    decide +kernel
  refine outcome_get_bind.trans ?_
  refine (outcome_check_bind hidentity).trans ?_
  refine (outcome_check_bind (createMemberProfile_garden ada)).trans ?_
  refine (outcome_check_bind (createMemberProfile_garden ben)).trans ?_
  refine (outcome_check_bind haccepts).trans ?_
  refine (outcome_check_bind hrecord).trans ?_
  exact outcome_check_bind hsource

/-- While Ada's acceptance waits for the feed she asks twice to close her offer: the second call is refused,
and the feed takes both records. -/
theorem own_feed_consistent_garden :
    ∃ acceptance closure accepted closed,
      createRecordEnvelope acceptance = .ok accepted ∧
      accepted.id = proposalRecordId "accepted" "p3" ∧
      createRecordEnvelope closure = .ok closed ∧ closed.id = closedListingRecordId "ada-offer" ∧
      Run Begins (resumeCall compare) CoveredCall ⟨adaDesktop [], []⟩
        ⟨closingDesktop [], [closingCall, .append closure (.closed "ada-offer"),
          .append acceptance (.accepted "p3")]⟩ ∧
      Run Begins (resumeCall compare) CoveredCall
        ⟨closingDesktop [], [closingCall, .append closure (.closed "ada-offer"),
          .append acceptance (.accepted "p3")]⟩ ⟨adaDesktop [acceptance, closure], []⟩ ∧
      ∀ left right, Contains [acceptance, closure] left → Contains [acceptance, closure] right →
        left.id = right.id → canonicalRecordEnvelope left = canonicalRecordEnvelope right := by
  have hnone (record : RecordEnvelope) : ¬ Contains [] record := contains_nil
  obtain ⟨acceptance, accepted, haccepted, hacceptedId, haccept⟩ :=
    resume_acceptingCall (adaDesktop []) rfl
  obtain ⟨closure, closed, hclosed, hclosedId, -, hclose⟩ := resume_closingCall [] noon
  have hempty {communityId : Option String} {operation : GuardedOperation}
      {service : GuardedService transparentCrypto} {others : List (Waiting transparentCrypto)}
      (hrecords : service.records = []) (hothers : ∀ source proposalId,
        .append source (.accepted proposalId) ∉ others ∨
          ∀ input, operation ≠ .acceptProposal input) :
      CoveredCall (stepContext noon) (.readIdentity communityId operation) service others :=
    { closure := fun _ _ _ _ record hpresent ↦ absurd (hrecords ▸ hpresent) (hnone record)
      acceptance := fun _ input hread ↦
        ⟨fun record hpresent ↦ absurd (hrecords ▸ hpresent) (hnone record), fun source ↦
          (hothers source input.proposal.id).resolve_right fun hnot ↦
            hnot input (Waiting.readIdentity.inj hread).2⟩
      attestation := fun _ _ _ _ _ _ hsome ↦ hsome.elim fun record hpresent ↦
        absurd (hrecords ▸ hpresent.1) (hnone record) }
  have hclear {waiting : Waiting transparentCrypto} {service : GuardedService transparentCrypto}
      {others : List (Waiting transparentCrypto)}
      (hwaiting : ∀ communityId operation, waiting ≠ .readIdentity communityId operation) :
      CoveredCall (stepContext noon) waiting service others :=
    { closure := fun communityId _ hread ↦ absurd hread (hwaiting communityId _)
      acceptance := fun communityId _ hread ↦ absurd hread (hwaiting communityId _)
      attestation := fun communityId _ hread ↦ absurd hread (hwaiting communityId _) }
  let accepts : Waiting transparentCrypto := .append acceptance (.accepted "p3")
  let closes : Waiting transparentCrypto := .append closure (.closed "ada-offer")
  have hfirst : Run Begins (resumeCall compare) CoveredCall ⟨adaDesktop [], []⟩
      ⟨closingDesktop [], [closingCall, closes, accepts]⟩ := by
    refine .head (.start (.intro _ _)) (.head (.alone haccept (hempty rfl (by simp))) ?_)
    refine .head (.start (.intro _ _)) (.head (.go [] [accepts] hclose (hempty rfl (by simp))) ?_)
    exact .single (.start (.intro _ _))
  have htaken (service : GuardedService transparentCrypto) :
      resumeCall compare (stepContext noon) accepts service =
        (some (.appended true (.accepted "p3")),
          { service with records := service.records ++ [acceptance] }) := rfl
  have hsecond : Run Begins (resumeCall compare) CoveredCall
      ⟨closingDesktop [], [closingCall, closes, accepts]⟩
      ⟨adaDesktop [acceptance, closure], []⟩ := by
    -- the second closure is refused, and the acceptance is taken first
    refine .head (.go [] [closes, accepts] (resume_closingCall_again [] noon)
      (hempty rfl (by simp))) ?_
    refine .head (.go [closes] [] (htaken _) (hclear (by simp))) ?_
    refine .head (.go [] _ (resume_closure [acceptance] closure) (hclear (by simp))) ?_
    refine .head (.go [] _ (resume_closed [acceptance, closure]) (hclear (by simp))) ?_
    exact .single (.alone (show resumeCall compare (stepContext noon)
      (.appended true (.accepted "p3")) (adaDesktop [acceptance, closure]) = (none, _) from rfl)
      (hclear (by simp)))
  have hfeed : SoundFeed (adaDesktop []).records :=
    { consistent :=
        { wellFormed := fun _ hmem ↦ absurd hmem List.not_mem_nil
          unique := fun left _ hleft ↦ absurd hleft (hnone left) }
      settlements := fun record hpresent ↦ absurd hpresent (hnone record) }
  exact ⟨acceptance, closure, accepted, closed, haccepted, hacceptedId, hclosed, hclosedId, hfirst,
    hsecond, fun left right hleft hright hsame ↦
      own_feed_consistent hfeed (hfirst.trans hsecond) hleft hright hsame⟩

/-- Ada's offer is closed twice with the listing that the community resolved before: her feed then has two
envelopes of one id. -/
theorem offer_closed_twice :
    ∃ built state history after left right,
      memberFeeds compare (garden [] (by simp)) = .ok built ∧
      resolveTimebankMemberFeeds transparentCrypto compare "garden" built = .ok state ∧
      adaOffer.listing ∈ state.publishedListings ∧
      history ∈ built ∧ history.feedPublicKey = ada.feedPublicKey ∧
      Run Begins (resumeCall compare) closesAdaOffer ⟨adaDesktop history.records, []⟩ after ∧
      Contains after.shared.records left ∧ Contains after.shared.records right ∧
      left.id = right.id ∧ canonicalRecordEnvelope left ≠ canonicalRecordEnvelope right := by
  obtain ⟨built, hbuilt, hpublished⟩ :=
    @publishedIn_of_memberFeeds transparentCrypto compare (garden [] (by simp))
  have hin := hpublished built ⟨fun _ ↦ Iff.rfl, fun _ _ ↦ Iff.rfl⟩
  obtain ⟨state, hstate⟩ := @Community.resolves _ compare (garden [] (by simp)) built hin
  obtain ⟨-, -, -, hresolve⟩ := resolveTimebankMemberFeeds_eq_ok.mp hstate
  obtain ⟨-, -, hresolved⟩ := resolved_of_eq_ok hresolve
  have hlisted : adaOffer.listing ∈ state.publishedListings := by
    refine (hresolved.listings _).mpr ⟨?_, fun closure hclosure ↦ ?_⟩
    · exact (hin.holds_iff (garden [] (by simp)).protocol carriesAs_publishedListing
        (by decide)).mpr ⟨_, .inl ⟨adaOffer, by simp [garden], rfl⟩, rfl⟩
    · obtain ⟨publication, hpublication, hvalue⟩ := (hin.holds_iff (garden [] (by simp)).protocol
        carriesAs_closedListing (by decide)).mp hclosure
      rcases hpublication with ⟨listing, -, rfl⟩ | ⟨exchange, hexchange, -⟩
      · exact absurd hvalue (by simp [ListingPublication.publication])
      · exact absurd hexchange (by simp [garden])
  obtain ⟨_, ⟨history, hhistory, hkey, -⟩, -⟩ := hin.declares ada (by simp [garden])
  obtain ⟨first, left, hfirst, hleftId, hleftTime, hrun⟩ :=
    @closing_run closesAdaOffer history.records noon fun _ _ _ h ↦ h
  obtain ⟨second, right, hsecond, hrightId, hrightTime, hagain⟩ :=
    @closing_run closesAdaOffer (history.records ++ [first]) evening fun _ _ _ h ↦ h
  refine ⟨built, state, history, _, left, right, hbuilt, hstate, hlisted, hhistory, hkey,
    hrun.trans hagain, ⟨first, by simp [adaDesktop], hfirst⟩, ⟨second, by simp [adaDesktop], hsecond⟩,
    hleftId.trans hrightId.symm, fun hsame ↦ ?_⟩
  have htimes : noon.1 = evening.1 := by
    rw [← hleftTime, ← hrightTime, canonicalRecordEnvelope_inj hsame]
  exact absurd htimes (by decide)

end Garden

end PeerHours.Exchanges
