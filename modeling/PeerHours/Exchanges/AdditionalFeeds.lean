import PeerHours.Exchanges.Garden
import PeerHours.Records.Declarations

/-!
# Additional feeds of a member

Feed provenance keeps a set of feeds for each member, but the authorizations have one slot for the root
key of each member. A second feed of a member therefore stops the whole view from resolving.
-/

namespace PeerHours.Exchanges

open Checked Json
open TimebankRecords

variable {crypto : Crypto} {localeCompare : String → String → Ordering} {communityId : String}

/-- Histories that declare one more feed of a member than others did never resolve. -/
theorem additional_feed_rejected {histories enlarged : List MemberFeedHistory}
    {feedPublicKey additional memberId : String}
    (hdeclared : DeclaresFeed crypto communityId histories feedPublicKey memberId)
    (hrecords : histories.flatMap (·.records) ⊆ enlarged.flatMap (·.records))
    (hadditional : DeclaresFeed crypto communityId enlarged additional memberId)
    (hne : additional ≠ feedPublicKey) :
    ¬ Succeeds (resolveTimebankMemberFeeds crypto localeCompare communityId enlarged) := by
  intro ⟨state, hstate⟩
  exact hne (declaresFeed_unique hstate hadditional (declaresFeed_of_subset hrecords hdeclared))

namespace Garden

open Desktop
open TimebankDomain

/-- A second feed of Ada. -/
def adaSecondFeed : FeedOwner transparentCrypto where
  stored := ada.stored
  feedPublicKey := String.ofList (List.replicate 64 'd')
  declaredAt := noon
  hypercoreKey := by decide

/-- An offer that Ada publishes in her second feed. -/
def adaSecondOffer : ListingPublication transparentCrypto :=
  publicationOf adaSecondFeed .offer "ada-second-offer" 60 (by decide) (by decide)

theorem additional_feed_rejected_garden :
    ∃ built source, memberFeeds compare (garden [] (by simp)) = .ok built ∧
      declareFeed "garden" adaSecondFeed = .ok (adaSecondFeed, source) ∧
      ¬ Succeeds (resolveTimebankMemberFeeds transparentCrypto compare "garden"
        (built ++ [⟨adaSecondFeed.feedPublicKey, [source]⟩])) := by
  obtain ⟨built, hbuilt, hpublished⟩ :=
    @publishedIn_of_memberFeeds transparentCrypto compare (garden [] (by simp))
  have hin := hpublished built ⟨fun _ ↦ Iff.rfl, fun _ _ ↦ Iff.rfl⟩
  have hfirst := (declaresFeed_iff (garden [] (by simp)).protocol hin).mpr
    ⟨ada, by simp [garden], rfl, rfl⟩
  obtain ⟨source, -, -, hdeclares, -⟩ := @declareFeed_spec _ "garden" (by decide) adaSecondFeed
  refine ⟨built, source, hbuilt, hdeclares, ?_⟩
  exact additional_feed_rejected hfirst (by simp)
    (declaresFeed_of_declareFeed (by decide) hdeclares (by simp)) (by decide)

/-- Ada declares a second feed and publishes an offer in it: the histories that resolved before no
longer do. -/
theorem second_feed_stops_resolution :
    ∃ built state declaration listing,
      memberFeeds compare (garden [] (by simp)) = .ok built ∧
      resolveTimebankMemberFeeds transparentCrypto compare "garden" built = .ok state ∧
      (∀ memberId left right, DeclaresFeed transparentCrypto "garden" built left memberId →
        DeclaresFeed transparentCrypto "garden" built right memberId → left = right) ∧
      declareFeed "garden" adaSecondFeed = .ok (adaSecondFeed, declaration) ∧
      (∀ memberId, ¬ DeclaresFeed transparentCrypto "garden" built adaSecondFeed.feedPublicKey
        memberId) ∧
      publishListingRecord adaSecondOffer = .ok (adaSecondFeed, listing) ∧
      (∀ record, Contains (built.flatMap (·.records)) record →
        record.id ≠ adaSecondOffer.listing.id) ∧
      ¬ Succeeds (resolveTimebankMemberFeeds transparentCrypto compare "garden"
        (built ++ [⟨adaSecondFeed.feedPublicKey, [declaration, listing]⟩])) := by
  obtain ⟨built, hbuilt, hpublished⟩ :=
    @publishedIn_of_memberFeeds transparentCrypto compare (garden [] (by simp))
  have hin := hpublished built ⟨fun _ ↦ Iff.rfl, fun _ _ ↦ Iff.rfl⟩
  obtain ⟨state, hstate⟩ := @Community.resolves _ compare (garden [] (by simp)) built hin
  obtain ⟨declaration, -, -, hdeclares, -⟩ := @declareFeed_spec _ "garden" (by decide) adaSecondFeed
  obtain ⟨⟨owner, listing⟩, hlisting, hpublishes⟩ := publishListingRecord_spec adaSecondOffer
  obtain rfl : owner = adaSecondFeed := hpublishes.1
  refine ⟨built, state, declaration, listing, hbuilt, hstate, fun _ _ _ ↦ declaresFeed_unique hstate,
    hdeclares, ?_, hlisting, ?_, ?_⟩
  · intro memberId hdeclared
    obtain ⟨owner, howner, hfeed, -⟩ :=
      (declaresFeed_iff (garden [] (by simp)).protocol hin).mp hdeclared
    simp only [garden, List.mem_cons, List.not_mem_nil, or_false] at howner
    rcases howner with rfl | rfl | rfl <;> exact absurd hfeed (by decide)
  · intro record hcontains hid
    cases (contains_iff (garden [] (by simp)).protocol hin).mp hcontains with
    | inl hdeclared =>
        obtain ⟨owner, -, source, hsource, hcreate⟩ := hdeclared
        obtain ⟨other, _, hother, -, hroutes, -⟩ := of_declareFeed (by decide) hsource
        obtain rfl := Except.ok.inj (hcreate.symm.trans hother)
        rw [hroutes.id] at hid
        exact absurd (congrArg (·.toList.head?) hid) (by simp [memberFeedRecordId]; decide)
    | inr hpublished =>
        obtain ⟨publication, hpublication, _, hpublishes⟩ := hpublished
        rw [(routed_of_carriedBy hpublishes.carried).1] at hid
        obtain ⟨other, hother, rfl⟩ | ⟨_, hnone, -⟩ := hpublication
        · simp only [garden, List.mem_cons, List.not_mem_nil, or_false] at hother
          rcases hother with rfl | rfl | rfl <;> exact absurd hid (by decide)
        · exact absurd hnone (by simp [garden])
  · rintro ⟨_, hresolves⟩
    obtain ⟨first, ⟨history, hhistory, -, hfirst⟩, hfirstDeclares⟩ :=
      hin.declares ada (by simp [garden])
    have hsame := declaresFeed_unique hresolves
      (declaresFeed_of_declareFeed (by decide) hdeclares (by simp))
      (declaresFeed_of_declareFeed (by decide) hfirstDeclares
        (List.mem_flatMap.mpr ⟨history, List.mem_append_left _ hhistory, hfirst⟩))
    exact absurd hsame (by decide)

end Garden

end PeerHours.Exchanges
