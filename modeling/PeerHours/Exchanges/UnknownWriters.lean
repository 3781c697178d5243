import PeerHours.Exchanges.Garden
import PeerHours.Records.UnknownWriters

/-!
# Unknown writers among member feeds

A further history in a feed that nobody declared is ignored when its records are ignorable, and stops
the whole view when one of them is malformed.
-/

namespace PeerHours.Exchanges

open Checked Json
open TimebankRecords

variable {crypto : Crypto} {communityId : String} {localeCompare : String → String → Ordering}

/-- A resolved view ignores a further history of unknown writers, in a feed that it does not declare,
exactly when the history has a feed key and its records are ignorable. -/
theorem unknown_writer_ignored_iff [Std.TransCmp localeCompare] {histories : List MemberFeedHistory}
    {state : ResolvedTimebankState crypto}
    (h : resolveTimebankMemberFeeds crypto localeCompare communityId histories = .ok state)
    {feedPublicKey : String}
    (hundeclared : ∀ memberId,
      ¬ DeclaresFeed crypto communityId histories feedPublicKey.toLower memberId)
    {additional : List JsonValue}
    (hunknown : ∀ source ∈ additional, FromUnknownWriter state.authorizations communityId source) :
    resolveTimebankMemberFeeds crypto localeCompare communityId
        (histories ++ [⟨feedPublicKey, additional⟩]) = .ok state ↔
      isFeedPublicKey feedPublicKey = true ∧
        Ignorable crypto localeCompare communityId (histories.flatMap (·.records)) additional := by
  obtain ⟨hwellFormed, hdeclared, hprovenance, hresolve⟩ := resolveTimebankMemberFeeds_eq_ok.mp h
  constructor
  · intro hlarger
    obtain ⟨hlargerWellFormed, -, hlargerProvenance, hlargerResolve⟩ :=
      resolveTimebankMemberFeeds_eq_ok.mp hlarger
    rw [flatMap_records_append] at hlargerResolve
    obtain ⟨hlargerRecords, -, -⟩ := resolved_of_eq_ok hlargerResolve
    refine ⟨(hlargerWellFormed _ (List.mem_append_right _ List.mem_cons_self)).1,
      ignorable_of_resolve hresolve hlargerResolve hunknown fun record hcontains hcommunity ↦ ?_⟩
    obtain ⟨source, hsource, hcreate⟩ := hcontains
    have hrecord := createRecordEnvelope_eq_ok.mp hcreate
    rw [Bool.eq_false_iff]
    intro hkind
    have hmember : isMemberAuthoredRecord source := by
      refine ⟨record.kind, ?_, hrecord.kind⟩
      rw [isRootSignedMemberSigningKeyLifecycleRecord, Bool.or_eq_true, decide_eq_true_eq,
        decide_eq_true_eq] at hkind
      cases hkind with
      | inl hactivation => rw [hactivation]; decide
      | inr hrevocation => rw [hrevocation]; decide
    obtain ⟨memberId, -, hdeclares⟩ := hlargerProvenance _ (List.mem_append_right _ List.mem_cons_self)
      source hsource (hcommunity ▸ hrecord.communityId) hmember
    refine hundeclared memberId (declaresFeed_of_repeated (fun other hother ↦ ?_)
      (declarations_of_resolve hresolve hlargerResolve) hdeclares)
    exact hlargerRecords.wellFormed other (List.mem_append_right _ hother)
  · rintro ⟨hkey, hignorable⟩
    have hadditional : ∀ source ∈ additional, Succeeds (createRecordEnvelope source) :=
      fun source hsource ↦ hignorable.consistent.wellFormed source (List.mem_append_right _ hsource)
    refine resolveTimebankMemberFeeds_eq_ok.mpr ⟨?_, ?_, ?_, ?_⟩
    · intro history hhistory
      cases List.mem_append.mp hhistory with
      | inl hold => exact hwellFormed history hold
      | inr hnew =>
          obtain rfl := List.mem_singleton.mp hnew
          refine ⟨hkey, fun source hsource ↦ ?_⟩
          obtain ⟨record, hcreate⟩ := hadditional source hsource
          exact isObject_of_field (createRecordEnvelope_eq_ok.mp hcreate).id
    · exact
        { readable := by
            intro source hsource
            obtain ⟨earlier, hearlier, hsame⟩ := @declaration_repeated crypto _ _ _ _ hadditional
              hignorable.declarations source hsource
            rw [hsame]
            exact hdeclared.readable earlier hearlier
          oneMember := by
            intro feed left right hleft hright
            exact hdeclared.oneMember feed left right
              (declaresFeed_of_repeated hadditional hignorable.declarations hleft)
              (declaresFeed_of_repeated hadditional hignorable.declarations hright) }
    · intro history hhistory source hsource hcommunity hmember
      cases List.mem_append.mp hhistory with
      | inl hold =>
          obtain ⟨memberId, hauthor, hdeclares⟩ :=
            hprovenance history hold source hsource hcommunity hmember
          exact ⟨memberId, hauthor, declaresFeed_of_subset
            (by rw [flatMap_records_append]; exact List.subset_append_left _ _) hdeclares⟩
      | inr hnew =>
          -- an ignorable record is of no kind that provenance covers
          obtain rfl := List.mem_singleton.mp hnew
          obtain ⟨record, hcreate⟩ := hadditional source hsource
          have hrecord := createRecordEnvelope_eq_ok.mp hcreate
          have hrecordCommunity : record.communityId = communityId := by
            simpa [hrecord.communityId] using hcommunity
          obtain ⟨kind, hkind, hfield⟩ := hmember
          obtain rfl : record.kind = kind := by simpa [hrecord.kind] using hfield
          have hlifecycle := hignorable.lifecycle record ⟨source, hsource, hcreate⟩ hrecordCommunity
          have hdomain := hignorable.domain source hsource
          rw [isDomainRecord_iff hcreate] at hdomain
          simp only [memberAuthoredRecordKinds, List.mem_cons, List.not_mem_nil, or_false] at hkind
          simp only [memberAuthoredDomainRecordKinds, List.mem_cons, List.not_mem_nil, or_false]
            at hdomain
          simp only [isRootSignedMemberSigningKeyLifecycleRecord, Bool.or_eq_false_iff,
            decide_eq_false_iff_not] at hlifecycle
          tauto
    · rw [flatMap_records_append]
      exact hignorable.resolve hresolve

namespace Garden

open Desktop

/-- A feed that nobody in the garden declares. -/
def strangerFeed : String := String.ofList (List.replicate 64 'e')

/-- A record of another community. -/
def orchardNote : JsonValue :=
  .obj [("id", .str "note"), ("schema", .str "peer-hours.note"), ("version", .int 1),
    ("kind", .str "note"), ("communityId", .str "orchard"),
    ("occurredAt", .str "2025-01-01T00:00:00.000Z"), ("authorId", .str "eve"), ("payload", .obj [])]

theorem strangerFeed_undeclared {histories : List MemberFeedHistory}
    (hin : PublishedIn "garden" (garden [] (by simp)).members (garden [] (by simp)).Published
      histories) (memberId : String) :
    ¬ DeclaresFeed transparentCrypto "garden" histories strangerFeed.toLower memberId := by
  intro hdeclared
  rw [toLower_of_isHypercoreKey (by decide)] at hdeclared
  obtain ⟨owner, howner, hfeed, -⟩ :=
    (declaresFeed_iff (garden [] (by simp)).protocol hin).mp hdeclared
  simp only [garden, List.mem_cons, List.not_mem_nil, or_false] at howner
  rcases howner with rfl | rfl | rfl <;> exact absurd hfeed (by decide)

theorem unknown_writer_ignored_iff_garden :
    ∃ built state, memberFeeds compare (garden [] (by simp)) = .ok built ∧
      (resolveTimebankMemberFeeds transparentCrypto compare "garden"
          (built ++ [⟨strangerFeed, [orchardNote]⟩]) = .ok state ↔
        isFeedPublicKey strangerFeed = true ∧ Ignorable transparentCrypto compare "garden"
          (built.flatMap (·.records)) [orchardNote]) := by
  obtain ⟨built, hbuilt, hpublished⟩ :=
    @publishedIn_of_memberFeeds transparentCrypto compare (garden [] (by simp))
  have hin := hpublished built ⟨fun _ ↦ Iff.rfl, fun _ _ ↦ Iff.rfl⟩
  obtain ⟨state, hstate⟩ := @Community.resolves _ compare (garden [] (by simp)) built hin
  refine ⟨built, state, hbuilt, unknown_writer_ignored_iff hstate (strangerFeed_undeclared hin) ?_⟩
  intro source hsource
  rw [List.mem_singleton.mp hsource]
  exact .inl (by decide)

/-- A stranger's malformed record stops the view of the garden. -/
theorem malformed_record_stops_resolution :
    ∃ built state, memberFeeds compare (garden [] (by simp)) = .ok built ∧
      resolveTimebankMemberFeeds transparentCrypto compare "garden" built = .ok state ∧
      (∀ memberId,
        ¬ DeclaresFeed transparentCrypto "garden" built strangerFeed.toLower memberId) ∧
      FromUnknownWriter state.authorizations "garden" (.obj []) ∧
      ¬ Succeeds (resolveTimebankMemberFeeds transparentCrypto compare "garden"
        (built ++ [⟨strangerFeed, [.obj []]⟩])) := by
  obtain ⟨built, hbuilt, hpublished⟩ :=
    @publishedIn_of_memberFeeds transparentCrypto compare (garden [] (by simp))
  have hin := hpublished built ⟨fun _ ↦ Iff.rfl, fun _ _ ↦ Iff.rfl⟩
  obtain ⟨state, hstate⟩ := @Community.resolves _ compare (garden [] (by simp)) built hin
  have hmalformed : ¬ Succeeds (createRecordEnvelope (.obj [])) := by decide
  refine ⟨built, state, hbuilt, hstate, strangerFeed_undeclared hin, .inr (.inl hmalformed), ?_⟩
  intro ⟨larger, hlarger⟩
  obtain ⟨-, -, -, hresolve⟩ := resolveTimebankMemberFeeds_eq_ok.mp hlarger
  rw [flatMap_records_append] at hresolve
  exact hmalformed ((resolved_of_eq_ok hresolve).1.wellFormed _ (by simp))

end Garden

end PeerHours.Exchanges
