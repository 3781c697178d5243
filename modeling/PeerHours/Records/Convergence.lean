import PeerHours.Identity.Transparent
import PeerHours.Records.FeedResolution

/-!
# Convergence of replicas

Two histories with the same set of records resolve to the same state or fail together: reduction sorts
the same envelopes into the same list, and every later step is a function of that list or a check of
each record.
-/

namespace PeerHours.TimebankRecords

open Checked Json Sorting

/-- Two computations fail together or succeed with equal results. -/
theorem toOption_eq_of_ok_iff {ε α : Type} {left right : Except ε α}
    (h : ∀ value, left = .ok value ↔ right = .ok value) : left.toOption = right.toOption := by
  cases left with
  | ok value =>
      rw [(h value).mp rfl]
  | error message =>
      cases right with
      | ok value => exact absurd ((h value).mpr rfl) nofun
      | error other => rfl

variable {crypto : Crypto} {communityId : String}

/-- Both lists hold the same records. -/
def SameRecords (left right : List JsonValue) : Prop :=
  ∀ record, record ∈ left ↔ record ∈ right

theorem SameRecords.contains {left right : List JsonValue} (h : SameRecords left right)
    {record : RecordEnvelope} : Contains left record ↔ Contains right record :=
  exists_congr fun source ↦ and_congr_left fun _ ↦ h source

theorem SameRecords.consistent {left right : List JsonValue} (h : SameRecords left right)
    (hleft : Consistent left) : Consistent right where
  wellFormed source hsource := hleft.wellFormed source ((h source).mpr hsource)
  unique _ _ hfirst hsecond := hleft.unique _ _ (h.contains.mpr hfirst) (h.contains.mpr hsecond)

theorem SameRecords.symm {left right : List JsonValue} (h : SameRecords left right) :
    SameRecords right left := fun record ↦ (h record).symm

section Order

variable {localeCompare : String → String → Ordering} [Std.TransCmp localeCompare]
  [Std.LawfulEqCmp localeCompare]

/-- Reduction depends on the set of records alone. -/
theorem SameRecords.reduceRecordEnvelopes {left right : List JsonValue} (h : SameRecords left right)
    {result : List RecordEnvelope} (hleft : reduceRecordEnvelopes localeCompare left = .ok result) :
    TimebankRecords.reduceRecordEnvelopes localeCompare right = .ok result := by
  have hspec := reduceRecordEnvelopes_spec localeCompare
  have hconsistent := (hspec left).1.mp ⟨result, hleft⟩
  obtain ⟨other, hright⟩ := (hspec right).1.mpr (h.consistent hconsistent)
  obtain ⟨hresultNodup, hresult⟩ := (hspec left).2 result hleft
  obtain ⟨hotherNodup, hother⟩ := (hspec right).2 other hright
  rw [hright, Except.ok.injEq]
  -- both results are sorted, so equal members make them equal
  obtain ⟨leftById, -, hleftSorted⟩ := bind_eq_ok.mp hleft
  obtain ⟨rightById, -, hrightSorted⟩ := bind_eq_ok.mp hright
  rw [pure_eq_ok] at hleftSorted hrightSorted
  have hfix : ∀ {list byId : List RecordEnvelope},
      sortBy (compareRecords localeCompare) byId = list →
      sortBy (compareRecords localeCompare) list = list := by
    rintro _ byId rfl
    exact sortBy_sortBy byId
  rw [← hfix hleftSorted, ← hfix hrightSorted]
  refine sortBy_eq_of_mem_iff hotherNodup.of_map hresultNodup.of_map
    (fun record ↦ by rw [hother, hresult, h.contains]) ?_
  intro x hx y hy hcompare
  have hid : x.id = y.id := Std.LawfulEqCmp.eq_of_compare
    (compareLex_eq_eq.mp hcompare).2
  exact hconsistent.unique x y (h.contains.mpr ((hother x).mp hx)) (h.contains.mpr ((hother y).mp hy))
    hid

theorem SameRecords.resolve {left right : List JsonValue} (h : SameRecords left right)
    {state : ResolvedTimebankState crypto}
    (hleft : resolveTimebankRecords crypto localeCompare communityId left = .ok state) :
    resolveTimebankRecords crypto localeCompare communityId right = .ok state := by
  obtain ⟨normalized, hnormalized, hrest⟩ := bind_eq_ok.mp hleft
  refine bind_eq_ok.mpr ⟨normalized, h.reduceRecordEnvelopes hnormalized, ?_⟩
  -- the raw records are only read again by the signature check, one by one
  obtain ⟨authorizations, hauthorizations, hrest⟩ := bind_eq_ok.mp hrest
  obtain ⟨_, hsigned, hrest⟩ := bind_eq_ok.mp hrest
  refine bind_eq_ok.mpr ⟨authorizations, hauthorizations, bind_eq_ok.mpr ⟨(), ?_, hrest⟩⟩
  exact checkAll_eq_ok.mpr fun source hsource ↦
    checkAll_eq_ok.mp hsigned source ((h source).mpr hsource)

/-- Resolution of a history depends on its set of records alone: any order and any repetition fails
alike or gives an equal state. -/
theorem resolveTimebankRecords_convergent {left right : List JsonValue}
    (h : SameRecords left right) :
    (resolveTimebankRecords crypto localeCompare communityId left).toOption =
      (resolveTimebankRecords crypto localeCompare communityId right).toOption :=
  toOption_eq_of_ok_iff fun _ ↦ ⟨h.resolve, h.symm.resolve⟩

/-- Both lists of histories name the same feeds with the same records. -/
structure SameHistories (left right : List MemberFeedHistory) : Prop where
  feeds : ∀ feedPublicKey, (∃ history ∈ left, history.feedPublicKey = feedPublicKey) ↔
    ∃ history ∈ right, history.feedPublicKey = feedPublicKey
  records : ∀ feedPublicKey record,
    (∃ history ∈ left, history.feedPublicKey = feedPublicKey ∧ record ∈ history.records) ↔
      ∃ history ∈ right, history.feedPublicKey = feedPublicKey ∧ record ∈ history.records

theorem SameHistories.symm {left right : List MemberFeedHistory} (h : SameHistories left right) :
    SameHistories right left where
  feeds feedPublicKey := (h.feeds feedPublicKey).symm
  records feedPublicKey record := (h.records feedPublicKey record).symm

theorem SameHistories.sameRecords {left right : List MemberFeedHistory}
    (h : SameHistories left right) :
    SameRecords (left.flatMap (·.records)) (right.flatMap (·.records)) := by
  have hmem : ∀ (histories : List MemberFeedHistory) record,
      record ∈ histories.flatMap (·.records) ↔
        ∃ feedPublicKey, ∃ history ∈ histories, history.feedPublicKey = feedPublicKey ∧
          record ∈ history.records := by
    intro histories record
    simp only [List.mem_flatMap]
    exact ⟨fun ⟨history, hhistory, hrecord⟩ ↦ ⟨_, history, hhistory, rfl, hrecord⟩,
      fun ⟨_, history, hhistory, _, hrecord⟩ ↦ ⟨history, hhistory, hrecord⟩⟩
  intro record
  rw [hmem, hmem]
  exact exists_congr fun feedPublicKey ↦ h.records feedPublicKey record

theorem SameHistories.wellFormed {left right : List MemberFeedHistory} (h : SameHistories left right)
    (hleft : WellFormedHistories left) : WellFormedHistories right := by
  intro history hhistory
  obtain ⟨other, hother, hkey⟩ := (h.feeds _).mpr ⟨history, hhistory, rfl⟩
  refine ⟨hkey ▸ (hleft other hother).1, fun record hrecord ↦ ?_⟩
  obtain ⟨source, hsource, -, hmem⟩ := (h.records _ record).mpr ⟨history, hhistory, rfl, hrecord⟩
  exact (hleft source hsource).2 record hmem

theorem SameHistories.feedDeclarations {left right : List MemberFeedHistory}
    (h : SameHistories left right) (record : JsonValue) :
    record ∈ feedDeclarations communityId left ↔ record ∈ feedDeclarations communityId right := by
  rw [TimebankRecords.feedDeclarations, TimebankRecords.feedDeclarations, List.mem_filter,
    List.mem_filter, h.sameRecords record]

theorem SameHistories.declaresFeed {left right : List MemberFeedHistory}
    (h : SameHistories left right) {feedPublicKey memberId : String} :
    DeclaresFeed crypto communityId left feedPublicKey memberId ↔
      DeclaresFeed crypto communityId right feedPublicKey memberId :=
  exists_congr fun record ↦ and_congr_left fun _ ↦ h.feedDeclarations record

theorem SameHistories.resolve {left right : List MemberFeedHistory} (h : SameHistories left right)
    {state : ResolvedTimebankState crypto}
    (hleft : resolveTimebankMemberFeeds crypto localeCompare communityId left = .ok state) :
    resolveTimebankMemberFeeds crypto localeCompare communityId right = .ok state := by
  obtain ⟨hwell, hdeclared, hprovenance, hresolve⟩ := resolveTimebankMemberFeeds_eq_ok.mp hleft
  refine resolveTimebankMemberFeeds_eq_ok.mpr ⟨h.wellFormed hwell, ?_, ?_, h.sameRecords.resolve
    hresolve⟩
  · exact
      { readable := fun record hrecord ↦
          hdeclared.readable record ((h.feedDeclarations record).mpr hrecord)
        oneMember := fun key first second hfirst hsecond ↦
          hdeclared.oneMember key first second (h.declaresFeed.mpr hfirst)
            (h.declaresFeed.mpr hsecond) }
  · intro history hhistory record hrecord hcommunity hmember
    obtain ⟨source, hsource, hkey, hmem⟩ :=
      (h.records _ record).mpr ⟨history, hhistory, rfl, hrecord⟩
    obtain ⟨memberId, hauthor, hdeclares⟩ := hprovenance source hsource record hmem hcommunity hmember
    exact ⟨memberId, hauthor, h.declaresFeed.mp (hkey ▸ hdeclares)⟩

/-- Resolution of member feeds depends on the set of records of each feed alone. -/
theorem resolveTimebankMemberFeeds_convergent {left right : List MemberFeedHistory}
    (h : SameHistories left right) :
    (resolveTimebankMemberFeeds crypto localeCompare communityId left).toOption =
      (resolveTimebankMemberFeeds crypto localeCompare communityId right).toOption :=
  toOption_eq_of_ok_iff fun _ ↦ ⟨h.resolve, h.symm.resolve⟩

end Order

end PeerHours.TimebankRecords
