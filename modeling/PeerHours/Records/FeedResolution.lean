import PeerHours.Library.Hex
import PeerHours.Records.Resolve

/-!
# Resolving member feeds

`resolveTimebankMemberFeeds` reads the histories of several member feeds. Each record of a member's
domain must arrive through a feed that the member's root key declared; the records of all feeds are
then resolved together.
-/

namespace PeerHours.TimebankRecords

open Checked Json KeyedMap
open TimebankIdentity (isHypercoreKey isLowerHex)

/-- A concrete replicated history read from one known member-owned Hypercore feed. -/
structure MemberFeedHistory where
  feedPublicKey : String
  records : List JsonValue

/-- A hexadecimal digit in either case. -/
def isHexDigit (c : Char) : Bool :=
  c.isDigit || ('a' ≤ c && c ≤ 'f') || ('A' ≤ c && c ≤ 'F')

/-- A hexadecimal Hypercore key in either case. -/
def isFeedPublicKey (value : String) : Bool :=
  value.toList.length == 64 && value.toList.all isHexDigit

/-- Rejects malformed feed addresses before a caller can mistake arbitrary text for a Hypercore
identity. -/
def assertFeedPublicKey (value : String) : Except String Unit :=
  require (isFeedPublicKey value = true)
    "A member feed history must use a 64-character hexadecimal Hypercore key."

/-- Lower-case hexadecimal text is its own lower case. -/
theorem toLower_of_isHypercoreKey {text : String} (hkey : isHypercoreKey text = true) :
    text.toLower = text := by
  have hlower : ∀ c ∈ text.toList, c.toLower = c := by
    intro c hc
    have hhex : isLowerHex c = true :=
      List.all_eq_true.mp (Bool.and_eq_true_iff.mp hkey).2 c hc
    have hnot : ¬ (c.val ≥ 'A'.val ∧ c.val ≤ 'Z'.val) := by
      simp only [isLowerHex, Char.isDigit, Bool.or_eq_true, Bool.and_eq_true, decide_eq_true_eq] at hhex
      intro ⟨hlow, hhigh⟩
      cases hhex with
      | inl hdigit => exact absurd (UInt32.le_trans hlow hdigit.2) (by decide)
      | inr hletter => exact absurd (UInt32.le_trans hletter.1 hhigh) (by decide)
    exact dif_neg hnot
  rw [Hex.toLower_eq_map, ← String.toList_inj, String.toList_map]
  exact (List.map_congr_left hlower).trans (List.map_id' _)

theorem isFeedPublicKey_of_isHypercoreKey {text : String} (hkey : isHypercoreKey text = true) :
    isFeedPublicKey text = true := by
  obtain ⟨hlength, hhex⟩ := Bool.and_eq_true_iff.mp hkey
  refine Bool.and_eq_true_iff.mpr ⟨hlength, List.all_eq_true.mpr fun c hc ↦ ?_⟩
  have hlower := List.all_eq_true.mp hhex c hc
  unfold isLowerHex at hlower
  unfold isHexDigit
  rw [hlower, Bool.true_or]

/-- Rejects malformed transport input before provenance checks inspect envelope fields. -/
def assertRecordLike (record : JsonValue) : Except String Unit :=
  require (record.isObject = true) "A member feed history must contain record envelopes."

/-- The record kinds whose author must be a self-owned member. Listing closures are not among
them. -/
def memberAuthoredRecordKinds : List String :=
  [rootSignedKeyActivationRecordKind, rootSignedKeyRevocationRecordKind, publishedListingRecordKind,
    proposedExchangeProposalRecordKind, acceptedExchangeProposalRecordKind,
    settlementAcknowledgementRecordKind, settlementTransferAttestationRecordKind,
    ledgerTransferRecordKind]

/-- Limits feed provenance checks to records whose author is explicitly a self-owned member. -/
def isMemberAuthoredRecord (record : JsonValue) : Prop :=
  ∃ kind ∈ memberAuthoredRecordKinds, record.field "kind" = some (.str kind)

instance (record : JsonValue) : Decidable (isMemberAuthoredRecord record) :=
  inferInstanceAs (Decidable (∃ kind ∈ memberAuthoredRecordKinds, _))

variable (crypto : Crypto)

/-- Whether a record declares a feed in the community. -/
def isFeedDeclaration (communityId : String) (record : JsonValue) : Prop :=
  record.field "communityId" = some (.str communityId) ∧
    record.field "kind" = some (.str memberFeedDeclarationRecordKind)

instance (communityId : String) (record : JsonValue) :
    Decidable (isFeedDeclaration communityId record) :=
  inferInstanceAs (Decidable (_ ∧ _))

/-- The lower-case feed key and the member of a declaration record. A key that is no text has no
`toLowerCase` to call. -/
def readDeclaredFeed (record : JsonValue) : Except String (String × String) := do
  let declaration ← memberFeedDeclarationFromRecord crypto record
  let feedPublicKey ← present (JsonValue.text? (some declaration.feedPublicKey))
    "declaration.feedPublicKey.toLowerCase is not a function"
  pure (feedPublicKey.toLower, declaration.memberId)

/-- Adds the feed that one record declares, if it declares one. -/
def declareFeed (communityId : String) (membersByFeedKey : List (String × String))
    (record : JsonValue) : Except String (List (String × String)) := do
  assertRecordLike record
  if isFeedDeclaration communityId record then
    collectStep Prod.fst Prod.snd
      "A member feed public key cannot be declared by more than one member."
      (readDeclaredFeed crypto) membersByFeedKey record
  else pure membersByFeedKey

/-- Collects valid root-signed declarations before admitting any domain record from a member feed. The
pairs of a feed key and its member stand for both maps of the source. -/
def declaredFeedKeysByMember (communityId : String) (histories : List MemberFeedHistory) :
    Except String (List (String × String)) :=
  histories.foldlM (fun membersByFeedKey history ↦ do
    assertFeedPublicKey history.feedPublicKey
    history.records.foldlM (declareFeed crypto communityId) membersByFeedKey) []

/-- Ensures that a member-authored record arrives through a feed its author declared. -/
def assertFeedProvenance (communityId : String) (membersByFeedKey : List (String × String))
    (sourceFeedPublicKey : String) (record : JsonValue) : Except String Unit := do
  assertRecordLike record
  if record.field "communityId" = some (.str communityId) ∧ isMemberAuthoredRecord record then
    require (∃ entry ∈ membersByFeedKey, entry.1 = sourceFeedPublicKey ∧
        record.field "authorId" = some (.str entry.2))
      "A member-authored record must arrive through a feed declared by its self-owned identity."
  else pure ()

/-- Resolves member-feed histories only after each signed domain record is tied to its declared source
feed. -/
def resolveTimebankMemberFeeds (localeCompare : String → String → Ordering) (communityId : String)
    (histories : List MemberFeedHistory) : Except String (ResolvedTimebankState crypto) := do
  let membersByFeedKey ← declaredFeedKeysByMember crypto communityId histories
  histories |> checkAll fun history ↦ do
    assertFeedPublicKey history.feedPublicKey
    history.records |> checkAll
      (assertFeedProvenance communityId membersByFeedKey history.feedPublicKey.toLower)
  resolveTimebankRecords crypto localeCompare communityId (histories.flatMap (·.records))

/-! ## What feed resolution accepts -/

/-- The records of some histories that declare a feed. -/
def feedDeclarations (communityId : String) (histories : List MemberFeedHistory) : List JsonValue :=
  (histories.flatMap (·.records)).filter fun record ↦ decide (isFeedDeclaration communityId record)

/-- Every history has a feed key and lists objects. -/
def WellFormedHistories (histories : List MemberFeedHistory) : Prop :=
  ∀ history ∈ histories, isFeedPublicKey history.feedPublicKey = true ∧
    ∀ record ∈ history.records, record.isObject = true

variable {crypto}

theorem foldlM_declareFeed {communityId : String} {records : List JsonValue}
    {start declared : List (String × String)} :
    records.foldlM (declareFeed crypto communityId) start = .ok declared ↔
      (∀ record ∈ records, record.isObject = true) ∧
        (records.filter fun record ↦ decide (isFeedDeclaration communityId record)).foldlM
          (collectStep Prod.fst Prod.snd
            "A member feed public key cannot be declared by more than one member."
            (readDeclaredFeed crypto)) start = .ok declared := by
  induction records generalizing start with
  | nil => simp
  | cons record rest ih =>
      rw [List.foldlM_cons, List.filter_cons, List.forall_mem_cons, declareFeed]
      by_cases hdeclares : isFeedDeclaration communityId record
      · simp only [hdeclares, if_true, assertRecordLike, bind_eq_ok, require_eq_ok, exists_const, ih,
          decide_true, List.foldlM_cons]
        constructor
        · rintro ⟨_, ⟨hobject, hstep⟩, hobjects, hrest⟩
          exact ⟨⟨hobject, hobjects⟩, _, hstep, hrest⟩
        · rintro ⟨⟨hobject, hobjects⟩, _, hstep, hrest⟩
          exact ⟨_, ⟨hobject, hstep⟩, hobjects, hrest⟩
      · simp only [hdeclares, if_false, assertRecordLike, bind_eq_ok, require_eq_ok, exists_const, ih,
          pure_eq_ok, decide_false, Bool.false_eq_true]
        constructor
        · rintro ⟨_, ⟨hobject, rfl⟩, hobjects, hrest⟩
          exact ⟨⟨hobject, hobjects⟩, hrest⟩
        · rintro ⟨⟨hobject, hobjects⟩, hrest⟩
          exact ⟨_, ⟨hobject, rfl⟩, hobjects, hrest⟩

@[simp] theorem assertFeedPublicKey_eq_ok {value : String} {result : Unit} :
    assertFeedPublicKey value = .ok result ↔ isFeedPublicKey value = true := by
  simp [assertFeedPublicKey]

/-- The declarations of all histories are collected into one map. -/
theorem declaredFeedKeysByMember_eq_ok {communityId : String} {histories : List MemberFeedHistory}
    {declared : List (String × String)} :
    declaredFeedKeysByMember crypto communityId histories = .ok declared ↔
      WellFormedHistories histories ∧
        collect Prod.fst Prod.snd
          "A member feed public key cannot be declared by more than one member."
          (readDeclaredFeed crypto) (feedDeclarations communityId histories) = .ok declared := by
  rw [declaredFeedKeysByMember, collect]
  generalize ([] : List (String × String)) = start
  induction histories generalizing start with
  | nil => simp [WellFormedHistories, feedDeclarations]
  | cons history rest ih =>
      rw [List.foldlM_cons]
      simp only [bind_eq_ok, assertFeedPublicKey_eq_ok, exists_const, foldlM_declareFeed, ih,
        feedDeclarations, List.flatMap_cons, List.filter_append, List.foldlM_append,
        WellFormedHistories, List.forall_mem_cons]
      constructor
      · rintro ⟨_, ⟨hkey, hobjects, hfirst⟩, hrest, hlater⟩
        exact ⟨⟨⟨hkey, hobjects⟩, hrest⟩, _, hfirst, hlater⟩
      · rintro ⟨⟨⟨hkey, hobjects⟩, hrest⟩, _, hfirst, hlater⟩
        exact ⟨_, ⟨hkey, hobjects, hfirst⟩, hrest, hlater⟩

theorem determines_declaredFeeds :
    Determines Prod.fst Prod.snd (readDeclaredFeed crypto) :=
  fun _ _ _ _ _ _ hkey hmember ↦ Prod.ext hkey hmember

variable (crypto) in
/-- A record of the histories declares the feed for the member. -/
def DeclaresFeed (communityId : String) (histories : List MemberFeedHistory)
    (feedPublicKey memberId : String) : Prop :=
  ∃ record ∈ feedDeclarations communityId histories,
    readDeclaredFeed crypto record = .ok (feedPublicKey, memberId)

variable (crypto) in
/-- Every declaration can be read, and a feed is declared by one member. -/
structure FeedsDeclared (communityId : String) (histories : List MemberFeedHistory) : Prop where
  readable : ∀ record ∈ feedDeclarations communityId histories,
    Succeeds (readDeclaredFeed crypto record)
  oneMember : ∀ feedPublicKey left right,
    DeclaresFeed crypto communityId histories feedPublicKey left →
    DeclaresFeed crypto communityId histories feedPublicKey right → left = right

variable (crypto) in
/-- Every member-authored record arrives through a feed that its author declared. -/
def Provenance (communityId : String) (histories : List MemberFeedHistory) : Prop :=
  ∀ history ∈ histories, ∀ record ∈ history.records,
    record.field "communityId" = some (.str communityId) → isMemberAuthoredRecord record →
    ∃ memberId, record.field "authorId" = some (.str memberId) ∧
      DeclaresFeed crypto communityId histories history.feedPublicKey.toLower memberId

/-- Feeds resolve exactly when their declarations can be read, member-authored records have
provenance, and the records of all feeds resolve together. -/
theorem resolveTimebankMemberFeeds_eq_ok {localeCompare : String → String → Ordering}
    {communityId : String} {histories : List MemberFeedHistory}
    {state : ResolvedTimebankState crypto} :
    resolveTimebankMemberFeeds crypto localeCompare communityId histories = .ok state ↔
      WellFormedHistories histories ∧ FeedsDeclared crypto communityId histories ∧
        Provenance crypto communityId histories ∧
        resolveTimebankRecords crypto localeCompare communityId (histories.flatMap (·.records)) =
          .ok state := by
  have hcollect := @succeeds_collect _ _ _ _ _ Prod.fst _ Prod.snd
    "A member feed public key cannot be declared by more than one member." (readDeclaredFeed crypto)
    determines_declaredFeeds (feedDeclarations communityId histories)
  have hpairs : FeedsDeclared crypto communityId histories ↔
      Succeeds (collect Prod.fst Prod.snd
        "A member feed public key cannot be declared by more than one member."
        (readDeclaredFeed crypto) (feedDeclarations communityId histories)) := by
    rw [hcollect]
    constructor
    · intro h
      refine ⟨h.readable, ?_⟩
      rintro record hrecord ⟨key, member⟩ hread other hother ⟨otherKey, otherMember⟩ hotherRead
        (rfl : otherKey = key)
      rw [h.oneMember otherKey otherMember member ⟨other, hother, hotherRead⟩
        ⟨record, hrecord, hread⟩]
    · rintro ⟨hread, hsame⟩
      refine ⟨hread, ?_⟩
      rintro key left right ⟨record, hrecord, hleft⟩ ⟨other, hother, hright⟩
      exact congrArg Prod.snd (hsame other hother _ hright record hrecord _ hleft rfl)
  have hprovenance : ∀ declared,
      collect Prod.fst Prod.snd
        "A member feed public key cannot be declared by more than one member."
        (readDeclaredFeed crypto) (feedDeclarations communityId histories) = .ok declared →
      (WellFormedHistories histories →
        ((∀ history ∈ histories, ∀ record ∈ history.records,
          assertFeedProvenance communityId declared history.feedPublicKey.toLower record = .ok ()) ↔
        Provenance crypto communityId histories)) := by
    intro declared hdeclared hwell
    refine forall₂_congr fun history hhistory ↦ forall₂_congr fun record hrecord ↦ ?_
    have hobject := (hwell history hhistory).2 record hrecord
    simp only [assertFeedProvenance, assertRecordLike, bind_eq_ok, require_eq_ok, exists_const,
      hobject, true_and]
    split
    · rename_i hmember
      simp only [require_eq_ok, hmember, forall_const]
      constructor
      · rintro ⟨⟨key, member⟩, hentry, rfl, hauthor⟩
        exact ⟨member, hauthor, (mem_collect determines_declaredFeeds hdeclared _).mp hentry⟩
      · rintro ⟨member, hauthor, hdeclares⟩
        exact ⟨(_, member), (mem_collect determines_declaredFeeds hdeclared _).mpr hdeclares, rfl,
          hauthor⟩
    · rename_i hnot
      simp only [pure_eq_ok, true_iff]
      intro hcommunity hmember
      exact absurd ⟨hcommunity, hmember⟩ hnot
  simp only [resolveTimebankMemberFeeds, bind_eq_ok, declaredFeedKeysByMember_eq_ok, checkAll_eq_ok,
    assertFeedPublicKey_eq_ok, exists_const]
  constructor
  · rintro ⟨declared, ⟨hwell, hdeclared⟩, hall, hstate⟩
    refine ⟨hwell, hpairs.mpr ⟨declared, hdeclared⟩, ?_, hstate⟩
    exact (hprovenance declared hdeclared hwell).mp fun history hhistory ↦ (hall history hhistory).2
  · rintro ⟨hwell, hdeclares, hsource, hstate⟩
    obtain ⟨declared, hdeclared⟩ := hpairs.mp hdeclares
    refine ⟨declared, ⟨hwell, hdeclared⟩, fun history hhistory ↦ ⟨(hwell history hhistory).1, ?_⟩,
      hstate⟩
    exact (hprovenance declared hdeclared hwell).mpr hsource history hhistory

end PeerHours.TimebankRecords
