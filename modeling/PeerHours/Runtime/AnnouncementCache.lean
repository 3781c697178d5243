import Mathlib.Data.Finset.Card
import PeerHours.Identity.Statements
import PeerHours.Identity.Transparent
import PeerHours.Library.EventRun

/-!
# The cache of member-feed announcements

A runtime caches one announcement for each community, member and feed. An arriving announcement replaces a cached
one with other content whichever of them was announced later, so the cache depends on the order of arrival; and a
full cache refuses a new feed even when its entries have expired.
-/

namespace PeerHours.PeerRuntime

open Checked Json KeyedMap TimebankIdentity
open JsonValue (field)

variable {crypto : Crypto}

/-! ## Announcements -/

/-- The object of an announcement. -/
def announcementJson (announcement : MemberFeedAnnouncement crypto) : JsonValue :=
  .obj [("schema", .str memberFeedAnnouncementSchema),
    ("declaration", announcement.declaration.toJson),
    ("announcedAt", .str announcement.announcedAt), ("expiresAt", .str announcement.expiresAt),
    ("signature", .str announcement.signature)]

/-- The key of the feed that an announcement names. -/
def feedKey (announcement : MemberFeedAnnouncement crypto) : String :=
  announcement.declaration.communityId ++ "\u0000" ++ announcement.declaration.memberId ++ "\u0000" ++
    announcement.declaration.feedPublicKeyText

/-- Two announcements name the same feed of the same member in the same community. -/
def SameFeed (left right : MemberFeedAnnouncement crypto) : Prop :=
  left.declaration.communityId = right.declaration.communityId ∧
    left.declaration.memberId = right.declaration.memberId ∧
    left.declaration.feedPublicKeyText = right.declaration.feedPublicKeyText

/-- Member ids have one length. -/
theorem length_selfOwnedMemberId (key : Ed25519PublicKey crypto) :
    (selfOwnedMemberId key).toList.length = 47 := by
  rw [selfOwnedMemberId, String.toList_append, List.length_append, Base64Url.length_encode,
    crypto.length_sha256]
  rfl

/-- The key of a feed stands for its community, its member and its public key. -/
theorem feedKey_inj {left right : MemberFeedAnnouncement crypto} :
    feedKey left = feedKey right ↔ SameFeed left right := by
  constructor
  · intro h
    have hfeed (announcement : MemberFeedAnnouncement crypto) :
        announcement.declaration.feedPublicKeyText.toList.length = 64 := by
      have hkey := announcement.declaration.hypercoreKey.2
      unfold isHypercoreKey at hkey
      exact eq_of_beq (Bool.and_eq_true_iff.mp hkey).1
    have hlists := congrArg String.toList h
    simp only [feedKey, String.toList_append] at hlists
    -- The two last parts have fixed lengths, so the text is read from its end.
    obtain ⟨hrest, hfeedText⟩ := List.append_inj' hlists ((hfeed left).trans (hfeed right).symm)
    obtain ⟨hrest, -⟩ := List.append_inj' hrest rfl
    obtain ⟨hrest, hmember⟩ := List.append_inj' hrest
      ((length_selfOwnedMemberId _).trans (length_selfOwnedMemberId _).symm)
    obtain ⟨hcommunity, -⟩ := List.append_inj' hrest rfl
    exact ⟨String.toList_inj.mp hcommunity, String.toList_inj.mp hmember,
      String.toList_inj.mp hfeedText⟩
  · rintro ⟨hcommunity, hmember, hfeed⟩
    unfold feedKey
    rw [hcommunity, hmember, hfeed]

/-- The announcement was created from some object. -/
def Created (announcement : MemberFeedAnnouncement crypto) : Prop :=
  createMemberFeedDeclaration crypto announcement.declaration.toJson = .ok announcement.declaration

theorem created_of_createMemberFeedAnnouncement {value : JsonValue}
    {announcement : MemberFeedAnnouncement crypto}
    (h : createMemberFeedAnnouncement crypto value = .ok announcement) : Created announcement := by
  simp only [createMemberFeedAnnouncement, bind_eq_ok] at h
  obtain ⟨_, -, declaration, hdeclaration, announcedAt, -, expiresAt, -, h⟩ := h
  split at h
  · split at h
    · obtain ⟨signature, -, h⟩ := bind_eq_ok.mp h
      split at h
      · obtain rfl := pure_eq_ok.mp h
        exact createMemberFeedDeclaration_toJson hdeclaration
      · cases h
    · cases h
  · cases h

/-- A created announcement is created again from its own object. -/
theorem createMemberFeedAnnouncement_announcementJson {announcement : MemberFeedAnnouncement crypto}
    (h : Created announcement) :
    createMemberFeedAnnouncement crypto (announcementJson announcement) = .ok announcement := by
  have hdeclaration : createMemberFeedDeclaration crypto
      (((announcementJson announcement).field "declaration").getD .null) =
        .ok announcement.declaration := h
  have hannounced : Timestamp.isCanonical announcement.announcedAt = true := by
    rw [Timestamp.isCanonical, announcement.announced]
    rfl
  have hexpires : Timestamp.isCanonical announcement.expiresAt = true := by
    rw [Timestamp.isCanonical, announcement.expires]
    rfl
  simp only [createMemberFeedAnnouncement, bind_eq_ok, require_eq_ok, assertCanonicalTimestamp_eq_ok]
  refine ⟨(), rfl, announcement.declaration, hdeclaration, ⟨announcement.announcedAt, hannounced⟩, rfl,
    ⟨announcement.expiresAt, hexpires⟩, rfl, ?_⟩
  split
  · rename_i announcedMillis expiresMillis hannouncedMillis hexpiresMillis
    obtain rfl := Option.some.inj (hannouncedMillis.symm.trans announcement.announced)
    obtain rfl := Option.some.inj (hexpiresMillis.symm.trans announcement.expires)
    rw [dif_pos announcement.short]
    refine bind_eq_ok.mpr ⟨announcement.signature, rfl, ?_⟩
    rw [dif_pos announcement.signed]
    rfl
  · rename_i hnone
    exact absurd announcement.expires (hnone _ _ announcement.announced)

/-- The content of a created announcement determines it. -/
theorem eq_of_content {left right : MemberFeedAnnouncement crypto} (hleft : Created left)
    (hright : Created right)
    (h : stringify (announcementJson left) = stringify (announcementJson right)) : left = right := by
  have hcreate := createMemberFeedAnnouncement_announcementJson hleft
  rw [stringify_inj.mp h, createMemberFeedAnnouncement_announcementJson hright] at hcreate
  exact (Except.ok.inj hcreate).symm

/-! ## The cache -/

/-- How many feeds a runtime caches announcements of. -/
def maxDiscoveredMemberFeeds : Nat := 1024

variable (crypto) in
/-- The clock and the announcements by the key of their feed, in the order of their first arrival. -/
structure AnnouncementCache where
  now : Int
  discovered : List (MemberFeedAnnouncement crypto)

/-- Whether an announcement's signed discovery window has already ended. -/
def isExpiredMemberFeedAnnouncement (now : Int) (announcement : MemberFeedAnnouncement crypto) : Bool :=
  decide (announcement.expiresMillis ≤ now)

/-- Removes expired announcements. -/
def pruneExpiredMemberFeedAnnouncements (cache : AnnouncementCache crypto) : AnnouncementCache crypto :=
  { cache with
    discovered := cache.discovered.filter fun announcement ↦
      !isExpiredMemberFeedAnnouncement cache.now announcement }

/-- Adds a new announcement only when it is not a duplicate of the cached terms. -/
def rememberMemberFeedAnnouncement (announcement : MemberFeedAnnouncement crypto)
    (discovered : List (MemberFeedAnnouncement crypto)) :
    Bool × List (MemberFeedAnnouncement crypto) :=
  match lookup feedKey (feedKey announcement) discovered with
  | some existing =>
      if stringify (announcementJson existing) = stringify (announcementJson announcement) then
        (false, discovered)
      else (true, upsert feedKey announcement discovered)
  | none =>
      if maxDiscoveredMemberFeeds ≤ discovered.length then (false, discovered)
      else (true, upsert feedKey announcement discovered)

/-- What an arriving value contributes, if anything: a created announcement that has not expired. -/
def receivedAnnouncement (now : Int) (value : JsonValue) : Option (MemberFeedAnnouncement crypto) :=
  match createMemberFeedAnnouncement crypto value with
  | .ok announcement =>
      if isExpiredMemberFeedAnnouncement now announcement then none else some announcement
  | .error _ => none

/-- Validates and caches a newly announced remote member feed. Opening the feed and relaying the cached
announcements follow later, if the cache has changed. -/
def receiveMemberFeedAnnouncement (value : JsonValue) (cache : AnnouncementCache crypto) :
    AnnouncementCache crypto :=
  match receivedAnnouncement cache.now value with
  | some announcement =>
      { cache with discovered := (rememberMemberFeedAnnouncement announcement cache.discovered).2 }
  | none => cache

/-- Checks an announcement of the runtime's own feed. -/
def publishableAnnouncement (ownFeedKey : Option String) (now : Int) (value : JsonValue) :
    Except String (MemberFeedAnnouncement crypto) := do
  let announcement ← createMemberFeedAnnouncement crypto value
  let publicKey ← present ownFeedKey
    "Only a member runtime with a local member feed can announce a feed."
  require (announcement.declaration.feedPublicKey = .str publicKey)
    "A member runtime can announce only its own local member feed."
  require (isExpiredMemberFeedAnnouncement now announcement = false)
    "A member runtime cannot publish an expired member feed announcement."
  pure announcement

/-- Publishes the runtime's own announcement, and prunes the cache as it broadcasts it. -/
def publishMemberFeedAnnouncement (ownFeedKey : Option String) (value : JsonValue)
    (cache : AnnouncementCache crypto) : Except String (AnnouncementCache crypto) := do
  let announcement ← publishableAnnouncement ownFeedKey cache.now value
  pure (pruneExpiredMemberFeedAnnouncements
    { cache with discovered := (rememberMemberFeedAnnouncement announcement cache.discovered).2 })

/-- What happens to a runtime's cache: the clock moves, the announcements are broadcast or shown (which prunes
them), a value arrives from a peer, or the runtime announces its own feed. -/
inductive CacheEvent where
  | clock (now : Int)
  | prune
  | receive (value : JsonValue)
  | publish (value : JsonValue)

/-- One step of the cache. A failed publication leaves it as it is. -/
def cacheStep (ownFeedKey : Option String) (cache : AnnouncementCache crypto) (event : CacheEvent) :
    AnnouncementCache crypto :=
  match event with
  | .clock now => { cache with now := now }
  | .prune => pruneExpiredMemberFeedAnnouncements cache
  | .receive value => receiveMemberFeedAnnouncement value cache
  | .publish value =>
      match publishMemberFeedAnnouncement ownFeedKey value cache with
      | .ok next => next
      | .error _ => cache

/-- The announcement that an event brings. -/
def arriving (ownFeedKey : Option String) (now : Int) (event : CacheEvent) :
    Option (MemberFeedAnnouncement crypto) :=
  match event with
  | .clock _ | .prune => none
  | .receive value => receivedAnnouncement now value
  | .publish value =>
      match publishableAnnouncement ownFeedKey now value with
      | .ok announcement => some announcement
      | .error _ => none

/-! ## One arrival -/

/-- What the cache keeps to: entries with distinct keys, no more of them than it may hold, each created. -/
structure Kept (discovered : List (MemberFeedAnnouncement crypto)) : Prop where
  distinct : (discovered.map feedKey).Nodup
  bounded : discovered.length ≤ maxDiscoveredMemberFeeds
  created : ∀ announcement ∈ discovered, Created announcement

variable {discovered : List (MemberFeedAnnouncement crypto)}
  {announcement : MemberFeedAnnouncement crypto}

/-- What remembering an announcement does to a kept cache: a known one and one of a new feed at capacity change
nothing, and any other one takes the place of its feed. -/
theorem rememberMemberFeedAnnouncement_cases (hkept : Kept discovered) (hcreated : Created announcement) :
    (lookup feedKey (feedKey announcement) discovered = some announcement ∧
      (rememberMemberFeedAnnouncement announcement discovered).2 = discovered) ∨
    (lookup feedKey (feedKey announcement) discovered = none ∧
      maxDiscoveredMemberFeeds ≤ discovered.length ∧
      (rememberMemberFeedAnnouncement announcement discovered).2 = discovered) ∨
    ((lookup feedKey (feedKey announcement) discovered = none →
        discovered.length < maxDiscoveredMemberFeeds) ∧
      (rememberMemberFeedAnnouncement announcement discovered).2 =
        upsert feedKey announcement discovered) := by
  unfold rememberMemberFeedAnnouncement
  cases hlookup : lookup feedKey (feedKey announcement) discovered with
  | some existing =>
      dsimp only
      split
      · rename_i hcontent
        obtain ⟨hmem, -⟩ := lookup_eq_some hlookup
        obtain rfl := eq_of_content (hkept.created existing hmem) hcreated hcontent
        exact Or.inl ⟨rfl, rfl⟩
      · exact Or.inr (Or.inr ⟨(fun hnone ↦ by cases hnone), rfl⟩)
  | none =>
      dsimp only
      split
      · rename_i hfull
        exact Or.inr (Or.inl ⟨rfl, hfull, rfl⟩)
      · rename_i hroom
        exact Or.inr (Or.inr ⟨fun _ ↦ Nat.lt_of_not_le hroom, rfl⟩)

theorem kept_nil : Kept ([] : List (MemberFeedAnnouncement crypto)) where
  distinct := List.nodup_nil
  bounded := Nat.zero_le _
  created entry hmem := by cases hmem

theorem Kept.remember (hkept : Kept discovered) (hcreated : Created announcement) :
    Kept (rememberMemberFeedAnnouncement announcement discovered).2 := by
  rcases rememberMemberFeedAnnouncement_cases hkept hcreated with
    ⟨-, hsame⟩ | ⟨-, -, hsame⟩ | ⟨hroom, hupsert⟩
  · rwa [hsame]
  · rwa [hsame]
  · rw [hupsert]
    refine ⟨nodup_upsert hkept.distinct, ?_, ?_⟩
    · have hlength := congrArg List.length (@map_key_upsert _ _ _ feedKey announcement discovered)
      rw [List.length_map] at hlength
      split at hlength
      · rw [hlength, List.length_map]
        exact hkept.bounded
      · rename_i hfresh
        have hnone : lookup feedKey (feedKey announcement) discovered = none :=
          lookup_eq_none.mpr fun entry hmem hsame ↦ hfresh (hsame ▸ List.mem_map_of_mem hmem)
        have hless := hroom hnone
        rw [List.length_append, List.length_map, List.length_singleton] at hlength
        omega
    · intro entry hmem
      cases eq_or_mem_of_mem_upsert hmem with
      | inl hnew => exact hnew ▸ hcreated
      | inr hold => exact hkept.created entry hold

theorem Kept.filter (hkept : Kept discovered) (keep : MemberFeedAnnouncement crypto → Bool) :
    Kept (discovered.filter keep) where
  distinct := hkept.distinct.sublist (List.filter_sublist.map feedKey)
  bounded := (List.length_filter_le keep discovered).trans hkept.bounded
  created entry hmem := hkept.created entry (List.mem_filter.mp hmem).1

/-! ## Runs -/

/-- An announcement that a step brings was created and has not expired, and the step remembers it; it may prune
the cache as well. -/
theorem cacheStep_arriving {ownFeedKey : Option String} {cache : AnnouncementCache crypto}
    {event : CacheEvent} (h : arriving ownFeedKey cache.now event = some announcement) :
    Created announcement ∧ isExpiredMemberFeedAnnouncement cache.now announcement = false ∧
    ∃ keep, keep announcement = true ∧ (cacheStep ownFeedKey cache event).discovered =
      (rememberMemberFeedAnnouncement announcement cache.discovered).2.filter keep := by
  cases event with
  | clock now => cases h
  | prune => cases h
  | receive value =>
      have hreceived : receivedAnnouncement cache.now value = some announcement := h
      have hstep : (cacheStep ownFeedKey cache (.receive value)).discovered =
          (rememberMemberFeedAnnouncement announcement cache.discovered).2 := by
        show (receiveMemberFeedAnnouncement value cache).discovered = _
        unfold receiveMemberFeedAnnouncement
        rw [hreceived]
      unfold receivedAnnouncement at hreceived
      split at hreceived
      · rename_i created hcreate
        split at hreceived
        · cases hreceived
        · rename_i hfresh
          obtain rfl := Option.some.inj hreceived
          refine ⟨created_of_createMemberFeedAnnouncement hcreate, eq_false_of_ne_true hfresh,
            fun _ ↦ true, rfl, ?_⟩
          rw [hstep, List.filter_true]
      · cases hreceived
  | publish value =>
      have hpublished : (match @publishableAnnouncement crypto ownFeedKey cache.now value with
        | .ok announcement => some announcement
        | .error _ => none) = some announcement := h
      split at hpublished
      · rename_i created hcreate
        obtain rfl := Option.some.inj hpublished
        have hstep : (cacheStep ownFeedKey cache (.publish value)).discovered =
            (rememberMemberFeedAnnouncement created cache.discovered).2.filter fun entry ↦
              !isExpiredMemberFeedAnnouncement cache.now entry := by
          show (match publishMemberFeedAnnouncement ownFeedKey value cache with
            | .ok next => next
            | .error _ => cache).discovered = _
          unfold publishMemberFeedAnnouncement
          rw [hcreate]
          rfl
        simp only [publishableAnnouncement, bind_eq_ok, require_eq_ok, pure_eq_ok] at hcreate
        obtain ⟨_, hvalue, _, -, _, -, _, hfresh, rfl⟩ := hcreate
        exact ⟨created_of_createMemberFeedAnnouncement hvalue, hfresh, _, by simp [hfresh], hstep⟩
      · cases hpublished

/-- A step that brings no announcement at most prunes the cache. -/
theorem cacheStep_of_none {ownFeedKey : Option String} {cache : AnnouncementCache crypto}
    {event : CacheEvent} (h : @arriving crypto ownFeedKey cache.now event = none) :
    ∃ keep, (cacheStep ownFeedKey cache event).discovered = cache.discovered.filter keep := by
  cases event with
  | clock now => exact ⟨fun _ ↦ true, (List.filter_true _).symm⟩
  | prune => exact ⟨_, rfl⟩
  | receive value =>
      have hreceived : @receivedAnnouncement crypto cache.now value = none := h
      refine ⟨fun _ ↦ true, ?_⟩
      rw [List.filter_true]
      show (receiveMemberFeedAnnouncement value cache).discovered = _
      unfold receiveMemberFeedAnnouncement
      rw [hreceived]
  | publish value =>
      have hpublished : (match @publishableAnnouncement crypto ownFeedKey cache.now value with
        | .ok announcement => some announcement
        | .error _ => none) = none := h
      split at hpublished
      · cases hpublished
      · rename_i message herror
        refine ⟨fun _ ↦ true, ?_⟩
        rw [List.filter_true]
        show (match publishMemberFeedAnnouncement ownFeedKey value cache with
          | .ok next => next
          | .error _ => cache).discovered = _
        unfold publishMemberFeedAnnouncement
        rw [herror]
        rfl

/-- Every step keeps the cache kept. -/
theorem Kept.step {cache : AnnouncementCache crypto} (hkept : Kept cache.discovered)
    (ownFeedKey : Option String) (event : CacheEvent) :
    Kept (cacheStep ownFeedKey cache event).discovered := by
  cases harriving : @arriving crypto ownFeedKey cache.now event with
  | some announcement =>
      obtain ⟨hcreated, -, keep, -, hstep⟩ := cacheStep_arriving harriving
      rw [hstep]
      exact (hkept.remember hcreated).filter keep
  | none =>
      obtain ⟨keep, hstep⟩ := cacheStep_of_none harriving
      rw [hstep]
      exact hkept.filter keep

/-- A kept entry survives a filter that keeps it. -/
theorem Kept.lookup_filter (hkept : Kept discovered) {wanted : String}
    (h : lookup feedKey wanted discovered = some announcement)
    {keep : MemberFeedAnnouncement crypto → Bool} (hkeep : keep announcement = true) :
    lookup feedKey wanted (discovered.filter keep) = some announcement := by
  obtain ⟨hmem, hkey⟩ := lookup_eq_some h
  exact (lookup_eq_some_iff (hkept.filter keep).distinct).mpr
    ⟨List.mem_filter.mpr ⟨hmem, hkeep⟩, hkey⟩

/-- What a step is to do with an arriving announcement: one older than the cached one of its feed leaves that one
in place, a newer one takes its place, and only a cache full of unexpired announcements refuses a new feed. -/
def KeepsNewest (ownFeedKey : Option String) (cache : AnnouncementCache crypto) (event : CacheEvent) :
    Prop :=
  ∀ announcement : MemberFeedAnnouncement crypto,
    arriving ownFeedKey cache.now event = some announcement →
    let next := (cacheStep ownFeedKey cache event).discovered
    (∀ cached, lookup feedKey (feedKey announcement) cache.discovered = some cached →
      (announcement.announcedMillis < cached.announcedMillis →
        lookup feedKey (feedKey announcement) next = some cached) ∧
      (cached.announcedMillis < announcement.announcedMillis →
        lookup feedKey (feedKey announcement) next = some announcement)) ∧
    (lookup feedKey (feedKey announcement) cache.discovered = none →
      lookup feedKey (feedKey announcement) next = none →
      maxDiscoveredMemberFeeds ≤ (cache.discovered.filter fun entry ↦
        !isExpiredMemberFeedAnnouncement cache.now entry).length)

/-- No announcement arrives after a later one of its feed, and none of a new feed while a full cache holds an
expired entry. -/
def ArrivesInOrder (ownFeedKey : Option String) (cache : AnnouncementCache crypto)
    (event : CacheEvent) : Prop :=
  ∀ announcement : MemberFeedAnnouncement crypto,
    arriving ownFeedKey cache.now event = some announcement →
    (∀ cached, lookup feedKey (feedKey announcement) cache.discovered = some cached →
      cached.announcedMillis ≤ announcement.announcedMillis) ∧
    (lookup feedKey (feedKey announcement) cache.discovered = none →
      maxDiscoveredMemberFeeds ≤ cache.discovered.length →
      ∀ entry ∈ cache.discovered, isExpiredMemberFeedAnnouncement cache.now entry = false)

theorem keepsNewest_iff {ownFeedKey : Option String} {cache : AnnouncementCache crypto}
    (hkept : Kept cache.discovered) (event : CacheEvent) :
    KeepsNewest ownFeedKey cache event ↔ ArrivesInOrder ownFeedKey cache event := by
  refine forall₂_congr fun announcement harriving ↦ ?_
  obtain ⟨hcreated, hfresh, keep, hkeep, hstep⟩ := cacheStep_arriving harriving
  have hremembered := hkept.remember hcreated
  dsimp only
  rw [hstep]
  rcases rememberMemberFeedAnnouncement_cases hkept hcreated with
    ⟨hlookup, hsame⟩ | ⟨hlookup, hfull, hsame⟩ | ⟨hroom, hupsert⟩
  · -- A known announcement is neither older nor newer than itself.
    simp [hlookup]
  · rw [hlookup, hsame]
    have hnone : lookup feedKey (feedKey announcement) (cache.discovered.filter keep) = none :=
      lookup_eq_none.mpr fun entry hmem ↦ lookup_eq_none.mp hlookup entry (List.mem_filter.mp hmem).1
    have hlength : cache.discovered.length = maxDiscoveredMemberFeeds := hkept.bounded.antisymm hfull
    simp only [hnone, reduceCtorEq, false_implies, implies_true, true_and, forall_const, hfull]
    rw [← hlength]
    constructor
    · intro hcount entry hmem
      have hall := List.length_filter_eq_length_iff.mp
        ((List.length_filter_le _ _).antisymm hcount) entry hmem
      simpa using hall
    · intro hall
      refine le_of_eq (List.length_filter_eq_length_iff.mpr fun entry hmem ↦ ?_).symm
      simp [hall entry hmem]
  · have hnext : lookup feedKey (feedKey announcement)
        ((rememberMemberFeedAnnouncement announcement cache.discovered).2.filter keep) =
          some announcement := by
      refine hremembered.lookup_filter ?_ hkeep
      rw [hupsert, lookup_upsert, if_pos rfl]
    rw [hnext]
    constructor
    · rintro ⟨hcached, -⟩
      refine ⟨fun cached hlookup ↦ ?_, fun hnone hfull ↦ absurd (hroom hnone) (by omega)⟩
      by_contra holder
      have hsame := (hcached cached hlookup).1 (by omega)
      rw [← Option.some.inj hsame] at holder
      exact holder le_rfl
    · rintro ⟨hcached, -⟩
      refine ⟨fun cached hlookup ↦ ⟨fun holder ↦ ?_, fun _ ↦ rfl⟩, fun _ hnone ↦ by cases hnone⟩
      have hnewer := hcached cached hlookup
      omega

/-! ## Sets of announcements -/

variable (crypto) in
/-- Valid announcements, unexpired at the clock, of no more feeds than a runtime caches. -/
structure AnnouncementSet (now : Int) where
  announcements : List (MemberFeedAnnouncement crypto)
  created : ∀ announcement ∈ announcements, Created announcement
  unexpired : ∀ announcement ∈ announcements,
    isExpiredMemberFeedAnnouncement now announcement = false
  few : (announcements.map feedKey).toFinset.card ≤ maxDiscoveredMemberFeeds

/-- The cache after announcements arrive from peers while the clock stands. -/
def receiveAll (now : Int) (arrivals : List (MemberFeedAnnouncement crypto)) :
    AnnouncementCache crypto :=
  EventRun.run (cacheStep none) ⟨now, []⟩
    (arrivals.map fun announcement ↦ .receive (announcementJson announcement))

variable {now : Int} {set : AnnouncementSet crypto now}

/-- The announcements of a set arrive in some order, each at least once. -/
def Enumerates (arrivals : List (MemberFeedAnnouncement crypto)) (set : AnnouncementSet crypto now) :
    Prop :=
  ∀ announcement, announcement ∈ arrivals ↔ announcement ∈ set.announcements

/-- The cache joins what arrives: it does not depend on the order, and it has a latest announcement of every
feed. -/
structure Joins (set : AnnouncementSet crypto now) : Prop where
  same : ∀ first second, Enumerates first set → Enumerates second set → ∀ key,
    lookup feedKey key (receiveAll now first).discovered =
      lookup feedKey key (receiveAll now second).discovered
  latest : ∀ arrivals, Enumerates arrivals set → ∀ announcement ∈ set.announcements,
    ∃ cached ∈ set.announcements, SameFeed cached announcement ∧
      lookup feedKey (feedKey announcement) (receiveAll now arrivals).discovered = some cached ∧
      ∀ other ∈ set.announcements, SameFeed other announcement →
        other.announcedMillis ≤ cached.announcedMillis

/-- No feed has two announcements in the set. -/
def NamesFeedsOnce (set : AnnouncementSet crypto now) : Prop :=
  ∀ left ∈ set.announcements, ∀ right ∈ set.announcements, SameFeed left right → left = right

theorem receiveAll_append (arrivals : List (MemberFeedAnnouncement crypto))
    (announcement : MemberFeedAnnouncement crypto) :
    receiveAll now (arrivals ++ [announcement]) =
      receiveMemberFeedAnnouncement (announcementJson announcement) (receiveAll now arrivals) := by
  unfold receiveAll
  rw [List.map_append, EventRun.run_append]
  rfl

theorem now_receiveAll (arrivals : List (MemberFeedAnnouncement crypto)) :
    (receiveAll now arrivals).now = now := by
  induction arrivals using List.reverseRecOn with
  | nil => rfl
  | append_singleton arrivals announcement ih =>
      rw [receiveAll_append]
      unfold receiveMemberFeedAnnouncement
      split
      · exact ih
      · exact ih

/-- A cache of some announcements of a set, without one of its feeds, has room for that feed. -/
theorem AnnouncementSet.room (set : AnnouncementSet crypto now) (hkept : Kept discovered)
    (hsub : ∀ entry ∈ discovered, entry ∈ set.announcements)
    (hmem : announcement ∈ set.announcements)
    (hnone : lookup feedKey (feedKey announcement) discovered = none) :
    discovered.length < maxDiscoveredMemberFeeds := by
  have hfresh : feedKey announcement ∉ discovered.map feedKey := by
    intro hin
    obtain ⟨entry, hentry, hsame⟩ := List.mem_map.mp hin
    exact lookup_eq_none.mp hnone entry hentry hsame
  have hnodup : (feedKey announcement :: discovered.map feedKey).Nodup :=
    List.nodup_cons.mpr ⟨hfresh, hkept.distinct⟩
  have hcard := List.toFinset_card_of_nodup hnodup
  have hsubset : (feedKey announcement :: discovered.map feedKey).toFinset ⊆
      (set.announcements.map feedKey).toFinset := by
    intro key hkey
    rw [List.mem_toFinset] at hkey ⊢
    cases List.mem_cons.mp hkey with
    | inl hsame => exact hsame ▸ List.mem_map_of_mem hmem
    | inr hold =>
        obtain ⟨entry, hentry, rfl⟩ := List.mem_map.mp hold
        exact List.mem_map_of_mem (hsub entry hentry)
  have hle := (Finset.card_le_card hsubset).trans set.few
  rw [hcard, List.length_cons, List.length_map] at hle
  omega

/-- The cache holds the last arrival of every feed. -/
theorem lookup_receiveAll {arrivals : List (MemberFeedAnnouncement crypto)}
    (harrivals : ∀ announcement ∈ arrivals, announcement ∈ set.announcements) :
    Kept (receiveAll now arrivals).discovered ∧
      ∀ key, lookup feedKey key (receiveAll now arrivals).discovered =
        lookup feedKey key arrivals.reverse := by
  induction arrivals using List.reverseRecOn with
  | nil => exact ⟨kept_nil, fun _ ↦ rfl⟩
  | append_singleton arrivals announcement ih =>
      obtain ⟨hkept, hlookup⟩ := ih fun earlier hmem ↦ harrivals earlier (List.mem_append_left _ hmem)
      have hmem : announcement ∈ set.announcements := harrivals announcement (by simp)
      have hcreated := set.created announcement hmem
      have hreceived : receivedAnnouncement (receiveAll now arrivals).now
          (announcementJson announcement) = some announcement := by
        unfold receivedAnnouncement
        rw [createMemberFeedAnnouncement_announcementJson hcreated, now_receiveAll]
        simp [set.unexpired announcement hmem]
      have hstep : (receiveAll now (arrivals ++ [announcement])).discovered =
          (rememberMemberFeedAnnouncement announcement (receiveAll now arrivals).discovered).2 := by
        rw [receiveAll_append]
        unfold receiveMemberFeedAnnouncement
        rw [hreceived]
      have hsub : ∀ entry ∈ (receiveAll now arrivals).discovered, entry ∈ set.announcements := by
        intro entry hentry
        have hfound := lookup_of_mem hkept.distinct hentry
        rw [hlookup] at hfound
        have harrived := List.mem_reverse.mp (lookup_eq_some hfound).1
        exact harrivals entry (List.mem_append_left _ harrived)
      rw [hstep]
      refine ⟨hkept.remember hcreated, fun key ↦ ?_⟩
      rw [List.reverse_concat, lookup_cons]
      rcases rememberMemberFeedAnnouncement_cases hkept hcreated with
        ⟨hknown, hsame⟩ | ⟨hnone, hfull, -⟩ | ⟨-, hupsert⟩
      · rw [hsame, ← hlookup key]
        split
        · rename_i hkey
          rw [← hkey, hknown]
        · rfl
      · have hroom := set.room hkept hsub hmem hnone
        omega
      · rw [hupsert, lookup_upsert, hlookup key]

/-- A set is joined in every order exactly when it has one announcement of each feed. -/
theorem joins_iff : Joins set ↔ NamesFeedsOnce set := by
  constructor
  · intro h left hleft right hright hsame
    -- The last arrival of the feed is the one that stays.
    have hlast (last : MemberFeedAnnouncement crypto) (hmem : last ∈ set.announcements) :
        Enumerates (set.announcements ++ [last]) set ∧
          lookup feedKey (feedKey last) (receiveAll now (set.announcements ++ [last])).discovered =
            some last := by
      have henumerates : Enumerates (set.announcements ++ [last]) set := by
        intro announcement
        simp only [List.mem_append, List.mem_singleton, or_iff_left_iff_imp]
        rintro rfl
        exact hmem
      refine ⟨henumerates, ?_⟩
      rw [(lookup_receiveAll fun announcement ↦ (henumerates announcement).mp).2,
        List.reverse_concat, lookup_cons, if_pos rfl]
    obtain ⟨hfirst, hleftLast⟩ := hlast left hleft
    obtain ⟨hsecond, hrightLast⟩ := hlast right hright
    rw [h.same _ _ hfirst hsecond, feedKey_inj.mpr hsame, hrightLast] at hleftLast
    exact (Option.some.inj hleftLast).symm
  · intro h
    have hfound (arrivals : List (MemberFeedAnnouncement crypto)) (harrivals : Enumerates arrivals set)
        (key : String) (announcement : MemberFeedAnnouncement crypto) :
        lookup feedKey key (receiveAll now arrivals).discovered = some announcement ↔
          announcement ∈ set.announcements ∧ feedKey announcement = key := by
      rw [(lookup_receiveAll fun announcement ↦ (harrivals announcement).mp).2]
      constructor
      · intro hlookup
        obtain ⟨hmem, hkey⟩ := lookup_eq_some hlookup
        exact ⟨(harrivals announcement).mp (List.mem_reverse.mp hmem), hkey⟩
      · rintro ⟨hmem, rfl⟩
        cases hlookup : lookup feedKey (feedKey announcement) arrivals.reverse with
        | none =>
            have harrived := List.mem_reverse.mpr ((harrivals announcement).mpr hmem)
            exact absurd rfl (lookup_eq_none.mp hlookup announcement harrived)
        | some other =>
            obtain ⟨hother, hkey⟩ := lookup_eq_some hlookup
            have hotherMem := (harrivals other).mp (List.mem_reverse.mp hother)
            rw [h other hotherMem announcement hmem (feedKey_inj.mp hkey)]
    constructor
    · intro first second hfirst hsecond key
      refine Option.ext fun announcement ↦ ?_
      rw [hfound first hfirst, hfound second hsecond]
    · intro arrivals harrivals announcement hmem
      refine ⟨announcement, hmem, feedKey_inj.mp rfl, (hfound arrivals harrivals _ _).mpr ⟨hmem, rfl⟩,
        fun other hother hsame ↦ ?_⟩
      rw [h other hother announcement hmem hsame]

/-- The cache is a join exactly of the sets with one announcement of each feed; and a run treats every arrival as
it is to exactly when each arrives in order. -/
theorem announcements_join_iff (crypto : Crypto) :
    (∀ (now : Int) (set : AnnouncementSet crypto now), Joins set ↔ NamesFeedsOnce set) ∧
    ∀ (ownFeedKey : Option String) (now : Int) (events : List CacheEvent),
      EventRun.Along (cacheStep ownFeedKey) (@KeepsNewest crypto ownFeedKey) ⟨now, []⟩ events ↔
        EventRun.Along (cacheStep ownFeedKey) (@ArrivesInOrder crypto ownFeedKey) ⟨now, []⟩
          events := by
  refine ⟨fun now set ↦ joins_iff, fun ownFeedKey now events ↦ ?_⟩
  exact @EventRun.along_congr _ _ _ _ _ _ (fun cache ↦ Kept cache.discovered)
    (fun cache event hkept _ ↦ hkept.step ownFeedKey event)
    (fun cache event hkept ↦ keepsNewest_iff hkept event)
    kept_nil _

/-! ## A replay -/

/-- A root key of the transparent host. -/
def gardenRoot : Ed25519PublicKey transparentCrypto :=
  transparentKey "ada-root" (by decide) (by decide)

/-- Ada's declared feed. -/
def gardenDeclaration : MemberFeedDeclaration transparentCrypto where
  communityId := "garden"
  feedPublicKey := .str (String.ofList (List.replicate 64 'a'))
  feedPublicKeyText := String.ofList (List.replicate 64 'a')
  occurredAt := "2025-06-01T12:00:00.000Z"
  rootPublicKey := gardenRoot
  signature := Base64Url.encode (keyBytes "ada-root")
  properties := [("schema", .str memberFeedDeclarationSchema),
    ("memberId", .str (selfOwnedMemberId gardenRoot)), ("communityId", .str "garden"),
    ("feedPublicKey", .str (String.ofList (List.replicate 64 'a'))),
    ("occurredAt", .str "2025-06-01T12:00:00.000Z"), ("rootPublicKeyPem", .str "ada-root"),
    ("signature", .str (Base64Url.encode (keyBytes "ada-root")))]
  present := blank_garden
  hypercoreKey := hypercoreKey_adaFeed
  timestamp := isCanonical_noon
  signed := signedBy_transparentKey "ada-root" (by decide) (by decide) _

/-- An announcement of Ada's feed for a minute from a moment of the noon hour on. -/
def gardenAnnouncement (announcedAt expiresAt : String) (announcedMillis expiresMillis : Int)
    (announced : Timestamp.millis? announcedAt = some announcedMillis)
    (expires : Timestamp.millis? expiresAt = some expiresMillis)
    (short : announcedMillis < expiresMillis) : MemberFeedAnnouncement transparentCrypto where
  declaration := gardenDeclaration
  announcedAt := announcedAt
  expiresAt := expiresAt
  signature := Base64Url.encode (keyBytes "ada-root")
  announcedMillis := announcedMillis
  expiresMillis := expiresMillis
  announced := announced
  expires := expires
  short := short
  signed := signedBy_transparentKey "ada-root" (by decide) (by decide) _

/-- An announcement of Ada's feed at noon, for an hour. -/
def olderAnnouncement : MemberFeedAnnouncement transparentCrypto :=
  gardenAnnouncement "2025-06-01T12:00:00.000Z" "2025-06-01T13:00:00.000Z" 1748779200000 1748782800000
    (by decide) (by decide) (by decide)

/-- An announcement of the same feed ten minutes later. -/
def newerAnnouncement : MemberFeedAnnouncement transparentCrypto :=
  gardenAnnouncement "2025-06-01T12:10:00.000Z" "2025-06-01T13:10:00.000Z" 1748779800000 1748783400000
    (by decide) (by decide) (by decide)

/-- Both announcements at half past twelve. -/
def renewedAnnouncements : AnnouncementSet transparentCrypto 1748781000000 where
  announcements := [olderAnnouncement, newerAnnouncement]
  created announcement hmem := by
    have hdeclaration : createMemberFeedDeclaration transparentCrypto gardenDeclaration.toJson =
        .ok gardenDeclaration := createMemberFeedDeclaration_eq_ok.mpr
      ⟨rfl, rfl, rfl, rfl, rfl, rfl, rfl, rfl⟩
    cases List.mem_pair.mp hmem with
    | inl holder => exact holder ▸ hdeclaration
    | inr hnewer => exact hnewer ▸ hdeclaration
  unexpired announcement hmem := by
    cases List.mem_pair.mp hmem with
    | inl holder => exact holder ▸ by decide
    | inr hnewer => exact hnewer ▸ by decide
  few := (List.toFinset_card_le _).trans (by decide)

/-- A replay of the older announcement replaces the newer one, and shortens the expiry of the feed. -/
theorem older_replay_replaces_newer :
    SameFeed olderAnnouncement newerAnnouncement ∧
    olderAnnouncement.announcedMillis < newerAnnouncement.announcedMillis ∧
    olderAnnouncement.expiresMillis < newerAnnouncement.expiresMillis ∧
    lookup feedKey (feedKey newerAnnouncement)
      (receiveAll 1748781000000 [newerAnnouncement]).discovered = some newerAnnouncement ∧
    lookup feedKey (feedKey newerAnnouncement)
      (receiveAll 1748781000000 [newerAnnouncement, olderAnnouncement]).discovered =
        some olderAnnouncement ∧
    ¬ Joins renewedAnnouncements := by
  have hsub (arrivals : List (MemberFeedAnnouncement transparentCrypto))
      (harrivals : ∀ announcement ∈ arrivals,
        announcement = olderAnnouncement ∨ announcement = newerAnnouncement) :
      ∀ announcement ∈ arrivals, announcement ∈ renewedAnnouncements.announcements :=
    fun announcement hmem ↦ List.mem_pair.mpr (harrivals announcement hmem)
  have hkeys : feedKey olderAnnouncement = feedKey newerAnnouncement := rfl
  refine ⟨⟨rfl, rfl, rfl⟩, by decide, by decide, ?_, ?_, ?_⟩
  · rw [(lookup_receiveAll (hsub _ (by simp))).2, List.reverse_singleton, lookup_cons, if_pos rfl]
  · rw [(lookup_receiveAll (hsub _ (by simp))).2]
    show lookup feedKey _ [olderAnnouncement, newerAnnouncement] = _
    rw [lookup_cons, if_pos hkeys]
  · intro hjoins
    have hsame := joins_iff.mp hjoins olderAnnouncement (List.mem_pair.mpr (Or.inl rfl))
      newerAnnouncement (List.mem_pair.mpr (Or.inr rfl)) ⟨rfl, rfl, rfl⟩
    have hmillis : olderAnnouncement.announcedMillis = newerAnnouncement.announcedMillis := by
      rw [hsame]
    exact absurd hmillis (by decide)

end PeerHours.PeerRuntime
