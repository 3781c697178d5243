import PeerHours.Identity.Lifecycle

/-!
# Where events leave a key

A key has an authorization once an event activated it. The last activation says whose key it is and with which
material, and the last event whether it is active. Further events leave the authorizations of a history as they
are exactly when no key is new among them, no key is left otherwise, and the last events stand in the same order.
-/

namespace PeerHours.TimebankIdentity

open Checked KeyedMap Sorting

variable {crypto : Crypto}

/-! ## One key -/

/-- The authorizations that the activations of a key created, in order. -/
def activationsOf (events : List (MemberSigningKeyAuthorizationEvent crypto)) (key : String) :
    List (MemberSigningKeyAuthorization crypto) :=
  events.filterMap fun event ↦
    if event.indexKey = key then event.action.publicKey?.map event.activated else none

/-- The events of a key. -/
def eventsOf (events : List (MemberSigningKeyAuthorizationEvent crypto)) (key : String) :
    List (MemberSigningKeyAuthorizationEvent crypto) :=
  events.filter fun event ↦ decide (event.indexKey = key)

/-- The authorization of a last activation with the state and the stamp of a last event. -/
def MemberSigningKeyAuthorization.leftBy (authorization : MemberSigningKeyAuthorization crypto)
    (last : MemberSigningKeyAuthorizationEvent crypto) : ReducedAuthorization crypto :=
  ⟨{ authorization with active := last.action.publicKey?.isSome }, last.occurredAt, last.eventId⟩

/-- Where events in chronological order leave a key that one of them activates. -/
def standingOf (events : List (MemberSigningKeyAuthorizationEvent crypto)) (key : String) :
    Option (ReducedAuthorization crypto) :=
  (activationsOf events key).getLast?.bind fun authorization ↦
    (eventsOf events key).getLast?.map authorization.leftBy

/-- The place of the first activation of a key. -/
def firstActivation (events : List (MemberSigningKeyAuthorizationEvent crypto)) (key : String) : Nat :=
  events.findIdx fun event ↦ decide (event.indexKey = key) && event.action.publicKey?.isSome

theorem mem_activationsOf {events : List (MemberSigningKeyAuthorizationEvent crypto)} {key : String}
    {authorization : MemberSigningKeyAuthorization crypto} :
    authorization ∈ activationsOf events key ↔ ∃ event ∈ events, event.indexKey = key ∧
      event.action.publicKey?.map event.activated = some authorization := by
  rw [activationsOf, List.mem_filterMap]
  refine exists_congr fun event ↦ and_congr_right fun _ ↦ ?_
  split <;> simp [*]

/-- One more event moves its own key only. -/
theorem standingOf_concat (events : List (MemberSigningKeyAuthorizationEvent crypto))
    (event : MemberSigningKeyAuthorizationEvent crypto) (key : String) :
    standingOf (events ++ [event]) key =
      if event.indexKey = key then applyToCurrent (standingOf events key) event
      else standingOf events key := by
  by_cases hkey : event.indexKey = key
  · have hevents : eventsOf (events ++ [event]) key = eventsOf events key ++ [event] := by
      simp [eventsOf, hkey]
    rw [if_pos hkey, standingOf, hevents, List.getLast?_concat, applyToCurrent]
    cases haction : event.action with
    | activate publicKey =>
        have hactivations : activationsOf (events ++ [event]) key =
            activationsOf events key ++ [event.activated publicKey] := by
          simp [activationsOf, hkey, haction, MemberSigningKeyAuthorizationAction.publicKey?]
        rw [hactivations, List.getLast?_concat]
        simp [MemberSigningKeyAuthorization.leftBy, haction,
          MemberSigningKeyAuthorizationAction.publicKey?, MemberSigningKeyAuthorizationEvent.activated]
    | revoke =>
        have hactivations : activationsOf (events ++ [event]) key = activationsOf events key := by
          simp [activationsOf, haction, MemberSigningKeyAuthorizationAction.publicKey?]
        rw [hactivations]
        show _ = (standingOf events key).map _
        unfold standingOf
        cases hlast : (activationsOf events key).getLast? with
        | none => rfl
        | some authorization =>
            -- an activated key has a last event
            obtain ⟨earlier, hearlier, hearlierKey, -⟩ :=
              mem_activationsOf.mp (List.mem_of_getLast? hlast)
            have hne : eventsOf events key ≠ [] := by
              refine List.ne_nil_of_mem (List.mem_filter.mpr ⟨hearlier, ?_⟩)
              exact decide_eq_true hearlierKey
            have hsome := List.getLast?_eq_some_getLast hne
            simp [hsome, MemberSigningKeyAuthorization.leftBy, ReducedAuthorization.revokedBy, haction,
              MemberSigningKeyAuthorizationAction.publicKey?]
  · have hevents : eventsOf (events ++ [event]) key = eventsOf events key := by
      simp [eventsOf, hkey]
    have hactivations : activationsOf (events ++ [event]) key = activationsOf events key := by
      simp [activationsOf, hkey]
    rw [if_neg hkey, standingOf, hevents, hactivations]
    rfl

/-- A replay leaves every key where its last activation and its last event leave it. -/
theorem lookup_replay (events : List (MemberSigningKeyAuthorizationEvent crypto)) (key : String) :
    lookup ReducedAuthorization.indexKey key (replayAuthorizationEvents events) =
      standingOf events key := by
  induction events using List.reverseRecOn with
  | nil => rfl
  | append_singleton events event ih =>
      rw [replayAuthorizationEvents, List.foldl_append, List.foldl_cons, List.foldl_nil,
        lookup_applyAuthorizationEvent, standingOf_concat, ← ih]
      rfl

theorem indexKey_of_standingOf {events : List (MemberSigningKeyAuthorizationEvent crypto)} {key : String}
    {reduced : ReducedAuthorization crypto} (h : standingOf events key = some reduced) :
    reduced.indexKey = key := by
  rw [← lookup_replay] at h
  exact (lookup_eq_some h).2

theorem mem_replay_iff {events : List (MemberSigningKeyAuthorizationEvent crypto)}
    {reduced : ReducedAuthorization crypto} :
    reduced ∈ replayAuthorizationEvents events ↔
      standingOf events reduced.indexKey = some reduced := by
  rw [← lookup_replay]
  exact ⟨lookup_of_mem (nodup_replay events [] List.nodup_nil), fun h ↦ (lookup_eq_some h).1⟩

/-- A key stands somewhere exactly when an event activates it. -/
theorem isSome_standingOf {events : List (MemberSigningKeyAuthorizationEvent crypto)} {key : String} :
    (standingOf events key).isSome = true ↔
      ∃ event ∈ events, event.indexKey = key ∧ event.action.publicKey?.isSome = true := by
  constructor
  · intro h
    obtain ⟨reduced, hreduced⟩ := Option.isSome_iff_exists.mp h
    obtain ⟨authorization, hlast, -⟩ := Option.bind_eq_some_iff.mp hreduced
    obtain ⟨event, hevent, hkey, haction⟩ := mem_activationsOf.mp (List.mem_of_getLast? hlast)
    obtain ⟨publicKey, hpublicKey, -⟩ := Option.map_eq_some_iff.mp haction
    exact ⟨event, hevent, hkey, by simp [hpublicKey]⟩
  · rintro ⟨event, hevent, hkey, haction⟩
    obtain ⟨publicKey, hpublicKey⟩ := Option.isSome_iff_exists.mp haction
    have hactivated : event.activated publicKey ∈ activationsOf events key :=
      mem_activationsOf.mpr ⟨event, hevent, hkey, by simp [hpublicKey]⟩
    have hown : event ∈ eventsOf events key := List.mem_filter.mpr ⟨hevent, decide_eq_true hkey⟩
    rw [standingOf, List.getLast?_eq_some_getLast (List.ne_nil_of_mem hactivated),
      List.getLast?_eq_some_getLast (List.ne_nil_of_mem hown)]
    rfl

theorem firstActivation_lt {events : List (MemberSigningKeyAuthorizationEvent crypto)} {key : String}
    {reduced : ReducedAuthorization crypto} (h : standingOf events key = some reduced) :
    firstActivation events key < events.length := by
  obtain ⟨event, hevent, hkey, haction⟩ := isSome_standingOf.mp (Option.isSome_iff_exists.mpr ⟨_, h⟩)
  exact List.findIdx_lt_length_of_exists ⟨event, hevent, by simp [hkey, haction]⟩

/-- A replay lists the keys in the order of their first activations. -/
theorem pairwise_replay (events : List (MemberSigningKeyAuthorizationEvent crypto)) :
    ((replayAuthorizationEvents events).map ReducedAuthorization.indexKey).Pairwise fun left right ↦
      firstActivation events left < firstActivation events right := by
  induction events using List.reverseRecOn with
  | nil => exact List.Pairwise.nil
  | append_singleton events event ih =>
      have hbound : ∀ key ∈ (replayAuthorizationEvents events).map ReducedAuthorization.indexKey,
          firstActivation events key < events.length := by
        intro key hkey
        obtain ⟨reduced, hreduced, rfl⟩ := List.mem_map.mp hkey
        exact firstActivation_lt (mem_replay_iff.mp hreduced)
      -- a key that was activated before keeps its place
      have hkept : ∀ key ∈ (replayAuthorizationEvents events).map ReducedAuthorization.indexKey,
          firstActivation (events ++ [event]) key = firstActivation events key := by
        intro key hkey
        rw [firstActivation, List.findIdx_append]
        exact if_pos (hbound key hkey)
      have hsame : ((replayAuthorizationEvents events).map ReducedAuthorization.indexKey).Pairwise
          fun left right ↦ firstActivation (events ++ [event]) left <
            firstActivation (events ++ [event]) right := by
        refine ih.imp_of_mem fun {left right} hleft hright hless ↦ ?_
        rw [hkept left hleft, hkept right hright]
        exact hless
      have hreplay : replayAuthorizationEvents (events ++ [event]) =
          applyAuthorizationEvent (replayAuthorizationEvents events) event := by
        rw [replayAuthorizationEvents, List.foldl_append]
        rfl
      rw [hreplay, applyAuthorizationEvent]
      split
      · rename_i publicKey haction
        rw [map_key_upsert]
        split
        · exact hsame
        · rename_i hfresh
          refine List.pairwise_append.mpr ⟨hsame, List.pairwise_singleton _ _, ?_⟩
          intro key hkey added hadded
          rw [List.mem_singleton.mp hadded, hkept key hkey, firstActivation, firstActivation,
            List.findIdx_append, if_neg]
          · exact Nat.lt_of_lt_of_le (hbound key hkey) (Nat.le_add_left _ _)
          · -- an earlier activation of the key would have listed it
            intro hearlier
            obtain ⟨other, hother, hactivates⟩ := List.findIdx_lt_length.mp hearlier
            rw [Bool.and_eq_true, decide_eq_true_eq] at hactivates
            obtain ⟨reduced, hreduced⟩ := Option.isSome_iff_exists.mp
              (isSome_standingOf.mpr ⟨other, hother, hactivates⟩)
            refine hfresh (indexKey_of_standingOf hreduced ▸ List.mem_map_of_mem ?_)
            rw [mem_replay_iff, indexKey_of_standingOf hreduced]
            exact hreduced
      · split
        · rename_i current hcurrent
          rw [map_key_upsert, if_pos]
          · exact hsame
          · exact List.mem_map.mpr ⟨current, (lookup_eq_some hcurrent).1, rfl⟩
        · exact hsame

/-! ## The order of keys -/

section Ordered

variable {localeCompare : String → String → Ordering}

instance transCmpReducedAuthorizations [Std.TransCmp localeCompare] :
    Std.TransCmp (@compareReducedAuthorizations crypto localeCompare) :=
  inferInstanceAs (Std.TransCmp (compareLex _ _))

variable (localeCompare) in
/-- Two keys stand in this order: by their last events, and where these compare equal by their first
activations. -/
def StandsBefore (events : List (MemberSigningKeyAuthorizationEvent crypto)) (left right : String) :
    Prop :=
  ∃ first second, standingOf events left = some first ∧ standingOf events right = some second ∧
    (compareReducedAuthorizations localeCompare first second = .lt ∨
      compareReducedAuthorizations localeCompare first second = .eq ∧
        firstActivation events left < firstActivation events right)

variable (localeCompare) in
/-- The current authorizations in the order in which a reduction returns them. -/
def listedStandings (events : List (MemberSigningKeyAuthorizationEvent crypto)) :
    List (ReducedAuthorization crypto) :=
  sortBy (compareReducedAuthorizations localeCompare) (replayAuthorizationEvents events)

variable {events : List (MemberSigningKeyAuthorizationEvent crypto)}

theorem mem_listedStandings {reduced : ReducedAuthorization crypto} :
    reduced ∈ listedStandings localeCompare events ↔
      standingOf events reduced.indexKey = some reduced := by
  rw [listedStandings, mem_sortBy, mem_replay_iff]

theorem mem_map_listedStandings {key : String} :
    key ∈ (listedStandings localeCompare events).map ReducedAuthorization.indexKey ↔
      (standingOf events key).isSome = true := by
  rw [List.mem_map, Option.isSome_iff_exists]
  constructor
  · rintro ⟨reduced, hreduced, rfl⟩
    exact ⟨reduced, mem_listedStandings.mp hreduced⟩
  · rintro ⟨reduced, hreduced⟩
    have hkey := indexKey_of_standingOf hreduced
    exact ⟨reduced, mem_listedStandings.mpr (hkey.symm ▸ hreduced), hkey⟩

theorem nodup_listedStandings :
    ((listedStandings localeCompare events).map ReducedAuthorization.indexKey).Nodup :=
  (nodup_map_sortBy _).mpr (nodup_replay events [] List.nodup_nil)

variable [Std.TransCmp localeCompare]

/-- A reduction lists the keys in the order in which they stand. -/
theorem pairwise_listedStandings :
    ((listedStandings localeCompare events).map ReducedAuthorization.indexKey).Pairwise
      (StandsBefore localeCompare events) := by
  have hreplay := pairwise_replay events
  rw [List.pairwise_map] at hreplay ⊢
  have hstable := @pairwise_sortBy_stable _ (compareReducedAuthorizations localeCompare) _ _ _ hreplay
  refine hstable.imp_of_mem fun {left right} hleft hright hbefore ↦ ?_
  exact ⟨left, right, mem_listedStandings.mp hleft, mem_listedStandings.mp hright, hbefore⟩

/-- No two keys stand before each other. -/
theorem StandsBefore.asymm {left right : String} (h : StandsBefore localeCompare events left right) :
    ¬ StandsBefore localeCompare events right left := by
  rintro ⟨second, first, hsecond, hfirst, hreversed⟩
  obtain ⟨first', second', hfirst', hsecond', hbefore⟩ := h
  obtain rfl := Option.some.inj (hfirst'.symm.trans hfirst)
  obtain rfl := Option.some.inj (hsecond'.symm.trans hsecond)
  rw [@Std.OrientedCmp.eq_swap _ (compareReducedAuthorizations localeCompare) _ second' first']
    at hreversed
  rcases hbefore with hlt | ⟨heq, hless⟩
  · simp [hlt] at hreversed
  · rcases hreversed with hgt | ⟨-, hgreater⟩
    · simp [heq] at hgt
    · omega

omit [Std.TransCmp localeCompare] in
/-- Every listed authorization is the one that its key is left with. -/
theorem map_listedStandings :
    (listedStandings localeCompare events).map (fun reduced ↦ some reduced.authorization) =
      ((listedStandings localeCompare events).map ReducedAuthorization.indexKey).map fun key ↦
        (standingOf events key).map (·.authorization) := by
  rw [List.map_map]
  refine List.map_congr_left fun reduced hreduced ↦ ?_
  rw [Function.comp_apply, mem_listedStandings.mp hreduced]
  rfl

variable {other : List (MemberSigningKeyAuthorizationEvent crypto)}

omit [Std.TransCmp localeCompare] in
/-- Histories that return the same authorizations leave a key with the same one. -/
theorem exists_standingOf_of_map_eq
    (h : (listedStandings localeCompare events).map (·.authorization) =
      (listedStandings localeCompare other).map (·.authorization)) {key : String}
    {reduced : ReducedAuthorization crypto} (hreduced : standingOf events key = some reduced) :
    ∃ found, standingOf other key = some found ∧ found.authorization = reduced.authorization := by
  have hkey := indexKey_of_standingOf hreduced
  have hmem : reduced.authorization ∈ (listedStandings localeCompare events).map (·.authorization) :=
    List.mem_map.mpr ⟨reduced, mem_listedStandings.mpr (hkey.symm ▸ hreduced), rfl⟩
  rw [h] at hmem
  obtain ⟨found, hfound, hsame⟩ := List.mem_map.mp hmem
  have hfoundKey : found.indexKey = key := by
    rw [← hkey, ReducedAuthorization.indexKey, hsame]
    rfl
  exact ⟨found, hfoundKey ▸ mem_listedStandings.mp hfound, hsame⟩

/-- Keys that stand in an order stand in it among other events that list them alike. -/
theorem standsBefore_of_keys_eq
    (h : (listedStandings localeCompare events).map ReducedAuthorization.indexKey =
      (listedStandings localeCompare other).map ReducedAuthorization.indexKey) {left right : String}
    (hbefore : StandsBefore localeCompare events left right) :
    StandsBefore localeCompare other left right := by
  let both (first second : String) : Prop :=
    StandsBefore localeCompare events first second ∧ StandsBefore localeCompare other first second
  have hsymm : Std.Symm fun first second ↦ both first second ∨ both second first :=
    ⟨fun _ _ ↦ Or.symm⟩
  have hother := @pairwise_listedStandings _ localeCompare other _
  rw [← h] at hother
  have hpairs := ((@pairwise_listedStandings _ localeCompare events _).and hother).imp
    fun {first second} hboth ↦ (show both first second ∨ both second first from .inl hboth)
  have hne : left ≠ right := by
    rintro rfl
    exact hbefore.asymm hbefore
  obtain ⟨first, second, hfirst, hsecond, -⟩ := id hbefore
  have hleft := (@mem_map_listedStandings _ localeCompare events left).mpr
    (Option.isSome_iff_exists.mpr ⟨first, hfirst⟩)
  have hright := (@mem_map_listedStandings _ localeCompare events right).mpr
    (Option.isSome_iff_exists.mpr ⟨second, hsecond⟩)
  cases hpairs.forall hleft hright hne with
  | inl hinOrder => exact hinOrder.2
  | inr hreversed => exact absurd hreversed.1 hbefore.asymm

/-- Two histories return the same authorizations exactly when every key is left with the same one, and the keys
stand in the same order. -/
theorem map_listedStandings_eq_iff :
    (listedStandings localeCompare other).map (·.authorization) =
        (listedStandings localeCompare events).map (·.authorization) ↔
      (∀ key, (standingOf other key).map (·.authorization) =
        (standingOf events key).map (·.authorization)) ∧
      ∀ left right, StandsBefore localeCompare events left right →
        StandsBefore localeCompare other left right := by
  constructor
  · intro h
    refine ⟨fun key ↦ ?_, fun left right ↦ standsBefore_of_keys_eq ?_⟩
    · cases hlater : standingOf other key with
      | some reduced =>
          obtain ⟨found, hfound, hsame⟩ := exists_standingOf_of_map_eq h hlater
          rw [hfound, Option.map_some, Option.map_some, hsame]
      | none =>
          cases hearlier : standingOf events key with
          | none => rfl
          | some reduced =>
              obtain ⟨found, hfound, -⟩ := exists_standingOf_of_map_eq h.symm hearlier
              rw [hlater] at hfound
              cases hfound
    · have hkeys := congrArg (List.map MemberSigningKeyAuthorization.indexKey) h
      rw [List.map_map, List.map_map] at hkeys
      exact hkeys.symm
  · rintro ⟨hstandings, horder⟩
    have hkeys : (listedStandings localeCompare other).map ReducedAuthorization.indexKey =
        (listedStandings localeCompare events).map ReducedAuthorization.indexKey := by
      refine List.Perm.eq_of_pairwise (fun left right _ _ hbefore hreversed ↦ ?_)
        pairwise_listedStandings (pairwise_listedStandings.imp fun {left right} ↦ horder left right) ?_
      · exact absurd hreversed hbefore.asymm
      · refine (List.perm_ext_iff_of_nodup nodup_listedStandings nodup_listedStandings).mpr
          fun key ↦ ?_
        rw [mem_map_listedStandings, mem_map_listedStandings,
          ← Option.isSome_map (f := (·.authorization)), hstandings key, Option.isSome_map]
    have hlisted := @map_listedStandings _ localeCompare other
    rw [hkeys, List.map_congr_left fun key _ ↦ hstandings key, ← map_listedStandings] at hlisted
    have hinjective : Function.Injective (List.map (some : _ → Option
        (MemberSigningKeyAuthorization crypto))) :=
      List.map_injective_iff.mpr (Option.some_injective _)
    refine hinjective ?_
    rw [List.map_map, List.map_map]
    exact hlisted

end Ordered

/-! ## Further events -/

section Further

variable {localeCompare : String → String → Ordering}
  {events held further : List (MemberSigningKeyAuthorizationEvent crypto)}
  {authorizations : List (MemberSigningKeyAuthorization crypto)}

variable (localeCompare) in
/-- The events in the order in which they are replayed. -/
def chronological (events : List (MemberSigningKeyAuthorizationEvent crypto)) :
    List (MemberSigningKeyAuthorizationEvent crypto) :=
  sortBy (compareAuthorizationEvents localeCompare) events

/-- The events with those that arrive after them under new ids. -/
def withFurther (held further : List (MemberSigningKeyAuthorizationEvent crypto)) :
    List (MemberSigningKeyAuthorizationEvent crypto) :=
  held ++ further.filter fun event ↦ decide (event.eventId ∉ held.map (·.eventId))

variable (localeCompare) in
/-- Further events that leave the authorizations of a history as they are. -/
structure KeepsKeys (held further : List (MemberSigningKeyAuthorizationEvent crypto)) : Prop where
  /-- An activation repeats the material of a key that was activated before. -/
  material : ∀ event ∈ withFurther held further, ∀ publicKey, event.action = .activate publicKey →
    ∃ earlier ∈ held, ∃ known, earlier.action = .activate known ∧
      earlier.indexKey = event.indexKey ∧ signingKeyFingerprint known = signingKeyFingerprint publicKey
  /-- The last activation of a key, and whether its last event revokes it, are as before. -/
  standing : ∀ key,
    (standingOf (chronological localeCompare (withFurther held further)) key).map (·.authorization) =
      (standingOf (chronological localeCompare held) key).map (·.authorization)
  /-- The last events of the keys stand in the order in which they stood. -/
  order : ∀ left right, StandsBefore localeCompare (chronological localeCompare held) left right →
    StandsBefore localeCompare (chronological localeCompare (withFurther held further)) left right

theorem mem_chronological {event : MemberSigningKeyAuthorizationEvent crypto} :
    event ∈ chronological localeCompare events ↔ event ∈ events :=
  mem_sortBy

theorem stableMaterial_chronological :
    StableMaterial (chronological localeCompare events) ↔ StableMaterial events := by
  simp only [StableMaterial, mem_chronological]

variable [Std.TransCmp localeCompare]

instance transCmpAuthorizationEvents :
    Std.TransCmp (@compareAuthorizationEvents crypto localeCompare) :=
  inferInstanceAs (Std.TransCmp (compareLex _ _))

/-- Events with distinct ids are reduced exactly when their key material is stable, and to where they leave the
keys. -/
theorem reduceMemberSigningKeyAuthorizationEvents_eq_ok (hnodup : (events.map (·.eventId)).Nodup) :
    reduceMemberSigningKeyAuthorizationEvents localeCompare (chronological localeCompare events) =
        .ok authorizations ↔
      StableMaterial events ∧ (listedStandings localeCompare
        (chronological localeCompare events)).map (·.authorization) = authorizations := by
  have hcollected := @collect_map_of_nodup _ _ _ _ _
    (fun event : MemberSigningKeyAuthorizationEvent crypto ↦ event.eventId) _
    authorizationEventFingerprint "Conflicting authorization events share the same event id."
    Except.ok id (chronological localeCompare events) (fun _ _ ↦ rfl)
    ((nodup_map_sortBy _).mpr hnodup)
  rw [List.map_id] at hcollected
  have hsorted : sortBy (compareAuthorizationEvents localeCompare)
      (chronological localeCompare events) = chronological localeCompare events := sortBy_sortBy _
  rw [reduceMemberSigningKeyAuthorizationEvents, hcollected, ok_bind, hsorted]
  simp only [bind_eq_ok, assertStableKeyMaterial_eq_ok, stableMaterial_chronological, pure_eq_ok,
    exists_const, listedStandings]

theorem nodup_withFurther (hheld : (held.map (·.eventId)).Nodup)
    (hfurther : (further.map (·.eventId)).Nodup) :
    ((withFurther held further).map (·.eventId)).Nodup := by
  rw [withFurther, List.map_append]
  refine List.nodup_append.mpr ⟨hheld, hfurther.sublist (List.filter_sublist.map _), ?_⟩
  intro left hleft right hright hsame
  obtain ⟨event, hevent, rfl⟩ := List.mem_map.mp hright
  exact of_decide_eq_true (List.mem_filter.mp hevent).2 (hsame ▸ hleft)

/-- A history that is reduced is reduced to the same authorizations with further events exactly when these keep
its keys. -/
theorem reduce_withFurther_iff (hheld : (held.map (·.eventId)).Nodup)
    (hfurther : (further.map (·.eventId)).Nodup)
    (h : reduceMemberSigningKeyAuthorizationEvents localeCompare (chronological localeCompare held) =
      .ok authorizations) :
    reduceMemberSigningKeyAuthorizationEvents localeCompare
        (chronological localeCompare (withFurther held further)) = .ok authorizations ↔
      KeepsKeys localeCompare held further := by
  rw [reduceMemberSigningKeyAuthorizationEvents_eq_ok hheld] at h
  obtain ⟨hstable, rfl⟩ := h
  rw [reduceMemberSigningKeyAuthorizationEvents_eq_ok (nodup_withFurther hheld hfurther),
    map_listedStandings_eq_iff]
  constructor
  · rintro ⟨hlater, hstandings, horder⟩
    refine ⟨?_, hstandings, horder⟩
    intro event hevent publicKey haction
    -- the key stood somewhere before, so an earlier event activated it
    have hstands : (standingOf (chronological localeCompare (withFurther held further))
        event.indexKey).isSome = true :=
      isSome_standingOf.mpr ⟨event, mem_chronological.mpr hevent, rfl, by rw [haction]; rfl⟩
    rw [← Option.isSome_map (f := (·.authorization)), hstandings, Option.isSome_map,
      isSome_standingOf] at hstands
    obtain ⟨earlier, hearlier, hkey, hactivates⟩ := hstands
    have hearlierHeld := mem_chronological.mp hearlier
    cases hknown : earlier.action with
    | revoke => simp [hknown, MemberSigningKeyAuthorizationAction.publicKey?] at hactivates
    | activate known =>
        refine ⟨earlier, hearlierHeld, known, hknown, hkey, ?_⟩
        exact hlater event hevent publicKey haction earlier
          (List.mem_append_left _ hearlierHeld) known hknown hkey
  · rintro ⟨hmaterial, hstandings, horder⟩
    refine ⟨?_, hstandings, horder⟩
    intro event hevent publicKey haction other hother otherKey hotherAction hkey
    obtain ⟨first, hfirst, known, hknown, hfirstKey, hsame⟩ :=
      hmaterial event hevent publicKey haction
    obtain ⟨second, hsecond, otherKnown, hotherKnown, hsecondKey, hotherSame⟩ :=
      hmaterial other hother otherKey hotherAction
    rw [← hsame, ← hotherSame]
    exact hstable first hfirst known hknown second hsecond otherKnown hotherKnown
      (hsecondKey.trans (hkey.trans hfirstKey.symm))

end Further

end PeerHours.TimebankIdentity
