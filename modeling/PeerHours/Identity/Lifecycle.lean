import PeerHours.Identity.Statements
import PeerHours.Library.KeyedMap
import PeerHours.Library.Sorting

/-!
# Key lifecycle reduction

The current authorizations of an unordered history of lifecycle events. Events are replayed in
chronological order per key: an activation makes the key current and active, a revocation makes a
current key inactive. Under a root signature a revoked key id can never be activated again.
-/

namespace PeerHours.TimebankIdentity

open Checked Json KeyedMap Sorting

variable {crypto : Crypto}

/-- The index key of one community, member and key identifier. -/
def keyFor (communityId memberId keyId : String) : String :=
  communityId ++ ("\x00" ++ (memberId ++ ("\x00" ++ keyId)))

/-- The index key of an authorization. -/
def MemberSigningKeyAuthorization.indexKey (authorization : MemberSigningKeyAuthorization crypto) :
    String :=
  keyFor authorization.communityId authorization.memberId authorization.keyId

/-- The index key of an event. -/
def MemberSigningKeyAuthorizationEvent.indexKey
    (event : MemberSigningKeyAuthorizationEvent crypto) : String :=
  keyFor event.communityId event.memberId event.keyId

/-- One current authorization paired with the event that most recently determined its state. -/
structure ReducedAuthorization (crypto : Crypto) where
  authorization : MemberSigningKeyAuthorization crypto
  occurredAt : String
  eventId : String

/-- The index key of a reduced authorization. -/
def ReducedAuthorization.indexKey (reduced : ReducedAuthorization crypto) : String :=
  reduced.authorization.indexKey

/-- The authorization that an activation creates. -/
def MemberSigningKeyAuthorizationEvent.activated (event : MemberSigningKeyAuthorizationEvent crypto)
    (publicKey : Ed25519PublicKey crypto) : MemberSigningKeyAuthorization crypto :=
  { communityId := event.communityId
    memberId := event.memberId
    keyId := event.keyId
    publicKey := publicKey
    active := true
    present := event.present }

/-- The authorization that a revocation of the current one leaves. -/
def ReducedAuthorization.revokedBy (current : ReducedAuthorization crypto)
    (event : MemberSigningKeyAuthorizationEvent crypto) : ReducedAuthorization crypto :=
  ⟨{ current.authorization with active := false }, event.occurredAt, event.eventId⟩

@[simp] theorem ReducedAuthorization.indexKey_revokedBy (current : ReducedAuthorization crypto)
    (event : MemberSigningKeyAuthorizationEvent crypto) :
    (current.revokedBy event).indexKey = current.indexKey := rfl

/-- Applies one event to the current authorizations. -/
def applyAuthorizationEvent (currentByKey : List (ReducedAuthorization crypto))
    (event : MemberSigningKeyAuthorizationEvent crypto) : List (ReducedAuthorization crypto) :=
  match event.action with
  | .activate publicKey =>
      upsert ReducedAuthorization.indexKey
        ⟨event.activated publicKey, event.occurredAt, event.eventId⟩ currentByKey
  | .revoke =>
      match lookup ReducedAuthorization.indexKey event.indexKey currentByKey with
      | some current =>
          upsert ReducedAuthorization.indexKey (current.revokedBy event) currentByKey
      | none => currentByKey

/-- The key material an activation assigns to its index key. -/
def activationTerms (event : MemberSigningKeyAuthorizationEvent crypto) :
    Option (String × String) :=
  event.action.publicKey?.map fun publicKey ↦ (event.indexKey, signingKeyFingerprint publicKey)

/-- Later activations may not replace the public material of a key id. -/
def assertStableKeyMaterial (events : List (MemberSigningKeyAuthorizationEvent crypto)) :
    Except String Unit := do
  let _ ← collect Prod.fst Prod.snd
    "A member signing key id cannot be reassigned to different public key material." Except.ok
    (events.filterMap activationTerms)
  pure ()

/-- Replays ordered events. -/
def replayAuthorizationEvents (events : List (MemberSigningKeyAuthorizationEvent crypto)) :
    List (ReducedAuthorization crypto) :=
  events.foldl applyAuthorizationEvent []

section Reduction

variable (localeCompare : String → String → Ordering)

/-- Sorts lifecycle events into a replica-independent chronological order. -/
def compareAuthorizationEvents : MemberSigningKeyAuthorizationEvent crypto →
    MemberSigningKeyAuthorizationEvent crypto → Ordering :=
  compareLex (on localeCompare (·.occurredAt)) (on localeCompare (·.eventId))

/-- Sorts current authorizations by their determining event, then immutable scope. -/
def compareReducedAuthorizations : ReducedAuthorization crypto → ReducedAuthorization crypto →
    Ordering :=
  compareLex (on localeCompare (·.occurredAt))
    (compareLex (on localeCompare (·.eventId))
      (compareLex (on localeCompare (·.authorization.communityId))
        (compareLex (on localeCompare (·.authorization.memberId))
          (on localeCompare (·.authorization.keyId)))))

/-- Deterministically reduces an unordered event history to current key authorizations. -/
def reduceMemberSigningKeyAuthorizationEvents
    (events : List (MemberSigningKeyAuthorizationEvent crypto)) :
    Except String (List (MemberSigningKeyAuthorization crypto)) := do
  let eventsById ← collect (·.eventId) authorizationEventFingerprint
    "Conflicting authorization events share the same event id." Except.ok events
  assertStableKeyMaterial eventsById
  let orderedEvents := sortBy (compareAuthorizationEvents localeCompare) eventsById
  pure ((sortBy (compareReducedAuthorizations localeCompare)
    (replayAuthorizationEvents orderedEvents)).map (·.authorization))

/-- No activation follows a revocation of the same key id. -/
def assertNotReactivated (retiredKeys : List String) :
    List (MemberSigningKeyAuthorizationEvent crypto) → Except String Unit
  | [] => .ok ()
  | event :: rest =>
      match event.action with
      | .revoke => assertNotReactivated (event.indexKey :: retiredKeys) rest
      | .activate _ => do
          require (event.indexKey ∉ retiredKeys)
            "A revoked member signing key id cannot be activated again."
          assertNotReactivated retiredKeys rest

/-- Reduces root-signed lifecycle statements; a revoked key id is permanently retired. -/
def reduceRootSignedMemberSigningKeyLifecycles
    (statements : List (RootSignedMemberSigningKeyLifecycle crypto)) :
    Except String (List (MemberSigningKeyAuthorization crypto)) := do
  let statementsById ← collect (·.event.eventId) rootSignedLifecycleFingerprint
    "Conflicting root-signed member key lifecycle statements share the same event id." Except.ok
    statements
  let events := statementsById.map (·.event)
  assertNotReactivated [] (sortBy (compareAuthorizationEvents localeCompare) events)
  reduceMemberSigningKeyAuthorizationEvents localeCompare events

end Reduction

/-! ## What a replay leaves for one key -/

/-- The effect of one event on the authorization of its own key. -/
def applyToCurrent (current : Option (ReducedAuthorization crypto))
    (event : MemberSigningKeyAuthorizationEvent crypto) : Option (ReducedAuthorization crypto) :=
  match event.action with
  | .activate publicKey => some ⟨event.activated publicKey, event.occurredAt, event.eventId⟩
  | .revoke => current.map (·.revokedBy event)

/-- One event changes the entry of its own key only. -/
theorem lookup_applyAuthorizationEvent (entries : List (ReducedAuthorization crypto))
    (event : MemberSigningKeyAuthorizationEvent crypto) (wanted : String) :
    lookup ReducedAuthorization.indexKey wanted (applyAuthorizationEvent entries event) =
      if event.indexKey = wanted then
        applyToCurrent (lookup ReducedAuthorization.indexKey wanted entries) event
      else lookup ReducedAuthorization.indexKey wanted entries := by
  unfold applyAuthorizationEvent applyToCurrent
  cases event.action with
  | activate publicKey =>
      simp only [lookup_upsert]
      rfl
  | revoke =>
      dsimp only
      cases hfound : lookup ReducedAuthorization.indexKey event.indexKey entries with
      | none =>
          by_cases hkey : event.indexKey = wanted
          · subst hkey
            simp [hfound]
          · simp [hkey]
      | some current =>
          have hcurrent : current.indexKey = event.indexKey := (lookup_eq_some hfound).2
          rw [lookup_upsert, ReducedAuthorization.indexKey_revokedBy, hcurrent]
          by_cases hkey : event.indexKey = wanted
          · subst hkey
            simp [hfound]
          · simp [hkey]

theorem lookup_foldl_applyAuthorizationEvent
    (events : List (MemberSigningKeyAuthorizationEvent crypto))
    (entries : List (ReducedAuthorization crypto)) (wanted : String) :
    lookup ReducedAuthorization.indexKey wanted (events.foldl applyAuthorizationEvent entries) =
      (events.filter fun event ↦ decide (event.indexKey = wanted)).foldl applyToCurrent
        (lookup ReducedAuthorization.indexKey wanted entries) := by
  induction events generalizing entries with
  | nil => rfl
  | cons event rest ih =>
      rw [List.foldl_cons, ih, lookup_applyAuthorizationEvent]
      by_cases hkey : event.indexKey = wanted <;> simp [hkey]

theorem nodup_replay (events : List (MemberSigningKeyAuthorizationEvent crypto))
    (entries : List (ReducedAuthorization crypto))
    (h : (entries.map ReducedAuthorization.indexKey).Nodup) :
    ((events.foldl applyAuthorizationEvent entries).map ReducedAuthorization.indexKey).Nodup := by
  induction events generalizing entries with
  | nil => exact h
  | cons event rest ih =>
      refine ih _ ?_
      unfold applyAuthorizationEvent
      split
      · exact nodup_upsert h
      · split
        · exact nodup_upsert h
        · exact h

/-- The entries of a replay are what the events of each key leave. -/
theorem mem_replay {events : List (MemberSigningKeyAuthorizationEvent crypto)}
    {reduced : ReducedAuthorization crypto} :
    reduced ∈ replayAuthorizationEvents events ↔
      (events.filter fun event ↦ decide (event.indexKey = reduced.indexKey)).foldl applyToCurrent
        none = some reduced := by
  have hlookup := lookup_foldl_applyAuthorizationEvent events [] reduced.indexKey
  rw [lookup_nil] at hlookup
  rw [← hlookup]
  constructor
  · exact lookup_of_mem (nodup_replay events [] List.nodup_nil)
  · exact fun h ↦ (lookup_eq_some h).1

/-- The event activates its key with the material of the authorization, in its scope. -/
def Activates (event : MemberSigningKeyAuthorizationEvent crypto)
    (authorization : MemberSigningKeyAuthorization crypto) : Prop :=
  event.action = .activate authorization.publicKey ∧
    event.communityId = authorization.communityId ∧ event.memberId = authorization.memberId ∧
    event.keyId = authorization.keyId

/-- A current authorization was activated, by one of the events or before them. -/
theorem activates_of_foldl {events : List (MemberSigningKeyAuthorizationEvent crypto)}
    {start : Option (ReducedAuthorization crypto)} {reduced : ReducedAuthorization crypto}
    (h : events.foldl applyToCurrent start = some reduced) :
    (∃ event ∈ events, Activates event reduced.authorization) ∨
      ∃ before, start = some before ∧
        before.authorization.communityId = reduced.authorization.communityId ∧
        before.authorization.memberId = reduced.authorization.memberId ∧
        before.authorization.keyId = reduced.authorization.keyId ∧
        before.authorization.publicKey = reduced.authorization.publicKey := by
  induction events generalizing start with
  | nil => exact .inr ⟨reduced, h, rfl, rfl, rfl, rfl⟩
  | cons event rest ih =>
      rcases ih h with ⟨later, hlater, hactivates⟩ | ⟨before, hbefore, hc, hm, hk, hp⟩
      · exact .inl ⟨later, List.mem_cons_of_mem _ hlater, hactivates⟩
      · unfold applyToCurrent at hbefore
        split at hbefore
        · rename_i publicKey haction
          obtain rfl := Option.some.inj hbefore
          refine .inl ⟨event, List.mem_cons_self, ?_, hc, hm, hk⟩
          rw [haction, ← hp]
          rfl
        · obtain ⟨current, hcurrent, rfl⟩ := Option.map_eq_some_iff.mp hbefore
          exact .inr ⟨current, hcurrent, hc, hm, hk, hp⟩

/-- A replay keeps an entry for a key once one of its events activates it. -/
theorem isSome_foldl_applyToCurrent (events : List (MemberSigningKeyAuthorizationEvent crypto))
    (start : Option (ReducedAuthorization crypto)) :
    (events.foldl applyToCurrent start).isSome = true ↔
      start.isSome = true ∨ ∃ event ∈ events, event.action.publicKey?.isSome = true := by
  induction events generalizing start with
  | nil => simp
  | cons event rest ih =>
      rw [List.foldl_cons, ih]
      cases haction : event.action <;>
        simp [applyToCurrent, haction, MemberSigningKeyAuthorizationAction.publicKey?]

/-- Without a revocation an activated key stays active. -/
theorem active_of_foldl {events : List (MemberSigningKeyAuthorizationEvent crypto)}
    {start : Option (ReducedAuthorization crypto)} {reduced : ReducedAuthorization crypto}
    (hstart : ∀ before, start = some before → before.authorization.active = true)
    (hevents : ∀ event ∈ events, event.action ≠ .revoke)
    (h : events.foldl applyToCurrent start = some reduced) :
    reduced.authorization.active = true := by
  induction events generalizing start with
  | nil => exact hstart reduced h
  | cons event rest ih =>
      rw [List.forall_mem_cons] at hevents
      refine ih ?_ hevents.2 h
      intro before hbefore
      unfold applyToCurrent at hbefore
      split at hbefore
      · obtain rfl := Option.some.inj hbefore
        rfl
      · rename_i haction
        exact absurd haction hevents.1

/-- A replay that ends in a revocation leaves an inactive key. -/
theorem inactive_of_foldl_append {events : List (MemberSigningKeyAuthorizationEvent crypto)}
    {last : MemberSigningKeyAuthorizationEvent crypto} {start : Option (ReducedAuthorization crypto)}
    {reduced : ReducedAuthorization crypto} (hlast : last.action = .revoke)
    (h : (events ++ [last]).foldl applyToCurrent start = some reduced) :
    reduced.authorization.active = false := by
  rw [List.foldl_append, List.foldl_cons, List.foldl_nil, applyToCurrent, hlast] at h
  obtain ⟨current, -, rfl⟩ := Option.map_eq_some_iff.mp h
  rfl

/-! ## What a reduction returns -/

section Reduced

variable {localeCompare : String → String → Ordering}
  {events : List (MemberSigningKeyAuthorizationEvent crypto)}
  {authorizations : List (MemberSigningKeyAuthorization crypto)}

theorem determines_events : Determines (fun event : MemberSigningKeyAuthorizationEvent crypto ↦
    event.eventId) authorizationEventFingerprint Except.ok :=
  determines_of_injective fun _ _ ↦ authorizationEventFingerprint_inj

/-- Activations of one key name one key material. -/
def StableMaterial (events : List (MemberSigningKeyAuthorizationEvent crypto)) : Prop :=
  ∀ event ∈ events, ∀ publicKey, event.action = .activate publicKey →
    ∀ other ∈ events, ∀ otherKey, other.action = .activate otherKey →
      other.indexKey = event.indexKey →
        signingKeyFingerprint otherKey = signingKeyFingerprint publicKey

theorem assertStableKeyMaterial_eq_ok {result : Unit} :
    assertStableKeyMaterial events = .ok result ↔ StableMaterial events := by
  have hdetermines : Determines (α := String × String) Prod.fst Prod.snd Except.ok := by
    rintro left right _ _ ⟨⟩ ⟨⟩ hfirst hsecond
    exact Prod.ext hfirst hsecond
  have hsucceeds : assertStableKeyMaterial events = .ok result ↔
      Succeeds (collect Prod.fst Prod.snd
        "A member signing key id cannot be reassigned to different public key material." Except.ok
        (events.filterMap activationTerms)) := by
    simp only [assertStableKeyMaterial, bind_eq_ok, pure_eq_ok, Succeeds, and_true]
  have hterms (terms : String × String) : terms ∈ events.filterMap activationTerms ↔
      ∃ event ∈ events, ∃ publicKey, event.action = .activate publicKey ∧
        terms = (event.indexKey, signingKeyFingerprint publicKey) := by
    rw [List.mem_filterMap]
    refine exists_congr fun event ↦ and_congr_right fun _ ↦ ?_
    cases haction : event.action <;>
      simp [activationTerms, haction, MemberSigningKeyAuthorizationAction.publicKey?, eq_comm]
  rw [hsucceeds, succeeds_collect hdetermines]
  constructor
  · rintro ⟨-, hpairs⟩ event hevent publicKey haction other hother otherKey hotherAction hkey
    have hsame := hpairs _ ((hterms _).mpr ⟨event, hevent, publicKey, haction, rfl⟩) _ rfl _
      ((hterms _).mpr ⟨other, hother, otherKey, hotherAction, rfl⟩) _ rfl hkey
    exact congrArg Prod.snd hsame
  · intro hstable
    refine ⟨fun terms _ ↦ ⟨terms, rfl⟩, ?_⟩
    rintro _ hterm _ ⟨⟩ _ hotherTerm _ ⟨⟩ hkey
    obtain ⟨event, hevent, publicKey, haction, rfl⟩ := (hterms _).mp hterm
    obtain ⟨other, hother, otherKey, hotherAction, rfl⟩ := (hterms _).mp hotherTerm
    exact Prod.ext hkey (hstable event hevent publicKey haction other hother otherKey hotherAction hkey)

/-- The authorizations are those of a replay of the distinct events in chronological order. -/
theorem replayed_of_reduce
    (h : reduceMemberSigningKeyAuthorizationEvents localeCompare events = .ok authorizations) :
    ∃ ordered, (∀ event, event ∈ ordered ↔ event ∈ events) ∧
      ((events.map (·.eventId)).Nodup →
        ordered = sortBy (compareAuthorizationEvents localeCompare) events) ∧
      ∀ authorization, authorization ∈ authorizations ↔
        ∃ reduced ∈ replayAuthorizationEvents ordered, reduced.authorization = authorization := by
  obtain ⟨byId, hbyId, h⟩ := bind_eq_ok.mp h
  obtain ⟨_, -, h⟩ := bind_eq_ok.mp h
  obtain rfl := pure_eq_ok.mp h
  refine ⟨sortBy (compareAuthorizationEvents localeCompare) byId, fun event ↦ ?_, fun hnodup ↦ ?_,
    fun authorization ↦ ?_⟩
  · rw [mem_sortBy, mem_collect determines_events hbyId]
    exact ⟨fun ⟨_, hevent, hsame⟩ ↦ Except.ok.inj hsame ▸ hevent, fun hevent ↦ ⟨event, hevent, rfl⟩⟩
  · have hsame := @collect_map_of_nodup _ _ _ _ _ (fun event : MemberSigningKeyAuthorizationEvent
      crypto ↦ event.eventId) _ authorizationEventFingerprint
      "Conflicting authorization events share the same event id." Except.ok id events
      (fun _ _ ↦ rfl) hnodup
    rw [List.map_id] at hsame
    rw [Except.ok.inj (hbyId.symm.trans hsame)]
  · simp only [List.mem_map, mem_sortBy]

/-- A reduced authorization was activated by one of the events. -/
theorem activates_of_reduce
    (h : reduceMemberSigningKeyAuthorizationEvents localeCompare events = .ok authorizations)
    {authorization : MemberSigningKeyAuthorization crypto} (hmem : authorization ∈ authorizations) :
    ∃ event ∈ events, Activates event authorization := by
  obtain ⟨ordered, hordered, -, hreplay⟩ := replayed_of_reduce h
  obtain ⟨reduced, hreduced, rfl⟩ := (hreplay authorization).mp hmem
  rcases activates_of_foldl (mem_replay.mp hreduced) with ⟨event, hevent, hactivates⟩ | ⟨_, hstart, -⟩
  · exact ⟨event, (hordered event).mp (List.mem_filter.mp hevent).1, hactivates⟩
  · cases hstart

/-- An activated key has an authorization. -/
theorem exists_of_activates
    (h : reduceMemberSigningKeyAuthorizationEvents localeCompare events = .ok authorizations)
    {event : MemberSigningKeyAuthorizationEvent crypto} (hevent : event ∈ events)
    (haction : event.action ≠ .revoke) :
    ∃ authorization ∈ authorizations, authorization.indexKey = event.indexKey := by
  obtain ⟨ordered, hordered, -, hreplay⟩ := replayed_of_reduce h
  have hsome : ((ordered.filter fun other ↦ decide (other.indexKey = event.indexKey)).foldl
      applyToCurrent none).isSome = true := by
    rw [isSome_foldl_applyToCurrent]
    refine .inr ⟨event, List.mem_filter.mpr ⟨(hordered event).mpr hevent, by simp⟩, ?_⟩
    cases hkind : event.action with
    | activate publicKey => rfl
    | revoke => exact absurd hkind haction
  obtain ⟨reduced, hreduced⟩ := Option.isSome_iff_exists.mp hsome
  have hkey : reduced.indexKey = event.indexKey := by
    rcases activates_of_foldl hreduced with ⟨other, hother, -, hc, hm, hk⟩ | ⟨_, hstart, -⟩
    · have hsame := of_decide_eq_true (List.mem_filter.mp hother).2
      rw [← hsame, ReducedAuthorization.indexKey, MemberSigningKeyAuthorization.indexKey, ← hc, ← hm,
        ← hk]
      rfl
    · cases hstart
  refine ⟨reduced.authorization, (hreplay _).mpr ⟨reduced, mem_replay.mpr ?_, rfl⟩, hkey⟩
  rw [hkey]
  exact hreduced

/-- A key id that is retired stays retired along the list. -/
def RetiresKeys (left right : MemberSigningKeyAuthorizationEvent crypto) : Prop :=
  left.action = .revoke → right.action ≠ .revoke → left.indexKey ≠ right.indexKey

theorem assertNotReactivated_eq_ok {retired : List String} {result : Unit} :
    assertNotReactivated retired events = .ok result ↔
      (∀ event ∈ events, event.action ≠ .revoke → event.indexKey ∉ retired) ∧
        events.Pairwise RetiresKeys := by
  induction events generalizing retired with
  | nil => simp [assertNotReactivated]
  | cons event rest ih =>
      rw [assertNotReactivated, List.forall_mem_cons, List.pairwise_cons]
      cases haction : event.action with
      | revoke =>
          simp only [ih, RetiresKeys, haction, List.mem_cons, not_or, ne_eq, not_true_eq_false,
            false_implies, true_and, true_implies]
          constructor
          · rintro ⟨hall, hpairs⟩
            exact ⟨fun other hother hother' ↦ (hall other hother hother').2,
              fun other hother hother' hsame ↦ (hall other hother hother').1 hsame.symm, hpairs⟩
          · rintro ⟨hall, hhead, hpairs⟩
            exact ⟨fun other hother hother' ↦
              ⟨fun hsame ↦ hhead other hother hother' hsame.symm, hall other hother hother'⟩, hpairs⟩
      | activate publicKey =>
          simp only [bind_eq_ok, require_eq_ok, exists_const, ih, RetiresKeys, haction, ne_eq,
            reduceCtorEq, not_false_eq_true, forall_const, false_implies, implies_true, true_and,
            and_assoc]

/-- When keys are retired for good, an active key saw no revocation. -/
theorem not_revoke_of_foldl {key : String} {reduced : ReducedAuthorization crypto}
    (hpairs : events.Pairwise RetiresKeys) (hkeys : ∀ event ∈ events, event.indexKey = key)
    (h : events.foldl applyToCurrent none = some reduced)
    (hactive : reduced.authorization.active = true) : ∀ event ∈ events, event.action ≠ .revoke := by
  rcases List.eq_nil_or_concat events with rfl | ⟨earlier, last, rfl⟩
  · simp
  · rw [List.concat_eq_append] at hpairs hkeys h ⊢
    have hlast : last.action ≠ .revoke := by
      intro hrevoke
      rw [inactive_of_foldl_append hrevoke h] at hactive
      cases hactive
    intro event hevent hrevoke
    rcases List.mem_append.mp hevent with hearlier | hsame
    · refine (List.pairwise_append.mp hpairs).2.2 event hearlier last (by simp) hrevoke hlast ?_
      rw [hkeys event hevent, hkeys last (by simp)]
    · exact hlast (List.mem_singleton.mp hsame ▸ hrevoke)

theorem determines_statements :
    Determines (fun statement : RootSignedMemberSigningKeyLifecycle crypto ↦ statement.event.eventId)
      rootSignedLifecycleFingerprint Except.ok :=
  determines_of_injective fun _ _ ↦ rootSignedLifecycleFingerprint_inj

/-- Root-signed reduction is a reduction of events with distinct ids that retire keys for good. -/
theorem retires_of_reduceRootSigned {statements : List (RootSignedMemberSigningKeyLifecycle crypto)}
    (h : reduceRootSignedMemberSigningKeyLifecycles localeCompare statements = .ok authorizations) :
    ∃ events, (∀ event, event ∈ events ↔ ∃ statement ∈ statements, statement.event = event) ∧
      (events.map (·.eventId)).Nodup ∧
      (sortBy (compareAuthorizationEvents localeCompare) events).Pairwise RetiresKeys ∧
      reduceMemberSigningKeyAuthorizationEvents localeCompare events = .ok authorizations := by
  obtain ⟨byId, hbyId, h⟩ := bind_eq_ok.mp h
  obtain ⟨_, hretired, h⟩ := bind_eq_ok.mp h
  refine ⟨byId.map (·.event), fun event ↦ ?_, ?_, (assertNotReactivated_eq_ok.mp hretired).2, h⟩
  · simp only [List.mem_map, mem_collect determines_statements hbyId, Except.ok.injEq,
      exists_eq_right]
  · rw [List.map_map]
    exact nodup_collect determines_statements hbyId

/-- Under root signatures an active key was never revoked. -/
theorem not_revoked_of_active {statements : List (RootSignedMemberSigningKeyLifecycle crypto)}
    (h : reduceRootSignedMemberSigningKeyLifecycles localeCompare statements = .ok authorizations)
    {authorization : MemberSigningKeyAuthorization crypto} (hmem : authorization ∈ authorizations)
    (hactive : authorization.active = true) :
    ∀ statement ∈ statements, statement.event.action = .revoke →
      statement.event.indexKey ≠ authorization.indexKey := by
  obtain ⟨events, hevents, hnodup, hpairs, hreduce⟩ := retires_of_reduceRootSigned h
  obtain ⟨ordered, hordered, hsorted, hreplay⟩ := replayed_of_reduce hreduce
  obtain ⟨reduced, hreduced, rfl⟩ := (hreplay authorization).mp hmem
  rw [← hsorted hnodup] at hpairs
  intro statement hstatement hrevoke hkey
  refine not_revoke_of_foldl (hpairs.sublist List.filter_sublist)
    (fun event hevent ↦ of_decide_eq_true (List.mem_filter.mp hevent).2) (mem_replay.mp hreduced)
    hactive statement.event (List.mem_filter.mpr ⟨?_, decide_eq_true hkey⟩) hrevoke
  exact (hordered _).mpr ((hevents _).mpr ⟨statement, hstatement, rfl⟩)

/-- Under root signatures a key that was activated and never revoked is active. -/
theorem active_of_not_revoked {statements : List (RootSignedMemberSigningKeyLifecycle crypto)}
    (h : reduceRootSignedMemberSigningKeyLifecycles localeCompare statements = .ok authorizations)
    {statement : RootSignedMemberSigningKeyLifecycle crypto} (hstatement : statement ∈ statements)
    (haction : statement.event.action ≠ .revoke)
    (hnever : ∀ other ∈ statements, other.event.action = .revoke →
      other.event.indexKey ≠ statement.event.indexKey) :
    ∃ authorization ∈ authorizations, authorization.active = true ∧
      authorization.indexKey = statement.event.indexKey := by
  obtain ⟨events, hevents, -, -, hreduce⟩ := retires_of_reduceRootSigned h
  have hevent : statement.event ∈ events := (hevents _).mpr ⟨statement, hstatement, rfl⟩
  obtain ⟨authorization, hmem, hkey⟩ := exists_of_activates hreduce hevent haction
  obtain ⟨ordered, hordered, -, hreplay⟩ := replayed_of_reduce hreduce
  obtain ⟨reduced, hreduced, rfl⟩ := (hreplay authorization).mp hmem
  refine ⟨reduced.authorization, hmem, ?_, hkey⟩
  refine @active_of_foldl _ _ none _ nofun ?_ (mem_replay.mp hreduced)
  intro event hevent hrevoke
  obtain ⟨hmemOrdered, hsame⟩ := List.mem_filter.mp hevent
  obtain ⟨other, hother, rfl⟩ := (hevents event).mp ((hordered event).mp hmemOrdered)
  exact hnever other hother hrevoke ((of_decide_eq_true hsame).trans hkey)

end Reduced

end PeerHours.TimebankIdentity
