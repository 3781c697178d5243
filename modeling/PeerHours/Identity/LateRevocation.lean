import PeerHours.Identity.Verification

/-!
# A revocation later than everything else

A revocation that sorts behind every other event leaves the other keys as they are and makes its own
key inactive. Which signatures verify afterwards is what verifies without that key.
-/

namespace PeerHours.TimebankIdentity

open Checked Json KeyedMap Sorting

variable {crypto : Crypto}

/-- The authorization after a revocation of the index key. -/
def MemberSigningKeyAuthorization.retiredBy (indexKey : String)
    (authorization : MemberSigningKeyAuthorization crypto) : MemberSigningKeyAuthorization crypto :=
  if authorization.indexKey = indexKey then { authorization with active := false }
  else authorization

/-- The authorizations other than those of one member's key. -/
def withoutKey (memberId keyId : String)
    (authorizations : List (MemberSigningKeyAuthorization crypto)) :
    List (MemberSigningKeyAuthorization crypto) :=
  authorizations.filter fun authorization ↦
    !(decide (authorization.memberId = memberId) && decide (authorization.keyId = keyId))

/-! ## Reduction -/

/-- A revocation retires the current authorization of its key. -/
theorem map_applyAuthorizationEvent_revoke {entries : List (ReducedAuthorization crypto)}
    (hnodup : (entries.map ReducedAuthorization.indexKey).Nodup)
    {event : MemberSigningKeyAuthorizationEvent crypto} (haction : event.action = .revoke) :
    (applyAuthorizationEvent entries event).map (·.authorization) =
      (entries.map (·.authorization)).map (·.retiredBy event.indexKey) := by
  rw [applyAuthorizationEvent, haction]
  dsimp only
  cases hfound : lookup ReducedAuthorization.indexKey event.indexKey entries with
  | none =>
      have hother : ∀ reduced ∈ entries, reduced.authorization.retiredBy event.indexKey =
          reduced.authorization := fun reduced hreduced ↦
        if_neg (lookup_eq_none.mp hfound reduced hreduced)
      dsimp only
      rw [List.map_map]
      exact List.map_congr_left fun reduced hreduced ↦ (hother reduced hreduced).symm
  | some current =>
      obtain ⟨hmem, hkey⟩ := lookup_eq_some hfound
      have hcurrentKey : (current.revokedBy event).indexKey = event.indexKey := hkey
      have hin : (current.revokedBy event).indexKey ∈ entries.map ReducedAuthorization.indexKey := by
        rw [hcurrentKey, ← hkey]
        exact List.mem_map_of_mem hmem
      dsimp only
      rw [upsert_eq_map hnodup hin, List.map_map, List.map_map]
      refine List.map_congr_left fun reduced hreduced ↦ ?_
      show (if reduced.indexKey = (current.revokedBy event).indexKey then current.revokedBy event
        else reduced).authorization = reduced.authorization.retiredBy event.indexKey
      rw [hcurrentKey]
      by_cases hsame : reduced.indexKey = event.indexKey
      · obtain rfl := List.inj_on_of_nodup_map hnodup hreduced hmem (hsame.trans hkey.symm)
        rw [if_pos hsame]
        exact (if_pos hsame).symm
      · rw [if_neg hsame]
        exact (if_neg hsame).symm

section Reduced

variable {localeCompare : String → String → Ordering} [Std.TransCmp localeCompare]

instance : Std.TransCmp (@compareAuthorizationEvents crypto localeCompare) :=
  inferInstanceAs (Std.TransCmp (compareLex _ _))

omit [Std.TransCmp localeCompare] in
theorem compareAuthorizationEvents_eq_lt {left right : MemberSigningKeyAuthorizationEvent crypto}
    (h : localeCompare left.occurredAt right.occurredAt = .lt) :
    compareAuthorizationEvents localeCompare left right = .lt := by
  simp [compareAuthorizationEvents, compareLex, Sorting.on, h]

variable {events : List (MemberSigningKeyAuthorizationEvent crypto)}
  {revocation : MemberSigningKeyAuthorizationEvent crypto}
  {authorizations : List (MemberSigningKeyAuthorization crypto)}

/-- The events with a new, latest revocation reduce to the authorizations that it retires. -/
theorem reduce_concat_revocation
    (h : reduceMemberSigningKeyAuthorizationEvents localeCompare events = .ok authorizations)
    (haction : revocation.action = .revoke)
    (hfresh : ∀ event ∈ events, event.eventId ≠ revocation.eventId)
    (hlast : ∀ event ∈ events, localeCompare event.occurredAt revocation.occurredAt = .lt) :
    ∃ retired, reduceMemberSigningKeyAuthorizationEvents localeCompare (events ++ [revocation]) =
        .ok retired ∧
      retired.Perm (authorizations.map (·.retiredBy revocation.indexKey)) := by
  obtain ⟨byId, hbyId, h⟩ := bind_eq_ok.mp h
  obtain ⟨_, hstable, h⟩ := bind_eq_ok.mp h
  obtain rfl := pure_eq_ok.mp h
  have hmem : ∀ event ∈ byId, event ∈ events := by
    intro event hevent
    obtain ⟨source, hsource, hsame⟩ := (mem_collect determines_events hbyId event).mp hevent
    exact Except.ok.inj hsame ▸ hsource
  have hnew : revocation.eventId ∉ byId.map (·.eventId) := by
    intro hmemId
    obtain ⟨event, hevent, hid⟩ := List.mem_map.mp hmemId
    exact hfresh event (hmem event hevent) hid
  have hcollect := collect_concat determines_events hbyId (rfl : Except.ok revocation = _) hnew
  have hterms : (byId ++ [revocation]).filterMap activationTerms = byId.filterMap activationTerms := by
    simp [activationTerms, haction, MemberSigningKeyAuthorizationAction.publicKey?]
  have hordered : sortBy (compareAuthorizationEvents localeCompare) (byId ++ [revocation]) =
      sortBy (compareAuthorizationEvents localeCompare) byId ++ [revocation] :=
    sortBy_concat_of_last fun event hevent ↦
      compareAuthorizationEvents_eq_lt (hlast event (hmem event hevent))
  have hstable' : assertStableKeyMaterial (byId ++ [revocation]) = .ok ⟨⟩ := by
    rw [assertStableKeyMaterial, hterms]
    exact hstable
  rw [reduceMemberSigningKeyAuthorizationEvents, hcollect, ok_bind, hstable', ok_bind, hordered]
  refine ⟨_, rfl, ?_⟩
  refine ((perm_sortBy _).map _).trans ?_
  rw [replayAuthorizationEvents, List.foldl_append, List.foldl_cons, List.foldl_nil,
    map_applyAuthorizationEvent_revoke (nodup_replay _ [] List.nodup_nil) haction]
  exact (((perm_sortBy _).symm.map _).map _)

/-- The statements with a new, latest revocation reduce to the authorizations that it retires. -/
theorem reduceRootSigned_concat_revocation
    {statements : List (RootSignedMemberSigningKeyLifecycle crypto)}
    {statement : RootSignedMemberSigningKeyLifecycle crypto}
    (h : reduceRootSignedMemberSigningKeyLifecycles localeCompare statements = .ok authorizations)
    (haction : statement.event.action = .revoke)
    (hfresh : ∀ other ∈ statements, other.event.eventId ≠ statement.event.eventId)
    (hlast : ∀ other ∈ statements,
      localeCompare other.event.occurredAt statement.event.occurredAt = .lt) :
    ∃ retired, reduceRootSignedMemberSigningKeyLifecycles localeCompare (statements ++ [statement]) =
        .ok retired ∧
      retired.Perm (authorizations.map (·.retiredBy statement.event.indexKey)) := by
  obtain ⟨byId, hbyId, h⟩ := bind_eq_ok.mp h
  obtain ⟨_, hkept, h⟩ := bind_eq_ok.mp h
  have hmem : ∀ other ∈ byId, other ∈ statements := by
    intro other hother
    obtain ⟨source, hsource, hsame⟩ := (mem_collect determines_statements hbyId other).mp hother
    exact Except.ok.inj hsame ▸ hsource
  have hnew : statement.event.eventId ∉ byId.map (·.event.eventId) := by
    intro hmemId
    obtain ⟨other, hother, hid⟩ := List.mem_map.mp hmemId
    exact hfresh other (hmem other hother) hid
  have hcollect := collect_concat determines_statements hbyId (rfl : Except.ok statement = _) hnew
  have hevents : ∀ event ∈ byId.map (·.event), ∃ other ∈ statements, other.event = event := by
    intro event hevent
    obtain ⟨other, hother, rfl⟩ := List.mem_map.mp hevent
    exact ⟨other, hmem other hother, rfl⟩
  have hlater : ∀ event ∈ byId.map (·.event),
      localeCompare event.occurredAt statement.event.occurredAt = .lt := by
    intro event hevent
    obtain ⟨other, hother, rfl⟩ := hevents event hevent
    exact hlast other hother
  obtain ⟨retired, hretired, hperm⟩ := reduce_concat_revocation h haction (by
    intro event hevent
    obtain ⟨other, hother, rfl⟩ := hevents event hevent
    exact hfresh other hother) hlater
  refine ⟨retired, ?_, hperm⟩
  -- the last event is a revocation, so no activation follows it
  have hnever : assertNotReactivated [] (sortBy (compareAuthorizationEvents localeCompare)
      (byId.map (·.event) ++ [statement.event])) = .ok () := by
    rw [sortBy_concat_of_last fun event hevent ↦ compareAuthorizationEvents_eq_lt (hlater event hevent)]
    rw [assertNotReactivated_eq_ok] at hkept ⊢
    refine ⟨by simp, List.pairwise_append.mpr ⟨hkept.2, List.pairwise_singleton _ _, ?_⟩⟩
    intro left _ right hright _ hactivates
    rw [List.mem_singleton.mp hright] at hactivates
    exact absurd haction hactivates
  rw [reduceRootSignedMemberSigningKeyLifecycles, hcollect, ok_bind]
  simp only [List.map_append, List.map_cons, List.map_nil]
  rw [hnever, ok_bind]
  exact hretired

omit [Std.TransCmp localeCompare] in
/-- Reduced authorizations have distinct index keys. -/
theorem nodup_of_reduce
    (h : reduceMemberSigningKeyAuthorizationEvents localeCompare events = .ok authorizations) :
    (authorizations.map (·.indexKey)).Nodup := by
  obtain ⟨byId, -, h⟩ := bind_eq_ok.mp h
  obtain ⟨_, -, h⟩ := bind_eq_ok.mp h
  obtain rfl := pure_eq_ok.mp h
  rw [List.map_map]
  exact (nodup_map_sortBy ReducedAuthorization.indexKey).mpr (nodup_replay _ [] List.nodup_nil)

end Reduced

/-! ## Verification -/

@[simp] theorem MemberSigningKeyAuthorization.indexKey_retiredBy (indexKey : String)
    (authorization : MemberSigningKeyAuthorization crypto) :
    (authorization.retiredBy indexKey).indexKey = authorization.indexKey := by
  unfold retiredBy
  split <;> rfl

/-- Retiring a key does not free its id or its material for another use. -/
theorem compatible_retiredBy {indexKey : String}
    {left right : MemberSigningKeyAuthorization crypto} :
    Compatible left (right.retiredBy indexKey) ↔ Compatible left right := by
  unfold MemberSigningKeyAuthorization.retiredBy
  split <;> exact Iff.rfl

theorem Compatible.symm {left right : MemberSigningKeyAuthorization crypto}
    (h : Compatible left right) : Compatible right left :=
  ⟨h.1.symm, fun hsame ↦ (h.2 hsame.symm).symm⟩

/-- A later list takes precedence. -/
theorem activeKey?_append (first second : List (MemberSigningKeyAuthorization crypto))
    (indexKey : String) :
    activeKey? (first ++ second) indexKey =
      (activeKey? second indexKey).or (activeKey? first indexKey) := by
  rw [activeKey?, List.filter_append, List.getLast?_append, activeKey?, activeKey?, Option.map_or]

/-- Among authorizations with distinct index keys the order does not matter. -/
theorem activeKey?_of_nodup {authorizations : List (MemberSigningKeyAuthorization crypto)}
    (hnodup : (authorizations.map (·.indexKey)).Nodup) {indexKey : String}
    {publicKey : Ed25519PublicKey crypto} :
    activeKey? authorizations indexKey = some publicKey ↔
      ∃ authorization ∈ authorizations, authorization.active = true ∧
        authorization.indexKey = indexKey ∧ authorization.publicKey = publicKey := by
  constructor
  · exact mem_of_activeKey?
  · rintro ⟨authorization, hmem, hactive, rfl, rfl⟩
    obtain ⟨publicKey, hfound⟩ := exists_activeKey? hmem hactive
    obtain ⟨other, hother, -, hindex, rfl⟩ := mem_of_activeKey? hfound
    rw [hfound, List.inj_on_of_nodup_map hnodup hother hmem hindex]

/-- After a key is retired the others verify what they verified. -/
theorem activeKey?_retired {authorizations retired : List (MemberSigningKeyAuthorization crypto)}
    (hnodup : (authorizations.map (·.indexKey)).Nodup) {indexKey : String}
    (hretired : retired.Perm (authorizations.map (·.retiredBy indexKey))) (wanted : String) :
    activeKey? retired wanted =
      activeKey? (authorizations.filter fun authorization ↦
        decide (authorization.indexKey ≠ indexKey)) wanted := by
  have hretiredNodup : (retired.map (·.indexKey)).Nodup := by
    rw [(hretired.map _).nodup_iff, List.map_map]
    simpa [Function.comp_def] using hnodup
  refine Option.ext fun publicKey ↦ ?_
  rw [activeKey?_of_nodup hretiredNodup,
    activeKey?_of_nodup (hnodup.sublist (List.filter_sublist.map _))]
  constructor
  · rintro ⟨authorization, hmem, hactive, hindex, hkey⟩
    obtain ⟨earlier, hearlier, rfl⟩ := List.mem_map.mp (hretired.mem_iff.mp hmem)
    by_cases hsame : earlier.indexKey = indexKey
    · rw [MemberSigningKeyAuthorization.retiredBy, if_pos hsame] at hactive
      cases hactive
    · rw [MemberSigningKeyAuthorization.retiredBy, if_neg hsame] at hactive hindex hkey
      exact ⟨earlier, List.mem_filter.mpr ⟨hearlier, decide_eq_true hsame⟩, hactive, hindex, hkey⟩
  · rintro ⟨earlier, hmem, hactive, hindex, hkey⟩
    obtain ⟨hearlier, hother⟩ := List.mem_filter.mp hmem
    refine ⟨earlier, hretired.mem_iff.mpr (List.mem_map.mpr ⟨earlier, hearlier, ?_⟩), hactive, hindex,
      hkey⟩
    exact if_neg (of_decide_eq_true hother)

end PeerHours.TimebankIdentity
