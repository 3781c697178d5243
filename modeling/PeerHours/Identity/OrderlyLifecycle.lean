import PeerHours.Identity.LateRevocation

/-!
# Orderly key lifecycles

Statements under distinct event ids, with one activation a key and every revocation behind the
activation of its key, always reduce. A key that no statement revokes then has the material of its
activation.
-/

namespace PeerHours.TimebankIdentity

open Checked Json KeyedMap Sorting

variable {crypto : Crypto}

/-- Each key is activated once and revoked after its activation. -/
structure OrderlyLifecycle (localeCompare : String → String → Ordering)
    (events : List (MemberSigningKeyAuthorizationEvent crypto)) : Prop where
  activatedOnce : ∀ left ∈ events, ∀ right ∈ events, left.action ≠ .revoke →
    right.action ≠ .revoke → left.indexKey = right.indexKey → left = right
  revokedLater : ∀ activation ∈ events, ∀ revocation ∈ events, activation.action ≠ .revoke →
    revocation.action = .revoke → activation.indexKey = revocation.indexKey →
    compareAuthorizationEvents localeCompare activation revocation = .lt

variable {localeCompare : String → String → Ordering}
  {events : List (MemberSigningKeyAuthorizationEvent crypto)}

/-- Activations of one key agree on its material. -/
theorem OrderlyLifecycle.stable (h : OrderlyLifecycle localeCompare events) :
    assertStableKeyMaterial events = .ok ⟨⟩ := by
  refine assertStableKeyMaterial_eq_ok.mpr ?_
  intro event hevent publicKey haction other hother otherKey hotherAction hkey
  obtain rfl := h.activatedOnce other hother event hevent (by simp [hotherAction]) (by simp [haction])
    hkey
  rw [haction] at hotherAction
  cases hotherAction
  rfl

/-- Orderly events reduce. -/
theorem OrderlyLifecycle.reduces (h : OrderlyLifecycle localeCompare events)
    (hids : (events.map (·.eventId)).Nodup) :
    Succeeds (reduceMemberSigningKeyAuthorizationEvents localeCompare events) := by
  have hcollect := @collect_map_of_nodup _ _ _ _ _ (fun event : MemberSigningKeyAuthorizationEvent
    crypto ↦ event.eventId) _ authorizationEventFingerprint
    "Conflicting authorization events share the same event id." Except.ok id events
    (fun _ _ ↦ rfl) hids
  rw [List.map_id] at hcollect
  rw [reduceMemberSigningKeyAuthorizationEvents, hcollect, ok_bind, h.stable]
  exact ⟨_, rfl⟩

/-- No activation stands behind a revocation of its key. -/
theorem OrderlyLifecycle.retires [Std.TransCmp localeCompare]
    (h : OrderlyLifecycle localeCompare events) :
    (sortBy (compareAuthorizationEvents localeCompare) events).Pairwise RetiresKeys := by
  refine (pairwise_sortBy events).imp_of_mem fun {left right} hleft hright hordered ↦ ?_
  intro hrevoke hactivates hkey
  have hlater := h.revokedLater right (mem_sortBy.mp hright) left (mem_sortBy.mp hleft) hactivates
    hrevoke hkey.symm
  rw [Std.OrientedCmp.gt_iff_lt.mpr hlater] at hordered
  cases hordered

/-- Root-signed statements with orderly events reduce. -/
theorem succeeds_reduceRootSigned [Std.TransCmp localeCompare]
    {statements : List (RootSignedMemberSigningKeyLifecycle crypto)}
    (hids : ∀ left ∈ statements, ∀ right ∈ statements,
      left.event.eventId = right.event.eventId → left = right)
    (h : OrderlyLifecycle localeCompare (statements.map (·.event))) :
    Succeeds (reduceRootSignedMemberSigningKeyLifecycles localeCompare statements) := by
  obtain ⟨byId, hbyId⟩ := (@succeeds_collect _ _ _ _ _ (fun statement :
    RootSignedMemberSigningKeyLifecycle crypto ↦ statement.event.eventId) _
    rootSignedLifecycleFingerprint
    "Conflicting root-signed member key lifecycle statements share the same event id." Except.ok
    determines_statements statements).mpr ⟨fun statement _ ↦ ⟨statement, rfl⟩, by
      intro left hleft _ hleftRead right hright _ hrightRead hkey
      obtain rfl := Except.ok.inj hleftRead
      obtain rfl := Except.ok.inj hrightRead
      exact hids right hright left hleft hkey⟩
  have hmem : ∀ event ∈ byId.map (·.event), event ∈ statements.map (·.event) := by
    intro event hevent
    obtain ⟨statement, hstatement, rfl⟩ := List.mem_map.mp hevent
    obtain ⟨source, hsource, hsame⟩ := (mem_collect determines_statements hbyId statement).mp hstatement
    exact List.mem_map.mpr ⟨source, hsource, congrArg (·.event) (Except.ok.inj hsame)⟩
  have horderly : OrderlyLifecycle localeCompare (byId.map (·.event)) :=
    { activatedOnce := fun left hleft right hright ↦
        h.activatedOnce left (hmem left hleft) right (hmem right hright)
      revokedLater := fun activation hactivation revocation hrevocation ↦
        h.revokedLater activation (hmem activation hactivation) revocation
          (hmem revocation hrevocation) }
  have hnever : assertNotReactivated [] (sortBy (compareAuthorizationEvents localeCompare)
      (byId.map (·.event))) = .ok () :=
    assertNotReactivated_eq_ok.mpr ⟨by simp, horderly.retires⟩
  rw [reduceRootSignedMemberSigningKeyLifecycles, hbyId, ok_bind]
  dsimp only
  rw [hnever, ok_bind]
  refine horderly.reduces ?_
  rw [List.map_map]
  exact nodup_collect determines_statements hbyId

end PeerHours.TimebankIdentity
