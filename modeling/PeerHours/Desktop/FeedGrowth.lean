import PeerHours.Desktop.OwnFeed

/-!
# An own feed that grows

An own feed stays one when a record is appended under a new id: a record of another community, a listing,
or a statement that follows the lifecycle so far.
-/

namespace PeerHours.Desktop

open Checked Json
open TimebankIdentity
open TimebankRecords

variable {crypto : Crypto} {localeCompare : String → String → Ordering} {communityId : String}
  {records : List JsonValue} {declaration : MemberFeedDeclaration crypto} {source : JsonValue}
  {record : RecordEnvelope}

theorem contains_concat (hcreate : createRecordEnvelope source = .ok record) {other : RecordEnvelope} :
    Contains (records ++ [source]) other ↔ Contains records other ∨ other = record := by
  rw [contains_append, contains_cons, hcreate, Except.ok.injEq, or_iff_left contains_nil, eq_comm]

/-- A feed with one more record holds one more statement at most. -/
theorem holdsStatement_concat (hcreate : createRecordEnvelope source = .ok record)
    {statement : RootSignedMemberSigningKeyLifecycle crypto} :
    HoldsStatement (records ++ [source]) communityId statement ↔
      HoldsStatement records communityId statement ∨ statement.event.communityId = communityId ∧
        DescribesStatement record.payload statement ∧
        RoutesEvent (rootSignedRecordKindFor statement.event) record statement.event := by
  simp only [HoldsStatement, contains_concat hcreate, or_and_right, exists_or, exists_eq_left,
    and_or_left]

/-- A statement follows the lifecycle in the feed: it activates a device key that no statement names, or
revokes a key later than it was activated. -/
structure FollowsLifecycle (localeCompare : String → String → Ordering) (communityId : String)
    (records : List JsonValue) (statement : RootSignedMemberSigningKeyLifecycle crypto) : Prop where
  device : statement.event.keyId ≠ rootKeyIdForMember statement.event.memberId
  newKey : statement.event.action ≠ .revoke →
    ∀ other : RootSignedMemberSigningKeyLifecycle crypto, HoldsStatement records communityId other →
      other.event.keyId ≠ statement.event.keyId
  later : statement.event.action = .revoke →
    ∀ other : RootSignedMemberSigningKeyLifecycle crypto, HoldsStatement records communityId other →
      other.event.action ≠ .revoke → other.event.keyId = statement.event.keyId →
      compareAuthorizationEvents localeCompare other.event statement.event = .lt

/-- An own feed with one more record of another community, one more listing, or one more statement of its
root key that follows the lifecycle. -/
theorem OwnFeed.concat (h : OwnFeed crypto localeCompare communityId records declaration)
    (hcreate : createRecordEnvelope source = .ok record)
    (hfresh : ∀ other, Contains records other → other.id ≠ record.id)
    (hcarries : record.communityId = communityId → OwnRecord declaration record)
    (hfollows : ∀ statement : RootSignedMemberSigningKeyLifecycle crypto,
      statement.event.communityId = communityId → DescribesStatement record.payload statement →
      RoutesEvent (rootSignedRecordKindFor statement.event) record statement.event →
      statement.rootPublicKey = declaration.rootPublicKey ∧
        FollowsLifecycle localeCompare communityId records statement) :
    OwnFeed crypto localeCompare communityId (records ++ [source]) declaration where
  consistent := h.consistent.concat hcreate hfresh
  held := by
    obtain ⟨hcommunity, held, hcontains, hdescribes⟩ := h.held
    exact ⟨hcommunity, held, (contains_concat hcreate).mpr (.inl hcontains), hdescribes⟩
  carries := by
    intro other hother hcommunity
    rcases (contains_concat hcreate).mp hother with hold | rfl
    · exact h.carries other hold hcommunity
    · exact hcarries hcommunity
  activatedOnce := by
    intro left right hleft hright hleftAction hrightAction hkey
    rcases (holdsStatement_concat hcreate).mp hleft with hleftHeld | ⟨hin, hdescribes, hroutes⟩ <;>
      rcases (holdsStatement_concat hcreate).mp hright with hrightHeld | ⟨hin', hdescribes', hroutes'⟩
    · exact h.activatedOnce left right hleftHeld hrightHeld hleftAction hrightAction hkey
    · exact absurd hkey ((hfollows right hin' hdescribes' hroutes').2.newKey hrightAction left hleftHeld)
    · exact absurd hkey.symm
        ((hfollows left hin hdescribes hroutes).2.newKey hleftAction right hrightHeld)
    · rw [eq_of_describesStatement ⟨hdescribes, hroutes⟩ ⟨hdescribes', hroutes'⟩]
  revokedLater := by
    intro activation revocation hactivation hrevocation haction hrevoke hkey
    rcases (holdsStatement_concat hcreate).mp hactivation with hheld | ⟨hin, hdescribes, hroutes⟩ <;>
      rcases (holdsStatement_concat hcreate).mp hrevocation with hheld' | ⟨hin', hdescribes', hroutes'⟩
    · exact h.revokedLater activation revocation hheld hheld' haction hrevoke hkey
    · exact (hfollows revocation hin' hdescribes' hroutes').2.later hrevoke activation hheld haction hkey
    · exact absurd hkey.symm
        ((hfollows activation hin hdescribes hroutes).2.newKey haction revocation hheld')
    · -- one record carries one statement, which cannot be both
      have hsame := eq_of_describesStatement ⟨hdescribes, hroutes⟩ ⟨hdescribes', hroutes'⟩
      exact absurd (hsame ▸ hrevoke) haction
  device := by
    intro statement hstatement
    rcases (holdsStatement_concat hcreate).mp hstatement with hheld | ⟨hin, hdescribes, hroutes⟩
    · exact h.device statement hheld
    · obtain ⟨hroot, hfollowing⟩ := hfollows statement hin hdescribes hroutes
      have hmember : statement.event.memberId = declaration.memberId := by
        rw [statement.owned, hroot]
        rfl
      rw [← hmember]
      exact hfollowing.device

/-- A declaration starts an own feed among records of other communities. -/
theorem ownFeed_of_declaration (hrecords : Consistent records)
    (hcreate : createRecordEnvelope source = .ok record)
    (hfresh : ∀ other, Contains records other → other.id ≠ record.id)
    (hnone : ∀ other, Contains records other → other.communityId ≠ communityId)
    (hdescribes : DescribesDeclaration record.payload declaration)
    (hroutes : RoutesDeclaration record declaration) (hcommunity : declaration.communityId = communityId) :
    OwnFeed crypto localeCompare communityId (records ++ [source]) declaration := by
  have hnotHeld : ∀ statement : RootSignedMemberSigningKeyLifecycle crypto,
      ¬ HoldsStatement (records ++ [source]) communityId statement := by
    intro statement hstatement
    rcases (holdsStatement_concat hcreate).mp hstatement with ⟨hin, other, hother, -, hother'⟩ | h
    · exact hnone other hother (hother'.communityId.trans hin)
    · have hkind := isRootSigned_rootSignedRecordKindFor statement.event
      rw [← h.2.2.kind, hroutes.kind] at hkind
      exact absurd hkind (by decide)
  exact
    { consistent := hrecords.concat hcreate hfresh
      held := ⟨hcommunity, record, (contains_concat hcreate).mpr (.inr rfl), hdescribes, hroutes⟩
      carries := by
        intro other hother hother'
        rcases (contains_concat hcreate).mp hother with hold | rfl
        · exact absurd hother' (hnone other hold)
        · exact .declaration hdescribes hroutes
      activatedOnce := fun left _ hleft ↦ absurd hleft (hnotHeld left)
      revokedLater := fun activation _ hactivation ↦ absurd hactivation (hnotHeld activation)
      device := fun statement hstatement ↦ absurd hstatement (hnotHeld statement) }

end PeerHours.Desktop
