import PeerHours.Desktop.DeclaredFeeds
import PeerHours.Desktop.DeviceKeys
import PeerHours.Identity.OrderlyLifecycle
import PeerHours.Records.FeedResolution
import PeerHours.Records.Standing

/-!
# The authorizations of an own feed

The feed of one member holds its declaration and the lifecycle of its device keys. When the lifecycle
is orderly, the feed authorizes the root key and the device keys, all of that member.
-/

namespace PeerHours.Desktop

open Checked Json KeyedMap Sorting
open TimebankIdentity
open TimebankRecords

variable {crypto : Crypto}

/-- What a record of an own feed carries: the declaration, a statement of its root key, or a published
listing. -/
inductive OwnRecord (declaration : MemberFeedDeclaration crypto) (record : RecordEnvelope) : Prop
  | declaration (hdescribes : DescribesDeclaration record.payload declaration)
      (hroutes : RoutesDeclaration record declaration)
  | statement (statement : RootSignedMemberSigningKeyLifecycle crypto)
      (hdescribes : DescribesStatement record.payload statement)
      (hroutes : RoutesEvent (rootSignedRecordKindFor statement.event) record statement.event)
      (hroot : statement.rootPublicKey = declaration.rootPublicKey)
  | listing (hkind : record.kind = publishedListingRecordKind)

variable (crypto) in
/-- The records of the community in an own feed: one declaration, statements of its root key with an
orderly lifecycle of device keys, and listings. -/
structure OwnFeed (localeCompare : String → String → Ordering) (communityId : String)
    (records : List JsonValue) (declaration : MemberFeedDeclaration crypto) : Prop where
  consistent : Consistent records
  held : HoldsDeclaration records communityId declaration
  carries : ∀ record, Contains records record → record.communityId = communityId →
    OwnRecord declaration record
  activatedOnce : ∀ left right : RootSignedMemberSigningKeyLifecycle crypto,
    HoldsStatement records communityId left → HoldsStatement records communityId right →
    left.event.action ≠ .revoke → right.event.action ≠ .revoke →
    left.event.keyId = right.event.keyId → left.event = right.event
  revokedLater : ∀ activation revocation : RootSignedMemberSigningKeyLifecycle crypto,
    HoldsStatement records communityId activation →
    HoldsStatement records communityId revocation → activation.event.action ≠ .revoke →
    revocation.event.action = .revoke → activation.event.keyId = revocation.event.keyId →
    compareAuthorizationEvents localeCompare activation.event revocation.event = .lt
  device : ∀ statement : RootSignedMemberSigningKeyLifecycle crypto,
    HoldsStatement records communityId statement →
    statement.event.keyId ≠ rootKeyIdForMember declaration.memberId

variable {localeCompare : String → String → Ordering} {communityId : String}
  {records : List JsonValue} {declaration : MemberFeedDeclaration crypto}

/-- An own feed has no lifecycle records without a root signature. -/
theorem OwnFeed.noLegacy (h : OwnFeed crypto localeCompare communityId records declaration)
    {record : RecordEnvelope} (hcontains : Contains records record)
    (hcommunity : record.communityId = communityId) : isIdentityRecord record.kind = false := by
  cases h.carries record hcontains hcommunity with
  | declaration hdescribes hroutes =>
      rw [hroutes.kind]
      decide
  | statement statement hdescribes hroutes hroot =>
      rw [hroutes.kind]
      cases rootSignedRecordKindFor_cases statement.event with
      | inl hactivation => rw [hactivation]; decide
      | inr hrevocation => rw [hrevocation]; decide
  | listing hkind =>
      rw [hkind]
      decide

/-- A declaration record of an own feed carries its declaration. -/
theorem OwnFeed.declarations (h : OwnFeed crypto localeCompare communityId records declaration)
    {record : RecordEnvelope} (hcontains : Contains records record)
    (hcommunity : record.communityId = communityId)
    (hkind : record.kind = memberFeedDeclarationRecordKind) :
    DescribesDeclaration record.payload declaration ∧ RoutesDeclaration record declaration := by
  cases h.carries record hcontains hcommunity with
  | declaration hdescribes hroutes => exact ⟨hdescribes, hroutes⟩
  | statement statement hdescribes hroutes hroot =>
      rw [hroutes.kind] at hkind
      cases rootSignedRecordKindFor_cases statement.event with
      | inl hactivation => exact absurd (hactivation.symm.trans hkind) (by decide)
      | inr hrevocation => exact absurd (hrevocation.symm.trans hkind) (by decide)
  | listing hlisting =>
      rw [hlisting] at hkind
      exact absurd hkind (by decide)

/-- A root-signed lifecycle record of an own feed carries a statement of its root key. -/
theorem OwnFeed.lifecycle (h : OwnFeed crypto localeCompare communityId records declaration)
    {record : RecordEnvelope} (hcontains : Contains records record)
    (hcommunity : record.communityId = communityId)
    (hkind : isRootSignedMemberSigningKeyLifecycleRecord record.kind = true) :
    ∃ statement : RootSignedMemberSigningKeyLifecycle crypto,
      DescribesStatement record.payload statement ∧
      RoutesEvent (rootSignedRecordKindFor statement.event) record statement.event ∧
      statement.rootPublicKey = declaration.rootPublicKey := by
  cases h.carries record hcontains hcommunity with
  | declaration hdescribes hroutes =>
      rw [hroutes.kind] at hkind
      exact absurd hkind (by decide)
  | statement statement hdescribes hroutes hroot => exact ⟨statement, hdescribes, hroutes, hroot⟩
  | listing hlisting =>
      rw [hlisting] at hkind
      exact absurd hkind (by decide)

/-- Statements that a feed holds are signed by its root key. -/
theorem OwnFeed.statement_root (h : OwnFeed crypto localeCompare communityId records declaration)
    {statement : RootSignedMemberSigningKeyLifecycle crypto}
    (hstatement : HoldsStatement records communityId statement) :
    statement.rootPublicKey = declaration.rootPublicKey := by
  obtain ⟨hcommunity, record, hcontains, hdescribes, hroutes⟩ := hstatement
  obtain ⟨other, hother, hotherRoutes, hroot⟩ := h.lifecycle hcontains
    (hroutes.communityId.trans hcommunity)
    (by rw [hroutes.kind]; exact isRootSigned_rootSignedRecordKindFor _)
  rw [eq_of_describesStatement ⟨hdescribes, hroutes⟩ ⟨hother, hotherRoutes⟩]
  exact hroot

/-- Statements that a feed holds are of its member. -/
theorem OwnFeed.statement_member (h : OwnFeed crypto localeCompare communityId records declaration)
    {statement : RootSignedMemberSigningKeyLifecycle crypto}
    (hstatement : HoldsStatement records communityId statement) :
    statement.event.memberId = declaration.memberId := by
  rw [statement.owned, h.statement_root hstatement]
  rfl

/-- An own feed holds one declaration. -/
theorem OwnFeed.declaration_unique
    (h : OwnFeed crypto localeCompare communityId records declaration)
    {other : MemberFeedDeclaration crypto} (hother : HoldsDeclaration records communityId other) :
    other = declaration := by
  obtain ⟨hcommunity, record, hcontains, hdescribes, hroutes⟩ := hother
  exact eq_of_describesDeclaration ⟨hdescribes, hroutes⟩
    (h.declarations hcontains (hroutes.communityId.trans hcommunity) hroutes.kind)

/-- Within one feed the index key of a statement is its key id. -/
theorem OwnFeed.indexKey_iff (h : OwnFeed crypto localeCompare communityId records declaration)
    {left right : RootSignedMemberSigningKeyLifecycle crypto}
    (hleft : HoldsStatement records communityId left)
    (hright : HoldsStatement records communityId right) :
    left.event.indexKey = right.event.indexKey ↔ left.event.keyId = right.event.keyId := by
  have hmember : '\x00' ∉ declaration.memberId.toList := nul_not_mem_selfOwnedMemberId _
  rw [MemberSigningKeyAuthorizationEvent.indexKey, MemberSigningKeyAuthorizationEvent.indexKey,
    hleft.1, hright.1, h.statement_member hleft, h.statement_member hright,
    keyFor_inj hmember hmember]
  simp

/-- Statements of one feed are told apart by their event ids. -/
theorem OwnFeed.statement_unique
    (h : OwnFeed crypto localeCompare communityId records declaration)
    {left right : RootSignedMemberSigningKeyLifecycle crypto}
    (hleft : HoldsStatement records communityId left)
    (hright : HoldsStatement records communityId right)
    (hid : left.event.eventId = right.event.eventId) : left = right := by
  obtain ⟨-, record, hcontains, hdescribes, hroutes⟩ := hleft
  obtain ⟨-, other, hother, hotherDescribes, hotherRoutes⟩ := hright
  obtain rfl := h.consistent.unique record other hcontains hother
    (hroutes.id.trans (hid.trans hotherRoutes.id.symm))
  exact eq_of_describesStatement ⟨hdescribes, hroutes⟩ ⟨hotherDescribes, hotherRoutes⟩

/-- The lifecycle statements of an own feed are orderly. -/
theorem OwnFeed.orderly (h : OwnFeed crypto localeCompare communityId records declaration)
    {statements : List (RootSignedMemberSigningKeyLifecycle crypto)}
    (hstatements : ∀ statement ∈ statements, HoldsStatement records communityId statement) :
    OrderlyLifecycle localeCompare (statements.map (·.event)) where
  activatedOnce := by
    intro left hleft right hright hleftAction hrightAction hindex
    obtain ⟨first, hfirst, rfl⟩ := List.mem_map.mp hleft
    obtain ⟨second, hsecond, rfl⟩ := List.mem_map.mp hright
    have hfirst := hstatements first hfirst
    have hsecond := hstatements second hsecond
    exact h.activatedOnce first second hfirst hsecond hleftAction hrightAction
      ((h.indexKey_iff hfirst hsecond).mp hindex)
  revokedLater := by
    intro left hleft right hright hleftAction hrightAction hindex
    obtain ⟨first, hfirst, rfl⟩ := List.mem_map.mp hleft
    obtain ⟨second, hsecond, rfl⟩ := List.mem_map.mp hright
    have hfirst := hstatements first hfirst
    have hsecond := hstatements second hsecond
    exact h.revokedLater first second hfirst hsecond hleftAction hrightAction
      ((h.indexKey_iff hfirst hsecond).mp hindex)

/-- The feed has no lifecycle records without a root signature, so its authorizations are those of its
declaration and of its root-signed lifecycle. -/
theorem OwnFeed.parts [Std.TransCmp localeCompare]
    (h : OwnFeed crypto localeCompare communityId records declaration) :
    ∃ declared rootSigned, authorizationsOf crypto localeCompare communityId records =
        .ok (declared ++ rootSigned) ∧
      AuthorizationParts localeCompare records communityId [] declared rootSigned ∧
      declared.Pairwise Compatible ∧ (rootSigned.map (·.indexKey)).Nodup := by
  obtain ⟨normalized, hnormalized⟩ :=
    (reduceRecordEnvelopes_spec localeCompare records).1.mpr h.consistent
  have hreduced : Reduced records communityId _ := reduced_of_reduceRecordEnvelopes hnormalized
  generalize hcommunity : (normalized.filter fun record ↦
    decide (record.communityId = communityId)) = communityRecords at hreduced
  have hdecodes : ∀ record ∈ recordsOfKind memberFeedDeclarationRecordKind communityRecords,
      memberFeedDeclarationFromRecord crypto record.toJson = .ok declaration := by
    intro record hrecord
    obtain ⟨hmem, hkind⟩ := mem_recordsOfKind.mp hrecord
    obtain ⟨hcontains, hsame⟩ := (hreduced.mem record).mp hmem
    exact (memberFeedDeclarationFromRecord_eq_ok (createRecordEnvelope_toJson record)).mpr
      (h.declarations hcontains hsame hkind)
  have hlegacy : legacyIdentityRecords communityRecords = [] := by
    rw [legacyIdentityRecords, List.filter_eq_nil_iff]
    intro record hrecord
    obtain ⟨hcontains, hsame⟩ := (hreduced.mem record).mp hrecord
    simp [h.noLegacy hcontains hsame]
  have hreduceLegacy : reduceMemberSigningKeyAuthorizationRecords crypto localeCompare
      (legacyIdentityRecords communityRecords) = .ok [] := by
    rw [hlegacy]
    rfl
  obtain ⟨declared, hdeclared⟩ := @succeeds_declaredAuthorizations _ _ _ localeCompare _ h.consistent
    hreduced fun record hrecord ↦ ⟨declaration, hdecodes record hrecord⟩
  obtain ⟨declarations, hdeclarations⟩ := succeeds_mapM.mpr fun record hrecord ↦
    ⟨declaration, hdecodes record hrecord⟩
  obtain ⟨statements, hstatements⟩ := succeeds_mapM.mpr fun record
      (hrecord : record ∈ communityRecords.filter fun record ↦
        isRootSignedMemberSigningKeyLifecycleRecord record.kind) ↦ by
    obtain ⟨hmem, hkind⟩ := List.mem_filter.mp hrecord
    obtain ⟨hcontains, hsame⟩ := (hreduced.mem record).mp hmem
    obtain ⟨statement, hdescribes, hroutes, -⟩ := h.lifecycle hcontains hsame hkind
    exact ⟨statement, (rootSignedMemberSigningKeyLifecycleFromRecord_eq_ok
      (createRecordEnvelope_toJson record)).mpr ⟨hdescribes, hroutes⟩⟩
  have hheld : ∀ statement ∈ statements, HoldsStatement records communityId statement :=
    fun statement hstatement ↦ (holdsStatement_iff hreduced).mpr
      ((mem_of_mapM hstatements statement).mp hstatement)
  obtain ⟨rootSigned, hrootSigned⟩ := succeeds_reduceRootSigned
    (fun left hleft right hright ↦ h.statement_unique (hheld left hleft) (hheld right hright))
    (h.orderly hheld)
  have hproven : reduceProvenRootSignedMemberSigningKeyLifecycleRecords crypto localeCompare
      (communityRecords.filter fun record ↦
        isRootSignedMemberSigningKeyLifecycleRecord record.kind)
      (recordsOfKind memberFeedDeclarationRecordKind communityRecords) = .ok rootSigned := by
    rw [reduceProvenRootSignedMemberSigningKeyLifecycleRecords, filter_recordsOfKind, hdeclarations,
      ok_bind, hstatements, ok_bind]
    refine bind_eq_ok.mpr ⟨⟨⟩, checkAll_eq_ok.mpr fun statement hstatement ↦
      require_eq_ok.mpr ?_, hrootSigned⟩
    have hheldStatement := hheld statement hstatement
    obtain ⟨record, hrecord, hdecode⟩ := (holdsDeclaration_iff hreduced).mp h.held
    refine List.mem_map.mpr ⟨declaration, (mem_of_mapM hdeclarations declaration).mpr
      ⟨record, hrecord, hdecode⟩, ?_⟩
    rw [h.held.1, hheldStatement.1, h.statement_member hheldStatement,
      h.statement_root hheldStatement]
  have hforeign : ∀ record ∈ legacyIdentityRecords communityRecords,
      ∀ declaration ∈ recordsOfKind memberFeedDeclarationRecordKind communityRecords,
        record.authorId ≠ declaration.authorId := by
    rw [hlegacy]
    exact fun _ hrecord ↦ absurd hrecord List.not_mem_nil
  refine ⟨declared, rootSigned, ?_,
    parts_of_reductions hreduced hforeign hreduceLegacy hdeclared hproven,
    pairwise_declared hreduced (fun left right hleft hright _ ↦
      (h.declaration_unique hleft).trans (h.declaration_unique hright).symm) hdeclared, ?_⟩
  · rw [authorizationsOf, hnormalized, ok_bind, hcommunity]
    exact resolveAuthorizations_eq_ok.mpr ⟨hforeign, [], declared, rootSigned, hreduceLegacy,
      hdeclared, hproven, rfl⟩
  · obtain ⟨events, -, -, -, hreduce⟩ := retires_of_reduceRootSigned hrootSigned
    exact nodup_of_reduce hreduce

section Authorized

variable {declared rootSigned : List (MemberSigningKeyAuthorization crypto)}

/-- Root-signed authorizations of an own feed name a device key of its member. -/
theorem OwnFeed.device_entry (h : OwnFeed crypto localeCompare communityId records declaration)
    (hparts : AuthorizationParts localeCompare records communityId [] declared rootSigned)
    {authorization : MemberSigningKeyAuthorization crypto} (hmem : authorization ∈ rootSigned) :
    authorization.communityId = communityId ∧ authorization.memberId = declaration.memberId ∧
      authorization.keyId ≠ rootKeyIdForMember declaration.memberId := by
  obtain ⟨statement, hheld, ⟨-, hcommunity, hown, hkey⟩, -⟩ :=
    hparts.fromRootSigned authorization hmem
  exact ⟨hcommunity ▸ hheld.1, hown ▸ h.statement_member hheld, hkey ▸ h.device statement hheld⟩

/-- All authorizations of an own feed are of its member. -/
theorem OwnFeed.entry (h : OwnFeed crypto localeCompare communityId records declaration)
    (hparts : AuthorizationParts localeCompare records communityId [] declared rootSigned)
    {authorization : MemberSigningKeyAuthorization crypto}
    (hmem : authorization ∈ declared ++ rootSigned) :
    authorization.communityId = communityId ∧ authorization.memberId = declaration.memberId := by
  cases List.mem_append.mp hmem with
  | inl hdeclared =>
      obtain ⟨other, hother, rfl⟩ := (hparts.fromDeclared authorization).mp hdeclared
      obtain rfl := h.declaration_unique hother
      exact ⟨hother.1, rfl⟩
  | inr hrootSigned =>
      obtain ⟨hcommunity, hown, -⟩ := h.device_entry hparts hrootSigned
      exact ⟨hcommunity, hown⟩

/-- Authorizations of an own feed share an index key only if they share the key id. -/
theorem OwnFeed.indexKey_entry (h : OwnFeed crypto localeCompare communityId records declaration)
    (hparts : AuthorizationParts localeCompare records communityId [] declared rootSigned)
    {authorization : MemberSigningKeyAuthorization crypto}
    (hmem : authorization ∈ declared ++ rootSigned) {keyId : String} :
    authorization.indexKey = keyFor communityId declaration.memberId keyId ↔
      authorization.keyId = keyId := by
  obtain ⟨hcommunity, hown⟩ := h.entry hparts hmem
  have hmember : '\x00' ∉ declaration.memberId.toList := nul_not_mem_selfOwnedMemberId _
  rw [MemberSigningKeyAuthorization.indexKey, hcommunity, hown, keyFor_inj hmember hmember]
  simp

/-- The root key and the device keys of an own feed are compatible. -/
theorem OwnFeed.compatible (h : OwnFeed crypto localeCompare communityId records declaration)
    (hparts : AuthorizationParts localeCompare records communityId [] declared rootSigned)
    (hdeclared : declared.Pairwise Compatible) (hnodup : (rootSigned.map (·.indexKey)).Nodup) :
    (declared ++ rootSigned).Pairwise Compatible := by
  have howner : ∀ left ∈ declared ++ rootSigned, ∀ right ∈ declared ++ rootSigned,
      left.keyId ≠ right.keyId → Compatible left right := by
    intro left hleft right hright hne
    obtain ⟨hleftCommunity, hleftMember⟩ := h.entry hparts hleft
    obtain ⟨hrightCommunity, hrightMember⟩ := h.entry hparts hright
    refine ⟨?_, fun _ ↦ ?_⟩
    · rw [MemberSigningKeyAuthorization.authorizationId,
        MemberSigningKeyAuthorization.authorizationId, hleftCommunity, hrightCommunity]
      simpa using hne
    · rw [MemberSigningKeyAuthorization.keyOwner, MemberSigningKeyAuthorization.keyOwner,
        hleftCommunity, hrightCommunity, hleftMember, hrightMember]
  refine List.pairwise_append.mpr ⟨hdeclared, ?_, ?_⟩
  · refine (List.pairwise_map.mp hnodup).imp_of_mem fun {left right} hleft hright hne ↦ ?_
    have hleft := List.mem_append_right declared hleft
    have hright := List.mem_append_right declared hright
    refine howner left hleft right hright fun hkey ↦ hne ?_
    obtain ⟨hcommunity, hown⟩ := h.entry hparts hright
    rw [(h.indexKey_entry hparts hleft).mpr hkey, MemberSigningKeyAuthorization.indexKey, hcommunity,
      hown]
  · intro left hleft right hright
    refine howner left (List.mem_append_left _ hleft) right (List.mem_append_right _ hright) ?_
    obtain ⟨other, hother, rfl⟩ := (hparts.fromDeclared left).mp hleft
    obtain rfl := h.declaration_unique hother
    exact (h.device_entry hparts hright).2.2.symm

end Authorized

/-- The keys of the feed's member: its root key, and the device keys that it activated and never
revoked. -/
inductive OwnKey (records : List JsonValue) (communityId : String)
    (declaration : MemberFeedDeclaration crypto) : String → Ed25519PublicKey crypto → Prop
  | root : OwnKey records communityId declaration (rootKeyIdForMember declaration.memberId)
      declaration.rootPublicKey
  | device {statement : RootSignedMemberSigningKeyLifecycle crypto}
      {publicKey : Ed25519PublicKey crypto} (hheld : HoldsStatement records communityId statement)
      (haction : statement.event.action = .activate publicKey)
      (hkept : ∀ other : RootSignedMemberSigningKeyLifecycle crypto,
        HoldsStatement records communityId other → other.event.action = .revoke →
        other.event.keyId ≠ statement.event.keyId) :
      OwnKey records communityId declaration statement.event.keyId publicKey

/-- An own feed authorizes the keys of its member, each under its own key id. -/
theorem OwnFeed.authorizes [Std.TransCmp localeCompare]
    (h : OwnFeed crypto localeCompare communityId records declaration) :
    ∃ authorizations, authorizationsOf crypto localeCompare communityId records =
        .ok authorizations ∧ authorizations.Pairwise Compatible ∧
      ∀ keyId publicKey, OwnKey records communityId declaration keyId publicKey →
        activeKey? authorizations (keyFor communityId declaration.memberId keyId) =
          some publicKey := by
  obtain ⟨declared, rootSigned, hauthorizations, hparts, hdeclared, hnodup⟩ := h.parts
  have hcompatible := h.compatible hparts hdeclared hnodup
  have hactive : ∀ authorization ∈ declared ++ rootSigned, authorization.active = true →
      activeKey? (declared ++ rootSigned)
        (keyFor communityId declaration.memberId authorization.keyId) =
          some authorization.publicKey := by
    intro authorization hmem hactive
    rw [← (h.indexKey_entry hparts hmem).mpr rfl]
    refine activeKey?_of_compatible hcompatible hmem hactive fun other hother hindex ↦ ?_
    rw [MemberSigningKeyAuthorization.authorizationId, MemberSigningKeyAuthorization.authorizationId,
      (h.entry hparts hother).1, (h.entry hparts hmem).1, (h.indexKey_entry hparts hother).mp
        (hindex.trans ((h.indexKey_entry hparts hmem).mpr rfl))]
  refine ⟨_, hauthorizations, hcompatible, fun keyId publicKey hkey ↦ ?_⟩
  cases hkey with
  | root =>
      exact hactive (declaredAuthorization declaration) (List.mem_append_left _
        ((hparts.fromDeclared _).mpr ⟨declaration, h.held, rfl⟩)) rfl
  | @device statement publicKey hstatement haction hkept =>
      obtain ⟨authorization, hmem, hisActive, hindex⟩ := hparts.current statement hstatement
        (by rw [haction]; intro hsame; cases hsame) fun other hother hrevoke hkey ↦
          hkept other hother hrevoke ((h.indexKey_iff hother hstatement).mp hkey)
      obtain ⟨other, hother, ⟨hotherAction, -, -, hkey⟩, -⟩ :=
        hparts.fromRootSigned authorization hmem
      have hmem := List.mem_append_right declared hmem
      rw [MemberSigningKeyAuthorizationEvent.indexKey, hstatement.1, h.statement_member hstatement,
        h.indexKey_entry hparts hmem] at hindex
      have hsame := h.activatedOnce other statement hother hstatement
        (by rw [hotherAction]; intro hsame; cases hsame) (by rw [haction]; intro hsame; cases hsame)
        (hkey.trans hindex)
      rw [hsame, haction] at hotherAction
      obtain rfl := MemberSigningKeyAuthorizationAction.activate.inj hotherAction
      rw [← hindex]
      exact hactive authorization hmem hisActive

/-- Nothing of an own feed verifies under a key of its member that is left out. -/
theorem OwnFeed.not_verifies_withoutKey [Std.TransCmp localeCompare]
    (h : OwnFeed crypto localeCompare communityId records declaration)
    {authorizations : List (MemberSigningKeyAuthorization crypto)}
    (hauthorizations : authorizationsOf crypto localeCompare communityId records =
      .ok authorizations) (keyId : String) (payload : Buffer) (signature : String) :
    ¬ VerifiesUnder (withoutKey declaration.memberId keyId authorizations)
      ⟨communityId, declaration.memberId, keyId, payload, signature⟩ := by
  obtain ⟨declared, rootSigned, hparts, hentries, -⟩ := h.parts
  obtain rfl := Except.ok.inj (hauthorizations.symm.trans hparts)
  intro hverifies
  obtain ⟨publicKey, hactive, -⟩ := hverifies
  obtain ⟨authorization, hmem, -, hindex, -⟩ := mem_of_activeKey? hactive
  obtain ⟨hmem, hkept⟩ := List.mem_filter.mp hmem
  have hkey := (h.indexKey_entry hentries hmem).mp hindex
  simp [hkey, (h.entry hentries hmem).2] at hkept

/-! ## Resolution of an own feed -/

/-- The source is a published listing of the feed's member, signed with one of its keys. -/
def OwnListing (records : List JsonValue) (communityId : String)
    (declaration : MemberFeedDeclaration crypto) (source : JsonValue) : Prop :=
  ∃ signed listing publicKey, createMemberSignedRecord source = .ok signed ∧
    publishedListingRecords.Carries signed.toRecordEnvelope listing ∧
    signed.communityId = communityId ∧ signed.authorId = declaration.memberId ∧
    OwnKey records communityId declaration signed.signingKeyId publicKey ∧
    SignedBy publicKey (canonicalMemberSignedRecordPayload signed.toRecordEnvelope) signed.signature

/-- An own feed whose domain records are listings of its member resolves. -/
theorem OwnFeed.resolves [Std.TransCmp localeCompare]
    (h : OwnFeed crypto localeCompare communityId records declaration)
    (hcommunity : Text.blank communityId = false)
    (hlistings : ∀ source ∈ records, IsDomainRecord communityId source →
      OwnListing records communityId declaration source) :
    Succeeds (resolveTimebankRecords crypto localeCompare communityId records) := by
  obtain ⟨authorizations, hauthorizations, hcompatible, hkeys⟩ := h.authorizes
  refine succeeds_of_coherent h.consistent hauthorizations (coherent_iff.mpr ⟨hcommunity,
    hcompatible, fun source hsource hdomain ↦ ?_⟩)
  obtain ⟨signed, listing, publicKey, hcreate, hcarries, hsame, hauthor, hkey, hsigned⟩ :=
    hlistings source hsource hdomain
  refine ⟨signed, .publishedListing listing, ⟨hcreate, publicKey, ?_, hsigned⟩, hcarries, trivial⟩
  rw [recordSignatureInput, hsame, hauthor]
  exact hkeys _ _ hkey

section Feed

variable {feedPublicKey : String}

/-- Every declaration of an own feed is read as its member's declaration of that feed. -/
theorem OwnFeed.readDeclaredFeed
    (h : OwnFeed crypto localeCompare communityId records declaration)
    (hkey : isHypercoreKey feedPublicKey = true)
    (hfeed : declaration.feedPublicKey = .str feedPublicKey) {source : JsonValue}
    (hsource : source ∈ records) (hdeclares : isFeedDeclaration communityId source) :
    readDeclaredFeed crypto source = .ok (feedPublicKey, declaration.memberId) := by
  obtain ⟨record, hcreate⟩ := h.consistent.wellFormed source hsource
  have hfields := createRecordEnvelope_eq_ok.mp hcreate
  have hcommunity : record.communityId = communityId := by
    simpa [hfields.communityId] using hdeclares.1
  have hkind : record.kind = memberFeedDeclarationRecordKind := by
    simpa [hfields.kind] using hdeclares.2
  have hread := (memberFeedDeclarationFromRecord_eq_ok hcreate).mpr
    (h.declarations ⟨source, hsource, hcreate⟩ hcommunity hkind)
  rw [TimebankRecords.readDeclaredFeed, hread, ok_bind, hfeed, JsonValue.text?_str]
  show Except.ok (feedPublicKey.toLower, declaration.memberId) = _
  rw [toLower_of_isHypercoreKey hkey]

/-- An own feed declares itself for its member and no other. -/
theorem OwnFeed.declaresFeed_iff
    (h : OwnFeed crypto localeCompare communityId records declaration)
    (hkey : isHypercoreKey feedPublicKey = true)
    (hfeed : declaration.feedPublicKey = .str feedPublicKey) {declared memberId : String} :
    DeclaresFeed crypto communityId [⟨feedPublicKey, records⟩] declared memberId ↔
      declared = feedPublicKey ∧ memberId = declaration.memberId := by
  simp only [DeclaresFeed, feedDeclarations, List.flatMap_cons, List.flatMap_nil, List.append_nil,
    List.mem_filter, decide_eq_true_eq]
  constructor
  · rintro ⟨source, ⟨hsource, hdeclares⟩, hread⟩
    rw [h.readDeclaredFeed hkey hfeed hsource hdeclares] at hread
    cases hread
    exact ⟨rfl, rfl⟩
  · rintro ⟨hdeclared, hmember⟩
    obtain ⟨hcommunity, record, ⟨source, hsource, hcreate⟩, -, hroutes⟩ := h.held
    have hfields := createRecordEnvelope_eq_ok.mp hcreate
    have hdeclares : isFeedDeclaration communityId source :=
      ⟨by rw [hfields.communityId, hroutes.communityId, hcommunity], by
        rw [hfields.kind, hroutes.kind]⟩
    rw [hdeclared, hmember]
    exact ⟨source, ⟨hsource, hdeclares⟩, h.readDeclaredFeed hkey hfeed hsource hdeclares⟩

/-- The member's own feed alone resolves when its declaration names the feed. -/
theorem OwnFeed.resolves_feed [Std.TransCmp localeCompare]
    (h : OwnFeed crypto localeCompare communityId records declaration)
    (hcommunity : Text.blank communityId = false)
    (hkey : isHypercoreKey feedPublicKey = true)
    (hfeed : declaration.feedPublicKey = .str feedPublicKey)
    (hlistings : ∀ source ∈ records, IsDomainRecord communityId source →
      OwnListing records communityId declaration source) :
    Succeeds (resolveTimebankMemberFeeds crypto localeCompare communityId
      [⟨feedPublicKey, records⟩]) := by
  obtain ⟨state, hstate⟩ := h.resolves hcommunity hlistings
  refine ⟨state, resolveTimebankMemberFeeds_eq_ok.mpr ⟨?_, ⟨?_, ?_⟩, ?_, by simpa using hstate⟩⟩
  · intro history hhistory
    rw [List.mem_singleton.mp hhistory]
    refine ⟨isFeedPublicKey_of_isHypercoreKey hkey, fun source hsource ↦ ?_⟩
    obtain ⟨record, hcreate⟩ := h.consistent.wellFormed source hsource
    exact isObject_of_field (createRecordEnvelope_eq_ok.mp hcreate).id
  · intro source hsource
    obtain ⟨hmem, hdeclares⟩ := List.mem_filter.mp hsource
    exact ⟨_, h.readDeclaredFeed hkey hfeed (by simpa using hmem) (of_decide_eq_true hdeclares)⟩
  · intro declared left right hleft hright
    exact ((h.declaresFeed_iff hkey hfeed).mp hleft).2.trans
      ((h.declaresFeed_iff hkey hfeed).mp hright).2.symm
  · intro history hhistory source hsource hfield hmember
    rw [List.mem_singleton.mp hhistory] at hsource ⊢
    refine ⟨declaration.memberId, ?_, (h.declaresFeed_iff hkey hfeed).mpr
      ⟨toLower_of_isHypercoreKey hkey, rfl⟩⟩
    obtain ⟨record, hcreate⟩ := h.consistent.wellFormed source hsource
    have hfields := createRecordEnvelope_eq_ok.mp hcreate
    have hrecordCommunity : record.communityId = communityId := by
      simpa [hfields.communityId] using hfield
    rw [hfields.authorId]
    by_cases hlifecycle : isRootSignedMemberSigningKeyLifecycleRecord record.kind = true
    · obtain ⟨statement, hdescribes, hroutes, -⟩ :=
        h.lifecycle ⟨source, hsource, hcreate⟩ hrecordCommunity hlifecycle
      rw [hroutes.authorId, h.statement_member ⟨hroutes.communityId.symm.trans hrecordCommunity,
        record, ⟨source, hsource, hcreate⟩, hdescribes, hroutes⟩]
    · -- every other member-authored kind is a kind of the member's domain
      have hdomain : IsDomainRecord communityId source := by
        obtain ⟨kind, hkind, hsame⟩ := hmember
        obtain rfl : record.kind = kind := by simpa [hfields.kind] using hsame
        rw [isDomainRecord_iff hcreate]
        refine ⟨hrecordCommunity, ?_⟩
        simp only [memberAuthoredRecordKinds, List.mem_cons, List.not_mem_nil, or_false] at hkind
        simp only [memberAuthoredDomainRecordKinds, List.mem_cons, List.not_mem_nil, or_false]
        simp only [isRootSignedMemberSigningKeyLifecycleRecord, Bool.or_eq_true,
          decide_eq_true_eq] at hlifecycle
        tauto
      obtain ⟨signed, -, -, hsigned, -, -, hauthor, -, -⟩ := hlistings source hsource hdomain
      have hsame := (createMemberSignedRecord_eq_ok.mp hsigned).1
      rw [hcreate, Except.ok.injEq] at hsame
      rw [hsame, hauthor]

end Feed

end PeerHours.Desktop
