import Mathlib.Data.List.Pairwise
import PeerHours.Identity.LateRevocation
import PeerHours.Identity.Revocation

/-!
# Shared key ids and shared public keys

The reduction tells keys apart by community, member and key id. The verifier also refuses a key id that two
members of one community use, and a public key that is used for two members or in two communities. So it
takes the reduced authorizations exactly where no activations share either.
-/

namespace PeerHours.TimebankIdentity

open Checked Json KeyedMap

variable {crypto : Crypto}

/-! ## Identifiers without U+0000 -/

/-- The parts of a key of the index are its own where one side has no U+0000 in them. -/
theorem keyFor_inj_of_plain {communityId memberId keyId communityId' memberId' keyId' : String}
    (hcommunity : '\x00' ∉ communityId.toList) (hmember : '\x00' ∉ memberId.toList)
    (hkey : '\x00' ∉ keyId.toList) :
    keyFor communityId memberId keyId = keyFor communityId' memberId' keyId' ↔
      communityId = communityId' ∧ memberId = memberId' ∧ keyId = keyId' := by
  have hnul : "\x00" = String.singleton '\x00' := rfl
  constructor
  · intro h
    -- both sides have two separators, so neither has one inside a part
    have hcount := congrArg (fun text : String ↦ text.toList.count '\x00') h
    simp only [keyFor, hnul, String.toList_append, String.toList_singleton, List.count_append,
      List.count_eq_zero_of_not_mem hcommunity, List.count_eq_zero_of_not_mem hmember,
      List.count_eq_zero_of_not_mem hkey, List.count_singleton_self] at hcount
    have hcommunity' : '\x00' ∉ communityId'.toList := List.count_eq_zero.mp (by omega)
    have hmember' : '\x00' ∉ memberId'.toList := List.count_eq_zero.mp (by omega)
    rw [keyFor, keyFor, hnul, Text.join_inj hcommunity hcommunity',
      Text.join_inj hmember hmember'] at h
    exact h
  · rintro ⟨rfl, rfl, rfl⟩
    rfl

/-- The identifiers of an event have no U+0000. -/
structure PlainIdentifiers (event : MemberSigningKeyAuthorizationEvent crypto) : Prop where
  communityId : '\x00' ∉ event.communityId.toList
  memberId : '\x00' ∉ event.memberId.toList
  keyId : '\x00' ∉ event.keyId.toList

theorem PlainIdentifiers.indexKey_eq {event : MemberSigningKeyAuthorizationEvent crypto}
    (h : PlainIdentifiers event) {communityId memberId keyId : String} :
    event.indexKey = keyFor communityId memberId keyId ↔
      event.communityId = communityId ∧ event.memberId = memberId ∧ event.keyId = keyId :=
  keyFor_inj_of_plain h.communityId h.memberId h.keyId

/-! ## Usable authorizations -/

/-- An active authorization of that community, member and key id verifies the signature. -/
def VerifiesByKey (authorizations : List (MemberSigningKeyAuthorization crypto))
    (input : VerifyMemberSignatureInput) : Prop :=
  ∃ authorization ∈ authorizations, authorization.active = true ∧
    authorization.communityId = input.communityId ∧ authorization.memberId = input.memberId ∧
    authorization.keyId = input.keyId ∧
    SignedBy authorization.publicKey input.payload input.signature

/-- The verifier takes the authorizations, and then verifies by them alone. -/
def Usable (authorizations : List (MemberSigningKeyAuthorization crypto)) : Prop :=
  ∃ verifier, createEd25519MemberSignatureVerifier authorizations = .ok verifier ∧
    ∀ input, verifier input = true ↔ VerifiesByKey authorizations input

theorem Usable.compatible {authorizations : List (MemberSigningKeyAuthorization crypto)}
    (h : Usable authorizations) : authorizations.Pairwise Compatible := by
  obtain ⟨verifier, hverifier, -⟩ := h
  exact (createEd25519MemberSignatureVerifier_eq_ok.mp hverifier).1

instance : Std.Symm (@Compatible crypto) := ⟨fun _ _ ↦ Compatible.symm⟩

/-- No two members of a community activate one key id, and no public key is activated for two members or
in two communities. -/
structure UnsharedKeys (events : List (MemberSigningKeyAuthorizationEvent crypto)) : Prop where
  keyIds : ∀ left ∈ events, ∀ right ∈ events, left.action ≠ .revoke → right.action ≠ .revoke →
    left.communityId = right.communityId → left.keyId = right.keyId → left.memberId = right.memberId
  publicKeys : ∀ left ∈ events, ∀ right ∈ events, ∀ leftKey rightKey,
    left.action = .activate leftKey → right.action = .activate rightKey →
    signingKeyFingerprint leftKey = signingKeyFingerprint rightKey →
    left.communityId = right.communityId ∧ left.memberId = right.memberId

section Reduced

variable {localeCompare : String → String → Ordering}
  {events : List (MemberSigningKeyAuthorizationEvent crypto)}
  {authorizations : List (MemberSigningKeyAuthorization crypto)}
  (h : reduceMemberSigningKeyAuthorizationEvents localeCompare events = .ok authorizations)
include h

/-- The activations of one key agree about the key material. -/
theorem fingerprint_of_reduce {left right : MemberSigningKeyAuthorizationEvent crypto}
    (hleft : left ∈ events) (hright : right ∈ events) {leftKey rightKey : Ed25519PublicKey crypto}
    (hleftAction : left.action = .activate leftKey)
    (hrightAction : right.action = .activate rightKey) (hkey : left.indexKey = right.indexKey) :
    signingKeyFingerprint leftKey = signingKeyFingerprint rightKey := by
  obtain ⟨byId, hbyId, h⟩ := bind_eq_ok.mp h
  obtain ⟨_, hstable, -⟩ := bind_eq_ok.mp h
  obtain ⟨terms, hterms, -⟩ := bind_eq_ok.mp hstable
  have hdetermines : Determines Prod.fst Prod.snd
      (Except.ok : String × String → Except String (String × String)) := by
    intro left right _ _ hleft hright hkey hcontent
    obtain rfl := Except.ok.inj hleft
    obtain rfl := Except.ok.inj hright
    exact Prod.ext hkey hcontent
  have hactivated {event : MemberSigningKeyAuthorizationEvent crypto} (hevent : event ∈ events)
      {publicKey : Ed25519PublicKey crypto} (haction : event.action = .activate publicKey) :
      (event.indexKey, signingKeyFingerprint publicKey) ∈ byId.filterMap activationTerms := by
    refine List.mem_filterMap.mpr ⟨event, (mem_collect determines_events hbyId event).mpr
      ⟨event, hevent, rfl⟩, ?_⟩
    rw [activationTerms, haction]
    rfl
  have hsame := (succeeds_collect hdetermines).mp ⟨terms, hterms⟩ |>.2 _
    (hactivated hleft hleftAction) _ rfl _ (hactivated hright hrightAction) _ rfl hkey.symm
  exact (congrArg Prod.snd hsame).symm

variable (hplain : ∀ event ∈ events, PlainIdentifiers event)
include hplain

/-- A reduced authorization has the identifiers of the event that activated it. -/
theorem indexKey_of_reduce {authorization : MemberSigningKeyAuthorization crypto}
    (hmem : authorization ∈ authorizations) {communityId memberId keyId : String} :
    authorization.indexKey = keyFor communityId memberId keyId ↔
      authorization.communityId = communityId ∧ authorization.memberId = memberId ∧
        authorization.keyId = keyId := by
  obtain ⟨event, hevent, -, hcommunity, hmember, hkey⟩ := activates_of_reduce h hmem
  have hindex : authorization.indexKey = event.indexKey := by
    rw [MemberSigningKeyAuthorization.indexKey, MemberSigningKeyAuthorizationEvent.indexKey,
      hcommunity, hmember, hkey]
  rw [hindex, (hplain event hevent).indexKey_eq, hcommunity, hmember, hkey]

/-- An activation has a reduced authorization with its identifiers and its key material. -/
theorem reduced_of_activates {event : MemberSigningKeyAuthorizationEvent crypto}
    (hevent : event ∈ events) {publicKey : Ed25519PublicKey crypto}
    (haction : event.action = .activate publicKey) :
    ∃ authorization ∈ authorizations, authorization.communityId = event.communityId ∧
      authorization.memberId = event.memberId ∧ authorization.keyId = event.keyId ∧
      authorization.fingerprint = signingKeyFingerprint publicKey := by
  obtain ⟨authorization, hmem, hindex⟩ := exists_of_activates h hevent (by rw [haction]; simp)
  obtain ⟨hcommunity, hmember, hkey⟩ := (indexKey_of_reduce h hplain hmem).mp hindex
  obtain ⟨activation, hactivation, hactivated, hactivationIds⟩ := activates_of_reduce h hmem
  refine ⟨authorization, hmem, hcommunity, hmember, hkey, ?_⟩
  refine fingerprint_of_reduce h hactivation hevent hactivated haction ?_
  rw [← hindex, MemberSigningKeyAuthorizationEvent.indexKey, hactivationIds.1, hactivationIds.2.1,
    hactivationIds.2.2, MemberSigningKeyAuthorization.indexKey]

theorem authorizationId_of_reduce {left right : MemberSigningKeyAuthorization crypto}
    (hleft : left ∈ authorizations) (hright : right ∈ authorizations) :
    left.authorizationId = right.authorizationId ↔
      left.communityId = right.communityId ∧ left.keyId = right.keyId := by
  have hcommunity {authorization : MemberSigningKeyAuthorization crypto}
      (hmem : authorization ∈ authorizations) : '\x00' ∉ authorization.communityId.toList := by
    obtain ⟨event, hevent, -, hsame, -⟩ := activates_of_reduce h hmem
    exact hsame ▸ (hplain event hevent).communityId
  exact Text.join_inj (hcommunity hleft) (hcommunity hright)

theorem keyOwner_of_reduce {left right : MemberSigningKeyAuthorization crypto}
    (hleft : left ∈ authorizations) (hright : right ∈ authorizations) :
    left.keyOwner = right.keyOwner ↔
      left.communityId = right.communityId ∧ left.memberId = right.memberId := by
  have hcommunity {authorization : MemberSigningKeyAuthorization crypto}
      (hmem : authorization ∈ authorizations) : '\x00' ∉ authorization.communityId.toList := by
    obtain ⟨event, hevent, -, hsame, -⟩ := activates_of_reduce h hmem
    exact hsame ▸ (hplain event hevent).communityId
  exact Text.join_inj (hcommunity hleft) (hcommunity hright)

/-- The verifier takes the reduced authorizations exactly where no keys are shared. -/
theorem compatible_iff_unsharedKeys : authorizations.Pairwise Compatible ↔ UnsharedKeys events := by
  have hnodup := nodup_of_reduce h
  constructor
  · intro hcompatible
    have hapart {left right : MemberSigningKeyAuthorization crypto} (hleft : left ∈ authorizations)
        (hright : right ∈ authorizations) (hne : left ≠ right) : Compatible left right :=
      hcompatible.forall hleft hright hne
    constructor
    · intro left hleft right hright hleftAction hrightAction hcommunity hkey
      obtain ⟨leftKey, hleftAction⟩ : ∃ publicKey, left.action = .activate publicKey := by
        cases haction : left.action with
        | activate publicKey => exact ⟨publicKey, rfl⟩
        | revoke => exact absurd haction hleftAction
      obtain ⟨rightKey, hrightAction⟩ : ∃ publicKey, right.action = .activate publicKey := by
        cases haction : right.action with
        | activate publicKey => exact ⟨publicKey, rfl⟩
        | revoke => exact absurd haction hrightAction
      obtain ⟨first, hfirst, hfirstCommunity, hfirstMember, hfirstKey, -⟩ :=
        reduced_of_activates h hplain hleft hleftAction
      obtain ⟨second, hsecond, hsecondCommunity, hsecondMember, hsecondKey, -⟩ :=
        reduced_of_activates h hplain hright hrightAction
      by_contra hmember
      have hne : first ≠ second := by
        rintro rfl
        exact hmember (hfirstMember.symm.trans hsecondMember)
      refine (hapart hfirst hsecond hne).1 ((authorizationId_of_reduce h hplain hfirst hsecond).mpr
        ⟨?_, ?_⟩)
      · rw [hfirstCommunity, hcommunity, hsecondCommunity]
      · rw [hfirstKey, hkey, hsecondKey]
    · intro left hleft right hright leftKey rightKey hleftAction hrightAction hfingerprint
      obtain ⟨first, hfirst, hfirstCommunity, hfirstMember, -, hfirstKey⟩ :=
        reduced_of_activates h hplain hleft hleftAction
      obtain ⟨second, hsecond, hsecondCommunity, hsecondMember, -, hsecondKey⟩ :=
        reduced_of_activates h hplain hright hrightAction
      rw [← hfirstCommunity, ← hsecondCommunity, ← hfirstMember, ← hsecondMember]
      by_cases hsame : first = second
      · exact ⟨congrArg _ hsame, congrArg _ hsame⟩
      · refine (keyOwner_of_reduce h hplain hfirst hsecond).mp ((hapart hfirst hsecond hsame).2 ?_)
        rw [hfirstKey, hsecondKey, hfingerprint]
  · intro hunshared
    refine (List.pairwise_map.mp hnodup).imp_of_mem fun {left right} hleft hright hne ↦ ?_
    obtain ⟨first, hfirst, hfirstAction, hfirstCommunity, hfirstMember, hfirstKey⟩ :=
      activates_of_reduce h hleft
    obtain ⟨second, hsecond, hsecondAction, hsecondCommunity, hsecondMember, hsecondKey⟩ :=
      activates_of_reduce h hright
    constructor
    · intro hid
      obtain ⟨hcommunity, hkey⟩ := (authorizationId_of_reduce h hplain hleft hright).mp hid
      have hmember := hunshared.keyIds first hfirst second hsecond (by rw [hfirstAction]; simp)
        (by rw [hsecondAction]; simp) (by rw [hfirstCommunity, hcommunity, hsecondCommunity])
        (by rw [hfirstKey, hkey, hsecondKey])
      exact hne ((indexKey_of_reduce h hplain hleft).mpr
        ⟨hcommunity, by rw [← hfirstMember, hmember, hsecondMember], hkey⟩)
    · intro hfingerprint
      obtain ⟨hcommunity, hmember⟩ := hunshared.publicKeys first hfirst second hsecond _ _
        hfirstAction hsecondAction hfingerprint
      refine (keyOwner_of_reduce h hplain hleft hright).mpr ⟨?_, ?_⟩
      · rw [← hfirstCommunity, hcommunity, hsecondCommunity]
      · rw [← hfirstMember, hmember, hsecondMember]

/-- What a verifier of the reduced authorizations verifies. -/
theorem verifiesUnder_iff_byKey {input : VerifyMemberSignatureInput} :
    VerifiesUnder authorizations input ↔ VerifiesByKey authorizations input := by
  unfold VerifiesUnder
  constructor
  · rintro ⟨publicKey, hactiveKey, hsigned⟩
    obtain ⟨authorization, hmem, hactive, hindex, rfl⟩ :=
      (activeKey?_of_nodup (nodup_of_reduce h)).mp hactiveKey
    obtain ⟨hcommunity, hmember, hkey⟩ := (indexKey_of_reduce h hplain hmem).mp hindex
    exact ⟨authorization, hmem, hactive, hcommunity, hmember, hkey, hsigned⟩
  · rintro ⟨authorization, hmem, hactive, hcommunity, hmember, hkey, hsigned⟩
    exact ⟨authorization.publicKey, (activeKey?_of_nodup (nodup_of_reduce h)).mpr
      ⟨authorization, hmem, hactive,
        (indexKey_of_reduce h hplain hmem).mpr ⟨hcommunity, hmember, hkey⟩, rfl⟩, hsigned⟩

/-- The verifier takes the reduced authorizations, and then verifies by each member's own keys, exactly
where the events share no keys. -/
theorem reduced_usable_iff : Usable authorizations ↔ UnsharedKeys events := by
  rw [← compatible_iff_unsharedKeys h hplain]
  constructor
  · exact Usable.compatible
  · intro hcompatible
    refine ⟨_, createEd25519MemberSignatureVerifier_eq_ok.mpr ⟨hcompatible, rfl⟩, fun input ↦ ?_⟩
    rw [verifyMemberSignature_indexedKeys, verifiesUnder_iff_byKey h hplain]

end Reduced

/-- A member activates a key of their own under a key id. -/
def activationEvent (memberId keyId : String) (hmember : Text.blank memberId = false)
    (hkey : Text.blank keyId = false) (hlength : (utf8 memberId).length ≤ 64) :
    MemberSigningKeyAuthorizationEvent transparentCrypto where
  eventId := "activation/" ++ memberId
  communityId := "garden"
  memberId := memberId
  keyId := keyId
  action := .activate (transparentKey memberId hmember hlength)
  occurredAt := "2025-06-01T12:00:00.000Z"
  eventIdPresent := by rw [Text.blank_append]; rfl
  present := ⟨blank_garden, hmember, hkey⟩
  timestamp := isCanonical_noon

/-- Ada activates her phone, and Ben a device of his own. -/
def ownDevices (keyId : String) (hkey : Text.blank keyId = false) :
    List (MemberSigningKeyAuthorizationEvent transparentCrypto) :=
  [activationEvent "ada" "phone" blank_ada blank_phone length_ada,
    activationEvent "ben" keyId blank_ben hkey length_ben]

theorem ownDevices_plain {keyId : String} {hkey : Text.blank keyId = false}
    (hplain : '\x00' ∉ keyId.toList) : ∀ event ∈ ownDevices keyId hkey, PlainIdentifiers event := by
  have hcommunity : '\x00' ∉ "garden".toList := by decide
  have hben : '\x00' ∉ "ben".toList := by decide
  intro event hevent
  simp only [ownDevices, List.mem_cons, List.not_mem_nil, or_false] at hevent
  cases hevent with
  | inl hada => subst hada; exact ⟨by decide, by decide, by decide⟩
  | inr hsame => subst hsame; exact ⟨hcommunity, hben, hplain⟩

/-- Two key ids and two keys are not shared. -/
theorem unshared_ownDevices : UnsharedKeys (ownDevices "tablet" (by decide)) where
  keyIds left hleft right hright _ _ _ := by
    have hkeyIds : ∀ left ∈ ownDevices "tablet" (by decide), ∀ right ∈ ownDevices "tablet" (by decide),
        left.keyId = right.keyId → left.memberId = right.memberId := by
      decide
    exact hkeyIds left hleft right hright
  publicKeys left hleft right hright leftKey rightKey hleftKey hrightKey hsame := by
    have hfingerprints : ∀ left ∈ ownDevices "tablet" (by decide), ∀ right ∈ ownDevices "tablet" (by decide),
        left.action.publicKey?.map signingKeyFingerprint = right.action.publicKey?.map signingKeyFingerprint →
          left.communityId = right.communityId ∧ left.memberId = right.memberId := by
      decide +kernel
    refine hfingerprints left hleft right hright ?_
    rw [hleftKey, hrightKey]
    exact congrArg some hsame

theorem reduced_usable_iff_devices :
    (∀ event ∈ ownDevices "tablet" (by decide), PlainIdentifiers event) ∧
      ∃ authorizations, reduceMemberSigningKeyAuthorizationEvents compare
          (ownDevices "tablet" (by decide)) = .ok authorizations ∧
        (Usable authorizations ↔ UnsharedKeys (ownDevices "tablet" (by decide))) ∧
        Usable authorizations := by
  have hplain := @ownDevices_plain "tablet" (by decide) (by decide)
  obtain ⟨authorizations, h⟩ : Succeeds (reduceMemberSigningKeyAuthorizationEvents compare
      (ownDevices "tablet" (by decide))) := by decide +kernel
  have husable := reduced_usable_iff h hplain
  exact ⟨hplain, authorizations, h, husable, husable.mpr unshared_ownDevices⟩

/-- Two members call their own keys by one key id: the keys are reduced to active authorizations, which the
verifier refuses. -/
theorem key_id_of_two_members :
    ∃ authorizations, reduceMemberSigningKeyAuthorizationEvents compare
        (ownDevices "phone" (by decide)) = .ok authorizations ∧
      (∀ memberId ∈ ["ada", "ben"], ∃ authorization ∈ authorizations,
        authorization.active = true ∧ authorization.communityId = "garden" ∧
        authorization.memberId = memberId ∧ authorization.keyId = "phone") ∧
      ¬ Usable authorizations := by
  have hreduced : (match reduceMemberSigningKeyAuthorizationEvents compare
        (ownDevices "phone" (by decide)) with
      | .ok authorizations => decide (∀ memberId ∈ ["ada", "ben"],
          ∃ authorization ∈ authorizations, authorization.active = true ∧
            authorization.communityId = "garden" ∧ authorization.memberId = memberId ∧
            authorization.keyId = "phone")
      | .error _ => false) = true := by decide +kernel
  cases h : reduceMemberSigningKeyAuthorizationEvents compare (ownDevices "phone" (by decide)) with
  | error message =>
      rw [h] at hreduced
      cases hreduced
  | ok authorizations =>
      rw [h] at hreduced
      refine ⟨authorizations, rfl, of_decide_eq_true hreduced, fun husable ↦ ?_⟩
      have hunshared :=
        (compatible_iff_unsharedKeys h (ownDevices_plain (by decide))).mp husable.compatible
      have hsame := hunshared.keyIds _ List.mem_cons_self _
        (List.mem_cons_of_mem _ List.mem_cons_self) (by simp [activationEvent])
        (by simp [activationEvent]) rfl rfl
      exact absurd hsame (by decide)

end PeerHours.TimebankIdentity
