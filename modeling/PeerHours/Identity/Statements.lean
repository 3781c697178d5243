import PeerHours.Identity.Keys

/-!
# Identity statements

Signing-key authorizations, their lifecycle events, and the statements a root key signs: key
lifecycle statements, feed declarations and feed announcements. Each type carries the checks that
its `create` function makes, so a value of it is always properly signed.
-/

namespace PeerHours.TimebankIdentity

open Checked Json

variable (crypto : Crypto)

/-! ## Authorizations and their events -/

/-- A community-scoped authorization for one member's Ed25519 public signing key. -/
structure MemberSigningKeyAuthorization where
  communityId : String
  memberId : String
  keyId : String
  publicKey : Ed25519PublicKey crypto
  active : Bool
  present : Text.blank communityId = false ∧ Text.blank memberId = false ∧ Text.blank keyId = false

/-- The immutable lifecycle action applied to one community member signing key. -/
inductive MemberSigningKeyAuthorizationAction where
  | activate (publicKey : Ed25519PublicKey crypto)
  | revoke

variable {crypto} in
/-- The public key that an action names. -/
def MemberSigningKeyAuthorizationAction.publicKey? :
    MemberSigningKeyAuthorizationAction crypto → Option (Ed25519PublicKey crypto)
  | .activate publicKey => some publicKey
  | .revoke => none

variable {crypto} in
/-- The text of an action. -/
def MemberSigningKeyAuthorizationAction.name : MemberSigningKeyAuthorizationAction crypto → String
  | .activate _ => "activate"
  | .revoke => "revoke"

/-- A replicated member signing-key authorization lifecycle event. -/
structure MemberSigningKeyAuthorizationEvent where
  eventId : String
  communityId : String
  memberId : String
  keyId : String
  action : MemberSigningKeyAuthorizationAction crypto
  occurredAt : String
  eventIdPresent : Text.blank eventId = false
  present : Text.blank communityId = false ∧ Text.blank memberId = false ∧ Text.blank keyId = false
  timestamp : Timestamp.isCanonical occurredAt = true

/-- Creates an immutable authorization lifecycle event suitable for replication. -/
def createMemberSigningKeyAuthorizationEvent (input : JsonValue) :
    Except String (MemberSigningKeyAuthorizationEvent crypto) := do
  let eventId ← assertPresent (input.field "eventId") "Authorization event id"
  let communityId ← assertPresent (input.field "communityId") "Community id"
  let memberId ← assertPresent (input.field "memberId") "Member id"
  let keyId ← assertPresent (input.field "keyId") "Signing key id"
  let occurredAt ← assertCanonicalTimestamp (input.field "occurredAt")
  let event (action : MemberSigningKeyAuthorizationAction crypto) :
      MemberSigningKeyAuthorizationEvent crypto :=
    { eventId := eventId
      communityId := communityId
      memberId := memberId
      keyId := keyId
      action := action
      occurredAt := occurredAt
      eventIdPresent := PresentText.present eventId
      present := ⟨PresentText.present communityId, PresentText.present memberId,
        PresentText.present keyId⟩
      timestamp := CanonicalTimestamp.canonical occurredAt }
  if input.field "action" = some (.str "activate") then
    let publicKey ←
      readEd25519PublicKey crypto (input.field "publicKeyPem") "Ed25519 public key"
    pure (event (.activate publicKey))
  else if input.field "action" = some (.str "revoke") then pure (event .revoke)
  else .error "Authorization event action must be activate or revoke."

variable {crypto}

/-- The terms of an event, with `null` for the key a revocation does not name. -/
def MemberSigningKeyAuthorizationEvent.terms (event : MemberSigningKeyAuthorizationEvent crypto) :
    List (String × JsonValue) :=
  [("eventId", .str event.eventId), ("communityId", .str event.communityId),
    ("memberId", .str event.memberId), ("keyId", .str event.keyId),
    ("action", .str event.action.name), ("occurredAt", .str event.occurredAt),
    ("publicKeyPem", match event.action with
      | .activate publicKey => .str publicKey.publicKeyPem
      | .revoke => .null)]

/-- The properties of an event; a revocation has no key. -/
def MemberSigningKeyAuthorizationEvent.properties
    (event : MemberSigningKeyAuthorizationEvent crypto) : List (String × JsonValue) :=
  [("eventId", .str event.eventId), ("communityId", .str event.communityId),
    ("memberId", .str event.memberId), ("keyId", .str event.keyId),
    ("action", .str event.action.name), ("occurredAt", .str event.occurredAt)] ++
    (event.action.publicKey?.map fun publicKey ↦
      ("publicKeyPem", JsonValue.str publicKey.publicKeyPem)).toList

/-- Produces stable immutable terms for detecting conflicting duplicate event ids. -/
def authorizationEventFingerprint (event : MemberSigningKeyAuthorizationEvent crypto) : String :=
  stringify (.obj event.terms)

/-- The object has the terms of the event. -/
structure DescribesEvent (input : JsonValue) (event : MemberSigningKeyAuthorizationEvent crypto) :
    Prop where
  eventId : input.field "eventId" = some (.str event.eventId)
  communityId : input.field "communityId" = some (.str event.communityId)
  memberId : input.field "memberId" = some (.str event.memberId)
  keyId : input.field "keyId" = some (.str event.keyId)
  occurredAt : input.field "occurredAt" = some (.str event.occurredAt)
  action : input.field "action" = some (.str event.action.name)
  publicKey : ∀ publicKey, event.action = .activate publicKey →
    input.field "publicKeyPem" = some (.str publicKey.publicKeyPem)

/-- Events are created exactly from the objects that describe them. -/
theorem createMemberSigningKeyAuthorizationEvent_eq_ok {input : JsonValue}
    {event : MemberSigningKeyAuthorizationEvent crypto} :
    createMemberSigningKeyAuthorizationEvent crypto input = .ok event ↔
      DescribesEvent input event := by
  simp only [createMemberSigningKeyAuthorizationEvent, bind_eq_ok, assertPresent_eq_ok,
    assertCanonicalTimestamp_eq_ok]
  constructor
  · rintro ⟨eventId, heventId, community, hcommunity, member, hmember, key, hkey, occurredAt,
      hoccurredAt, h⟩
    split at h
    · rename_i haction
      obtain ⟨publicKey, hpublicKey, h⟩ := bind_eq_ok.mp h
      obtain rfl := pure_eq_ok.mp h
      refine ⟨heventId, hcommunity, hmember, hkey, hoccurredAt, haction, ?_⟩
      rintro _ ⟨⟩
      exact readEd25519PublicKey_eq_ok.mp hpublicKey
    · split at h
      · rename_i haction
        obtain rfl := pure_eq_ok.mp h
        refine ⟨heventId, hcommunity, hmember, hkey, hoccurredAt, haction, ?_⟩
        rintro _ ⟨⟩
      · cases h
  · intro h
    obtain ⟨eventId, community, member, key, action, occurredAt, heventId, hpresent, htimestamp⟩ :=
      event
    refine ⟨⟨eventId, heventId⟩, h.eventId, ⟨community, hpresent.1⟩, h.communityId,
      ⟨member, hpresent.2.1⟩, h.memberId, ⟨key, hpresent.2.2⟩, h.keyId, ⟨occurredAt, htimestamp⟩,
      h.occurredAt, ?_⟩
    cases action with
    | activate publicKey =>
        have haction : input.field "action" = some (.str "activate") := h.action
        rw [if_pos haction, readEd25519PublicKey_eq_ok.mpr (h.publicKey publicKey rfl)]
        rfl
    | revoke =>
        have haction : input.field "action" = some (.str "revoke") := h.action
        rw [if_neg (by simp [haction]), if_pos haction]
        rfl

/-- Equal terms make equal events. -/
theorem MemberSigningKeyAuthorizationEvent.ext_terms
    {left right : MemberSigningKeyAuthorizationEvent crypto} (h : left.terms = right.terms) :
    left = right := by
  obtain ⟨_, _, _, _, key | _, _, _, _, _⟩ := left <;>
    obtain ⟨_, _, _, _, key' | _, _, _, _, _⟩ := right <;>
    simp [terms, MemberSigningKeyAuthorizationAction.name] at h ⊢
  · exact ⟨h.1, h.2.1, h.2.2.1, h.2.2.2.1, Ed25519PublicKey.ext h.2.2.2.2.2, h.2.2.2.2.1⟩
  · exact h

theorem authorizationEventFingerprint_inj {left right : MemberSigningKeyAuthorizationEvent crypto}
    (h : authorizationEventFingerprint left = authorizationEventFingerprint right) : left = right :=
  MemberSigningKeyAuthorizationEvent.ext_terms (by simpa [authorizationEventFingerprint, stringify_inj] using h)

/-! ## Root-signed key lifecycle -/

/-- The domain-separation marker for root-signed member signing-key lifecycle statements. -/
def rootSignedMemberKeyLifecycleSchema : String := "peer-hours/root-signed-member-key-lifecycle/v1"

/-- The exact domain-separated bytes a self-owned root key signs for a key lifecycle action. -/
def canonicalRootSignedMemberSigningKeyLifecyclePayload
    (event : MemberSigningKeyAuthorizationEvent crypto) (rootPublicKey : Ed25519PublicKey crypto) :
    Buffer :=
  jsonBytes (.obj (("schema", .str rootSignedMemberKeyLifecycleSchema) :: event.terms ++
    [("rootPublicKeyPem", .str rootPublicKey.publicKeyPem)]))

variable (crypto) in
/-- A self-certifying, root-signed lifecycle statement for one member signing key. -/
structure RootSignedMemberSigningKeyLifecycle where
  event : MemberSigningKeyAuthorizationEvent crypto
  rootPublicKey : Ed25519PublicKey crypto
  signature : String
  owned : event.memberId = selfOwnedMemberId rootPublicKey
  signed : SignedBy rootPublicKey
    (canonicalRootSignedMemberSigningKeyLifecyclePayload event rootPublicKey) signature

variable (crypto) in
/-- Validates an immutable root-signed key activation or permanent revocation statement. An unknown
action is rejected with the event, before the signature is looked at. -/
def createRootSignedMemberSigningKeyLifecycle (input : JsonValue) :
    Except String (RootSignedMemberSigningKeyLifecycle crypto) := do
  require (input.field "schema" = some (.str rootSignedMemberKeyLifecycleSchema))
    "A root-signed member key lifecycle statement must use the current schema."
  let event ← createMemberSigningKeyAuthorizationEvent crypto input
  let root ← readEd25519PublicKey crypto (input.field "rootPublicKeyPem") "Root public key"
  if owned : event.memberId = selfOwnedMemberId root then
    let signature ← present (JsonValue.text? (input.field "signature"))
      "The first argument must be of type string."
    if signed : SignedBy root
        (canonicalRootSignedMemberSigningKeyLifecyclePayload event root) signature then
      pure ⟨event, root, signature, owned, signed⟩
    else .error "A member key lifecycle statement must have a valid self-owned root signature."
  else
    .error "A root-signed member key lifecycle statement member id must match its root public key."

/-- Statements are created exactly from the objects that describe them. -/
theorem createRootSignedMemberSigningKeyLifecycle_eq_ok {input : JsonValue}
    {statement : RootSignedMemberSigningKeyLifecycle crypto} :
    createRootSignedMemberSigningKeyLifecycle crypto input = .ok statement ↔
      input.field "schema" = some (.str rootSignedMemberKeyLifecycleSchema) ∧
      DescribesEvent input statement.event ∧
      input.field "rootPublicKeyPem" = some (.str statement.rootPublicKey.publicKeyPem) ∧
      input.field "signature" = some (.str statement.signature) := by
  simp only [createRootSignedMemberSigningKeyLifecycle, bind_eq_ok, require_eq_ok,
    createMemberSigningKeyAuthorizationEvent_eq_ok, readEd25519PublicKey_eq_ok]
  constructor
  · rintro ⟨_, hschema, event, hevent, root, hroot, h⟩
    split at h
    · obtain ⟨signature, hsignature, h⟩ := bind_eq_ok.mp h
      rw [present_eq_ok, JsonValue.text?_eq_some] at hsignature
      split at h
      · obtain rfl := pure_eq_ok.mp h
        exact ⟨hschema, hevent, hroot, hsignature⟩
      · cases h
    · cases h
  · rintro ⟨hschema, hevent, hroot, hsignature⟩
    refine ⟨(), hschema, statement.event, hevent, statement.rootPublicKey, hroot, ?_⟩
    rw [dif_pos statement.owned, hsignature]
    simp only [JsonValue.text?_str, present, ok_bind]
    rw [dif_pos statement.signed]
    rfl

/-- Produces stable terms for duplicate detection before root-signed lifecycle reduction. -/
def rootSignedLifecycleFingerprint (statement : RootSignedMemberSigningKeyLifecycle crypto) :
    String :=
  stringify (.obj [("schema", .str rootSignedMemberKeyLifecycleSchema),
    ("event", .str (authorizationEventFingerprint statement.event)),
    ("rootPublicKeyPem", .str statement.rootPublicKey.publicKeyPem),
    ("signature", .str statement.signature)])

theorem rootSignedLifecycleFingerprint_inj
    {left right : RootSignedMemberSigningKeyLifecycle crypto}
    (h : rootSignedLifecycleFingerprint left = rootSignedLifecycleFingerprint right) :
    left = right := by
  simp only [rootSignedLifecycleFingerprint, stringify_inj, JsonValue.obj.injEq, List.cons.injEq,
    Prod.mk.injEq, JsonValue.str.injEq, true_and, and_true] at h
  obtain ⟨hevent, hroot, hsignature⟩ := h
  obtain ⟨event, root, signature, _, _⟩ := left
  obtain ⟨event', root', signature', _, _⟩ := right
  obtain rfl : event = event' := authorizationEventFingerprint_inj hevent
  obtain rfl : root = root' := Ed25519PublicKey.ext hroot
  cases hsignature
  rfl

/-- The object of a root-signed statement. -/
def RootSignedMemberSigningKeyLifecycle.toJson
    (statement : RootSignedMemberSigningKeyLifecycle crypto) : JsonValue :=
  .obj (("schema", .str rootSignedMemberKeyLifecycleSchema) :: statement.event.properties ++
    [("rootPublicKeyPem", .str statement.rootPublicKey.publicKeyPem),
      ("signature", .str statement.signature)])

/-! ## Feed declarations -/

/-- The schema of a member feed declaration. -/
def memberFeedDeclarationSchema : String := "peer-hours/member-feed-declaration/v1"

/-- The exact domain-separated bytes a root identity signs to declare one member feed. -/
def canonicalMemberFeedDeclarationPayload (rootPublicKey : Ed25519PublicKey crypto)
    (communityId : String) (feedPublicKey : JsonValue) (occurredAt : String) : Buffer :=
  jsonBytes (.obj [("schema", .str memberFeedDeclarationSchema),
    ("memberId", .str (selfOwnedMemberId rootPublicKey)), ("communityId", .str communityId),
    ("feedPublicKey", feedPublicKey), ("occurredAt", .str occurredAt),
    ("rootPublicKeyPem", .str rootPublicKey.publicKeyPem)])

variable (crypto) in
/-- A signed statement that one self-owned identity publishes records through one Hypercore feed. It
keeps all properties of the object it was created from. -/
structure MemberFeedDeclaration where
  communityId : String
  feedPublicKey : JsonValue
  feedPublicKeyText : String
  occurredAt : String
  rootPublicKey : Ed25519PublicKey crypto
  signature : String
  properties : List (String × JsonValue)
  present : Text.blank communityId = false
  hypercoreKey : hypercoreKeyText feedPublicKey = some feedPublicKeyText ∧
    isHypercoreKey feedPublicKeyText = true
  timestamp : Timestamp.isCanonical occurredAt = true
  signed : SignedBy rootPublicKey
    (canonicalMemberFeedDeclarationPayload rootPublicKey communityId feedPublicKey occurredAt)
    signature

/-- The member that a declaration's root key certifies. -/
def MemberFeedDeclaration.memberId (declaration : MemberFeedDeclaration crypto) : String :=
  selfOwnedMemberId declaration.rootPublicKey

/-- The object of a declaration. -/
def MemberFeedDeclaration.toJson (declaration : MemberFeedDeclaration crypto) : JsonValue :=
  .obj declaration.properties

variable (crypto) in
/-- Creates a declaration only when its self-owned root identity signed the exact feed terms. -/
def createMemberFeedDeclaration (input : JsonValue) :
    Except String (MemberFeedDeclaration crypto) := do
  require (input.field "schema" = some (.str memberFeedDeclarationSchema))
    "A member feed declaration must use the current schema."
  let root ← readEd25519PublicKey crypto (input.field "rootPublicKeyPem") "Root public key"
  let communityId ← assertPresent (input.field "communityId") "Community id"
  let feedPublicKey ← assertCanonicalHypercoreKey (input.field "feedPublicKey")
  let occurredAt ← assertCanonicalTimestamp (input.field "occurredAt")
  require (input.field "memberId" = some (.str (selfOwnedMemberId root)))
    "A member feed declaration member id must match its root public key."
  let signature ← present (JsonValue.text? (input.field "signature"))
    "The first argument must be of type string."
  if signed : SignedBy root (canonicalMemberFeedDeclarationPayload root communityId
      feedPublicKey.1.1 occurredAt) signature then
    pure
      { communityId := communityId
        feedPublicKey := feedPublicKey.1.1
        feedPublicKeyText := feedPublicKey.1.2
        occurredAt := occurredAt
        rootPublicKey := root
        signature := signature
        properties := input.properties
        present := PresentText.present communityId
        hypercoreKey := feedPublicKey.2
        timestamp := CanonicalTimestamp.canonical occurredAt
        signed := signed }
  else .error "A member feed declaration must have a valid root identity signature."

/-- The object has the terms of the declaration. -/
structure DescribesDeclaration (input : JsonValue) (declaration : MemberFeedDeclaration crypto) :
    Prop where
  schema : input.field "schema" = some (.str memberFeedDeclarationSchema)
  memberId : input.field "memberId" = some (.str declaration.memberId)
  communityId : input.field "communityId" = some (.str declaration.communityId)
  feedPublicKey : input.field "feedPublicKey" = some declaration.feedPublicKey
  occurredAt : input.field "occurredAt" = some (.str declaration.occurredAt)
  rootPublicKey : input.field "rootPublicKeyPem" =
    some (.str declaration.rootPublicKey.publicKeyPem)
  signature : input.field "signature" = some (.str declaration.signature)
  properties : input.properties = declaration.properties

theorem assertCanonicalHypercoreKey_eq_ok {value : Option JsonValue}
    {key : {key : JsonValue × String //
      hypercoreKeyText key.1 = some key.2 ∧ isHypercoreKey key.2 = true}} :
    assertCanonicalHypercoreKey value = .ok key ↔ value = some key.1.1 := by
  obtain ⟨⟨found, text⟩, htext, hkey⟩ := key
  cases value with
  | none => simp [assertCanonicalHypercoreKey]
  | some value =>
      simp only [assertCanonicalHypercoreKey, Option.some.injEq]
      constructor
      · intro h
        split at h
        · cases h
        · split at h
          · simpa using (congrArg (fun key ↦ key.1.1) (Except.ok.inj h))
          · cases h
      · rintro rfl
        split
        · rename_i hnone
          exact absurd (hnone.symm.trans htext) nofun
        · rename_i text' htext'
          obtain rfl : text' = text := Option.some.inj (htext'.symm.trans htext)
          rw [dif_pos hkey]

/-- Declarations are created exactly from the objects that describe them. -/
theorem createMemberFeedDeclaration_eq_ok {input : JsonValue}
    {declaration : MemberFeedDeclaration crypto} :
    createMemberFeedDeclaration crypto input = .ok declaration ↔
      DescribesDeclaration input declaration := by
  simp only [createMemberFeedDeclaration, bind_eq_ok, require_eq_ok, readEd25519PublicKey_eq_ok,
    assertPresent_eq_ok, assertCanonicalHypercoreKey_eq_ok, assertCanonicalTimestamp_eq_ok,
    present_eq_ok, JsonValue.text?_eq_some]
  constructor
  · rintro ⟨_, hschema, root, hroot, community, hcommunity, key, hkey, occurredAt, hoccurredAt, _,
      hmember, signature, hsignature, h⟩
    split at h
    · obtain rfl := pure_eq_ok.mp h
      exact ⟨hschema, hmember, hcommunity, hkey, hoccurredAt, hroot, hsignature, rfl⟩
    · cases h
  · intro h
    refine ⟨(), h.schema, declaration.rootPublicKey, h.rootPublicKey,
      ⟨declaration.communityId, declaration.present⟩, h.communityId,
      ⟨(declaration.feedPublicKey, declaration.feedPublicKeyText), declaration.hypercoreKey⟩,
      h.feedPublicKey, ⟨declaration.occurredAt, declaration.timestamp⟩, h.occurredAt, (), h.memberId,
      declaration.signature, h.signature, ?_⟩
    rw [dif_pos declaration.signed, h.properties]
    rfl

/-- A created declaration is created again from its own object. -/
theorem createMemberFeedDeclaration_toJson {input : JsonValue}
    {declaration : MemberFeedDeclaration crypto}
    (h : createMemberFeedDeclaration crypto input = .ok declaration) :
    createMemberFeedDeclaration crypto declaration.toJson = .ok declaration := by
  have hdescribes := createMemberFeedDeclaration_eq_ok.mp h
  have hinput : input = declaration.toJson := by
    cases input with
    | obj fields => rw [MemberFeedDeclaration.toJson, ← hdescribes.properties]; rfl
    | _ => exact absurd hdescribes.schema nofun
  rw [← hinput]
  exact h

/-! ## Feed announcements -/

/-- The schema of a member feed announcement. -/
def memberFeedAnnouncementSchema : String := "peer-hours/member-feed-announcement/v1"

/-- The exact domain-separated bytes a root identity signs to announce one declared feed. -/
def canonicalMemberFeedAnnouncementPayload (declaration : MemberFeedDeclaration crypto)
    (announcedAt expiresAt : String) : Buffer :=
  jsonBytes (.obj [("schema", .str memberFeedAnnouncementSchema),
    ("declaration", declaration.toJson), ("announcedAt", .str announcedAt),
    ("expiresAt", .str expiresAt)])

variable (crypto) in
/-- A short-lived root-signed announcement that makes one declared member feed discoverable. -/
structure MemberFeedAnnouncement where
  declaration : MemberFeedDeclaration crypto
  announcedAt : String
  expiresAt : String
  signature : String
  announcedMillis : Int
  expiresMillis : Int
  announced : Timestamp.millis? announcedAt = some announcedMillis
  expires : Timestamp.millis? expiresAt = some expiresMillis
  short : announcedMillis < expiresMillis
  signed : SignedBy declaration.rootPublicKey
    (canonicalMemberFeedAnnouncementPayload declaration announcedAt expiresAt) signature

variable (crypto) in
/-- Creates a discoverable feed announcement only when its owning root identity signed its exact
terms. -/
def createMemberFeedAnnouncement (input : JsonValue) :
    Except String (MemberFeedAnnouncement crypto) := do
  require (input.field "schema" = some (.str memberFeedAnnouncementSchema))
    "A member feed announcement must use the current schema."
  let declaration ←
    createMemberFeedDeclaration crypto ((input.field "declaration").getD .null)
  let announcedAt ← assertCanonicalTimestamp (input.field "announcedAt")
  let expiresAt ← assertCanonicalTimestamp (input.field "expiresAt")
  match announced : Timestamp.millis? announcedAt, expires : Timestamp.millis? expiresAt with
  | some announcedMillis, some expiresMillis =>
      if short : announcedMillis < expiresMillis then
        let signature ← present (JsonValue.text? (input.field "signature"))
          "The first argument must be of type string."
        if signed : SignedBy declaration.rootPublicKey
            (canonicalMemberFeedAnnouncementPayload declaration announcedAt expiresAt)
            signature then
          pure
            { declaration := declaration
              announcedAt := announcedAt
              expiresAt := expiresAt
              signature := signature
              announcedMillis := announcedMillis
              expiresMillis := expiresMillis
              announced := announced
              expires := expires
              short := short
              signed := signed }
        else .error "A member feed announcement must have a valid root identity signature."
      else .error "A member feed announcement must expire after it is announced."
  | _, _ => .error "A member feed announcement must expire after it is announced."

end PeerHours.TimebankIdentity
