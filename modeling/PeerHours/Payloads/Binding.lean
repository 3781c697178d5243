import PeerHours.Payloads.Builders

/-!
# What a signed payload binds

The payloads of different kinds are never equal, and a payload determines every term that it writes. So a
signature made for one statement does not authenticate another.
-/

namespace PeerHours.SignedPayloads

open Checked CodeUnits

/-! ## Checked terms -/

@[simp] theorem assertPresent_eq_ok {value : Option Value} {label : String} {units : CodeUnits} :
    assertPresent value label = .ok units ↔
      value = some (.str units) ∧ Text.blank (toWellFormed units) = false := by
  unfold assertPresent
  split
  · rename_i found
    by_cases hblank : Text.blank (toWellFormed found) = false
    · simp only [hblank, if_true, Except.ok.injEq, Option.some.injEq, Json.Tree.str.injEq]
      constructor
      · rintro rfl
        exact ⟨rfl, hblank⟩
      · exact And.left
    · simp only [hblank, if_false, reduceCtorEq, Option.some.injEq, Json.Tree.str.injEq, false_iff]
      rintro ⟨rfl, h⟩
      exact hblank h
  · rename_i hnot
    simp only [reduceCtorEq, false_iff]
    intro h
    exact hnot units h.1

theorem prop_of_assertTransferText {value : Option Value} {label : String} {units : CodeUnits}
    (h : assertTransferText value label = .ok units) : value = some (.str units) := by
  unfold assertTransferText at h
  split at h
  · split at h
    · rw [Except.ok.inj h]
    · cases h
  · cases h
  · cases h
  · cases h

theorem prop_of_assertCanonicalTimestamp {value : Option Value} {label : String} {units : CodeUnits}
    (h : assertCanonicalTimestamp value label = .ok units) : value = some (.str units) := by
  simp only [assertCanonicalTimestamp, bind_eq_ok, assertPresent_eq_ok, require_eq_ok,
    pure_eq_ok] at h
  obtain ⟨_, ⟨hvalue, -⟩, -, -, rfl⟩ := h
  exact hvalue

theorem prop_of_int? {value : Option Value} {number : Int} (h : int? value = some number) :
    value = some (.int number) := by
  unfold int? at h
  split at h
  · rw [Json.Decimal.toInt?_eq_some.mp h]
    rfl
  · cases h

/-! ## Written objects -/

theorem text_inj {left right : String} : text left = text right ↔ left = right := by
  rw [text, text, Json.Tree.str.injEq]
  exact ⟨ofString_inj, congrArg ofString⟩

theorem object_inj {left right : List (String × Value)} : object left = object right ↔ left = right := by
  rw [object, object, Json.Tree.obj.injEq]
  refine List.map_inj_right ?_
  intro first second h
  rw [Prod.mk.injEq] at h
  exact Prod.ext (ofString_inj h.1) h.2

/-- A term as the payload writes it. -/
def written (input : Value) (name : String) : String × Value :=
  (name, (prop input name).getD .null)

/-- All the terms are there. -/
def Present (input : Value) (names : List String) : Prop :=
  ∀ name ∈ names, (prop input name).isSome = true

/-- Terms that are there and written alike are the same. -/
theorem prop_eq_of_written {left right : Value} {names : List String} (hleft : Present left names)
    (hright : Present right names) (h : names.map (written left) = names.map (written right)) :
    ∀ name ∈ names, prop left name = prop right name := by
  intro name hname
  have hsame : written left name = written right name := List.map_inj_left.mp h name hname
  obtain ⟨value, hvalue⟩ := Option.isSome_iff_exists.mp (hleft name hname)
  obtain ⟨value', hvalue'⟩ := Option.isSome_iff_exists.mp (hright name hname)
  simp only [written, hvalue, hvalue', Option.getD_some, Prod.mk.injEq, true_and] at hsame
  rw [hvalue, hvalue', hsame]

/-! ## Kinds -/

/-- The kinds of signed payloads. -/
inductive PayloadKind where
  | feedDeclaration
  | feedAnnouncement
  | keyLifecycle
  | ledgerTransfer
  | memberSignedRecord
  | communityGenesis
deriving DecidableEq

namespace PayloadKind

/-- The domain-separation marker of a kind. -/
def schema : PayloadKind → String
  | feedDeclaration => "peer-hours/member-feed-declaration/v1"
  | feedAnnouncement => "peer-hours/member-feed-announcement/v1"
  | keyLifecycle => "peer-hours/root-signed-member-key-lifecycle/v1"
  | ledgerTransfer => "peer-hours/ledger-transfer/v1"
  | memberSignedRecord => "peer-hours/member-signed-record/v1"
  | communityGenesis => "peer-hours/community-genesis/v1"

theorem schema_inj {left right : PayloadKind} (h : left.schema = right.schema) : left = right := by
  cases left <;> cases right <;> simp_all [schema]

end PayloadKind

variable (crypto : Crypto)

/-- The bytes that are signed for a statement of a kind. -/
def canonicalPayload : PayloadKind → Value → Except String Buffer
  | .feedDeclaration => canonicalMemberFeedDeclarationPayload crypto
  | .feedAnnouncement => canonicalMemberFeedAnnouncementPayload crypto
  | .keyLifecycle => canonicalRootSignedMemberSigningKeyLifecyclePayload crypto
  | .ledgerTransfer => canonicalTransferPayload
  | .memberSignedRecord => canonicalMemberSignedRecordPayload
  | .communityGenesis => canonicalCommunityGenesisPayload

variable {crypto}

/-! ## What each builder writes -/

/-- The terms of a feed declaration. -/
def declarationTerms : List String :=
  ["memberId", "communityId", "feedPublicKey", "occurredAt", "rootPublicKeyPem"]

theorem of_canonicalMemberFeedDeclarationPayload {declaration : Value} {payload : Buffer}
    (h : canonicalMemberFeedDeclarationPayload crypto declaration = .ok payload) :
    Present declaration declarationTerms ∧
      payload = payloadBytes (object (("schema", text PayloadKind.feedDeclaration.schema) ::
        declarationTerms.map (written declaration))) := by
  simp only [canonicalMemberFeedDeclarationPayload, createSelfOwnedMemberIdentity,
    assertCanonicalHypercoreKey, bind_eq_ok, assertPresent_eq_ok, require_eq_ok, pure_eq_ok,
    present_eq_ok] at h
  obtain ⟨identity, ⟨pem, ⟨hpem, -⟩, _, -, rfl⟩, communityId, ⟨hcommunity, -⟩, feedPublicKey,
    ⟨_, hfeed, -, -, rfl⟩, occurredAt, hoccurred, -, hmember, rfl⟩ := h
  have hoccurred := prop_of_assertCanonicalTimestamp hoccurred
  refine ⟨?_, ?_⟩
  · simp [Present, declarationTerms, hpem, hcommunity, hfeed, hoccurred, hmember]
  · simp [declarationTerms, written, hpem, hcommunity, hfeed, hoccurred, hmember,
      PayloadKind.schema]

/-- The terms of a feed announcement. -/
def announcementTerms : List String := ["declaration", "announcedAt", "expiresAt"]

/-- A declaration keeps the object it was created from. -/
theorem of_createMemberFeedDeclaration {input declaration : Value}
    (h : createMemberFeedDeclaration crypto input = .ok declaration) :
    declaration = input ∧ input ≠ .null := by
  simp only [createMemberFeedDeclaration, bind_eq_ok, require_eq_ok, pure_eq_ok] at h
  obtain ⟨-, hschema, -, -, -, -, rfl⟩ := h
  have hinput := Json.Tree.eq_obj_of_field hschema
  refine ⟨hinput.symm, ?_⟩
  rw [hinput]
  simp

theorem of_canonicalMemberFeedAnnouncementPayload {announcement : Value} {payload : Buffer}
    (h : canonicalMemberFeedAnnouncementPayload crypto announcement = .ok payload) :
    Present announcement announcementTerms ∧
      payload = payloadBytes (object (("schema", text PayloadKind.feedAnnouncement.schema) ::
        announcementTerms.map (written announcement))) := by
  simp only [canonicalMemberFeedAnnouncementPayload, bind_eq_ok, require_eq_ok, pure_eq_ok] at h
  obtain ⟨declaration, hdeclaration, announcedAt, hannounced, expiresAt, hexpires, -, -, rfl⟩ := h
  have hannounced := prop_of_assertCanonicalTimestamp hannounced
  have hexpires := prop_of_assertCanonicalTimestamp hexpires
  obtain ⟨rfl, hnotNull⟩ := of_createMemberFeedDeclaration hdeclaration
  have hsome : (prop announcement "declaration").isSome = true := by
    rw [Option.isSome_iff_ne_none]
    intro hnone
    exact hnotNull (by rw [hnone]; rfl)
  refine ⟨?_, ?_⟩
  · simp [Present, announcementTerms, hsome, hannounced, hexpires]
  · simp [announcementTerms, written, hannounced, hexpires, PayloadKind.schema]

/-- The terms of a key lifecycle statement that are written as they are. -/
def lifecycleTerms : List String :=
  ["eventId", "communityId", "memberId", "keyId", "occurredAt", "rootPublicKeyPem"]

/-- The key that a statement writes: `null` unless it activates one. -/
def writtenKey (statement : Value) : Value :=
  if signedAction statement = "activate" then (prop statement "publicKeyPem").getD .null else .null

theorem of_canonicalRootSignedMemberSigningKeyLifecyclePayload {statement : Value} {payload : Buffer}
    (h : canonicalRootSignedMemberSigningKeyLifecyclePayload crypto statement = .ok payload) :
    Present statement lifecycleTerms ∧
      (signedAction statement = "activate" → Present statement ["publicKeyPem"]) ∧
      payload = payloadBytes (object [("schema", text PayloadKind.keyLifecycle.schema),
        written statement "eventId", written statement "communityId", written statement "memberId",
        written statement "keyId", ("action", text (signedAction statement)),
        written statement "occurredAt", ("publicKeyPem", writtenKey statement),
        written statement "rootPublicKeyPem"]) := by
  simp only [canonicalRootSignedMemberSigningKeyLifecyclePayload, createSelfOwnedMemberIdentity,
    bind_eq_ok, assertPresent_eq_ok, require_eq_ok, pure_eq_ok] at h
  obtain ⟨-, -, eventId, ⟨hevent, -⟩, communityId, ⟨hcommunity, -⟩, memberId, ⟨hmember, -⟩, keyId,
    ⟨hkey, -⟩, occurredAt, hoccurred, publicKeyPem, hpublic, _, ⟨pem, ⟨hpem, -⟩, _, -, rfl⟩, -, -,
    rfl⟩ := h
  have hoccurred := prop_of_assertCanonicalTimestamp hoccurred
  have hwritten : publicKeyPem = writtenKey statement ∧
      (signedAction statement = "activate" → Present statement ["publicKeyPem"]) := by
    unfold writtenKey
    unfold signedKey at hpublic
    split at hpublic
    · rename_i haction
      simp only [bind_eq_ok, assertPresent_eq_ok, pure_eq_ok] at hpublic
      obtain ⟨units, ⟨hunits, -⟩, _, -, rfl⟩ := hpublic
      simp [haction, hunits, Present]
    · rename_i haction
      rw [if_neg haction]
      exact ⟨(Except.ok.inj hpublic).symm, fun h ↦ absurd h haction⟩
  refine ⟨?_, hwritten.2, ?_⟩
  · simp [Present, lifecycleTerms, hevent, hcommunity, hmember, hkey, hoccurred, hpem]
  · simp [written, hevent, hcommunity, hmember, hkey, hoccurred, hpem, hwritten.1,
      PayloadKind.schema]

/-- The terms of a transfer that are always there. -/
def transferTerms : List String :=
  ["id", "communityId", "providerMemberId", "recipientMemberId", "minutes"]

theorem of_createTransferTerms {input : Value} {terms : TransferTerms}
    (h : createTransferTerms input = .ok terms) :
    Present input transferTerms ∧ canonicalTerms terms =
      object [("schema", text PayloadKind.ledgerTransfer.schema), written input "id",
        written input "communityId", written input "sourceProposalId",
        written input "providerMemberId", written input "recipientMemberId",
        written input "minutes", written input "reversesTransferId"] := by
  simp only [createTransferTerms, bind_eq_ok, present_eq_ok, require_eq_ok, pure_eq_ok] at h
  obtain ⟨id, hid, communityId, hcommunity, provider, hprovider, recipient, hrecipient, minutes,
    hminutes, -, -, -, -, -, -, rfl⟩ := h
  have hid := prop_of_assertTransferText hid
  have hcommunity := prop_of_assertTransferText hcommunity
  have hprovider := prop_of_assertTransferText hprovider
  have hrecipient := prop_of_assertTransferText hrecipient
  have hminutes := prop_of_int? hminutes
  refine ⟨?_, ?_⟩
  · simp [Present, transferTerms, hid, hcommunity, hprovider, hrecipient, hminutes]
  · simp [canonicalTerms, written, hid, hcommunity, hprovider, hrecipient, hminutes,
      PayloadKind.schema]

theorem of_createTransfer {input : Value} {terms : TransferTerms}
    (h : createTransfer input = .ok terms) : createTransferTerms input = .ok terms := by
  simp only [createTransfer, bind_eq_ok, pure_eq_ok] at h
  obtain ⟨created, hcreated, -, -, -, -, -, -, rfl⟩ := h
  exact hcreated

theorem of_canonicalTransferPayload {transfer : Value} {payload : Buffer}
    (h : canonicalTransferPayload transfer = .ok payload) :
    ∃ terms, createTransferTerms transfer = .ok terms ∧
      payload = payloadBytes (canonicalTerms terms) := by
  simp only [canonicalTransferPayload, bind_eq_ok, pure_eq_ok] at h
  obtain ⟨terms, hterms, rfl⟩ := h
  unfold normalizeTransfer at hterms
  split at hterms
  · exact ⟨terms, of_createTransfer hterms, rfl⟩
  · exact ⟨terms, hterms, rfl⟩

/-- The terms of a record envelope other than its payload. -/
def envelopeTerms : List String :=
  ["id", "schema", "version", "kind", "communityId", "occurredAt", "authorId"]

theorem of_canonicalMemberSignedRecordPayload {record : Value} {payload : Buffer}
    (h : canonicalMemberSignedRecordPayload record = .ok payload) :
    Present record envelopeTerms ∧ ∃ content normal, prop record "payload" = some content ∧
      normalizeJson content = .ok normal ∧
      payload = payloadBytes (object [("schema", text PayloadKind.memberSignedRecord.schema),
        ("record", object (envelopeTerms.map (written record) ++ [("payload", normal)]))]) := by
  simp only [canonicalMemberSignedRecordPayload, canonicalRecordEnvelope, bind_eq_ok,
    assertPresent_eq_ok, present_eq_ok, require_eq_ok, pure_eq_ok] at h
  obtain ⟨_, ⟨id, ⟨hid, -⟩, schema, ⟨hschema, -⟩, version, hversion, -, -, kind, ⟨hkind, -⟩,
    communityId, ⟨hcommunity, -⟩, occurredAt, hoccurred, authorId, ⟨hauthor, -⟩, content, hcontent,
    normal, hnormal, rfl⟩, rfl⟩ := h
  have hversion := prop_of_int? hversion
  have hoccurred := prop_of_assertCanonicalTimestamp hoccurred
  refine ⟨?_, content, normal, hcontent, hnormal, ?_⟩
  · simp [Present, envelopeTerms, hid, hschema, hversion, hkind, hcommunity, hoccurred, hauthor]
  · simp [envelopeTerms, written, hid, hschema, hversion, hkind, hcommunity, hoccurred, hauthor,
      PayloadKind.schema]

/-- The payload of a kind begins with the marker of the kind. -/
theorem schema_of_canonicalPayload {kind : PayloadKind} {input : Value} {payload : Buffer}
    (h : canonicalPayload crypto kind input = .ok payload) :
    ∃ rest, payload = payloadBytes (object (("schema", text kind.schema) :: rest)) := by
  cases kind with
  | feedDeclaration => exact ⟨_, (of_canonicalMemberFeedDeclarationPayload h).2⟩
  | feedAnnouncement => exact ⟨_, (of_canonicalMemberFeedAnnouncementPayload h).2⟩
  | keyLifecycle => exact ⟨_, (of_canonicalRootSignedMemberSigningKeyLifecyclePayload h).2.2⟩
  | ledgerTransfer =>
      obtain ⟨terms, -, rfl⟩ := of_canonicalTransferPayload h
      exact ⟨_, rfl⟩
  | memberSignedRecord =>
      obtain ⟨-, _, _, -, -, rfl⟩ := of_canonicalMemberSignedRecordPayload h
      exact ⟨_, rfl⟩
  | communityGenesis =>
      have hpayload : canonicalCommunityGenesisPayload input = .ok payload := h
      unfold canonicalCommunityGenesisPayload at hpayload
      split at hpayload
      · exact ⟨_, (Except.ok.inj hpayload).symm⟩
      · cases hpayload

/-! ## The order of object keys -/

mutual

/-- The second value is the first one with the properties of its objects in another order. -/
inductive Reordered : Value → Value → Prop where
  | null : Reordered .null .null
  | bool (value : Bool) : Reordered (.bool value) (.bool value)
  | num (value : Json.Decimal) : Reordered (.num value) (.num value)
  | str (units : CodeUnits) : Reordered (.str units) (.str units)
  | arr {items items' : List Value} (h : ReorderedItems items items') :
      Reordered (.arr items) (.arr items')
  | obj {fields fields' fields'' : List (CodeUnits × Value)} (h : ReorderedFields fields fields')
      (hperm : fields'.Perm fields'') : Reordered (.obj fields) (.obj fields'')

/-- The items are reordered one by one. -/
inductive ReorderedItems : List Value → List Value → Prop where
  | nil : ReorderedItems [] []
  | cons {item item' : Value} {rest rest' : List Value} (h : Reordered item item')
      (hrest : ReorderedItems rest rest') : ReorderedItems (item :: rest) (item' :: rest')

/-- The values under the same names are reordered one by one. -/
inductive ReorderedFields :
    List (CodeUnits × Value) → List (CodeUnits × Value) → Prop where
  | nil : ReorderedFields [] []
  | cons {name : CodeUnits} {value value' : Value} {rest rest' : List (CodeUnits × Value)}
      (h : Reordered value value') (hrest : ReorderedFields rest rest') :
      ReorderedFields ((name, value) :: rest) ((name, value') :: rest')

end

mutual

/-- Normalization only reorders the properties of objects. -/
theorem reordered_of_normalizeJson {value normal : Value} (h : normalizeJson value = .ok normal) :
    Reordered value normal := by
  match value with
  | .null =>
      obtain rfl := Except.ok.inj h
      exact .null
  | .bool value =>
      obtain rfl := Except.ok.inj h
      exact .bool value
  | .num value =>
      obtain rfl := Except.ok.inj h
      exact .num value
  | .str units =>
      obtain rfl := Except.ok.inj h
      exact .str units
  | .arr items =>
      rw [normalizeJson] at h
      obtain ⟨normalItems, hitems, h⟩ := bind_eq_ok.mp h
      obtain rfl := pure_eq_ok.mp h
      exact .arr (reordered_of_normalizeItems hitems)
  | .obj fields =>
      rw [normalizeJson] at h
      obtain ⟨normalFields, hfields, h⟩ := bind_eq_ok.mp h
      obtain rfl := pure_eq_ok.mp h
      exact .obj (reordered_of_normalizeFields hfields) (Sorting.perm_sortBy normalFields).symm

theorem reordered_of_normalizeItems {items normal : List Value}
    (h : normalizeItems items = .ok normal) : ReorderedItems items normal := by
  match items with
  | [] =>
      obtain rfl := Except.ok.inj h
      exact .nil
  | item :: rest =>
      rw [normalizeItems] at h
      obtain ⟨normalItem, hitem, h⟩ := bind_eq_ok.mp h
      obtain ⟨normalRest, hrest, h⟩ := bind_eq_ok.mp h
      obtain rfl := pure_eq_ok.mp h
      exact .cons (reordered_of_normalizeJson hitem) (reordered_of_normalizeItems hrest)

theorem reordered_of_normalizeFields {fields normal : List (CodeUnits × Value)}
    (h : normalizeFields fields = .ok normal) : ReorderedFields fields normal := by
  match fields with
  | [] =>
      obtain rfl := Except.ok.inj h
      exact .nil
  | (name, value) :: rest =>
      rw [normalizeFields] at h
      obtain ⟨_, -, h⟩ := bind_eq_ok.mp h
      obtain ⟨normalValue, hvalue, h⟩ := bind_eq_ok.mp h
      obtain ⟨normalRest, hrest, h⟩ := bind_eq_ok.mp h
      obtain rfl := pure_eq_ok.mp h
      exact .cons (reordered_of_normalizeJson hvalue) (reordered_of_normalizeFields hrest)

end

/-! ## Binding -/

/-- Both inputs have the same property under every name. -/
def SameUnder (names : List String) (left right : Value) : Prop :=
  ∀ name ∈ names, prop left name = prop right name

/-- The action of the statement is one that its type declares. -/
def DeclaredAction (statement : Value) : Prop :=
  prop statement "action" = some (text "activate") ∨ prop statement "action" = some (text "revoke")

/-- Two statements of one kind agree on every term that is signed: an absent term of a transfer is
identified with `null`, and the payload of a record is taken up to the order of its object keys. -/
def AgreeOnTerms : PayloadKind → Value → Value → Prop
  | .feedDeclaration, left, right => SameUnder declarationTerms left right
  | .feedAnnouncement, left, right => SameUnder announcementTerms left right
  | .keyLifecycle, left, right =>
      SameUnder lifecycleTerms left right ∧ signedAction left = signedAction right ∧
        (DeclaredAction left → DeclaredAction right → SameUnder ["action"] left right) ∧
        (signedAction left = "activate" → SameUnder ["publicKeyPem"] left right)
  | .ledgerTransfer, left, right =>
      SameUnder transferTerms left right ∧ ∀ name ∈ ["sourceProposalId", "reversesTransferId"],
        (prop left name).getD .null = (prop right name).getD .null
  | .memberSignedRecord, left, right =>
      SameUnder envelopeTerms left right ∧ ∃ content content' common,
        prop left "payload" = some content ∧ prop right "payload" = some content' ∧
        Reordered content common ∧ Reordered content' common
  | .communityGenesis, _, _ => True

/-- A declared action is signed as it is. -/
theorem action_of_declared {statement : Value} (h : DeclaredAction statement) :
    prop statement "action" = some (text (signedAction statement)) := by
  unfold signedAction
  split
  · assumption
  · rename_i hother
    exact h.resolve_left hother

theorem agree_keyLifecycle {left right : Value} {payload : Buffer}
    (hleft : canonicalRootSignedMemberSigningKeyLifecyclePayload crypto left = .ok payload)
    (hright : canonicalRootSignedMemberSigningKeyLifecyclePayload crypto right = .ok payload) :
    AgreeOnTerms .keyLifecycle left right := by
  obtain ⟨hpresent, hkey, hpayload⟩ := of_canonicalRootSignedMemberSigningKeyLifecyclePayload hleft
  obtain ⟨hpresent', hkey', hpayload'⟩ :=
    of_canonicalRootSignedMemberSigningKeyLifecyclePayload hright
  rw [hpayload', payloadBytes_inj, object_inj] at hpayload
  simp only [List.cons.injEq, Prod.mk.injEq, true_and, and_true, text_inj] at hpayload
  obtain ⟨hevent, hcommunity, hmember, hkeyId, haction, hoccurred, hkeyPem, hpem⟩ := hpayload
  refine ⟨?_, haction.symm, ?_, ?_⟩
  · refine prop_eq_of_written hpresent hpresent' ?_
    simp [lifecycleTerms, hevent, hcommunity, hmember, hkeyId, hoccurred, hpem]
  · intro hdeclared hdeclared' name hname
    obtain rfl := List.mem_singleton.mp hname
    rw [action_of_declared hdeclared, action_of_declared hdeclared', haction]
  · intro hactivate
    refine prop_eq_of_written (hkey hactivate) (hkey' (haction.trans hactivate)) ?_
    rw [writtenKey, writtenKey, if_pos hactivate, if_pos (haction.trans hactivate)] at hkeyPem
    simp [written, hkeyPem]

theorem agree_ledgerTransfer {left right : Value} {payload : Buffer}
    (hleft : canonicalTransferPayload left = .ok payload)
    (hright : canonicalTransferPayload right = .ok payload) :
    AgreeOnTerms .ledgerTransfer left right := by
  obtain ⟨terms, hterms, hpayload⟩ := of_canonicalTransferPayload hleft
  obtain ⟨terms', hterms', hpayload'⟩ := of_canonicalTransferPayload hright
  obtain ⟨hpresent, hcanonical⟩ := of_createTransferTerms hterms
  obtain ⟨hpresent', hcanonical'⟩ := of_createTransferTerms hterms'
  rw [hpayload', payloadBytes_inj, hcanonical, hcanonical', object_inj] at hpayload
  simp only [List.cons.injEq, true_and, and_true] at hpayload
  obtain ⟨hid, hcommunity, hsource, hprovider, hrecipient, hminutes, hreverses⟩ := hpayload
  refine ⟨?_, ?_⟩
  · refine prop_eq_of_written hpresent hpresent' ?_
    simp [transferTerms, hid, hcommunity, hprovider, hrecipient, hminutes]
  · simp only [List.forall_mem_cons, List.not_mem_nil, false_implies, implies_true, and_true]
    exact ⟨(Prod.mk.inj hsource).2.symm, (Prod.mk.inj hreverses).2.symm⟩

theorem agree_memberSignedRecord {left right : Value} {payload : Buffer}
    (hleft : canonicalMemberSignedRecordPayload left = .ok payload)
    (hright : canonicalMemberSignedRecordPayload right = .ok payload) :
    AgreeOnTerms .memberSignedRecord left right := by
  obtain ⟨hpresent, content, normal, hcontent, hnormal, hpayload⟩ :=
    of_canonicalMemberSignedRecordPayload hleft
  obtain ⟨hpresent', content', normal', hcontent', hnormal', hpayload'⟩ :=
    of_canonicalMemberSignedRecordPayload hright
  rw [hpayload', payloadBytes_inj, object_inj] at hpayload
  simp only [List.cons.injEq, Prod.mk.injEq, true_and, and_true, object_inj] at hpayload
  obtain ⟨hterms, hcommon⟩ := List.append_inj hpayload (by simp)
  simp only [List.cons.injEq, Prod.mk.injEq, true_and, and_true] at hcommon
  refine ⟨prop_eq_of_written hpresent hpresent' hterms.symm, content, content', normal, hcontent,
    hcontent', reordered_of_normalizeJson hnormal, ?_⟩
  rw [← hcommon]
  exact reordered_of_normalizeJson hnormal'

/-- Statements with the same signed bytes are of one kind and agree on every signed term. -/
theorem canonicalPayload_binds {kind kind' : PayloadKind} {left right : Value} {payload : Buffer}
    (hleft : canonicalPayload crypto kind left = .ok payload)
    (hright : canonicalPayload crypto kind' right = .ok payload) :
    kind = kind' ∧ AgreeOnTerms kind left right := by
  obtain ⟨rest, hrest⟩ := schema_of_canonicalPayload hleft
  obtain ⟨rest', hrest'⟩ := schema_of_canonicalPayload hright
  have hsame : kind = kind' := by
    rw [hrest', payloadBytes_inj, object_inj] at hrest
    simp only [List.cons.injEq, Prod.mk.injEq, true_and, text_inj] at hrest
    exact (PayloadKind.schema_inj hrest.1).symm
  subst hsame
  refine ⟨rfl, ?_⟩
  cases kind with
  | feedDeclaration =>
      obtain ⟨hpresent, hpayload⟩ := of_canonicalMemberFeedDeclarationPayload hleft
      obtain ⟨hpresent', hpayload'⟩ := of_canonicalMemberFeedDeclarationPayload hright
      rw [hpayload', payloadBytes_inj, object_inj, List.cons.injEq] at hpayload
      exact prop_eq_of_written hpresent hpresent' hpayload.2.symm
  | feedAnnouncement =>
      obtain ⟨hpresent, hpayload⟩ := of_canonicalMemberFeedAnnouncementPayload hleft
      obtain ⟨hpresent', hpayload'⟩ := of_canonicalMemberFeedAnnouncementPayload hright
      rw [hpayload', payloadBytes_inj, object_inj, List.cons.injEq] at hpayload
      exact prop_eq_of_written hpresent hpresent' hpayload.2.symm
  | keyLifecycle => exact agree_keyLifecycle hleft hright
  | ledgerTransfer => exact agree_ledgerTransfer hleft hright
  | memberSignedRecord => exact agree_memberSignedRecord hleft hright
  | communityGenesis => trivial

/-! ## A reversal -/

@[simp] theorem prop_object_nil (name : String) : prop (object []) name = none := rfl

@[simp] theorem prop_object_cons (name first : String) (value : Value)
    (rest : List (String × Value)) :
    prop (object ((first, value) :: rest)) name =
      if first = name then some value else prop (object rest) name := by
  have hname : ofString first = ofString name ↔ first = name := ⟨ofString_inj, congrArg ofString⟩
  by_cases h : first = name <;>
    simp [prop, object, Json.Tree.field, Json.Tree.get, KeyedMap.lookup_cons, hname, h]

/-- A reversal named by a lone surrogate, with the properties of the argument. -/
def sampleReversal (source : List (String × Value)) : Value :=
  object (source ++ [("id", .str [0xD800]), ("communityId", text "garden"),
    ("providerMemberId", text "ada"), ("recipientMemberId", text "ben"), ("minutes", .int 30),
    ("reversesTransferId", text "t")])

/-- The terms of the sample reversal. -/
def sampleReversalTerms (source : Option Value) : TransferTerms where
  id := [0xD800]
  communityId := ofString "garden"
  sourceProposalId := source
  providerMemberId := ofString "ada"
  recipientMemberId := ofString "ben"
  minutes := 30
  reversesTransferId := some (text "t")

theorem assertTransferText_of_present {units : CodeUnits} {label : String}
    (h : Text.blank (toWellFormed units) = false) :
    assertTransferText (some (.str units)) label = .ok units := by
  rw [assertTransferText, if_pos h]

theorem createTransferTerms_of_sampleReversal {input : Value}
    (h : ∀ name ≠ "sourceProposalId", prop input name = prop (sampleReversal []) name) :
    createTransferTerms input = .ok (sampleReversalTerms (prop input "sourceProposalId")) := by
  have hnamed (literal label : String) (hblank : Text.blank literal = false) :
      assertTransferText (some (text literal)) label = .ok (ofString literal) :=
    assertTransferText_of_present (by rw [toWellFormed_ofString]; exact hblank)
  have hid : assertTransferText (some (.str [0xD800])) "Transfer id" = .ok [0xD800] :=
    assertTransferText_of_present (by decide)
  have hreadId : prop input "id" = some (.str [0xD800]) := h _ (by decide)
  have hreadCommunity : prop input "communityId" = some (text "garden") := h _ (by decide)
  have hreadProvider : prop input "providerMemberId" = some (text "ada") := h _ (by decide)
  have hreadRecipient : prop input "recipientMemberId" = some (text "ben") := h _ (by decide)
  have hreadMinutes : prop input "minutes" = some (.int 30) := h _ (by decide)
  have hreadReverses : prop input "reversesTransferId" = some (text "t") := h _ (by decide)
  have hreverses : assertReversedOrSettled input [0xD800] = .ok () := by
    rw [assertReversedOrSettled, hreadReverses]
    show assertTransferText (some (text "t")) "Reversed transfer id" >>= _ = _
    rw [hnamed "t" _ (by decide)]
    rfl
  rw [createTransferTerms, hreadId, hid, ok_bind, hreadCommunity, hnamed "garden" _ (by decide),
    ok_bind, hreadProvider, hnamed "ada" _ (by decide), ok_bind, hreadRecipient,
    hnamed "ben" _ (by decide), ok_bind, hreadMinutes, hreadReverses, hreverses]
  rfl

theorem canonicalPayload_of_sampleReversal {input : Value} {source : Option Value}
    (h : ∀ name ≠ "sourceProposalId", prop input name = prop (sampleReversal []) name)
    (hsource : prop input "sourceProposalId" = source) :
    canonicalPayload transparentCrypto .ledgerTransfer input =
      .ok (payloadBytes (canonicalTerms (sampleReversalTerms source))) := by
  have hattestations : prop input "attestations" = none :=
    (h _ (by decide)).trans (by simp [sampleReversal])
  show canonicalTransferPayload input = _
  rw [canonicalTransferPayload, normalizeTransfer, hattestations, if_neg (by simp),
    createTransferTerms_of_sampleReversal h, hsource]
  rfl

/-- A reversal with `null` for its source has the bytes of one without a source, and agrees with it. -/
theorem canonicalPayload_binds_reversal :
    ∃ payload,
      canonicalPayload transparentCrypto .ledgerTransfer (sampleReversal []) = .ok payload ∧
      canonicalPayload transparentCrypto .ledgerTransfer
        (sampleReversal [("sourceProposalId", .null)]) = .ok payload ∧
      AgreeOnTerms .ledgerTransfer (sampleReversal [])
        (sampleReversal [("sourceProposalId", .null)]) := by
  have hleft := @canonicalPayload_of_sampleReversal (sampleReversal []) none (fun _ _ ↦ rfl)
    (by simp [sampleReversal])
  have hright := @canonicalPayload_of_sampleReversal (sampleReversal [("sourceProposalId", .null)])
    (some .null)
    (fun name hname ↦ by
      rw [sampleReversal, List.singleton_append, prop_object_cons, if_neg hname.symm]
      rfl)
    (by rw [sampleReversal, List.singleton_append, prop_object_cons, if_pos rfl])
  exact ⟨_, hleft, hright, (canonicalPayload_binds hleft hright).2⟩

end PeerHours.SignedPayloads
