import PeerHours.Identity.Transparent
import PeerHours.Library.Hex

/-!
# Community genesis

The immutable first record of a community. Its creator signs the terms; a peer checks the signature and a
pattern of the creator's identifier before it selects the community. The record is untrusted JSON.
-/

namespace PeerHours.PeerRuntime

open Checked Json TimebankIdentity

/-! ## Checks -/

/-- The host as untrusted values reach it: `createPublicKey` takes PEM text or a key object, and
`Buffer.from` takes base64url text or an array of bytes. -/
structure GenesisCrypto extends Crypto where
  createPublicKeyOf : JsonValue → Option KeyObject
  createPublicKeyOf_str : ∀ pem, createPublicKeyOf (.str pem) = createPublicKey pem
  bufferFrom : JsonValue → Option Buffer
  bufferFrom_encode : ∀ bytes, bufferFrom (.str (Base64Url.encode bytes)) = some bytes

/-- The versioned domain separator for a community's immutable first record. -/
def communityGenesisSchema : String := "peer-hours/community-genesis/v1"

/-- Checks a hexadecimal Hypercore public or discovery key. -/
def assertKey (value : Option JsonValue) (label : String) : Except String Unit :=
  require ((value.bind hypercoreKeyText).any Hex.isKey = true)
    (label ++ " must be a 64-character hexadecimal key.")

/-- Checks a bounded human-facing term. -/
def nonblank (max : Nat) : Option JsonValue → Bool
  | some (.str text) => !Text.blank text && decide ((Text.utf16 text).length ≤ max)
  | _ => false

/-- The pattern of self-owned member ids. -/
def isMemberIdPattern (text : String) : Bool :=
  "phm_".toList.isPrefixOf text.toList && decide (4 < text.toList.length) &&
    (text.toList.drop 4).all fun c ↦ (Base64Url.digitValue? c).isSome

/-- No location, or one with a bounded locality, country and optional region. -/
def validLocation : Option JsonValue → Bool
  | some .null => true
  | some location => nonblank 120 (location.field "locality") && nonblank 120 (location.field "country") &&
      (decide (location.field "region" = none) || nonblank 120 (location.field "region"))
  | none => false

variable (crypto : GenesisCrypto)

/-- Decodes one URL-safe detached Ed25519 signature. -/
def decodeSignature (value : Option JsonValue) : Except String Buffer := do
  let decoded ← present (value.bind crypto.bufferFrom) "Community genesis signature is invalid."
  require (decoded.length = 64) "Community genesis signature is invalid."
  pure decoded

/-- The properties that are there, which `JSON.stringify` writes. -/
def definedFields (fields : List (String × Option JsonValue)) : List (String × JsonValue) :=
  fields.filterMap fun field ↦ field.2.map (field.1, ·)

/-- Produces stable bytes for the creator's detached signature, excluding the signature itself. -/
def canonicalCommunityGenesisPayload (genesis : JsonValue) : Except String Buffer := do
  let displayName ← present (JsonValue.text? (genesis.field "displayName"))
    "genesis.displayName.trim is not a function"
  pure (jsonBytes (.obj (definedFields [("schema", some (.str communityGenesisSchema)),
    ("communityId", genesis.field "communityId"), ("discoveryKey", genesis.field "discoveryKey"),
    ("displayName", some (.str (Text.trim displayName))), ("location", genesis.field "location"),
    ("createdAt", genesis.field "createdAt"), ("creatorMemberId", genesis.field "creatorMemberId"),
    ("creatorRootPublicKeyPem", genesis.field "creatorRootPublicKeyPem")])))

/-- Rejects structurally invalid or incorrectly signed genesis terms before they can select a scope. The
copies of the record and of its location hold the same data. -/
def createCommunityGenesis (input : JsonValue) : Except String JsonValue := do
  require (input.field "schema" = some (.str communityGenesisSchema))
    "Community genesis must use the supported schema."
  assertKey (input.field "communityId") "Community id"
  assertKey (input.field "discoveryKey") "Discovery key"
  require (nonblank 120 (input.field "displayName") = true)
    "Community name must be between 1 and 120 characters."
  require (((input.field "creatorMemberId").bind hypercoreKeyText).any isMemberIdPattern = true)
    "Community genesis creator identity is invalid."
  require ((JsonValue.text? (input.field "createdAt")).any Timestamp.isCanonical = true)
    "Community genesis timestamp must be canonical ISO time."
  require (validLocation (input.field "location") = true) "Community location is invalid."
  let signature ← decodeSignature crypto (input.field "signature")
  let publicKey ← present ((input.field "creatorRootPublicKeyPem").bind crypto.createPublicKeyOf)
    "Community genesis root public key is invalid."
  let payload ← canonicalCommunityGenesisPayload input
  require (crypto.asymmetricKeyType publicKey = "ed25519" ∧
    crypto.verify publicKey payload signature = true) "Community genesis signature is invalid."
  pure (.obj input.properties)

/-- A member that owns its identifier through its root key. -/
structure SelfOwnedMemberIdentity where
  memberId : String
  rootPublicKeyPem : String

/-- Derives a stable member identifier from the exact Ed25519 root public key that owns it. -/
def createSelfOwnedMemberIdentity (rootPublicKeyPem : Option JsonValue) :
    Except String SelfOwnedMemberIdentity := do
  let rootPublicKey ← readEd25519PublicKey crypto.toCrypto rootPublicKeyPem "Root public key"
  pure ⟨selfOwnedMemberId rootPublicKey, rootPublicKey.publicKeyPem⟩

variable {crypto}

/-! ## Accepted records -/

variable (crypto) in
/-- The payload of the record is signed by the key that the record names. -/
structure SignedGenesis (genesis : JsonValue) (payload : Buffer) : Prop where
  builds : canonicalCommunityGenesisPayload genesis = .ok payload
  signed : ∃ signature publicKey,
    (genesis.field "signature").bind crypto.bufferFrom = some signature ∧ signature.length = 64 ∧
      (genesis.field "creatorRootPublicKeyPem").bind crypto.createPublicKeyOf = some publicKey ∧
      crypto.asymmetricKeyType publicKey = "ed25519" ∧
      crypto.verify publicKey payload signature = true

variable (crypto) in
/-- The record has well-formed terms and the signature of its creator. -/
structure AcceptedGenesis (genesis : JsonValue) : Prop where
  schema : genesis.field "schema" = some (.str communityGenesisSchema)
  communityId : ((genesis.field "communityId").bind hypercoreKeyText).any Hex.isKey = true
  discoveryKey : ((genesis.field "discoveryKey").bind hypercoreKeyText).any Hex.isKey = true
  displayName : nonblank 120 (genesis.field "displayName") = true
  creatorMemberId :
    ((genesis.field "creatorMemberId").bind hypercoreKeyText).any isMemberIdPattern = true
  createdAt : (JsonValue.text? (genesis.field "createdAt")).any Timestamp.isCanonical = true
  location : validLocation (genesis.field "location") = true
  signed : ∃ payload, SignedGenesis crypto genesis payload

/-- A record is returned as it is exactly when it is accepted. -/
theorem createCommunityGenesis_eq_ok {input genesis : JsonValue} :
    createCommunityGenesis crypto input = .ok genesis ↔
      AcceptedGenesis crypto input ∧ .obj input.properties = genesis := by
  simp only [createCommunityGenesis, assertKey, decodeSignature, bind_eq_ok, require_eq_ok,
    present_eq_ok, pure_eq_ok, exists_const]
  constructor
  · rintro ⟨hschema, hcommunityId, hdiscoveryKey, hname, hcreator, hcreatedAt, hlocation, _,
      ⟨signature, hsignature, hlength, rfl⟩, publicKey, hkey, payload, hpayload, ⟨htype, hverify⟩, rfl⟩
    exact ⟨⟨hschema, hcommunityId, hdiscoveryKey, hname, hcreator, hcreatedAt, hlocation, payload,
      hpayload, signature, publicKey, hsignature, hlength, hkey, htype, hverify⟩, rfl⟩
  · rintro ⟨h, rfl⟩
    obtain ⟨payload, hpayload, signature, publicKey, hsignature, hlength, hkey, htype, hverify⟩ :=
      h.signed
    exact ⟨h.schema, h.communityId, h.discoveryKey, h.displayName, h.creatorMemberId, h.createdAt,
      h.location, signature, ⟨signature, hsignature, hlength, rfl⟩, publicKey, hkey, payload, hpayload,
      ⟨htype, hverify⟩, rfl⟩

/-- Reading an accepted record and what is returned for it give the same. -/
theorem AcceptedGenesis.field_properties {genesis : JsonValue} (h : AcceptedGenesis crypto genesis)
    (name : String) : (JsonValue.obj genesis.properties).field name = genesis.field name := by
  cases genesis with
  | obj fields => rfl
  | null | bool | num | str | arr => exact absurd h.schema (by simp [JsonValue.field])

/-- The signed terms besides the display name. -/
def signedNames : List String :=
  ["communityId", "discoveryKey", "location", "createdAt", "creatorMemberId", "creatorRootPublicKeyPem"]

/-- Every signed term of an accepted record is there. -/
theorem AcceptedGenesis.isSome_field {genesis : JsonValue} (h : AcceptedGenesis crypto genesis) :
    ∀ name ∈ signedNames, (genesis.field name).isSome = true := by
  obtain ⟨payload, -, signature, publicKey, -, -, hkey, -, -⟩ := h.signed
  have hbind {name : String} {f : JsonValue → Option String} {keep : String → Bool}
      (hany : ((genesis.field name).bind f).any keep = true) : (genesis.field name).isSome = true := by
    cases hfield : genesis.field name with
    | none => exact absurd hany (by simp [hfield])
    | some value => rfl
  simp only [signedNames, List.forall_mem_cons]
  refine ⟨hbind h.communityId, hbind h.discoveryKey, ?_, ?_, hbind h.creatorMemberId, ?_,
    List.forall_mem_nil _⟩
  · cases hfield : genesis.field "location" with
    | none => exact absurd h.location (by simp [hfield, validLocation])
    | some value => rfl
  · cases hfield : genesis.field "createdAt" with
    | none => exact absurd h.createdAt (by simp [hfield, JsonValue.text?])
    | some value => rfl
  · cases hfield : genesis.field "creatorRootPublicKeyPem" with
    | none => exact absurd hkey (by simp [hfield])
    | some value => rfl

/-- The payload of a record whose terms are all there. -/
theorem canonicalCommunityGenesisPayload_eq {genesis communityId discoveryKey location createdAt
    creatorMemberId creatorRootPublicKeyPem : JsonValue} {displayName : String}
    (hname : genesis.field "displayName" = some (.str displayName))
    (hcommunityId : genesis.field "communityId" = some communityId)
    (hdiscoveryKey : genesis.field "discoveryKey" = some discoveryKey)
    (hlocation : genesis.field "location" = some location)
    (hcreatedAt : genesis.field "createdAt" = some createdAt)
    (hcreator : genesis.field "creatorMemberId" = some creatorMemberId)
    (hkey : genesis.field "creatorRootPublicKeyPem" = some creatorRootPublicKeyPem) :
    canonicalCommunityGenesisPayload genesis = .ok (jsonBytes (.obj
      [("schema", .str communityGenesisSchema), ("communityId", communityId),
        ("discoveryKey", discoveryKey), ("displayName", .str (Text.trim displayName)),
        ("location", location), ("createdAt", createdAt), ("creatorMemberId", creatorMemberId),
        ("creatorRootPublicKeyPem", creatorRootPublicKeyPem)])) := by
  rw [canonicalCommunityGenesisPayload, hname, hcommunityId, hdiscoveryKey, hlocation, hcreatedAt,
    hcreator, hkey]
  rfl

/-- Accepted records with one payload agree on every signed term, the display name once trimmed. -/
theorem AcceptedGenesis.terms_eq {left right : JsonValue} (hleft : AcceptedGenesis crypto left)
    (hright : AcceptedGenesis crypto right)
    (hpayload : canonicalCommunityGenesisPayload left = canonicalCommunityGenesisPayload right)
    {leftName rightName : String} (hleftName : left.field "displayName" = some (.str leftName))
    (hrightName : right.field "displayName" = some (.str rightName)) :
    (∀ name ∈ signedNames, left.field name = right.field name) ∧
      Text.trim leftName = Text.trim rightName := by
  have hleftFields := hleft.isSome_field
  have hrightFields := hright.isSome_field
  simp only [signedNames, List.forall_mem_cons, Option.isSome_iff_exists] at hleftFields hrightFields
  obtain ⟨⟨_, h1⟩, ⟨_, h2⟩, ⟨_, h3⟩, ⟨_, h4⟩, ⟨_, h5⟩, ⟨_, h6⟩, -⟩ := hleftFields
  obtain ⟨⟨_, h1'⟩, ⟨_, h2'⟩, ⟨_, h3'⟩, ⟨_, h4'⟩, ⟨_, h5'⟩, ⟨_, h6'⟩, -⟩ := hrightFields
  rw [canonicalCommunityGenesisPayload_eq hleftName h1 h2 h3 h4 h5 h6,
    canonicalCommunityGenesisPayload_eq hrightName h1' h2' h3' h4' h5' h6', Except.ok.injEq,
    jsonBytes_inj] at hpayload
  simp only [JsonValue.obj.injEq, List.cons.injEq, Prod.mk.injEq, JsonValue.str.injEq, true_and,
    and_true] at hpayload
  obtain ⟨rfl, rfl, hname, rfl, rfl, rfl, rfl⟩ := hpayload
  simp only [signedNames, List.forall_mem_cons, h1, h2, h3, h4, h5, h6, h1', h2', h3', h4', h5', h6',
    hname, true_and, and_true]
  exact List.forall_mem_nil _

/-! ## Another accepted record with the same signature -/

/-- Reading another property than the one removed. -/
theorem get_filter_of_ne {name removed : String} (hne : name ≠ removed)
    (fields : List (String × JsonValue)) :
    JsonValue.get name (fields.filter fun field ↦ decide (field.1 ≠ removed)) =
      JsonValue.get name fields := by
  induction fields with
  | nil => rfl
  | cons first rest ih =>
      obtain ⟨firstName, value⟩ := first
      by_cases hremoved : firstName = removed
      · rw [List.filter_cons_of_neg (by simpa using hremoved), ih, JsonValue.get_cons,
          if_neg (hremoved ▸ hne.symm)]
      · rw [List.filter_cons_of_pos (by simpa using hremoved), JsonValue.get_cons, JsonValue.get_cons, ih]

/-- The record with another display name. -/
def withDisplayName (genesis : JsonValue) (name : String) : JsonValue :=
  .obj (("displayName", .str name) ::
    genesis.properties.filter fun field ↦ decide (field.1 ≠ "displayName"))

@[simp] theorem displayName_withDisplayName (genesis : JsonValue) (name : String) :
    (withDisplayName genesis name).field "displayName" = some (.str name) := by
  simp [withDisplayName]

theorem field_withDisplayName {genesis : JsonValue} (hobject : AcceptedGenesis crypto genesis)
    (name : String) {field : String} (hne : field ≠ "displayName") :
    (withDisplayName genesis name).field field = genesis.field field := by
  rw [← hobject.field_properties, withDisplayName, JsonValue.field_obj, JsonValue.field_obj,
    JsonValue.get_cons, if_neg hne.symm, get_filter_of_ne hne]

/-- A name of up to 120 units that trims to the same text is accepted with the same signature. -/
theorem AcceptedGenesis.withDisplayName {genesis : JsonValue} (h : AcceptedGenesis crypto genesis)
    {old new : String} (hold : genesis.field "displayName" = some (.str old))
    (htrim : Text.trim new = Text.trim old) (hblank : Text.blank new = false)
    (hlength : (Text.utf16 new).length ≤ 120) :
    AcceptedGenesis crypto (withDisplayName genesis new) ∧
      canonicalCommunityGenesisPayload (withDisplayName genesis new) =
        canonicalCommunityGenesisPayload genesis := by
  have hfield {field : String} (hne : field ≠ "displayName") := field_withDisplayName h new hne
  have hpayload : canonicalCommunityGenesisPayload (PeerRuntime.withDisplayName genesis new) =
      canonicalCommunityGenesisPayload genesis := by
    simp only [canonicalCommunityGenesisPayload, displayName_withDisplayName, hold, JsonValue.text?_str,
      present, ok_bind, htrim, hfield (show "communityId" ≠ "displayName" by decide),
      hfield (show "discoveryKey" ≠ "displayName" by decide),
      hfield (show "location" ≠ "displayName" by decide),
      hfield (show "createdAt" ≠ "displayName" by decide),
      hfield (show "creatorMemberId" ≠ "displayName" by decide),
      hfield (show "creatorRootPublicKeyPem" ≠ "displayName" by decide)]
  refine ⟨⟨?_, ?_, ?_, ?_, ?_, ?_, ?_, ?_⟩, hpayload⟩
  · rw [hfield (by decide)]
    exact h.schema
  · rw [hfield (by decide)]
    exact h.communityId
  · rw [hfield (by decide)]
    exact h.discoveryKey
  · simp [nonblank, hblank, hlength]
  · rw [hfield (by decide)]
    exact h.creatorMemberId
  · rw [hfield (by decide)]
    exact h.createdAt
  · rw [hfield (by decide)]
    exact h.location
  · obtain ⟨payload, hbuilds, hsigned⟩ := h.signed
    refine ⟨payload, hpayload.trans hbuilds, ?_⟩
    rw [hfield (by decide), hfield (by decide)]
    exact hsigned

/-! ## What a genesis record binds -/

/-- The terms of a genesis record. -/
def genesisTerms : List String := "schema" :: "displayName" :: signedNames

variable (crypto) in
/-- The creator of the record is the member that owns the key of the record. -/
def OwnCreator (genesis : JsonValue) : Prop :=
  ∃ identity, createSelfOwnedMemberIdentity crypto (genesis.field "creatorRootPublicKeyPem") =
      .ok identity ∧ genesis.field "creatorMemberId" = some (.str identity.memberId)

variable (crypto) in
/-- Every record that is accepted with the key and the payload of this one is returned with the terms of
this one. -/
def BindsTerms (input genesis : JsonValue) : Prop :=
  ∀ other otherGenesis, createCommunityGenesis crypto other = .ok otherGenesis →
    (other.field "creatorRootPublicKeyPem").bind crypto.createPublicKeyOf =
      (input.field "creatorRootPublicKeyPem").bind crypto.createPublicKeyOf →
    canonicalCommunityGenesisPayload other = canonicalCommunityGenesisPayload input →
    ∀ term ∈ genesisTerms, otherGenesis.field term = genesis.field term

theorem exists_displayName {genesis : JsonValue} (h : AcceptedGenesis crypto genesis) :
    ∃ name, genesis.field "displayName" = some (.str name) ∧ Text.blank name = false ∧
      (Text.utf16 name).length ≤ 120 := by
  have hname := h.displayName
  unfold nonblank at hname
  split at hname
  · rename_i name hfield
    simp only [Bool.and_eq_true, Bool.not_eq_true', decide_eq_true_eq] at hname
    exact ⟨name, hfield, hname⟩
  · exact absurd hname (by simp)

/-- Two names of up to 120 units that trim to one text of 120 units are that text. -/
theorem eq_of_trim_eq {left right : String} (htrim : Text.trim left = Text.trim right)
    (hlength : (Text.utf16 (Text.trim right)).length = 120) (hleft : (Text.utf16 left).length ≤ 120)
    (hright : (Text.utf16 right).length ≤ 120) : left = right := by
  calc left = Text.trim left := (Text.trim_of_length (by rw [htrim]; omega)).symm
    _ = Text.trim right := htrim
    _ = right := Text.trim_of_length (by omega)

/-- A name that is shorter than 120 units once trimmed can be written in another way. -/
theorem exists_other_name {name : String} (hblank : Text.blank name = false)
    (hlength : (Text.utf16 name).length ≤ 120) (hshort : (Text.utf16 (Text.trim name)).length ≠ 120) :
    ∃ other, other ≠ name ∧ Text.trim other = Text.trim name ∧ Text.blank other = false ∧
      (Text.utf16 other).length ≤ 120 := by
  have htrim := Text.trim_trim name
  have hne := Text.trim_ne_of_blank hblank
  have hle := Text.length_utf16_trim name
  have hvisible := Text.blank_of_trim htrim hne
  by_cases hsame : Text.trim name = name
  · refine ⟨Text.trim name ++ " ", fun heq ↦ ?_, Text.trim_append_space htrim hne, ?_, ?_⟩
    · have hchars := congrArg (fun text : String ↦ text.toList.length) heq
      simp [hsame] at hchars
    · rw [Text.blank_append, hvisible, Bool.false_and]
    · have hspace : (Text.utf16 " ").length = 1 := by decide
      rw [Text.utf16, String.toList_append, List.flatMap_append, List.length_append]
      unfold Text.utf16 at hspace hle hlength hshort
      omega
  · exact ⟨Text.trim name, hsame, htrim, hvisible, by omega⟩

/-- An accepted record binds its creator and its terms exactly when the creator is the member that owns the
key, and the display name has 120 units once trimmed, so that it cannot be padded. -/
theorem genesis_binds_iff {input genesis : JsonValue}
    (h : createCommunityGenesis crypto input = .ok genesis) :
    (OwnCreator crypto genesis ∧ BindsTerms crypto input genesis) ↔
      (∃ rootPublicKey : Ed25519PublicKey crypto.toCrypto,
        input.field "creatorRootPublicKeyPem" = some (.str rootPublicKey.publicKeyPem) ∧
        input.field "creatorMemberId" = some (.str (selfOwnedMemberId rootPublicKey))) ∧
      ∀ name, input.field "displayName" = some (.str name) →
        (Text.utf16 (Text.trim name)).length = 120 := by
  obtain ⟨haccepted, rfl⟩ := createCommunityGenesis_eq_ok.mp h
  obtain ⟨name, hname, hblank, hlength⟩ := exists_displayName haccepted
  refine and_congr ?_ ?_
  · simp only [OwnCreator, haccepted.field_properties, createSelfOwnedMemberIdentity, bind_eq_ok,
      readEd25519PublicKey_eq_ok, pure_eq_ok]
    constructor
    · rintro ⟨_, ⟨rootPublicKey, hkey, rfl⟩, hcreator⟩
      exact ⟨rootPublicKey, hkey, hcreator⟩
    · rintro ⟨rootPublicKey, hkey, hcreator⟩
      exact ⟨_, ⟨rootPublicKey, hkey, rfl⟩, hcreator⟩
  · constructor
    · intro hbinds same hsame
      obtain rfl : name = same := by
        injection (Option.some.inj (hname.symm.trans hsame))
      by_contra hshort
      obtain ⟨other, hother, htrim, hvisible, hbounded⟩ := exists_other_name hblank hlength hshort
      obtain ⟨hagain, hpayload⟩ := haccepted.withDisplayName hname htrim hvisible hbounded
      have hkey := field_withDisplayName haccepted other
        (show "creatorRootPublicKeyPem" ≠ "displayName" by decide)
      have hterms := hbinds _ _ (createCommunityGenesis_eq_ok.mpr ⟨hagain, rfl⟩) (by rw [hkey]) hpayload
        "displayName" (List.mem_cons_of_mem _ List.mem_cons_self)
      rw [hagain.field_properties, haccepted.field_properties, displayName_withDisplayName, hname] at hterms
      injection (Option.some.inj hterms) with heq
      exact hother heq
    · intro hlong other otherGenesis hother _ hpayload term hterm
      obtain ⟨hagain, rfl⟩ := createCommunityGenesis_eq_ok.mp hother
      obtain ⟨otherName, hotherName, -, hotherLength⟩ := exists_displayName hagain
      obtain ⟨hsigned, htrim⟩ := hagain.terms_eq haccepted hpayload hotherName hname
      rw [hagain.field_properties, haccepted.field_properties]
      simp only [genesisTerms, List.mem_cons] at hterm
      rcases hterm with rfl | rfl | hterm
      · rw [hagain.schema, haccepted.schema]
      · rw [hotherName, hname, eq_of_trim_eq htrim (hlong name hname) hotherLength hlength]
      · exact hsigned term (by simpa [signedNames] using hterm)

/-! ## A sample community -/

/-- The transparent host, which takes PEM text and base64url text only. -/
def sampleGenesisCrypto : GenesisCrypto :=
  { transparentCrypto with
    createPublicKeyOf := fun
      | .str pem => transparentCrypto.createPublicKey pem
      | _ => none
    createPublicKeyOf_str := fun _ ↦ rfl
    bufferFrom := fun
      | .str text => some (Base64Url.decode text)
      | _ => none
    bufferFrom_encode := fun bytes ↦ congrArg some (Base64Url.decode_encode bytes) }

/-- The root key of the sample creator. -/
def sampleRootKey : Ed25519PublicKey sampleGenesisCrypto.toCrypto :=
  transparentKey "root" (by decide) (by decide)

/-- A genesis record of the sample creator. -/
def sampleGenesis (displayName creatorMemberId : String) : JsonValue :=
  .obj [("schema", .str communityGenesisSchema),
    ("communityId", .str (Hex.encode (List.replicate 32 1))),
    ("discoveryKey", .str (Hex.encode (List.replicate 32 2))), ("displayName", .str displayName),
    ("location", .null), ("createdAt", .str "2026-01-01T00:00:00.000Z"),
    ("creatorMemberId", .str creatorMemberId), ("creatorRootPublicKeyPem", .str "root"),
    ("signature", .str (Base64Url.encode (keyBytes "root")))]

/-- Every bounded name and every creator of the pattern are accepted. -/
theorem createCommunityGenesis_sample {displayName creatorMemberId : String}
    (hname : nonblank 120 (some (.str displayName)) = true)
    (hcreator : isMemberIdPattern creatorMemberId = true) :
    createCommunityGenesis sampleGenesisCrypto (sampleGenesis displayName creatorMemberId) =
      .ok (sampleGenesis displayName creatorMemberId) := by
  have hkey (byte : UInt8) : ((some (JsonValue.str (Hex.encode (List.replicate 32 byte)))).bind
      hypercoreKeyText).any Hex.isKey = true := Hex.isKey_encode List.length_replicate
  have hsignature : decide (keyBytes "root" = keyBytes "root") = true := decide_eq_true rfl
  have hbytes : sampleGenesisCrypto.bufferFrom (.str (Base64Url.encode (keyBytes "root"))) =
      some (keyBytes "root") := sampleGenesisCrypto.bufferFrom_encode _
  have haccepted : AcceptedGenesis sampleGenesisCrypto (sampleGenesis displayName creatorMemberId) :=
    { schema := rfl
      communityId := hkey 1
      discoveryKey := hkey 2
      displayName := hname
      creatorMemberId := hcreator
      createdAt := by
        have hcanonical : Timestamp.isCanonical "2026-01-01T00:00:00.000Z" = true := by decide
        exact hcanonical
      location := rfl
      signed := ⟨_, rfl, keyBytes "root", keyBytes "root", hbytes, by simp [keyBytes], rfl, rfl,
        hsignature⟩ }
  exact createCommunityGenesis_eq_ok.mpr ⟨haccepted, rfl⟩

/-- The characters of a self-owned member id. -/
theorem toList_selfOwnedMemberId {crypto : Crypto} (rootPublicKey : Ed25519PublicKey crypto) :
    ∃ digest : List Char, (selfOwnedMemberId rootPublicKey).toList = "phm_".toList ++ digest ∧
      digest.length = 43 ∧ ∀ c ∈ digest, (Base64Url.digitValue? c).isSome = true := by
  refine ⟨_, String.toList_append, ?_, fun c hc ↦ Base64Url.digitValue?_isSome_of_mem hc⟩
  rw [Base64Url.length_encode, crypto.length_sha256]

/-- A self-owned member id has the pattern that a genesis record checks. -/
theorem isMemberIdPattern_selfOwnedMemberId {crypto : Crypto}
    (rootPublicKey : Ed25519PublicKey crypto) :
    isMemberIdPattern (selfOwnedMemberId rootPublicKey) = true := by
  obtain ⟨digest, htext, hlength, halphabet⟩ := toList_selfOwnedMemberId rootPublicKey
  have hdrop : ("phm_".toList ++ digest).drop 4 = digest := rfl
  rw [isMemberIdPattern, htext, hdrop, List.length_append, hlength, List.all_eq_true.mpr halphabet]
  rfl

/-- A name of 120 letters. -/
def longName : String := String.ofList (List.replicate 120 'a')

theorem longName_visible : Text.trim longName = longName ∧ Text.blank longName = false ∧
    (Text.utf16 longName).length = 120 := by
  have hchars : longName.toList = List.replicate 120 'a' := String.toList_ofList
  have hspace : Text.isSpace 'a' = false := by decide
  have htrim : Text.trim longName = longName := by
    refine Text.trim_of_forall fun c hc ↦ ?_
    rw [hchars] at hc
    rw [List.eq_of_mem_replicate hc, hspace]
  refine ⟨htrim, @Text.blank_eq_false_of_mem _ 'a' ?_ hspace, ?_⟩
  · rw [hchars]
    exact List.mem_replicate.mpr ⟨by decide, rfl⟩
  · have hunits : (Text.charUnits 'a').length = 1 := by decide
    rw [Text.utf16, hchars, List.length_flatMap, List.map_replicate, List.sum_replicate_nat, hunits]

/-- The record of the member that owns its key, under a name of 120 letters, binds its terms. -/
theorem genesis_binds_sample :
    OwnCreator sampleGenesisCrypto (sampleGenesis longName (selfOwnedMemberId sampleRootKey)) ∧
      BindsTerms sampleGenesisCrypto (sampleGenesis longName (selfOwnedMemberId sampleRootKey))
        (sampleGenesis longName (selfOwnedMemberId sampleRootKey)) := by
  obtain ⟨htrim, hblank, hunits⟩ := longName_visible
  have hname : nonblank 120 (some (.str longName)) = true := by
    rw [nonblank, hblank, hunits]
    decide
  refine (genesis_binds_iff (createCommunityGenesis_sample hname
    (isMemberIdPattern_selfOwnedMemberId sampleRootKey))).mpr ⟨⟨sampleRootKey, rfl, rfl⟩, ?_⟩
  intro name hfield
  obtain rfl : longName = name := by
    injection (Option.some.inj hfield)
  rw [htrim, hunits]

/-- A record that names a stranger as its creator is accepted, and again with a space after its name: the
payload and the signature are the same, and the terms are not. -/
theorem padded_genesis_accepted :
    createCommunityGenesis sampleGenesisCrypto (sampleGenesis "Garden" "phm_stranger") =
        .ok (sampleGenesis "Garden" "phm_stranger") ∧
      createCommunityGenesis sampleGenesisCrypto (sampleGenesis "Garden " "phm_stranger") =
        .ok (sampleGenesis "Garden " "phm_stranger") ∧
      canonicalCommunityGenesisPayload (sampleGenesis "Garden " "phm_stranger") =
        canonicalCommunityGenesisPayload (sampleGenesis "Garden" "phm_stranger") ∧
      (sampleGenesis "Garden " "phm_stranger").field "displayName" ≠
        (sampleGenesis "Garden" "phm_stranger").field "displayName" ∧
      ¬ OwnCreator sampleGenesisCrypto (sampleGenesis "Garden" "phm_stranger") := by
  have htrim : Text.trim "Garden " = Text.trim "Garden" := by decide
  refine ⟨createCommunityGenesis_sample (by decide) (by decide),
    createCommunityGenesis_sample (by decide) (by decide), ?_, ?_, ?_⟩
  · show Except.ok (jsonBytes (.obj (definedFields [_, _, _, ("displayName",
      some (.str (Text.trim "Garden "))), _, _, _, _]))) = _
    rw [htrim]
    rfl
  · intro hsame
    injection (Option.some.inj hsame) with hname
    exact absurd hname (by decide)
  · rintro ⟨identity, hidentity, hcreator⟩
    simp only [createSelfOwnedMemberIdentity, bind_eq_ok, readEd25519PublicKey_eq_ok, pure_eq_ok]
      at hidentity
    obtain ⟨rootPublicKey, -, rfl⟩ := hidentity
    injection (Option.some.inj hcreator) with hname
    obtain ⟨digest, htext, hlength, -⟩ := toList_selfOwnedMemberId rootPublicKey
    have hcharacters := congrArg (fun text : String ↦ text.toList.length) hname
    simp only [htext, List.length_append, hlength] at hcharacters
    exact absurd hcharacters (by decide)

end PeerHours.PeerRuntime
