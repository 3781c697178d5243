import PeerHours.Library.Base64Url
import PeerHours.Library.Hex
import PeerHours.Library.PlainObjects
import PeerHours.Runtime.Invitations

/-!
# Invitations as texts

An invitation travels as base64url text of its JSON, and is normalized on both sides. Whatever plain data it carries
beside its keys arrives in its place.
-/

namespace PeerHours.InvitationTexts

open Checked CodeUnits Json Json.Plain KeyedMap Sorting
open PeerRuntime (communityInvitationSchema)

/-! ## Normalizing -/

/-- The text that a pattern reads from a value: a string, or an array of one such value. -/
def patternText : Plain → Option CodeUnits
  | .str units => some units
  | .arr [item] => patternText item
  | _ => none

/-- Checks a hexadecimal Hypercore public or discovery key. -/
def assertKey (value : Option Plain) (label : String) : Except String Unit :=
  require ((value.bind patternText).any (fun units ↦ Hex.isKey (toWellFormed units)) = true)
    (label ++ " must be a 64-character hexadecimal key.")

/-- The text in lower case. -/
def toLowerCase (units : CodeUnits) : CodeUnits :=
  ofString (toWellFormed units).toLower

/-- The properties with a text assigned. -/
def withText (fields : List (CodeUnits × Plain)) (name : String) (units : CodeUnits) :
    List (CodeUnits × Plain) :=
  upsert Prod.fst (ofString name, .str units) fields

/-- Validates an invitation before it causes a runtime to open or join an untrusted core. A key that is no
text passes the pattern as an array of one text, and then has no `toLowerCase`. -/
def createCommunityInvitation (input : Plain) : Except String Plain := do
  require (text? (input.prop "schema") = some (ofString communityInvitationSchema))
    "Community invitation must use the supported schema."
  assertKey (input.prop "communityId") "Community invitation community id"
  assertKey (input.prop "discoveryKey") "Community invitation discovery key"
  let communityId ← present (text? (input.prop "communityId"))
    "input.communityId.toLowerCase is not a function"
  let discoveryKey ← present (text? (input.prop "discoveryKey"))
    "input.discoveryKey.toLowerCase is not a function"
  pure (.obj (withText (withText input.own "communityId" (toLowerCase communityId)) "discoveryKey"
    (toLowerCase discoveryKey)))

/-- The value is an invitation with keys in lower case. -/
structure NormalInvitation (invitation : Plain) (communityId discoveryKey : String) : Prop where
  schema : invitation.prop "schema" = some (text communityInvitationSchema)
  community : invitation.prop "communityId" = some (text communityId)
  discovery : invitation.prop "discoveryKey" = some (text discoveryKey)
  keys : Hex.isKey communityId = true ∧ Hex.isKey discoveryKey = true
  lower : communityId.toLower = communityId ∧ discoveryKey.toLower = discoveryKey

theorem field_withText (fields : List (CodeUnits × Plain)) (name : String) (units wanted : CodeUnits) :
    field (.obj (withText fields name units)) wanted =
      if ofString name = wanted then some (.str units) else field (.obj fields) wanted := by
  show (lookup Prod.fst wanted (upsert Prod.fst _ fields)).map Prod.snd = _
  rw [lookup_upsert]
  split <;> rfl

/-- Assigning the text that a property has changes nothing. -/
theorem withText_self {fields : List (CodeUnits × Plain)} {name : String} {units : CodeUnits}
    (h : field (.obj fields) (ofString name) = some (.str units)) : withText fields name units = fields := by
  induction fields with
  | nil => cases h
  | cons property rest ih =>
      obtain ⟨first, value⟩ := property
      rw [withText, upsert]
      by_cases hsame : first = ofString name
      · rw [field, Plain.get, lookup_cons, if_pos hsame, Option.map_some, Option.some.injEq] at h
        rw [if_pos hsame, ← hsame, ← h]
      · rw [field, Plain.get, lookup_cons, if_neg hsame] at h
        rw [if_neg hsame]
        exact congrArg _ (ih h)

/-- A text of hexadecimal digits is a string. -/
theorem ofString_of_isKey {units : CodeUnits} (h : Hex.isKey (toWellFormed units) = true) :
    ofString (toWellFormed units) = units := by
  refine ofString_toWellFormed fun hmem ↦ ?_
  have hdigit := List.all_eq_true.mp (Bool.and_eq_true_iff.mp h).2 _ hmem
  exact absurd hdigit (by decide)

theorem any_patternText {key : String} (h : Hex.isKey key = true) :
    ((some (text key)).bind patternText).any (fun units ↦ Hex.isKey (toWellFormed units)) = true := by
  rw [text, Option.bind_some, patternText, Option.any_some, toWellFormed_ofString, h]

/-- What an invitation is normalized to. -/
theorem createCommunityInvitation_eq_ok {input invitation : Plain} :
    createCommunityInvitation input = .ok invitation ↔ ∃ communityId discoveryKey,
      input.prop "schema" = some (text communityInvitationSchema) ∧
      input.prop "communityId" = some (text communityId) ∧ Hex.isKey communityId = true ∧
      input.prop "discoveryKey" = some (text discoveryKey) ∧ Hex.isKey discoveryKey = true ∧
      .obj (withText (withText input.own "communityId" (ofString communityId.toLower)) "discoveryKey"
        (ofString discoveryKey.toLower)) = invitation := by
  simp only [createCommunityInvitation, assertKey, bind_eq_ok, require_eq_ok, present_eq_ok, pure_eq_ok,
    exists_const, text?_eq_some]
  constructor
  · rintro ⟨hschema, hcommunity, hdiscovery, communityId, hcommunityText, discoveryKey, hdiscoveryText,
      hsame⟩
    rw [hcommunityText] at hcommunity
    rw [hdiscoveryText] at hdiscovery
    refine ⟨toWellFormed communityId, toWellFormed discoveryKey, hschema, ?_, hcommunity, ?_, hdiscovery,
      hsame⟩
    · rw [hcommunityText, text, ofString_of_isKey hcommunity]
    · rw [hdiscoveryText, text, ofString_of_isKey hdiscovery]
  · rintro ⟨communityId, discoveryKey, hschema, hcommunity, hkey, hdiscovery, hdiscoveryKey, hsame⟩
    rw [hcommunity, hdiscovery]
    refine ⟨hschema, any_patternText hkey, any_patternText hdiscoveryKey, _, rfl, _, rfl, ?_⟩
    rw [toLowerCase, toLowerCase, toWellFormed_ofString, toWellFormed_ofString, hsame]

/-- An accepted invitation is normal, names the same feed and carries what else the input carried. -/
theorem normal_of_createCommunityInvitation {input invitation : Plain}
    (h : createCommunityInvitation input = .ok invitation) :
    ∃ communityId discoveryKey, input.prop "communityId" = some (text communityId) ∧
      input.prop "discoveryKey" = some (text discoveryKey) ∧
      NormalInvitation invitation communityId.toLower discoveryKey.toLower ∧
      ∀ name, name ≠ ofString "communityId" → name ≠ ofString "discoveryKey" →
        invitation.field name = input.field name := by
  obtain ⟨communityId, discoveryKey, hschema, hcommunity, hkey, hdiscovery, hdiscoveryKey, rfl⟩ :=
    createCommunityInvitation_eq_ok.mp h
  have hne {left right : String} (h : left ≠ right) : ofString left ≠ ofString right :=
    fun hunits ↦ h (ofString_inj hunits)
  refine ⟨communityId, discoveryKey, hcommunity, hdiscovery, ?_, ?_⟩
  · exact
      { schema := by
          rw [prop, field_withText, if_neg (hne (by decide)), field_withText, if_neg (hne (by decide)),
            field_own]
          exact hschema
        community := by
          rw [prop, field_withText, if_neg (hne (by decide)), field_withText, if_pos rfl, text]
        discovery := by rw [prop, field_withText, if_pos rfl, text]
        keys := ⟨Hex.isKey_toLower hkey, Hex.isKey_toLower hdiscoveryKey⟩
        lower := ⟨Hex.toLower_toLower hkey, Hex.toLower_toLower hdiscoveryKey⟩ }
  · intro name hnameCommunity hnameDiscovery
    rw [field_withText, if_neg (Ne.symm hnameDiscovery), field_withText, if_neg (Ne.symm hnameCommunity),
      field_own]

/-- A normal invitation that lists its properties in order is accepted as it is. -/
theorem NormalInvitation.create {invitation : Plain} {communityId discoveryKey : String}
    (h : NormalInvitation invitation communityId discoveryKey) (hlisted : .obj invitation.own = invitation) :
    createCommunityInvitation invitation = .ok invitation := by
  refine createCommunityInvitation_eq_ok.mpr ⟨communityId, discoveryKey, h.schema, h.community, h.keys.1,
    h.discovery, h.keys.2, ?_⟩
  have hcommunity : withText invitation.own "communityId" (ofString communityId) = invitation.own :=
    withText_self (hlisted.symm ▸ h.community)
  have hdiscovery : withText invitation.own "discoveryKey" (ofString discoveryKey) = invitation.own :=
    withText_self (hlisted.symm ▸ h.discovery)
  rw [h.lower.1, h.lower.2, hcommunity, hdiscovery, hlisted]

/-- The names of an object to whose properties a text is assigned. -/
theorem map_fst_withText {fields : List (CodeUnits × Plain)} {name : String} {units : CodeUnits}
    {found : Plain} (h : field (.obj fields) (ofString name) = some found) :
    (withText fields name units).map Prod.fst = fields.map Prod.fst := by
  obtain ⟨property, hproperty, -⟩ := Option.map_eq_some_iff.mp h
  obtain ⟨hmem, hname⟩ := lookup_eq_some hproperty
  have hnamed : ofString name ∈ fields.map Prod.fst := hname ▸ List.mem_map_of_mem hmem
  rw [withText, map_key_upsert, if_pos hnamed]

/-- A normalized invitation lists its properties as the input does. -/
theorem ownKeys_createCommunityInvitation {input invitation : Plain}
    (h : createCommunityInvitation input = .ok invitation) : ∃ fields, invitation = .obj fields ∧
      fields.map Prod.fst = input.ownKeys := by
  obtain ⟨communityId, discoveryKey, -, hcommunity, -, hdiscovery, -, rfl⟩ :=
    createCommunityInvitation_eq_ok.mp h
  refine ⟨_, rfl, ?_⟩
  have hread : field (.obj input.own) (ofString "communityId") = some (text communityId) :=
    (field_own _ _).trans hcommunity
  have hother : field (.obj (withText input.own "communityId" (ofString communityId.toLower)))
      (ofString "discoveryKey") = some (text discoveryKey) := by
    rw [field_withText, if_neg fun h ↦ absurd (ofString_inj h) (by decide), field_own]
    exact hdiscovery
  rw [map_fst_withText hother, map_fst_withText hread, ownKeys]

/-- A normalized invitation is data that a program can hold. -/
theorem held_createCommunityInvitation {input invitation : Plain} (hinput : input.Held)
    (h : createCommunityInvitation input = .ok invitation) : invitation.Held := by
  obtain ⟨fields, hfields, hnames⟩ := ownKeys_createCommunityInvitation h
  obtain ⟨communityId, discoveryKey, hschema, -, -, -, -, hsame⟩ := createCommunityInvitation_eq_ok.mp h
  cases input with
  | obj given =>
      obtain ⟨hnodup, hgiven⟩ := held_obj.mp hinput
      have hkeys : (ownKeys (.obj given)).Nodup := (nodup_map_sortBy Prod.fst).mpr hnodup
      rw [← hsame] at hfields ⊢
      obtain rfl := Plain.obj.inj hfields
      refine held_obj.mpr ⟨hnames ▸ hkeys, fun property hproperty ↦ ?_⟩
      rcases eq_or_mem_of_mem_upsert hproperty with rfl | hproperty
      · exact held_str _
      · rcases eq_or_mem_of_mem_upsert hproperty with rfl | hproperty
        · exact held_str _
        · exact hgiven property (mem_sortBy.mp hproperty)
  | _ => cases hschema

theorem withText_ofFields (fields : List (String × JsonValue)) (name literal : String) :
    withText (Plain.ofFields fields) name (ofString literal) =
      Plain.ofFields (PeerRuntime.withText fields name literal) := by
  induction fields with
  | nil => rfl
  | cons property rest ih =>
      obtain ⟨first, value⟩ := property
      rw [Plain.ofFields, withText, upsert, PeerRuntime.withText, upsert]
      by_cases hsame : first = name
      · rw [if_pos (congrArg ofString hsame), if_pos hsame]
        rfl
      · rw [if_neg fun h ↦ hsame (ofString_inj h), if_neg hsame]
        exact congrArg _ ih

/-- An invitation of strings is normalized as a runtime normalizes it before it opens the feed. -/
theorem createCommunityInvitation_ofJson {input invitation : JsonValue} (hinput : WellFormed input)
    (h : PeerRuntime.createCommunityInvitation input = .ok invitation) :
    createCommunityInvitation (ofJson input) = .ok (ofJson invitation) := by
  obtain ⟨communityId, discoveryKey, hschema, hcommunity, hkey, hdiscovery, hdiscoveryKey, rfl⟩ :=
    PeerRuntime.createCommunityInvitation_eq_ok.mp h
  refine createCommunityInvitation_eq_ok.mpr ⟨communityId, discoveryKey, prop_of_text hschema,
    prop_of_text hcommunity, hkey, prop_of_text hdiscovery, hdiscoveryKey, ?_⟩
  rw [own_ofJson hinput, withText_ofFields, withText_ofFields, ofJson]

/-! ## Text -/

/-- Serializes a portable invitation as compact URL-safe JSON. -/
def encodeCommunityInvitation (invitation : Plain) : Except String String := do
  let normal ← createCommunityInvitation invitation
  pure (Base64Url.encode (utf8 normal.stringify))

/-- `buffer.toString("utf8")`, where only how invalid bytes are replaced depends on the host. -/
def textOf (replaceInvalid : Buffer → String) (data : Buffer) : String :=
  (String.fromUTF8? ⟨data.toArray⟩).getD (replaceInvalid data)

/-- Parses a copied invitation without accepting arbitrary JSON as a community selection. -/
def decodeCommunityInvitation (replaceInvalid : Buffer → String) (encoded : CodeUnits) :
    Except String Plain :=
  let json := textOf replaceInvalid (Base64Url.looseDecode (toWellFormed encoded))
  let decoded := do
    let value ← present (Plain.parse json) "Unexpected token"
    createCommunityInvitation value
  decoded.mapError fun _ ↦ "This community invitation is invalid or incomplete."

theorem textOf_utf8 (replaceInvalid : Buffer → String) (text : String) :
    textOf replaceInvalid (utf8 text) = text := by
  have hbytes : (⟨(utf8 text).toArray⟩ : ByteArray) = text.toByteArray := by
    rw [utf8, Array.toArray_toList]
  rw [textOf, hbytes, String.fromUTF8?, dif_pos text.isValidUTF8]
  rfl

/-- A normal invitation is normal after it was stored. -/
theorem NormalInvitation.stored {invitation : Plain} {communityId discoveryKey : String}
    (h : NormalInvitation invitation communityId discoveryKey) :
    NormalInvitation invitation.stored communityId discoveryKey where
  schema := (prop_stored _ _).trans (congrArg (Option.map _) h.schema)
  community := (prop_stored _ _).trans (congrArg (Option.map _) h.community)
  discovery := (prop_stored _ _).trans (congrArg (Option.map _) h.discovery)
  keys := h.keys
  lower := h.lower

/-- What is written for an invitation is read back as what is stored of the invitation that it is normalized to. -/
theorem decode_encodeCommunityInvitation {replaceInvalid : Buffer → String} {input invitation : Plain}
    (hinput : input.Held) (hcreate : createCommunityInvitation input = .ok invitation) :
    createCommunityInvitation invitation.stored = .ok invitation.stored ∧
    decodeCommunityInvitation replaceInvalid
      (ofString (Base64Url.encode (utf8 invitation.stringify))) = .ok invitation.stored := by
  obtain ⟨fields, rfl, -⟩ := ownKeys_createCommunityInvitation hcreate
  obtain ⟨communityId, discoveryKey, -, -, hnormal, -⟩ :=
    normal_of_createCommunityInvitation hcreate
  have hheld := held_createCommunityInvitation hinput hcreate
  have hagain := hnormal.stored.create (own_stored fields)
  refine ⟨hagain, ?_⟩
  rw [decodeCommunityInvitation, toWellFormed_ofString,
    Base64Url.looseDecode_of_inAlphabet (Base64Url.inAlphabet_encode _), Base64Url.decode_encode,
    textOf_utf8]
  exact mapError_eq_ok.mpr (bind_eq_ok.mpr
    ⟨_, present_eq_ok.mpr (Plain.parse_stringify hheld), hagain⟩)

/-- Only normal invitations are decoded. -/
theorem normal_of_decodeCommunityInvitation {replaceInvalid : Buffer → String} {encoded : CodeUnits}
    {invitation : Plain} (h : decodeCommunityInvitation replaceInvalid encoded = .ok invitation) :
    ∃ communityId discoveryKey, NormalInvitation invitation communityId discoveryKey := by
  rw [decodeCommunityInvitation, mapError_eq_ok] at h
  obtain ⟨value, -, hcreate⟩ := bind_eq_ok.mp h
  obtain ⟨communityId, discoveryKey, -, -, hnormal, -⟩ := normal_of_createCommunityInvitation hcreate
  exact ⟨_, _, hnormal⟩

/-- An invitation that is written out and copied comes back with its keys in lower case and with whatever data it
carries, in its place. The text stands for that invitation only, and whatever text is taken for an invitation
names a feed. -/
structure Travels (replaceInvalid : Buffer → String) (input : Plain) (encoded : String) : Prop where
  arrives : ∃ communityId discoveryKey invitation,
    input.prop "communityId" = some (text communityId) ∧
      input.prop "discoveryKey" = some (text discoveryKey) ∧
      decodeCommunityInvitation replaceInvalid (ofString encoded) = .ok invitation ∧
      NormalInvitation invitation communityId.toLower discoveryKey.toLower ∧
      (∀ name, name ≠ ofString "communityId" → name ≠ ofString "discoveryKey" →
        Option.Rel Same (input.field name) (invitation.field name)) ∧
      invitation.ownKeys = input.ownKeys ∧
      encodeCommunityInvitation invitation = .ok encoded
  distinct : ∀ other : Plain, other.Held → (encodeCommunityInvitation other = .ok encoded ↔
    ∃ normal, createCommunityInvitation other = .ok normal ∧
      decodeCommunityInvitation replaceInvalid (ofString encoded) = .ok normal.stored)
  names : ∀ text invitation, decodeCommunityInvitation replaceInvalid text = .ok invitation →
    ∃ communityId discoveryKey, NormalInvitation invitation communityId discoveryKey

theorem ownKeys_stored {fields : List (CodeUnits × Plain)} {input : Plain}
    (h : fields.map Prod.fst = input.ownKeys) : ownKeys (stored (.obj fields)) = input.ownKeys := by
  have hnames : (storedFields fields).map Prod.fst = input.ownKeys := by
    rw [storedFields_eq_map, List.map_map]
    exact h
  rw [stored, ownKeys, own, sortBy_sortBy, sortBy_of_ownKeys hnames, hnames]

theorem rel_same_stored {value : Plain} (hvalue : value.Held) (name : CodeUnits) :
    Option.Rel Same (value.field name) (value.stored.field name) := by
  rw [field_stored]
  cases hfound : value.field name with
  | none => exact .none
  | some found => exact .some (same_stored (held_of_field hvalue hfound).oneOfEach)

/-- Every invitation of plain data that is written out travels. -/
theorem invitation_travels {replaceInvalid : Buffer → String} {input : Plain} (hinput : input.Held)
    {encoded : String} (h : encodeCommunityInvitation input = .ok encoded) :
    Travels replaceInvalid input encoded := by
  obtain ⟨invitation, hcreate, hencoded⟩ := bind_eq_ok.mp h
  obtain rfl := pure_eq_ok.mp hencoded
  obtain ⟨hagain, hdecode⟩ := @decode_encodeCommunityInvitation replaceInvalid _ _ hinput hcreate
  have hheld := held_createCommunityInvitation hinput hcreate
  refine ⟨?_, fun other hother ↦ ?_, fun _ _ ↦ normal_of_decodeCommunityInvitation⟩
  · obtain ⟨communityId, discoveryKey, hcommunity, hdiscovery, hnormal, hothers⟩ :=
      normal_of_createCommunityInvitation hcreate
    obtain ⟨fields, rfl, hnames⟩ := ownKeys_createCommunityInvitation hcreate
    refine ⟨communityId, discoveryKey, _, hcommunity, hdiscovery, hdecode, hnormal.stored,
      fun name hcommunity hdiscovery ↦ ?_, ownKeys_stored hnames, ?_⟩
    · rw [← hothers name hcommunity hdiscovery]
      exact rel_same_stored hheld name
    · refine bind_eq_ok.mpr ⟨_, hagain, pure_eq_ok.mpr ?_⟩
      rw [stringify_eq_iff.mpr (written_stored _)]
  · rw [hdecode]
    constructor
    · intro hencode
      obtain ⟨normal, hnormal, hsame⟩ := bind_eq_ok.mp hencode
      have htext := utf8_inj.mp (Base64Url.encode_inj.mp (pure_eq_ok.mp hsame))
      have hstored := (stored_eq_iff hheld.oneOfEach
        (held_createCommunityInvitation hother hnormal).oneOfEach).mpr (stringify_eq_iff.mp htext.symm)
      exact ⟨normal, hnormal, congrArg Except.ok hstored⟩
    · rintro ⟨normal, hnormal, hstored⟩
      have hwritten := (stored_eq_iff hheld.oneOfEach
        (held_createCommunityInvitation hother hnormal).oneOfEach).mp (Except.ok.inj hstored)
      refine bind_eq_ok.mpr ⟨normal, hnormal, pure_eq_ok.mpr ?_⟩
      rw [stringify_eq_iff.mpr hwritten.symm]

/-- An invitation whose keys are in capital letters, with a negative zero and a surrogate without a partner. -/
def capitalInvitation : Plain :=
  object [("schema", text communityInvitationSchema),
    ("communityId", text (String.ofList (List.replicate 64 'A'))),
    ("discoveryKey", text (String.ofList (List.replicate 64 'B'))), ("note", .str [0xD800]),
    ("places", .arr [.num .negativeZero])]

theorem invitation_travels_capital : ∃ encoded,
    encodeCommunityInvitation capitalInvitation = .ok encoded ∧
      Travels (fun _ ↦ "") capitalInvitation encoded := by
  have hdouble : Decimal.IsDouble (.ofInt 0) := by decide +kernel
  have hzero : (Plain.arr [.num .negativeZero]).Held := ⟨⟨trivial, trivial⟩, hdouble, trivial⟩
  have hheld : capitalInvitation.Held := by
    refine held_object (by simp) ?_
    simp only [List.forall_mem_cons, text, held_str, hzero, List.not_mem_nil, false_implies, implies_true,
      and_self]
  obtain ⟨invitation, hcreate⟩ : ∃ invitation, createCommunityInvitation capitalInvitation =
      .ok invitation :=
    ⟨_, createCommunityInvitation_eq_ok.mpr ⟨String.ofList (List.replicate 64 'A'),
      String.ofList (List.replicate 64 'B'), by simp [capitalInvitation], by simp [capitalInvitation],
      by decide, by simp [capitalInvitation], by decide, rfl⟩⟩
  have hencode : encodeCommunityInvitation capitalInvitation =
      .ok (Base64Url.encode (utf8 invitation.stringify)) := bind_eq_ok.mpr ⟨invitation, hcreate, rfl⟩
  exact ⟨_, hencode, invitation_travels hheld hencode⟩

end PeerHours.InvitationTexts
