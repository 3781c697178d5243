import PeerHours.Library.Checked
import PeerHours.Library.JsonText
import PeerHours.Library.KeyedMap

/-!
# Transfers

A transfer is an object with the agreed terms and the attestations of its two participants.
`createTransferTerms` and `createTransfer` take any object and return the transfer it describes
when the ledger rules for a single transfer hold.
-/

namespace PeerHours.TimebankLedger

open Checked Json
open JsonValue (field text? int?)

/-- A participant's attestation of the exact transfer supplied to a verifier. `rest` holds the
other properties of the object, which the copy keeps. -/
structure TransferAttestation where
  memberId : String
  keyId : String
  payloadDigest : String
  signature : String
  rest : List (String × JsonValue)
deriving DecidableEq

/-- Immutable transfer terms that participants sign before their attestations are assembled. A
reversal keeps whatever value its object has under `sourceProposalId`. -/
structure TransferTerms where
  id : String
  communityId : String
  sourceProposalId : Option JsonValue
  providerMemberId : String
  recipientMemberId : String
  minutes : Int
  reversesTransferId : Option String
deriving DecidableEq

/-- An immutable, community-scoped transfer with its attestations. -/
structure Transfer extends TransferTerms where
  attestations : List TransferAttestation
deriving DecidableEq

/-- The property names an attestation is read from. -/
def attestationNames : List String := ["memberId", "keyId", "payloadDigest", "signature"]

/-- The object of an attestation, with the named properties first; the copy of the source lists them in the order
of its input. -/
def TransferAttestation.toJson (attestation : TransferAttestation) : JsonValue :=
  .obj (("memberId", .str attestation.memberId) :: ("keyId", .str attestation.keyId) ::
    ("payloadDigest", .str attestation.payloadDigest) ::
    ("signature", .str attestation.signature) :: attestation.rest)

/-- The properties of transfer terms; an absent term has no property. -/
def TransferTerms.properties (terms : TransferTerms) : List (String × JsonValue) :=
  [("id", .str terms.id), ("communityId", .str terms.communityId)] ++
    (terms.sourceProposalId.map fun value ↦ ("sourceProposalId", value)).toList ++
    [("providerMemberId", .str terms.providerMemberId),
      ("recipientMemberId", .str terms.recipientMemberId), ("minutes", .int terms.minutes)] ++
    (terms.reversesTransferId.map fun id ↦ ("reversesTransferId", .str id)).toList

/-- The object of transfer terms. -/
def TransferTerms.toJson (terms : TransferTerms) : JsonValue :=
  .obj terms.properties

/-- The object of a transfer. -/
def Transfer.toJson (transfer : Transfer) : JsonValue :=
  .obj (transfer.properties ++
    [("attestations", .arr (transfer.attestations.map TransferAttestation.toJson))])

/-- Ensures a required text field is non-blank. A value that is no text has no `trim` to call. -/
def assertPresent (value : Option JsonValue) (label : String) : Except String String :=
  match value with
  | some (.str text) =>
      if Text.blank text = false then .ok text else .error (label ++ " is required.")
  | none => .error "Cannot read properties of undefined (reading 'trim')"
  | some .null => .error "Cannot read properties of null (reading 'trim')"
  | some _ => .error "value.trim is not a function"

@[simp] theorem assertPresent_eq_ok {value : Option JsonValue} {label text : String} :
    assertPresent value label = .ok text ↔ value = some (.str text) ∧ Text.blank text = false := by
  unfold assertPresent
  split
  · rename_i found
    by_cases hblank : Text.blank found = false
    · simp only [hblank, if_true, Except.ok.injEq, Option.some.injEq, JsonValue.str.injEq]
      constructor
      · rintro rfl; exact ⟨rfl, hblank⟩
      · exact And.left
    · simp only [hblank, if_false, reduceCtorEq, Option.some.injEq, JsonValue.str.injEq, false_iff]
      rintro ⟨rfl, h⟩
      exact hblank h
  · simp
  · simp
  · rename_i hnot _
    simp only [reduceCtorEq, false_iff]
    rintro ⟨h, -⟩
    exact hnot text (Option.some.inj h)

/-- Ensures transfer minutes are a positive whole number. -/
def assertPositiveWholeMinutes (value : Option JsonValue) : Except String Int := do
  let minutes ← present (int? value) "Transfer minutes must be a positive whole number."
  require (0 < minutes) "Transfer minutes must be a positive whole number."
  pure minutes

/-- `value ?? ""`. -/
def orEmptyText (value : Option JsonValue) : Option JsonValue :=
  match value with
  | none | some .null => some (.str "")
  | some value => some value

/-- The identity of the transfer that the terms reverse, when they reverse one. -/
def reversedTransferId (input : JsonValue) (id : String) : Except String (Option String) :=
  match input.field "reversesTransferId" with
  | some value => do
      let reversed ← assertPresent (some value) "Reversed transfer id"
      require (reversed ≠ id) "A transfer cannot reverse itself."
      pure (some reversed)
  | none => do
      let _ ← assertPresent (orEmptyText (input.field "sourceProposalId")) "Source proposal id"
      pure none

/-- Normalizes the immutable terms both participants attest before a complete transfer exists. -/
def createTransferTerms (input : JsonValue) : Except String TransferTerms := do
  let id ← assertPresent (input.field "id") "Transfer id"
  let communityId ← assertPresent (input.field "communityId") "Community id"
  let providerMemberId ← assertPresent (input.field "providerMemberId") "Provider member id"
  let recipientMemberId ← assertPresent (input.field "recipientMemberId") "Recipient member id"
  let minutes ← assertPositiveWholeMinutes (input.field "minutes")
  require (providerMemberId ≠ recipientMemberId)
    "A transfer cannot have the same provider and recipient."
  let reversesTransferId ← reversedTransferId input id
  pure
    { id := id
      communityId := communityId
      sourceProposalId := input.field "sourceProposalId"
      providerMemberId := providerMemberId
      recipientMemberId := recipientMemberId
      minutes := minutes
      reversesTransferId := reversesTransferId }

/-- The rules for the terms of one transfer. -/
structure TransferTerms.Valid (terms : TransferTerms) : Prop where
  id : Text.blank terms.id = false
  communityId : Text.blank terms.communityId = false
  providerMemberId : Text.blank terms.providerMemberId = false
  recipientMemberId : Text.blank terms.recipientMemberId = false
  positive : 0 < terms.minutes
  distinct : terms.providerMemberId ≠ terms.recipientMemberId
  reverses : ∀ reversed, terms.reversesTransferId = some reversed →
    Text.blank reversed = false ∧ reversed ≠ terms.id
  settles : terms.reversesTransferId = none →
    ∃ proposalId, terms.sourceProposalId = some (.str proposalId) ∧ Text.blank proposalId = false

/-- The object has the terms under the property names of a transfer. -/
structure Describes (input : JsonValue) (terms : TransferTerms) : Prop where
  id : input.field "id" = some (.str terms.id)
  communityId : input.field "communityId" = some (.str terms.communityId)
  sourceProposalId : input.field "sourceProposalId" = terms.sourceProposalId
  providerMemberId : input.field "providerMemberId" = some (.str terms.providerMemberId)
  recipientMemberId : input.field "recipientMemberId" = some (.str terms.recipientMemberId)
  minutes : input.field "minutes" = some (.int terms.minutes)
  reversesTransferId : input.field "reversesTransferId" = terms.reversesTransferId.map .str

/-- Terms are described by every value that reads the same properties. -/
theorem Describes.of_field {input other : JsonValue} {terms : TransferTerms}
    (h : Describes input terms) (hsame : ∀ name, other.field name = input.field name) :
    Describes other terms where
  id := (hsame _).trans h.id
  communityId := (hsame _).trans h.communityId
  sourceProposalId := (hsame _).trans h.sourceProposalId
  providerMemberId := (hsame _).trans h.providerMemberId
  recipientMemberId := (hsame _).trans h.recipientMemberId
  minutes := (hsame _).trans h.minutes
  reversesTransferId := (hsame _).trans h.reversesTransferId

@[simp] theorem assertPositiveWholeMinutes_eq_ok {value : Option JsonValue} {minutes : Int} :
    assertPositiveWholeMinutes value = .ok minutes ↔ value = some (.int minutes) ∧ 0 < minutes := by
  simp only [assertPositiveWholeMinutes, bind_eq_ok, present_eq_ok, require_eq_ok, pure_eq_ok,
    JsonValue.int?_eq_some]
  constructor
  · rintro ⟨_, h, _, hpos, rfl⟩
    exact ⟨h, hpos⟩
  · rintro ⟨h, hpos⟩
    exact ⟨minutes, h, (), hpos, rfl⟩

theorem orEmptyText_eq_str {value : Option JsonValue} {text : String}
    (h : Text.blank text = false) : orEmptyText value = some (.str text) ↔
      value = some (.str text) := by
  unfold orEmptyText
  split
  · simp only [Option.some.injEq, JsonValue.str.injEq, reduceCtorEq, iff_false]
    rintro rfl
    exact absurd h (by decide)
  · simp only [Option.some.injEq, JsonValue.str.injEq, reduceCtorEq, iff_false]
    rintro rfl
    exact absurd h (by decide)
  · exact Iff.rfl

theorem reversedTransferId_eq_ok {input : JsonValue} {id : String} {result : Option String} :
    reversedTransferId input id = .ok result ↔
      input.field "reversesTransferId" = result.map .str ∧
      (∀ reversed, result = some reversed → Text.blank reversed = false ∧ reversed ≠ id) ∧
      (result = none → ∃ proposalId, input.field "sourceProposalId" = some (.str proposalId) ∧
        Text.blank proposalId = false) := by
  unfold reversedTransferId
  split
  · rename_i value hvalue
    simp only [bind_eq_ok, assertPresent_eq_ok, require_eq_ok, pure_eq_ok, Option.some.injEq]
    constructor
    · rintro ⟨reversed, ⟨rfl, hblank⟩, _, hne, rfl⟩
      refine ⟨hvalue, ?_, fun hnone ↦ absurd hnone (Option.some_ne_none reversed)⟩
      intro other hother
      rw [← Option.some.inj hother]
      exact ⟨hblank, hne⟩
    · rintro ⟨hfield, hrules, -⟩
      cases result with
      | none => simp [hvalue] at hfield
      | some reversed =>
          rw [hvalue] at hfield
          obtain ⟨hblank, hne⟩ := hrules reversed rfl
          exact ⟨reversed, ⟨Option.some.inj hfield, hblank⟩, (), hne, rfl⟩
  · rename_i hvalue
    simp only [bind_eq_ok, assertPresent_eq_ok, pure_eq_ok]
    constructor
    · rintro ⟨proposalId, ⟨hsource, hblank⟩, rfl⟩
      refine ⟨hvalue, ?_, fun _ ↦ ⟨proposalId, (orEmptyText_eq_str hblank).mp hsource, hblank⟩⟩
      intro reversed hreversed
      cases hreversed
    · rintro ⟨hfield, -, hsettles⟩
      cases result with
      | none =>
          obtain ⟨proposalId, hsource, hblank⟩ := hsettles rfl
          exact ⟨proposalId, ⟨(orEmptyText_eq_str hblank).mpr hsource, hblank⟩, rfl⟩
      | some reversed => simp [hvalue] at hfield

/-- Terms are returned exactly for the objects that describe valid terms. -/
theorem createTransferTerms_eq_ok {input : JsonValue} {terms : TransferTerms} :
    createTransferTerms input = .ok terms ↔ Describes input terms ∧ terms.Valid := by
  simp only [createTransferTerms, bind_eq_ok, assertPresent_eq_ok, assertPositiveWholeMinutes_eq_ok,
    require_eq_ok, reversedTransferId_eq_ok, pure_eq_ok]
  constructor
  · rintro ⟨id, ⟨hid, hidBlank⟩, community, ⟨hcommunity, hcommunityBlank⟩, provider,
      ⟨hprovider, hproviderBlank⟩, recipient, ⟨hrecipient, hrecipientBlank⟩, minutes,
      ⟨hminutes, hpositive⟩, _, hdistinct, reverses, ⟨hreverses, hreversed, hsettles⟩, rfl⟩
    exact ⟨⟨hid, hcommunity, rfl, hprovider, hrecipient, hminutes, hreverses⟩,
      ⟨hidBlank, hcommunityBlank, hproviderBlank, hrecipientBlank, hpositive, hdistinct, hreversed,
        hsettles⟩⟩
  · rintro ⟨hinput, hvalid⟩
    refine ⟨_, ⟨hinput.id, hvalid.id⟩, _, ⟨hinput.communityId, hvalid.communityId⟩, _,
      ⟨hinput.providerMemberId, hvalid.providerMemberId⟩, _,
      ⟨hinput.recipientMemberId, hvalid.recipientMemberId⟩, _, ⟨hinput.minutes, hvalid.positive⟩,
      (), hvalid.distinct, _, ⟨hinput.reversesTransferId, hvalid.reverses, ?_⟩, ?_⟩
    · exact hinput.sourceProposalId ▸ hvalid.settles
    · rw [hinput.sourceProposalId]

/-- The attestations an object lists: an array, or the characters of a text. -/
def attestationItems (value : Option JsonValue) : Except String (List JsonValue) :=
  let expected := "A transfer requires exactly two participant attestations."
  match value with
  | some (.arr items) => do
      require (items.length = 2) expected
      pure items
  | some (.str text) => do
      require ((Text.utf16 text).length = 2) expected
      pure (text.toList.map fun c ↦ .str (String.singleton c))
  | none => .error "Cannot read properties of undefined (reading 'length')"
  | some .null => .error "Cannot read properties of null (reading 'length')"
  | some value => do
      require (int? (value.field "length") = some 2) expected
      .error "transfer.attestations is not iterable"

/-- Reads one attestation, copying its object. -/
def readAttestation (item : JsonValue) : Except String TransferAttestation := do
  require (item ≠ .null) "Cannot read properties of null (reading 'memberId')"
  let memberId ← assertPresent (item.field "memberId") "Attesting member id"
  let keyId ← assertPresent (item.field "keyId") "Attestation signing key id"
  let payloadDigest ← assertPresent (item.field "payloadDigest") "Attestation payload digest"
  let signature ← assertPresent (item.field "signature") "Attestation signature"
  pure
    { memberId := memberId
      keyId := keyId
      payloadDigest := payloadDigest
      signature := signature
      rest := item.properties.filter fun property ↦ property.1 ∉ attestationNames }

/-- Adds one participant's attestation to those read so far. -/
def addAttestation (providerMemberId recipientMemberId : String)
    (attestationsByMember : List TransferAttestation) (item : JsonValue) :
    Except String (List TransferAttestation) := do
  let attestation ← readAttestation item
  require (attestation.memberId = providerMemberId ∨ attestation.memberId = recipientMemberId)
    "Only the provider and recipient may attest a transfer."
  require (∀ other ∈ attestationsByMember, other.memberId ≠ attestation.memberId)
    "Each transfer participant may attest only once."
  pure (attestationsByMember ++ [attestation])

/-- Normalizes attestations into participant order and rejects missing, duplicate, or unrelated
signers. -/
def normalizeAttestations (providerMemberId recipientMemberId : String)
    (value : Option JsonValue) : Except String (List TransferAttestation) := do
  let items ← attestationItems value
  let attestationsByMember ←
    items.foldlM (addAttestation providerMemberId recipientMemberId) []
  let ofMember (memberId : String) : Option TransferAttestation :=
    KeyedMap.lookup TransferAttestation.memberId memberId attestationsByMember
  match ofMember providerMemberId, ofMember recipientMemberId with
  | some provider, some recipient => pure [provider, recipient]
  | _, _ => .error "A transfer requires both provider and recipient attestations."

/-- Creates a structurally valid immutable transfer with exactly two participant attestations. -/
def createTransfer (input : JsonValue) : Except String Transfer := do
  let terms ← createTransferTerms input
  let attestations ← normalizeAttestations terms.providerMemberId terms.recipientMemberId
    (input.field "attestations")
  pure { terms with attestations := attestations }

/-- The rules for one attestation. -/
structure TransferAttestation.Valid (attestation : TransferAttestation) : Prop where
  memberId : Text.blank attestation.memberId = false
  keyId : Text.blank attestation.keyId = false
  payloadDigest : Text.blank attestation.payloadDigest = false
  signature : Text.blank attestation.signature = false
  rest : ∀ property ∈ attestation.rest, property.1 ∉ attestationNames

/-- The rules for one transfer: valid terms, attested by the provider and then by the recipient. -/
structure Transfer.Valid (transfer : Transfer) : Prop
    extends TransferTerms.Valid transfer.toTransferTerms where
  attested : ∃ provider recipient, transfer.attestations = [provider, recipient] ∧
    provider.Valid ∧ recipient.Valid ∧ provider.memberId = transfer.providerMemberId ∧
    recipient.memberId = transfer.recipientMemberId

theorem readAttestation_eq_ok {item : JsonValue} {attestation : TransferAttestation} :
    readAttestation item = .ok attestation ↔
      attestation.Valid ∧ item.field "memberId" = some (.str attestation.memberId) ∧
      item.field "keyId" = some (.str attestation.keyId) ∧
      item.field "payloadDigest" = some (.str attestation.payloadDigest) ∧
      item.field "signature" = some (.str attestation.signature) ∧
      item.properties.filter (fun property ↦ property.1 ∉ attestationNames) = attestation.rest := by
  simp only [readAttestation, bind_eq_ok, assertPresent_eq_ok, require_eq_ok, pure_eq_ok]
  constructor
  · rintro ⟨_, -, member, ⟨hmember, hmemberBlank⟩, key, ⟨hkey, hkeyBlank⟩, digest,
      ⟨hdigest, hdigestBlank⟩, signature, ⟨hsignature, hsignatureBlank⟩, rfl⟩
    refine ⟨⟨hmemberBlank, hkeyBlank, hdigestBlank, hsignatureBlank, ?_⟩, hmember, hkey, hdigest,
      hsignature, rfl⟩
    intro property hproperty
    simpa using (List.mem_filter.mp hproperty).2
  · rintro ⟨hvalid, hmember, hkey, hdigest, hsignature, hrest⟩
    refine ⟨(), ?_, _, ⟨hmember, hvalid.memberId⟩, _, ⟨hkey, hvalid.keyId⟩, _,
      ⟨hdigest, hvalid.payloadDigest⟩, _, ⟨hsignature, hvalid.signature⟩, by rw [hrest]⟩
    rintro rfl
    cases hmember

/-- An attestation is read back from its object. -/
@[simp] theorem readAttestation_toJson {attestation : TransferAttestation}
    (h : attestation.Valid) : readAttestation attestation.toJson = .ok attestation := by
  refine readAttestation_eq_ok.mpr ⟨h, ?_⟩
  have hrest : attestation.rest.filter (fun property ↦ decide (property.1 ∉ attestationNames)) =
      attestation.rest :=
    List.filter_eq_self.mpr fun property hproperty ↦ by simpa using h.rest property hproperty
  simp only [TransferAttestation.toJson, JsonValue.field_obj, JsonValue.get_cons, JsonValue.properties,
    List.filter_cons]
  simpa [attestationNames] using hrest

theorem addAttestation_eq_ok {provider recipient : String} {seen result : List TransferAttestation}
    {item : JsonValue} :
    addAttestation provider recipient seen item = .ok result ↔
      ∃ attestation, readAttestation item = .ok attestation ∧
        (attestation.memberId = provider ∨ attestation.memberId = recipient) ∧
        (∀ other ∈ seen, other.memberId ≠ attestation.memberId) ∧
        seen ++ [attestation] = result := by
  simp only [addAttestation, bind_eq_ok, require_eq_ok, pure_eq_ok]
  constructor
  · rintro ⟨attestation, hread, _, hmember, _, hfresh, hresult⟩
    exact ⟨attestation, hread, hmember, hfresh, hresult⟩
  · rintro ⟨attestation, hread, hmember, hfresh, hresult⟩
    exact ⟨attestation, hread, (), hmember, (), hfresh, hresult⟩

/-- The attestations of two distinct participants, in either order, are returned in participant
order. -/
theorem normalizeAttestations_pair {provider recipient : String} (hne : provider ≠ recipient)
    {first second : JsonValue} {attestations : List TransferAttestation} :
    normalizeAttestations provider recipient (some (.arr [first, second])) = .ok attestations ↔
      ∃ p r, attestations = [p, r] ∧ p.memberId = provider ∧ r.memberId = recipient ∧
        (readAttestation first = .ok p ∧ readAttestation second = .ok r ∨
          readAttestation first = .ok r ∧ readAttestation second = .ok p) := by
  have hfold : ∀ seen, [first, second].foldlM (addAttestation provider recipient) [] = .ok seen ↔
      ∃ a, (readAttestation first = .ok a ∧ (a.memberId = provider ∨ a.memberId = recipient)) ∧
        ∃ b, (readAttestation second = .ok b ∧ (b.memberId = provider ∨ b.memberId = recipient)) ∧
          a.memberId ≠ b.memberId ∧ [a, b] = seen := by
    intro seen
    simp only [List.foldlM_cons, List.foldlM_nil, bind_eq_ok, addAttestation_eq_ok, pure_eq_ok]
    constructor
    · rintro ⟨_, ⟨a, ha, hamember, -, rfl⟩, _, ⟨b, hb, hbmember, hfresh, rfl⟩, rfl⟩
      exact ⟨a, ⟨ha, hamember⟩, b, ⟨hb, hbmember⟩, hfresh a (by simp), rfl⟩
    · rintro ⟨a, ⟨ha, hamember⟩, b, ⟨hb, hbmember⟩, hab, rfl⟩
      exact ⟨_, ⟨a, ha, hamember, by simp, rfl⟩, _, ⟨b, hb, hbmember, by simpa using hab, rfl⟩, rfl⟩
  have hitems : attestationItems (some (.arr [first, second])) = .ok [first, second] := rfl
  rw [normalizeAttestations, hitems, ok_bind]
  simp only [bind_eq_ok, hfold]
  constructor
  · rintro ⟨seen, ⟨a, ⟨ha, hamember⟩, b, ⟨hb, hbmember⟩, hab, rfl⟩, hfound⟩
    rcases hamember with hamember | hamember <;> rcases hbmember with hbmember | hbmember
    · exact absurd (hamember.trans hbmember.symm) hab
    · have hpair : [a, b] = attestations := by
        simpa [KeyedMap.lookup_cons, hamember, hbmember, hne] using hfound
      exact ⟨a, b, hpair.symm, hamember, hbmember, .inl ⟨ha, hb⟩⟩
    · have hpair : [b, a] = attestations := by
        simpa [KeyedMap.lookup_cons, hamember, hbmember, hne.symm] using hfound
      exact ⟨b, a, hpair.symm, hbmember, hamember, .inr ⟨ha, hb⟩⟩
    · exact absurd (hamember.trans hbmember.symm) hab
  · rintro ⟨p, r, rfl, rfl, rfl, ⟨hp, hr⟩ | ⟨hr, hp⟩⟩
    · refine ⟨[p, r], ⟨p, ⟨hp, .inl rfl⟩, r, ⟨hr, .inr rfl⟩, hne, rfl⟩, ?_⟩
      simp [KeyedMap.lookup_cons, hne]
    · refine ⟨[r, p], ⟨r, ⟨hr, .inr rfl⟩, p, ⟨hp, .inl rfl⟩, hne.symm, rfl⟩, ?_⟩
      simp [KeyedMap.lookup_cons, hne.symm]

/-- Only an array of two readable attestations is normalized: a text iterates over texts, which
carry no properties. -/
theorem normalizeAttestations_eq_ok {provider recipient : String} (hne : provider ≠ recipient)
    {value : Option JsonValue} {attestations : List TransferAttestation} :
    normalizeAttestations provider recipient value = .ok attestations ↔
      ∃ first second p r, value = some (.arr [first, second]) ∧ attestations = [p, r] ∧
        p.memberId = provider ∧ r.memberId = recipient ∧
        (readAttestation first = .ok p ∧ readAttestation second = .ok r ∨
          readAttestation first = .ok r ∧ readAttestation second = .ok p) := by
  constructor
  · intro h
    obtain ⟨items, hitems, hread⟩ := bind_eq_ok.mp h
    obtain ⟨byMember, hfold, -⟩ := bind_eq_ok.mp hread
    clear hread
    unfold attestationItems at hitems
    split at hitems
    · obtain ⟨_, hlength, hitems⟩ := bind_eq_ok.mp hitems
      obtain ⟨first, second, rfl⟩ := List.length_eq_two.mp (require_eq_ok.mp hlength)
      obtain ⟨p, r, hpair⟩ := (normalizeAttestations_pair hne).mp h
      exact ⟨first, second, p, r, rfl, hpair⟩
    · rename_i text
      obtain ⟨_, hlength, hitems⟩ := bind_eq_ok.mp hitems
      rw [pure_eq_ok] at hitems
      subst hitems
      cases hchars : text.toList with
      | nil => simp [Text.utf16, hchars] at hlength
      | cons c rest =>
          rw [hchars, List.map_cons, List.foldlM_cons] at hfold
          obtain ⟨_, hadd, -⟩ := bind_eq_ok.mp hfold
          obtain ⟨_, hfirst, -⟩ := addAttestation_eq_ok.mp hadd
          obtain ⟨-, hmember, -⟩ := readAttestation_eq_ok.mp hfirst
          cases hmember
    · cases hitems
    · cases hitems
    · obtain ⟨_, -, hitems⟩ := bind_eq_ok.mp hitems
      cases hitems
  · rintro ⟨first, second, p, r, rfl, hpair⟩
    exact (normalizeAttestations_pair hne).mpr ⟨p, r, hpair⟩

theorem createTransfer_eq_ok {input : JsonValue} {transfer : Transfer} :
    createTransfer input = .ok transfer ↔
      createTransferTerms input = .ok transfer.toTransferTerms ∧
      normalizeAttestations transfer.providerMemberId transfer.recipientMemberId
        (input.field "attestations") = .ok transfer.attestations := by
  simp only [createTransfer, bind_eq_ok, pure_eq_ok]
  constructor
  · rintro ⟨terms, hterms, attestations, hattestations, rfl⟩
    exact ⟨hterms, hattestations⟩
  · rintro ⟨hterms, hattestations⟩
    exact ⟨_, hterms, _, hattestations, rfl⟩

/-- A created transfer is valid. -/
theorem valid_of_createTransfer {input : JsonValue} {transfer : Transfer}
    (h : createTransfer input = .ok transfer) : transfer.Valid := by
  obtain ⟨hterms, hattestations⟩ := createTransfer_eq_ok.mp h
  have hvalid := (createTransferTerms_eq_ok.mp hterms).2
  obtain ⟨first, second, p, r, -, hpair, hp, hr, hread⟩ :=
    (normalizeAttestations_eq_ok hvalid.distinct).mp hattestations
  refine ⟨hvalid, p, r, hpair, ?_, ?_, hp, hr⟩
  · rcases hread with ⟨h, -⟩ | ⟨-, h⟩ <;> exact (readAttestation_eq_ok.mp h).1
  · rcases hread with ⟨-, h⟩ | ⟨h, -⟩ <;> exact (readAttestation_eq_ok.mp h).1

/-- The object of terms describes them, whatever properties follow under other names. -/
theorem describes_properties (terms : TransferTerms) (attestations : JsonValue) :
    Describes (.obj (terms.properties ++ [("attestations", attestations)])) terms ∧
      Describes (.obj terms.properties) terms ∧
      JsonValue.get "attestations" (terms.properties ++ [("attestations", attestations)]) =
        some attestations := by
  obtain ⟨id, community, _ | source, provider, recipient, minutes, _ | reverses⟩ := terms <;>
    refine ⟨⟨?_, ?_, ?_, ?_, ?_, ?_, ?_⟩, ⟨?_, ?_, ?_, ?_, ?_, ?_, ?_⟩, ?_⟩ <;>
    simp [TransferTerms.properties]

@[simp] theorem createTransferTerms_toJson {terms : TransferTerms} (h : terms.Valid) :
    createTransferTerms terms.toJson = .ok terms :=
  createTransferTerms_eq_ok.mpr ⟨(describes_properties terms .null).2.1, h⟩

/-- Creating a valid transfer again returns it unchanged. -/
@[simp] theorem createTransfer_toJson {transfer : Transfer} (h : transfer.Valid) :
    createTransfer transfer.toJson = .ok transfer := by
  obtain ⟨hdescribes, -, hattestations⟩ := describes_properties transfer.toTransferTerms
    (.arr (transfer.attestations.map TransferAttestation.toJson))
  refine createTransfer_eq_ok.mpr
    ⟨createTransferTerms_eq_ok.mpr ⟨hdescribes, h.toValid⟩, ?_⟩
  obtain ⟨p, r, hpair, hpvalid, hrvalid, hp, hr⟩ := h.attested
  rw [Transfer.toJson, JsonValue.field_obj, hattestations,
    normalizeAttestations_eq_ok h.distinct]
  exact ⟨_, _, p, r, by rw [hpair]; rfl, hpair, hp, hr,
    .inl ⟨readAttestation_toJson hpvalid, readAttestation_toJson hrvalid⟩⟩

end PeerHours.TimebankLedger
