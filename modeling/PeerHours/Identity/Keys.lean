import PeerHours.Crypto
import PeerHours.Library.Checked
import PeerHours.Library.Text
import PeerHours.Library.Timestamp

/-!
# Public keys and signatures

The checks that every identity statement shares: present text, canonical timestamps, Ed25519 public
keys, canonical signature text, and the member id that a root key certifies for itself.
-/

namespace PeerHours.TimebankIdentity

open Checked Json

/-- Text with visible content. -/
abbrev PresentText := {text : String // Text.blank text = false}

/-- Text in the form that `toISOString` writes. -/
abbrev CanonicalTimestamp := {text : String // Timestamp.isCanonical text = true}

theorem PresentText.present (text : PresentText) : Text.blank text.1 = false :=
  text.2

theorem CanonicalTimestamp.canonical (timestamp : CanonicalTimestamp) :
    Timestamp.isCanonical timestamp.1 = true :=
  timestamp.2

/-- Ensures authorization text values are non-blank. -/
def assertPresent (value : Option JsonValue) (label : String) : Except String PresentText :=
  match value with
  | some (.str text) =>
      if h : Text.blank text = false then .ok ⟨text, h⟩ else .error (label ++ " is required.")
  | _ => .error (label ++ " is required.")

/-- Ensures that a time has one unambiguous UTC ISO-8601 representation. -/
def assertTimestamp (label : String) (value : Option JsonValue) :
    Except String CanonicalTimestamp := do
  let text ← assertPresent value label
  if h : Timestamp.isCanonical text = true then .ok ⟨text, h⟩
  else .error (label ++ " must be a canonical UTC ISO-8601 timestamp.")

/-- Ensures a lifecycle event timestamp has one unambiguous UTC ISO-8601 representation. -/
def assertCanonicalTimestamp : Option JsonValue → Except String CanonicalTimestamp :=
  assertTimestamp "Authorization event timestamp"

/-- The text of a value under the regular expression of a Hypercore key: a string, or an array of one
such value, whose text is its item's. -/
def hypercoreKeyText : JsonValue → Option String
  | .str text => some text
  | .arr [item] => hypercoreKeyText item
  | _ => none

/-- The lower-case hexadecimal digits. -/
def isLowerHex (c : Char) : Bool :=
  c.isDigit || ('a' ≤ c && c ≤ 'f')

/-- A canonical hexadecimal Hypercore public key. -/
def isHypercoreKey (text : String) : Bool :=
  text.toList.length == 64 && text.toList.all isLowerHex

/-- Validates a canonical hexadecimal Hypercore public key used to address a member feed. -/
def assertCanonicalHypercoreKey (value : Option JsonValue) :
    Except String {key : JsonValue × String //
      hypercoreKeyText key.1 = some key.2 ∧ isHypercoreKey key.2 = true} :=
  let message := "A member feed public key must be a lowercase 64-character hexadecimal Hypercore key."
  match value with
  | none => .error message
  | some value =>
      match htext : hypercoreKeyText value with
      | none => .error message
      | some text =>
          if h : isHypercoreKey text = true then .ok ⟨(value, text), htext, h⟩ else .error message

/-- Decodes only canonical base64url-encoded Ed25519 signature text. -/
def decodeBase64UrlSignature (signature : String) : Option Buffer :=
  if signature ≠ "" ∧ Base64Url.inAlphabet signature then
    let decoded := Base64Url.decode signature
    if decoded.length = 64 ∧ Base64Url.encode decoded = signature then some decoded else none
  else none

theorem decodeBase64UrlSignature_eq_some {signature : String} {bytes : Buffer} :
    decodeBase64UrlSignature signature = some bytes ↔
      bytes.length = 64 ∧ Base64Url.encode bytes = signature := by
  unfold decodeBase64UrlSignature
  constructor
  · intro h
    split at h
    · dsimp only at h
      split at h
      · rename_i hdecoded
        cases h
        exact hdecoded
      · cases h
    · cases h
  · rintro ⟨hlength, rfl⟩
    have hne : Base64Url.encode bytes ≠ "" := by
      intro hempty
      have := Base64Url.length_encode bytes
      rw [hempty, hlength] at this
      exact absurd this (by decide)
    simp [hne, hlength]

variable (crypto : Crypto)

/-- Parses an Ed25519 PEM public key and rejects other key algorithms. -/
def parseEd25519PublicKey (publicKeyPem : String) : Except String crypto.KeyObject := do
  let publicKey ← present (crypto.createPublicKey publicKeyPem)
    "A member signing key must contain a valid Ed25519 public key."
  require (crypto.asymmetricKeyType publicKey = "ed25519") "A member signing key must use Ed25519."
  pure publicKey

/-- The text of an Ed25519 public key together with the key it parses to. -/
structure Ed25519PublicKey where
  publicKeyPem : String
  key : crypto.KeyObject
  present : Text.blank publicKeyPem = false
  parses : parseEd25519PublicKey crypto publicKeyPem = .ok key

variable {crypto}

/-- The text of a public key determines it. -/
@[ext] theorem Ed25519PublicKey.ext {left right : Ed25519PublicKey crypto}
    (h : left.publicKeyPem = right.publicKeyPem) : left = right := by
  obtain ⟨pem, key, _, hparses⟩ := left
  obtain ⟨_, key', _, hparses'⟩ := right
  cases h
  obtain rfl : key = key' := Except.ok.inj (hparses.symm.trans hparses')
  rfl

/-- The stable public-key fingerprint used to reject authorization-key reassignment. -/
def signingKeyFingerprint (publicKey : Ed25519PublicKey crypto) : String :=
  Base64Url.encode (crypto.exportSpkiDer publicKey.key)

variable (crypto) in
/-- Reads a present Ed25519 public key. -/
def readEd25519PublicKey (value : Option JsonValue) (label : String) :
    Except String (Ed25519PublicKey crypto) := do
  let pem ← assertPresent value label
  match hparses : parseEd25519PublicKey crypto pem with
  | .ok key => .ok ⟨pem, key, pem.2, hparses⟩
  | .error message => .error message

/-- The stable member identifier derived from the exact root public key that owns it. -/
def selfOwnedMemberId (rootPublicKey : Ed25519PublicKey crypto) : String :=
  "phm_" ++ Base64Url.encode (crypto.sha256 (crypto.exportSpkiDer rootPublicKey.key))

/-- A public key signed the payload, with the signature in canonical text. -/
def SignedBy (publicKey : Ed25519PublicKey crypto) (payload : Buffer) (signature : String) : Prop :=
  ∃ bytes, decodeBase64UrlSignature signature = some bytes ∧
    crypto.verify publicKey.key payload bytes = true

/-- A signature is checked by decoding it and running the verifier. -/
instance (publicKey : Ed25519PublicKey crypto) (payload : Buffer) (signature : String) :
    Decidable (SignedBy publicKey payload signature) :=
  match h : decodeBase64UrlSignature signature with
  | some bytes =>
      decidable_of_iff (crypto.verify publicKey.key payload bytes = true) (by simp [SignedBy, h])
  | none => isFalse (by simp [SignedBy, h])

@[simp] theorem assertPresent_eq_ok {value : Option JsonValue} {label : String}
    {text : PresentText} : assertPresent value label = .ok text ↔ value = some (.str text) := by
  obtain ⟨text, htext⟩ := text
  unfold assertPresent
  split
  · rename_i found
    by_cases hfound : Text.blank found = false
    · simp [hfound]
    · simp only [hfound, dite_false, reduceCtorEq, Option.some.injEq, JsonValue.str.injEq, false_iff]
      rintro rfl
      exact hfound htext
  · rename_i hnot
    simp only [reduceCtorEq, false_iff]
    exact fun h ↦ hnot text h

/-- A canonical timestamp begins with a sign or a digit. -/
theorem blank_of_isCanonical {text : String} (h : Timestamp.isCanonical text = true) :
    Text.blank text = false := by
  have hdigit : ∀ {c : Char} {rest : List Char} {value : Nat},
      Timestamp.number? (c :: rest) = some value → Text.isSpace c = false := by
    intro c rest value hnumber
    have hc : c.isDigit = true := by
      by_contra hc
      simp [Timestamp.number?, hc] at hnumber
    simp only [Char.isDigit, Bool.and_eq_true, decide_eq_true_eq] at hc
    have hlow : 48 ≤ c.toNat := hc.1
    have hhigh : c.toNat ≤ 57 := hc.2
    simp only [Text.isSpace, decide_eq_false_iff_not]
    omega
  rw [Timestamp.isCanonical, Option.isSome_iff_exists] at h
  obtain ⟨millis, h⟩ := h
  unfold Timestamp.millis? at h
  split at h
  · rename_i hchars
    exact Text.blank_eq_false_of_mem (hchars ▸ List.mem_cons_self) rfl
  · rename_i hchars
    exact Text.blank_eq_false_of_mem (hchars ▸ List.mem_cons_self) rfl
  · rename_i hchars
    obtain ⟨year, hyear, -⟩ := Option.bind_eq_some_iff.mp h
    exact Text.blank_eq_false_of_mem (hchars ▸ List.mem_cons_self) (hdigit hyear)
  · cases h

theorem assertTimestamp_eq_ok {label : String} {value : Option JsonValue}
    {text : CanonicalTimestamp} :
    assertTimestamp label value = .ok text ↔ value = some (.str text) := by
  obtain ⟨text, htext⟩ := text
  simp only [assertTimestamp, bind_eq_ok, assertPresent_eq_ok]
  constructor
  · rintro ⟨⟨found, hfound⟩, hvalue, h⟩
    split at h
    · obtain rfl : found = text := congrArg Subtype.val (Except.ok.inj h)
      exact hvalue
    · cases h
  · intro hvalue
    exact ⟨⟨text, blank_of_isCanonical htext⟩, hvalue, by simp [htext]⟩

@[simp] theorem assertCanonicalTimestamp_eq_ok {value : Option JsonValue}
    {text : CanonicalTimestamp} :
    assertCanonicalTimestamp value = .ok text ↔ value = some (.str text) :=
  assertTimestamp_eq_ok

@[simp] theorem readEd25519PublicKey_eq_ok {value : Option JsonValue} {label : String}
    {publicKey : Ed25519PublicKey crypto} :
    readEd25519PublicKey crypto value label = .ok publicKey ↔
      value = some (.str publicKey.publicKeyPem) := by
  simp only [readEd25519PublicKey, bind_eq_ok, assertPresent_eq_ok]
  constructor
  · rintro ⟨pem, hvalue, h⟩
    split at h
    · cases h
      exact hvalue
    · cases h
  · intro hvalue
    refine ⟨⟨publicKey.publicKeyPem, publicKey.present⟩, hvalue, ?_⟩
    split
    · rename_i key hparses
      exact congrArg Except.ok (Ed25519PublicKey.ext rfl)
    · rename_i hparses
      exact absurd (publicKey.parses.symm.trans hparses) nofun

end PeerHours.TimebankIdentity
