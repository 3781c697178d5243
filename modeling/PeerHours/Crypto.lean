import PeerHours.Library.Base64Url
import PeerHours.Library.JsonText

/-!
# Cryptographic host

The part of `node:crypto` that the packages call, as a parameter of the model, and the byte
strings that travel through it.
-/

namespace PeerHours

/-- A byte string. -/
abbrev Buffer := List UInt8

/-- `Buffer.from(text, "utf8")`. -/
def utf8 (text : String) : Buffer :=
  text.toByteArray.data.toList

theorem utf8_inj {left right : String} : utf8 left = utf8 right ↔ left = right := by
  refine ⟨fun h ↦ ?_, fun h ↦ h ▸ rfl⟩
  exact String.toByteArray_inj.mp (ByteArray.ext (Array.toList_inj.mp h))

/-- The bytes of the JSON text of a value. -/
def jsonBytes (value : Json.JsonValue) : Buffer :=
  utf8 (Json.stringify value)

theorem jsonBytes_inj {left right : Json.JsonValue} :
    jsonBytes left = jsonBytes right ↔ left = right := by
  rw [jsonBytes, jsonBytes, utf8_inj, Json.stringify_inj]

/-- The functions of `node:crypto` in use: `createPublicKey` throws on text that is no key,
`export` writes the DER form of a key, a SHA-256 digest has 32 bytes, and `verify` checks a detached
signature. -/
structure Crypto where
  KeyObject : Type
  createPublicKey : String → Option KeyObject
  asymmetricKeyType : KeyObject → String
  exportSpkiDer : KeyObject → Buffer
  sha256 : Buffer → Buffer
  verify : KeyObject → Buffer → Buffer → Bool
  length_sha256 : ∀ data, (sha256 data).length = 32

/-- Text that encodes a digest is not empty. -/
theorem Crypto.encode_sha256_ne_nil (crypto : Crypto) (data : Buffer) :
    (Base64Url.encode (crypto.sha256 data)).toList ≠ [] := by
  intro hnil
  have hlength := Base64Url.length_encode (crypto.sha256 data)
  rw [hnil, crypto.length_sha256] at hlength
  exact absurd hlength (by decide)

end PeerHours
