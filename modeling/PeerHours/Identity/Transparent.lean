import PeerHours.Identity.Keys

/-!
# A transparent host

A host for concrete runs, where every key and every signature can be read off its text. Nothing in it
is secret: a key is the bytes of its text, and the one signature that a key accepts is the key itself.
-/

namespace PeerHours

/-- The first 64 bytes of a text, filled up with zeros. -/
def keyBytes (text : String) : Buffer :=
  (utf8 text ++ List.replicate 64 0).take 64

/-- Adds a byte to the oldest of the sums and makes it the newest. -/
def addByte (sums : Buffer) (byte : UInt8) : Buffer :=
  sums.tail ++ [sums.headD 0 + byte]

/-- Sums of every thirty-second byte. -/
def columnSums (data : Buffer) : Buffer :=
  data.foldl addByte (List.replicate 32 0)

theorem length_foldl_addByte (data : Buffer) {sums : Buffer} (h : sums.length = 32) :
    (data.foldl addByte sums).length = 32 := by
  induction data generalizing sums with
  | nil => exact h
  | cons byte rest ih =>
      refine ih ?_
      simp [addByte, h]

/-- The transparent host. -/
def transparentCrypto : Crypto where
  KeyObject := Buffer
  createPublicKey text := if (utf8 text).length ≤ 64 then some (keyBytes text) else none
  asymmetricKeyType _ := "ed25519"
  exportSpkiDer key := key
  sha256 data := columnSums data
  verify key _ signature := decide (signature = key)
  length_sha256 data := length_foldl_addByte data (by simp)

namespace TimebankIdentity

open Checked

/-- The transparent key of a short text. -/
def transparentKey (text : String) (hpresent : Text.blank text = false)
    (hlength : (utf8 text).length ≤ 64) : Ed25519PublicKey transparentCrypto where
  publicKeyPem := text
  key := keyBytes text
  present := hpresent
  parses := by
    have hcreate : transparentCrypto.createPublicKey text = some (keyBytes text) := if_pos hlength
    rw [parseEd25519PublicKey, hcreate]
    rfl

theorem blank_garden : Text.blank "garden" = false := by decide

theorem blank_ada : Text.blank "ada" = false := by decide

theorem length_ada : (utf8 "ada").length ≤ 64 := by decide

theorem blank_ben : Text.blank "ben" = false := by decide

theorem length_ben : (utf8 "ben").length ≤ 64 := by decide

theorem blank_phone : Text.blank "phone" = false := by decide

theorem length_phone : (utf8 "phone").length ≤ 64 := by decide

theorem isCanonical_noon : Timestamp.isCanonical "2025-06-01T12:00:00.000Z" = true := by decide

theorem isCanonical_nextNoon : Timestamp.isCanonical "2025-06-02T12:00:00.000Z" = true := by decide

theorem isHypercoreKey_adaFeed : isHypercoreKey (String.ofList (List.replicate 64 'a')) = true := by
  decide

theorem hypercoreKey_adaFeed : hypercoreKeyText (.str (String.ofList (List.replicate 64 'a'))) =
      some (String.ofList (List.replicate 64 'a')) ∧
    isHypercoreKey (String.ofList (List.replicate 64 'a')) = true :=
  ⟨rfl, isHypercoreKey_adaFeed⟩

/-- A transparent key accepts its own text for every payload. -/
theorem signedBy_transparentKey (text : String) (hpresent : Text.blank text = false)
    (hlength : (utf8 text).length ≤ 64) (payload : Buffer) :
    SignedBy (transparentKey text hpresent hlength) payload (Base64Url.encode (keyBytes text)) := by
  refine ⟨keyBytes text, decodeBase64UrlSignature_eq_some.mpr ⟨?_, rfl⟩, ?_⟩
  · simp [keyBytes]
  · show decide (keyBytes text = keyBytes text) = true
    simp

end TimebankIdentity

end PeerHours
