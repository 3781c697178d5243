import PeerHours.Library.Hex
import PeerHours.Library.JsonParse

/-!
# Percent-encoded text

The octets of a text in UTF-8, those that are not kept as characters written as a percent sign and two digits.
Decoding reads octets and characters into one octet sequence, which must be valid UTF-8: a character that stands
for itself starts a sequence of its own, so that it never completes octets that were written before it.
-/

namespace PercentEncoding

/-- The octets of a text in UTF-8. -/
def bytes (text : String) : List UInt8 :=
  text.toByteArray.data.toList

/-- The octets of one character. -/
def charBytes (c : Char) : List UInt8 :=
  bytes (String.singleton c)

/-- The characters of a text, those that are not kept percent-encoded. -/
def encodeChars (keep : Char → Bool) (chars : List Char) : List Char :=
  chars.flatMap fun c ↦ if keep c then [c] else Hex.percentEncode (charBytes c)

/-- Percent-encodes the characters that are not kept. -/
def encode (keep : Char → Bool) (text : String) : String :=
  String.ofList (encodeChars keep text.toList)

/-- The octets that a percent-encoded text spells, if each percent sign has its two digits. -/
def octets : List Char → Option (List UInt8)
  | [] => some []
  | '%' :: high :: low :: rest => do
      let high ← Json.hexValue? high
      let low ← Json.hexValue? low
      let rest ← octets rest
      some (UInt8.ofNat (16 * high + low) :: rest)
  | '%' :: _ => none
  | c :: rest => do
      let rest ← octets rest
      some (charBytes c ++ rest)

/-- The text whose octets a percent-encoded text spells. -/
def decode (text : String) : Option String := do
  let data ← octets text.toList
  String.fromUTF8? ⟨data.toArray⟩

/-! ## Octets -/

theorem bytes_append (left right : String) : bytes (left ++ right) = bytes left ++ bytes right := by
  simp [bytes]

theorem bytes_ofList_cons (c : Char) (chars : List Char) :
    bytes (String.ofList (c :: chars)) = charBytes c ++ bytes (String.ofList chars) := by
  rw [charBytes, ← bytes_append, ← List.singleton_append, String.ofList_append]
  rfl

/-- The octets of a text are valid, and spell it. -/
theorem fromUTF8?_bytes (text : String) : String.fromUTF8? ⟨(bytes text).toArray⟩ = some text := by
  have hdata : (⟨(bytes text).toArray⟩ : ByteArray) = text.toByteArray := ByteArray.ext Array.toArray_toList
  rw [hdata, String.fromUTF8?, dif_pos text.isValidUTF8]
  rfl

theorem hexValue?_capitalDigit {value : Nat} (h : value < 16) :
    Json.hexValue? (Hex.capitalDigit value) = some value := by
  have hall : ∀ value < 16, Json.hexValue? (Hex.capitalDigit value) = some value := by decide
  exact hall value h

/-- Octets are read as they were written. -/
theorem octets_percentEncode (data : List UInt8) (rest : List Char) :
    octets (Hex.percentEncode data ++ rest) = (octets rest).map (data ++ ·) := by
  induction data with
  | nil =>
      show octets rest = _
      cases octets rest <;> rfl
  | cons byte data ih =>
      have hhigh : byte.toNat / 16 < 16 := by
        have := byte.toNat_lt
        omega
      have hlow : byte.toNat % 16 < 16 := Nat.mod_lt _ (by decide)
      have hbyte : UInt8.ofNat (16 * (byte.toNat / 16) + byte.toNat % 16) = byte := by
        rw [Nat.div_add_mod]
        exact UInt8.ofNat_toNat
      show octets ('%' :: Hex.capitalDigit _ :: Hex.capitalDigit _ :: (Hex.percentEncode data ++ rest)) = _
      rw [octets, hexValue?_capitalDigit hhigh, hexValue?_capitalDigit hlow, ih]
      cases octets rest with
      | none => rfl
      | some tail =>
          show some (UInt8.ofNat (16 * (byte.toNat / 16) + byte.toNat % 16) :: (data ++ tail)) = _
          rw [hbyte]
          rfl

/-- A character other than the percent sign stands for its octets. -/
theorem octets_cons {c : Char} (h : c ≠ '%') (rest : List Char) :
    octets (c :: rest) = (octets rest).map (charBytes c ++ ·) := by
  rw [octets]
  · cases octets rest <;> rfl
  · simp_all
  · simp_all

/-! ## Round trip -/

variable {keep : Char → Bool}

theorem octets_encodeChars (hkeep : keep '%' = false) (chars : List Char) :
    octets (encodeChars keep chars) = some (bytes (String.ofList chars)) := by
  induction chars with
  | nil => rfl
  | cons c rest ih =>
      rw [encodeChars, List.flatMap_cons, ← encodeChars, bytes_ofList_cons]
      split
      · rename_i hkept
        have hpercent : c ≠ '%' := fun h ↦ absurd (h ▸ hkept) (by simp [hkeep])
        rw [List.singleton_append, octets_cons hpercent, ih]
        rfl
      · rw [octets_percentEncode, ih]
        rfl

/-- Decoding takes an encoded text back. -/
theorem decode_encode (hkeep : keep '%' = false) (text : String) :
    decode (encode keep text) = some text := by
  rw [decode, encode, String.toList_ofList, octets_encodeChars hkeep, String.ofList_toList]
  exact fromUTF8?_bytes text

theorem encode_inj (hkeep : keep '%' = false) {left right : String} :
    encode keep left = encode keep right ↔ left = right := by
  refine ⟨fun h ↦ ?_, fun h ↦ h ▸ rfl⟩
  have hdecode := congrArg decode h
  rw [decode_encode hkeep, decode_encode hkeep] at hdecode
  exact Option.some.inj hdecode

/-- An encoded text has kept characters, percent signs and capital digits only. -/
theorem mem_encodeChars {chars : List Char} {c : Char} (h : c ∈ encodeChars keep chars) :
    keep c = true ∨ c = '%' ∨ ∃ value < 16, c = Hex.capitalDigit value := by
  obtain ⟨d, -, hmem⟩ := List.mem_flatMap.mp h
  split at hmem
  · rename_i hkept
    rw [List.mem_singleton] at hmem
    exact .inl (hmem ▸ hkept)
  · obtain ⟨byte, -, hoctet⟩ := List.mem_flatMap.mp hmem
    have hbyte := byte.toNat_lt
    simp only [List.mem_cons, List.not_mem_nil, or_false] at hoctet
    rcases hoctet with rfl | rfl | rfl
    · exact .inr (.inl rfl)
    · exact .inr (.inr ⟨_, by omega, rfl⟩)
    · exact .inr (.inr ⟨_, by omega, rfl⟩)

/-- A character that is neither kept nor a sign or digit of an octet does not occur. -/
theorem not_mem_encode {c : Char} (hkeep : keep c = false) (hsign : c ≠ '%')
    (hdigit : ∀ value < 16, c ≠ Hex.capitalDigit value) (text : String) : c ∉ (encode keep text).toList := by
  rw [encode, String.toList_ofList]
  intro h
  rcases mem_encodeChars h with hkept | rfl | ⟨value, hvalue, hsame⟩
  · exact absurd hkept (by simp [hkeep])
  · exact hsign rfl
  · exact hdigit value hvalue hsame

end PercentEncoding
