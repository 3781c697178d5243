import Mathlib.Data.List.Basic
import Mathlib.Tactic.IntervalCases
import PeerHours.Library.Text

/-!
# Base64url

The URL-safe base64 alphabet without padding, as `Buffer` reads and writes it: three bytes make
four characters, and a last group of one or two bytes makes two or three.
-/

namespace Base64Url

/-- The character of a six-bit number. -/
def digit (value : Nat) : Char :=
  if value < 26 then Char.ofNat (value + 65)
  else if value < 52 then Char.ofNat (value + 71)
  else if value < 62 then Char.ofNat (value - 4)
  else if value = 62 then '-'
  else '_'

/-- The six-bit number of a character of the alphabet. -/
def digitValue? (c : Char) : Option Nat :=
  if 65 ≤ c.toNat ∧ c.toNat ≤ 90 then some (c.toNat - 65)
  else if 97 ≤ c.toNat ∧ c.toNat ≤ 122 then some (c.toNat - 71)
  else if 48 ≤ c.toNat ∧ c.toNat ≤ 57 then some (c.toNat + 4)
  else if c = '-' then some 62
  else if c = '_' then some 63
  else none

theorem digitValue?_digit {value : Nat} (h : value < 64) : digitValue? (digit value) = some value := by
  interval_cases value <;> rfl

/-- The characters of a list of bytes. -/
def encodeChars : List UInt8 → List Char
  | [] => []
  | [a] => [digit (a.toNat / 4), digit (a.toNat % 4 * 16)]
  | [a, b] =>
      [digit (a.toNat / 4), digit (a.toNat % 4 * 16 + b.toNat / 16), digit (b.toNat % 16 * 4)]
  | a :: b :: c :: rest =>
      digit (a.toNat / 4) :: digit (a.toNat % 4 * 16 + b.toNat / 16) ::
        digit (b.toNat % 16 * 4 + c.toNat / 64) :: digit (c.toNat % 64) :: encodeChars rest

/-- The text of a list of bytes. -/
def encode (bytes : List UInt8) : String :=
  String.ofList (encodeChars bytes)

/-- The bytes of a list of six-bit numbers; bits that do not fill a byte are dropped. -/
def decodeDigits : List Nat → List UInt8
  | p :: q :: r :: s :: rest =>
      UInt8.ofNat (p * 4 + q / 16) :: UInt8.ofNat (q % 16 * 16 + r / 4) ::
        UInt8.ofNat (r % 4 * 64 + s) :: decodeDigits rest
  | [p, q, r] => [UInt8.ofNat (p * 4 + q / 16), UInt8.ofNat (q % 16 * 16 + r / 4)]
  | [p, q] => [UInt8.ofNat (p * 4 + q / 16)]
  | _ => []

/-- The base64url alphabet has no white space. -/
theorem isSpace_of_digitValue? {c : Char} (h : (digitValue? c).isSome = true) :
    Text.isSpace c = false := by
  rw [Text.isSpace, decide_eq_false_iff_not]
  intro hspace
  unfold digitValue? at h
  split_ifs at h with hupper hlower hdigit hdash hunderscore
  · omega
  · omega
  · omega
  · subst hdash
    revert hspace
    decide
  · subst hunderscore
    revert hspace
    decide
  · exact absurd h (by simp)

/-- The bytes of a text, reading only characters of the alphabet. -/
def decode (text : String) : List UInt8 :=
  decodeDigits (text.toList.filterMap digitValue?)

/-- Every character belongs to the alphabet. -/
def inAlphabet (text : String) : Bool :=
  text.toList.all fun c ↦ (digitValue? c).isSome

/-- The value of a character in either alphabet of base64. -/
def looseDigit? (c : Char) : Option Nat :=
  if c = '+' then some 62 else if c = '/' then some 63 else digitValue? c

/-- The bytes that a buffer reads of any text: padding ends the text, and other characters are skipped. -/
def looseDecode (text : String) : List UInt8 :=
  decodeDigits ((text.toList.takeWhile fun c ↦ c ≠ '=').filterMap looseDigit?)

/-- Text in the alphabet is read as the strict decoder reads it. -/
theorem looseDecode_of_inAlphabet {text : String} (h : inAlphabet text = true) :
    looseDecode text = decode text := by
  have hdigit : ∀ c ∈ text.toList, (digitValue? c).isSome = true := List.all_eq_true.mp h
  have hpadding : (text.toList.takeWhile fun c ↦ c ≠ '=') = text.toList := by
    refine List.takeWhile_eq_self_iff.mpr fun c hc ↦ decide_eq_true ?_
    rintro rfl
    exact absurd (hdigit _ hc) (by decide)
  have hdigits : text.toList.filterMap looseDigit? = text.toList.filterMap digitValue? := by
    refine List.filterMap_congr fun c hc ↦ ?_
    have hvalue := hdigit c hc
    unfold looseDigit?
    split
    · rename_i hplus
      subst hplus
      exact absurd hvalue (by decide)
    · split
      · rename_i hslash
        subst hslash
        exact absurd hvalue (by decide)
      · rfl
  rw [looseDecode, hpadding, hdigits, decode]

/-- Text in the alphabet has no white space to trim. -/
theorem trim_of_inAlphabet {text : String} (h : inAlphabet text = true) : Text.trim text = text :=
  Text.trim_of_forall fun c hc ↦ isSpace_of_digitValue? (List.all_eq_true.mp h c hc)

theorem exists_digit_of_mem {bytes : List UInt8} {c : Char} (h : c ∈ encodeChars bytes) :
    ∃ value < 64, c = digit value := by
  induction bytes using encodeChars.induct with
  | case1 => simp [encodeChars] at h
  | case2 a =>
      have ha := a.toNat_lt
      simp only [encodeChars, List.mem_cons, List.not_mem_nil, or_false] at h
      rcases h with rfl | rfl <;> exact ⟨_, by omega, rfl⟩
  | case3 a b =>
      have ha := a.toNat_lt
      have hb := b.toNat_lt
      simp only [encodeChars, List.mem_cons, List.not_mem_nil, or_false] at h
      rcases h with rfl | rfl | rfl <;> exact ⟨_, by omega, rfl⟩
  | case4 a b c' rest ih =>
      have ha := a.toNat_lt
      have hb := b.toNat_lt
      have hc := c'.toNat_lt
      simp only [encodeChars, List.mem_cons] at h
      rcases h with rfl | rfl | rfl | rfl | h
      · exact ⟨_, by omega, rfl⟩
      · exact ⟨_, by omega, rfl⟩
      · exact ⟨_, by omega, rfl⟩
      · exact ⟨_, by omega, rfl⟩
      · exact ih h

/-- Encoded text uses the alphabet only. -/
theorem digitValue?_isSome_of_mem {bytes : List UInt8} {c : Char} (h : c ∈ (encode bytes).toList) :
    (digitValue? c).isSome = true := by
  obtain ⟨value, hvalue, rfl⟩ := @exists_digit_of_mem bytes _ (by simpa [encode] using h)
  rw [digitValue?_digit hvalue]
  rfl

@[simp] theorem inAlphabet_encode (bytes : List UInt8) : inAlphabet (encode bytes) = true :=
  List.all_eq_true.mpr fun _ h ↦ digitValue?_isSome_of_mem h

theorem decodeDigits_encodeChars (bytes : List UInt8) :
    decodeDigits ((encodeChars bytes).filterMap digitValue?) = bytes := by
  induction bytes using encodeChars.induct with
  | case1 => rfl
  | case2 a =>
      have ha := a.toNat_lt
      simp only [encodeChars, List.filterMap_cons, List.filterMap_nil]
      rw [digitValue?_digit (by omega), digitValue?_digit (by omega)]
      simp only [decodeDigits, List.cons.injEq, and_true]
      rw [show a.toNat / 4 * 4 + a.toNat % 4 * 16 / 16 = a.toNat by omega, UInt8.ofNat_toNat]
  | case3 a b =>
      have ha := a.toNat_lt
      have hb := b.toNat_lt
      simp only [encodeChars, List.filterMap_cons, List.filterMap_nil]
      rw [digitValue?_digit (by omega), digitValue?_digit (by omega), digitValue?_digit (by omega)]
      simp only [decodeDigits]
      rw [show a.toNat / 4 * 4 + (a.toNat % 4 * 16 + b.toNat / 16) / 16 = a.toNat by omega,
        show (a.toNat % 4 * 16 + b.toNat / 16) % 16 * 16 + b.toNat % 16 * 4 / 4 = b.toNat by omega,
        UInt8.ofNat_toNat, UInt8.ofNat_toNat]
  | case4 a b c rest ih =>
      have ha := a.toNat_lt
      have hb := b.toNat_lt
      have hc := c.toNat_lt
      simp only [encodeChars, List.filterMap_cons]
      rw [digitValue?_digit (by omega), digitValue?_digit (by omega), digitValue?_digit (by omega),
        digitValue?_digit (by omega)]
      simp only [decodeDigits, ih]
      rw [show a.toNat / 4 * 4 + (a.toNat % 4 * 16 + b.toNat / 16) / 16 = a.toNat by omega,
        show (a.toNat % 4 * 16 + b.toNat / 16) % 16 * 16 +
          (b.toNat % 16 * 4 + c.toNat / 64) / 4 = b.toNat by omega,
        show (b.toNat % 16 * 4 + c.toNat / 64) % 4 * 64 + c.toNat % 64 = c.toNat by omega,
        UInt8.ofNat_toNat, UInt8.ofNat_toNat, UInt8.ofNat_toNat]

/-- Decoding undoes encoding. -/
@[simp] theorem decode_encode (bytes : List UInt8) : decode (encode bytes) = bytes := by
  rw [decode, encode, String.toList_ofList, decodeDigits_encodeChars]

theorem encode_inj {left right : List UInt8} : encode left = encode right ↔ left = right :=
  ⟨fun h ↦ by rw [← decode_encode left, h, decode_encode], fun h ↦ h ▸ rfl⟩

/-- The length of encoded text: four characters for three bytes, rounded up. -/
theorem length_encode (bytes : List UInt8) :
    (encode bytes).toList.length = (4 * bytes.length + 2) / 3 := by
  rw [encode, String.toList_ofList]
  induction bytes using encodeChars.induct with
  | case1 => rfl
  | case2 a => simp [encodeChars]
  | case3 a b => simp [encodeChars]
  | case4 a b c rest ih =>
      simp only [encodeChars, List.length_cons, ih]
      omega

theorem length_decodeDigits (digits : List Nat) :
    (decodeDigits digits).length = 3 * digits.length / 4 := by
  induction digits using decodeDigits.induct with
  | case1 p q r s rest ih =>
      simp only [decodeDigits, List.length_cons, ih]
      omega
  | case2 => simp [decodeDigits]
  | case3 => simp [decodeDigits]
  | case4 digits hfour hthree htwo =>
      match digits, hfour, hthree, htwo with
      | [], _, _, _ => simp [decodeDigits]
      | [_], _, _, _ => simp [decodeDigits]
      | [p, q], _, _, htwo => exact absurd rfl (htwo p q)
      | [p, q, r], _, hthree, _ => exact absurd rfl (hthree p q r)
      | p :: q :: r :: s :: rest, hfour, _, _ => exact absurd rfl (hfour p q r s rest)

/-- The length of what text of the alphabet decodes to. -/
theorem length_decode {text : String} (h : inAlphabet text = true) :
    (decode text).length = 3 * text.toList.length / 4 := by
  have hlength (characters : List Char) (hall : ∀ c ∈ characters, (digitValue? c).isSome = true) :
      (characters.filterMap digitValue?).length = characters.length := by
    induction characters with
    | nil => rfl
    | cons c rest ih =>
        obtain ⟨value, hvalue⟩ := Option.isSome_iff_exists.mp (hall c List.mem_cons_self)
        rw [List.filterMap_cons_some hvalue, List.length_cons, List.length_cons,
          ih fun c hc ↦ hall c (List.mem_cons_of_mem _ hc)]
  rw [decode, length_decodeDigits, hlength _ (List.all_eq_true.mp h)]

end Base64Url
