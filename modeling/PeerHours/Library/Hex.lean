import Mathlib.Data.List.Induction
import PeerHours.Library.Text

/-!
# Hexadecimal text

Bytes are written as two lower-case digits each. Text that names a key or a digest of 32 bytes has 64 digits
of either case.
-/

namespace Hex

/-- The lower-case digit of a value below 16. -/
def digit (value : Nat) : Char :=
  if value < 10 then Char.ofNat (value + 48) else Char.ofNat (value + 87)

/-- The two digits of each byte. -/
def encodeChars (bytes : List UInt8) : List Char :=
  bytes.flatMap fun byte ↦ [digit (byte.toNat / 16), digit (byte.toNat % 16)]

/-- The bytes in lower-case digits. -/
def encode (bytes : List UInt8) : String :=
  String.ofList (encodeChars bytes)

/-- The capital digit of a value below 16. -/
def capitalDigit (value : Nat) : Char :=
  if value < 10 then Char.ofNat (value + 48) else Char.ofNat (value + 55)

/-- The bytes with a percent sign before each. -/
def percentEncode (bytes : List UInt8) : List Char :=
  bytes.flatMap fun byte ↦ ['%', capitalDigit (byte.toNat / 16), capitalDigit (byte.toNat % 16)]

/-- A lower-case digit. -/
def isLower (c : Char) : Bool :=
  c.isDigit || ('a' ≤ c && c ≤ 'f')

/-- A digit of either case. -/
def isDigit (c : Char) : Bool :=
  isLower c || ('A' ≤ c && c ≤ 'F')

/-- Sixty-four digits of either case. -/
def isKey (text : String) : Bool :=
  text.toList.length == 64 && text.toList.all isDigit

/-! ## Digits -/

theorem digit_inj {left right : Nat} (hleft : left < 16) (hright : right < 16)
    (h : digit left = digit right) : left = right := by
  have hall : ∀ left < 16, ∀ right < 16, digit left = digit right → left = right := by decide
  exact hall left hleft right hright h

theorem isLower_digit {value : Nat} (h : value < 16) : isLower (digit value) = true := by
  have hall : ∀ value < 16, isLower (digit value) = true := by decide
  exact hall value h

theorem isDigit_of_isLower {c : Char} (h : isLower c = true) : isDigit c = true := by
  unfold isDigit
  rw [h, Bool.true_or]

/-- A lower-case digit is its own lower case. -/
theorem toLower_of_isLower {c : Char} (h : isLower c = true) : c.toLower = c := by
  have hnot : ¬ (c.val ≥ 'A'.val ∧ c.val ≤ 'Z'.val) := by
    simp only [isLower, Char.isDigit, Bool.or_eq_true, Bool.and_eq_true, decide_eq_true_eq] at h
    intro ⟨hlow, hhigh⟩
    cases h with
    | inl hdigit => exact absurd (UInt32.le_trans hlow hdigit.2) (by decide)
    | inr hletter => exact absurd (UInt32.le_trans hletter.1 hhigh) (by decide)
  exact dif_neg hnot

/-- The lower case of a text is the lower case of its characters. -/
theorem toLower_eq_map (text : String) : text.toLower = text.map Char.toLower :=
  rfl

/-- Text in lower-case digits is its own lower case. -/
theorem toLower_of_all {text : String} (h : ∀ c ∈ text.toList, isLower c = true) :
    text.toLower = text := by
  rw [toLower_eq_map, ← String.toList_inj, String.toList_map]
  exact (List.map_congr_left fun c hc ↦ toLower_of_isLower (h c hc)).trans (List.map_id' _)

/-- The lower case of a digit is a lower-case digit. -/
theorem isLower_toLower {c : Char} (h : isDigit c = true) : isLower c.toLower = true := by
  have hcases : isLower c = true ∨ 'A' ≤ c ∧ c ≤ 'F' := by
    simpa [isDigit] using h
  cases hcases with
  | inl hlower =>
      rw [toLower_of_isLower hlower]
      exact hlower
  | inr hupper =>
      -- the six capital digits, one by one
      have hall : ∀ value < 71, 65 ≤ value → isLower (Char.ofNat value).toLower = true := by decide
      have hlow : 65 ≤ c.toNat := hupper.1
      have hhigh : c.toNat ≤ 70 := hupper.2
      have hc := hall c.toNat (by omega) hlow
      rwa [Char.ofNat_toNat] at hc

/-- A digit is no white space. -/
theorem isSpace_of_isDigit {c : Char} (h : isDigit c = true) : Text.isSpace c = false := by
  have hlower (c : Char) (hc : isLower c = true) : 48 ≤ c.toNat ∧ c.toNat ≤ 102 := by
    have hcases : (48 ≤ c.val ∧ c.val ≤ 57) ∨ 'a' ≤ c ∧ c ≤ 'f' := by
      simpa [isLower, Char.isDigit] using hc
    cases hcases with
    | inl hdigit => exact ⟨hdigit.1, Nat.le_trans hdigit.2 (by decide)⟩
    | inr hletter => exact ⟨Nat.le_trans (by decide) hletter.1, hletter.2⟩
  have hrange : 48 ≤ c.toNat ∧ c.toNat ≤ 102 := by
    have hcases : isLower c = true ∨ 'A' ≤ c ∧ c ≤ 'F' := by
      simpa [isDigit] using h
    cases hcases with
    | inl hc => exact hlower c hc
    | inr hupper =>
        exact ⟨Nat.le_trans (by decide) hupper.1, Nat.le_trans hupper.2 (by decide)⟩
  rw [Text.isSpace, decide_eq_false_iff_not]
  omega

/-- A key has no white space to trim. -/
theorem trim_of_isKey {text : String} (h : isKey text = true) : Text.trim text = text :=
  Text.trim_of_forall fun c hc ↦
    isSpace_of_isDigit (List.all_eq_true.mp (Bool.and_eq_true_iff.mp h).2 c hc)

/-- A key is not empty. -/
theorem ne_of_isKey {text : String} (h : isKey text = true) : text ≠ "" := by
  rintro rfl
  exact absurd h (by decide)

/-- The lower case of a key is a key. -/
theorem isKey_toLower {text : String} (h : isKey text = true) : isKey text.toLower = true := by
  obtain ⟨hlength, hall⟩ := Bool.and_eq_true_iff.mp h
  rw [List.all_eq_true] at hall
  rw [isKey, toLower_eq_map, String.toList_map, List.length_map, List.all_map, hlength,
    Bool.true_and, List.all_eq_true]
  exact fun c hc ↦ isDigit_of_isLower (isLower_toLower (hall c hc))

/-- Only a digit has a digit as its lower case. -/
theorem isDigit_of_toLower {c : Char} (h : isDigit c.toLower = true) : isDigit c = true := by
  by_cases hupper : c.val ≥ 'A'.val ∧ c.val ≤ 'Z'.val
  · have hall : ∀ value < 91, 65 ≤ value → isDigit (Char.ofNat value).toLower = true →
        isDigit (Char.ofNat value) = true := by decide
    have hlow : 65 ≤ c.toNat := hupper.1
    have hhigh : c.toNat ≤ 90 := hupper.2
    have hc := hall c.toNat (by omega) hlow
    rw [Char.ofNat_toNat] at hc
    exact hc h
  · have hsame : c.toLower = c := dif_neg hupper
    rwa [hsame] at h

/-- Only a key has a key as its lower case. -/
theorem isKey_of_toLower {text : String} (h : isKey text.toLower = true) : isKey text = true := by
  rw [isKey, toLower_eq_map, String.toList_map, List.length_map, List.all_map,
    Bool.and_eq_true, List.all_eq_true] at h
  exact Bool.and_eq_true_iff.mpr ⟨h.1, List.all_eq_true.mpr fun c hc ↦ isDigit_of_toLower (h.2 c hc)⟩

/-- The lower case of a key is in lower case. -/
theorem toLower_toLower {text : String} (h : isKey text = true) :
    text.toLower.toLower = text.toLower := by
  refine toLower_of_all fun c hc ↦ ?_
  rw [toLower_eq_map, String.toList_map, List.mem_map] at hc
  obtain ⟨digit, hdigit, rfl⟩ := hc
  exact isLower_toLower (List.all_eq_true.mp (Bool.and_eq_true_iff.mp h).2 digit hdigit)

/-! ## Encoded bytes -/

theorem isLower_of_mem {bytes : List UInt8} {c : Char} (h : c ∈ (encode bytes).toList) :
    isLower c = true := by
  rw [encode, String.toList_ofList, encodeChars, List.mem_flatMap] at h
  obtain ⟨byte, -, hc⟩ := h
  have hbyte := byte.toNat_lt
  simp only [List.mem_cons, List.not_mem_nil, or_false] at hc
  cases hc with
  | inl hhigh => exact hhigh ▸ isLower_digit (by omega)
  | inr hlow => exact hlow ▸ isLower_digit (Nat.mod_lt _ (by decide))

theorem length_encode (bytes : List UInt8) : (encode bytes).toList.length = 2 * bytes.length := by
  rw [encode, String.toList_ofList, encodeChars]
  induction bytes with
  | nil => rfl
  | cons byte rest ih =>
      rw [List.flatMap_cons, List.length_append, ih, List.length_cons]
      simp only [List.length_cons, List.length_nil]
      omega

@[simp] theorem toLower_encode (bytes : List UInt8) : (encode bytes).toLower = encode bytes :=
  toLower_of_all fun _ ↦ isLower_of_mem

/-- Thirty-two bytes are written in sixty-four digits. -/
theorem isKey_encode {bytes : List UInt8} (h : bytes.length = 32) : isKey (encode bytes) = true := by
  refine Bool.and_eq_true_iff.mpr ⟨?_, List.all_eq_true.mpr fun c hc ↦
    isDigit_of_isLower (isLower_of_mem hc)⟩
  rw [length_encode, h]
  rfl

/-- Different bytes are written differently. -/
theorem encode_inj {left right : List UInt8} : encode left = encode right ↔ left = right := by
  refine ⟨fun h ↦ ?_, congrArg encode⟩
  rw [encode, encode, String.ofList_inj] at h
  induction left generalizing right with
  | nil =>
      cases right with
      | nil => rfl
      | cons byte rest => simp [encodeChars] at h
  | cons byte rest ih =>
      cases right with
      | nil => simp [encodeChars] at h
      | cons other others =>
          simp only [encodeChars, List.flatMap_cons, List.cons_append, List.nil_append,
            List.cons.injEq] at h
          obtain ⟨hhigh, hlow, hrest⟩ := h
          have hbyte := byte.toNat_lt
          have hother := other.toNat_lt
          have hsame : byte.toNat = other.toNat := by
            have := digit_inj (by omega) (by omega) hhigh
            have := digit_inj (Nat.mod_lt _ (by decide)) (Nat.mod_lt _ (by decide)) hlow
            omega
          rw [UInt8.toNat_inj.mp hsame, ih hrest]

end Hex
