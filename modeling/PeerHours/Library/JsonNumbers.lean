import PeerHours.Library.Json
import Mathlib.Tactic.IntervalCases

/-!
# The text of a number

A number is written in positional notation when it has at most 21 digits before its point and, below one, at most
five zeros behind it; otherwise in exponential notation. A written number is read back, so the text determines it.
-/

namespace Json

/-! ## Digits -/

/-- The decimal digits of the lowest `width` positions of a number. -/
def lowDigits : Nat → Nat → List Char
  | 0, _ => []
  | width + 1, value => lowDigits width (value / 10) ++ [Nat.digitChar (value % 10)]

theorem isDigit_digitChar {value : Nat} (h : value < 10) : (Nat.digitChar value).isDigit = true := by
  interval_cases value <;> rfl

theorem digitChar_inj {left right : Nat} (hleft : left < 10) (hright : right < 10)
    (h : Nat.digitChar left = Nat.digitChar right) : left = right := by
  interval_cases left <;> interval_cases right <;> first | rfl | exact absurd h (by decide)

@[simp] theorem length_lowDigits (width value : Nat) : (lowDigits width value).length = width := by
  induction width generalizing value with
  | zero => rfl
  | succ width ih => simp [lowDigits, ih]

theorem isDigit_of_mem_lowDigits {width value : Nat} {c : Char} (h : c ∈ lowDigits width value) :
    c.isDigit = true := by
  induction width generalizing value with
  | zero => simp [lowDigits] at h
  | succ width ih =>
      rw [lowDigits, List.mem_append, List.mem_singleton] at h
      rcases h with h | rfl
      · exact ih h
      · exact isDigit_digitChar (Nat.mod_lt _ (by omega))

theorem isDigit_of_mem_toDigits {value : Nat} {c : Char} (h : c ∈ Nat.toDigits 10 value) :
    c.isDigit = true :=
  Nat.isDigit_of_mem_toDigits (by omega) (by omega) h

theorem toDigits_ne_nil (value : Nat) : Nat.toDigits 10 value ≠ [] := by
  intro h
  have := Nat.length_toDigits_pos (b := 10) (n := value)
  simp [h] at this

/-- The first digit of a number of several digits is not zero. -/
theorem head_toDigits {value : Nat} (h : (Nat.toDigits 10 value).head? = some '0') :
    (Nat.toDigits 10 value).length = 1 := by
  induction value using Nat.strongRecOn with
  | ind value ih =>
      rw [Nat.toDigits_eq_if (by omega)] at h ⊢
      split at h
      · rename_i hsmall
        rw [if_pos hsmall]
        rfl
      · rename_i hlarge
        obtain ⟨first, digits, hdigits⟩ := List.exists_cons_of_ne_nil (toDigits_ne_nil (value / 10))
        have hlength := ih (value / 10) (by omega) (by simpa [hdigits] using h)
        have hzero : value / 10 = 0 := by
          have hsmall := (Nat.length_toDigits_le_iff (b := 10) (by omega) Nat.zero_lt_one).mp hlength.le
          have hdigit : Nat.toDigits 10 (value / 10) = [Nat.digitChar (value / 10)] :=
            Nat.toDigits_of_lt_base (by simpa using hsmall)
          have hfirst : Nat.digitChar (value / 10) = '0' := by simpa [hdigit] using h
          exact digitChar_inj (by simpa using hsmall) (by omega) hfirst
        omega

/-! ## Writing -/

/-- A magnitude in positional notation. -/
def positionalText (magnitude scale : Nat) : List Char :=
  Nat.toDigits 10 (magnitude / 10 ^ scale) ++
    (if scale = 0 then [] else '.' :: lowDigits scale magnitude)

/-- The digits of a magnitude without the zeros at their end. -/
def significantDigits (magnitude : Nat) : List Char :=
  ((Nat.toDigits 10 magnitude).reverse.dropWhile (· == '0')).reverse

/-- A magnitude in exponential notation, with the point behind its first digit. -/
def exponentialText (magnitude : Nat) (exponent : Int) : List Char :=
  let digits := significantDigits magnitude
  digits.take 1 ++ (if digits.length ≤ 1 then [] else '.' :: digits.drop 1) ++
    'e' :: (if 0 ≤ exponent then '+' else '-') :: Nat.toDigits 10 exponent.natAbs

/-- How many digits after the first one of its digits begin the point of a number stands. -/
def pointPlace (number : Decimal) : Int :=
  (Nat.toDigits 10 number.mantissa.natAbs).length - (number.scale : Int)

/-- The text of a number, as `String(number)` and `JSON.stringify` write it. -/
def numberText (number : Decimal) : List Char :=
  (if number.mantissa < 0 then ['-'] else []) ++
    (if number.mantissa = 0 ∨ (-6 < pointPlace number ∧ pointPlace number ≤ 21) then
      positionalText number.mantissa.natAbs number.scale
    else exponentialText number.mantissa.natAbs (pointPlace number - 1))

/-- The decimals of 21 and of 22 digits, and those with five and with six zeros behind the point. -/
example : String.ofList (numberText (.ofInt (10 ^ 20))) = "100000000000000000000" ∧
    String.ofList (numberText (.ofInt (-12 * 10 ^ 20))) = "-1.2e+21" ∧
    String.ofList (numberText ⟨15, 7, by decide⟩) = "0.0000015" ∧
    String.ofList (numberText ⟨15, 8, by decide⟩) = "1.5e-7" := by decide +kernel

/-! ## Reading -/

/-- The decimal `mantissa / 10 ^ scale` in lowest terms. -/
def Decimal.ofScaled (mantissa : Int) : Nat → Decimal
  | 0 => .ofInt mantissa
  | scale + 1 =>
      if h : mantissa % 10 = 0 then ofScaled (mantissa / 10) scale else ⟨mantissa, scale + 1, .inr h⟩

/-- The decimal `mantissa * 10 ^ exponent`. -/
def Decimal.shifted (mantissa exponent : Int) : Decimal :=
  if 0 ≤ exponent then .ofInt (mantissa * 10 ^ exponent.toNat) else ofScaled mantissa (-exponent).toNat

/-- The digits at the start of a text, at least one, and the text after them. -/
def readDigits (text : List Char) : Option (List Char × List Char) :=
  let digits := text.takeWhile Char.isDigit
  if digits = [] then none else some (digits, text.dropWhile Char.isDigit)

/-- The digits of the whole part: a leading zero stands alone. -/
def readWhole (text : List Char) : Option (List Char × List Char) := do
  let (digits, rest) ← readDigits text
  if digits.head? = some '0' ∧ digits.length ≠ 1 then none else some (digits, rest)

/-- The digits of the fraction, when there is one. -/
def readFraction : List Char → Option (List Char × List Char)
  | '.' :: rest => readDigits rest
  | text => some ([], text)

/-- The sign of an exponent. -/
def readExponentSign : List Char → Int × List Char
  | '-' :: rest => (-1, rest)
  | '+' :: rest => (1, rest)
  | text => (1, text)

/-- The exponent, when there is one. -/
def readExponent : List Char → Option (Int × List Char)
  | c :: rest =>
      if c = 'e' ∨ c = 'E' then
        let (sign, rest) := readExponentSign rest
        (readDigits rest).map fun (digits, rest) ↦ (sign * Nat.ofDigitChars 10 digits 0, rest)
      else some (0, c :: rest)
  | [] => some (0, [])

/-- The sign of a number: the text after a leading minus sign. -/
def readSign : List Char → Bool × List Char
  | '-' :: rest => (true, rest)
  | text => (false, text)

/-- A number at the start of a text. -/
def readNumber (text : List Char) : Option (Decimal × List Char) := do
  let (negative, rest) := readSign text
  let (whole, rest) ← readWhole rest
  let (fraction, rest) ← readFraction rest
  let (exponent, rest) ← readExponent rest
  let magnitude : Int := Nat.ofDigitChars 10 (whole ++ fraction) 0
  some (.shifted (if negative then -magnitude else magnitude) (exponent - fraction.length), rest)

/-- What follows a value inside a larger text: a separator, a closing bracket, a line break or nothing. -/
def Ends (rest : List Char) : Prop :=
  ∀ c ∈ rest.head?, c = ',' ∨ c = ']' ∨ c = '\x7d' ∨ c = '\n'

theorem Decimal.shifted_eq (number : Decimal) :
    Decimal.shifted number.mantissa (0 - (number.scale : Int)) = number := by
  obtain ⟨mantissa, scale, canonical⟩ := number
  cases scale with
  | zero => simp [shifted, ofInt]
  | succ scale =>
      have hdigit : mantissa % 10 ≠ 0 := canonical.resolve_left (Nat.succ_ne_zero scale)
      have hscale : (-(0 - ((scale + 1 : Nat) : Int))).toNat = scale + 1 := by omega
      have hsign : ¬ (0 : Int) ≤ 0 - ((scale + 1 : Nat) : Int) := by omega
      rw [shifted, if_neg hsign, hscale, ofScaled, dif_neg hdigit]

/-- The low digits of a number spell its remainder. -/
theorem ofDigitChars_lowDigits (width value start : Nat) :
    Nat.ofDigitChars 10 (lowDigits width value) start = 10 ^ width * start + value % 10 ^ width := by
  induction width generalizing value with
  | zero => simp [lowDigits, Nat.mod_one]
  | succ width ih =>
      have hlast : Nat.ofDigitChars 10 [Nat.digitChar (value % 10)]
          (10 ^ width * start + value / 10 % 10 ^ width) =
          10 * (10 ^ width * start + value / 10 % 10 ^ width) + value % 10 := by
        rw [Nat.ofDigitChars_cons_digitChar_of_lt_ten (Nat.mod_lt _ (by omega)), Nat.ofDigitChars_nil]
      rw [lowDigits, Nat.ofDigitChars_append, ih, hlast, pow_succ', Nat.mod_mul,
        Nat.mul_add, Nat.mul_assoc]
      omega

theorem readDigits_append {digits rest : List Char} (hne : digits ≠ [])
    (hdigits : ∀ c ∈ digits, c.isDigit = true) (hrest : ∀ c ∈ rest.head?, c.isDigit = false) :
    readDigits (digits ++ rest) = some (digits, rest) := by
  have htake : rest.takeWhile Char.isDigit = [] := by
    cases rest with
    | nil => rfl
    | cons c rest => rw [List.takeWhile_cons, hrest c rfl]; rfl
  have hdrop : rest.dropWhile Char.isDigit = rest := by
    cases rest with
    | nil => rfl
    | cons c rest => rw [List.dropWhile_cons, hrest c rfl]; rfl
  rw [readDigits, List.takeWhile_append_of_pos hdigits, List.dropWhile_append_of_pos hdigits, htake,
    hdrop, List.append_nil, if_neg hne]

theorem Ends.isDigit_eq_false {rest : List Char} (h : Ends rest) :
    ∀ c ∈ rest.head?, c.isDigit = false := by
  intro c hc
  rcases h c hc with rfl | rfl | rfl | rfl <;> rfl

theorem Ends.readFraction_eq {rest : List Char} (h : Ends rest) :
    readFraction rest = some ([], rest) := by
  unfold readFraction
  split
  · exact absurd (h '.' rfl) (by decide)
  · rfl

theorem Ends.readExponent_eq {rest : List Char} (h : Ends rest) :
    readExponent rest = some (0, rest) := by
  cases rest with
  | nil => rfl
  | cons c rest =>
      have hmark : ¬ (c = 'e' ∨ c = 'E') := by
        rcases h c rfl with rfl | rfl | rfl | rfl <;> decide
      rw [readExponent, if_neg hmark]

/-- The digits after the sign are read back. -/
theorem readWhole_toDigits (value : Nat) {rest : List Char}
    (hrest : ∀ c ∈ rest.head?, c.isDigit = false) :
    readWhole (Nat.toDigits 10 value ++ rest) = some (Nat.toDigits 10 value, rest) := by
  rw [readWhole, readDigits_append (toDigits_ne_nil value) (fun c hc ↦ isDigit_of_mem_toDigits hc)
    hrest]
  have hzero : ¬ ((Nat.toDigits 10 value).head? = some '0' ∧ (Nat.toDigits 10 value).length ≠ 1) :=
    fun h ↦ h.2 (head_toDigits h.1)
  show (if _ then none else _) = _
  rw [if_neg hzero]

/-- The fraction digits of a magnitude are read back. -/
theorem readFraction_lowDigits (scale magnitude : Nat) {rest : List Char} (hrest : Ends rest) :
    readFraction ((if scale = 0 then [] else '.' :: lowDigits scale magnitude) ++ rest) =
      some (lowDigits scale magnitude, rest) := by
  by_cases hscale : scale = 0
  · rw [if_pos hscale, hscale, List.nil_append, hrest.readFraction_eq]
    rfl
  · have hne : lowDigits scale magnitude ≠ [] := by
      intro h
      have hlength := congrArg List.length h
      rw [length_lowDigits] at hlength
      exact hscale hlength
    rw [if_neg hscale, List.cons_append, readFraction,
      readDigits_append hne (fun c hc ↦ isDigit_of_mem_lowDigits hc) hrest.isDigit_eq_false]

/-- Whole and fraction digits together spell the magnitude. -/
theorem ofDigitChars_digits (magnitude scale : Nat) :
    Nat.ofDigitChars 10 (Nat.toDigits 10 (magnitude / 10 ^ scale) ++ lowDigits scale magnitude) 0 =
      magnitude := by
  rw [Nat.ofDigitChars_append, Nat.ofDigitChars_ten_toDigits, ofDigitChars_lowDigits,
    Nat.div_add_mod]

/-! ## Reading what was written -/

/-- A magnitude is its significant digits and the zeros at its end. -/
theorem exists_significant {magnitude : Nat} (hpositive : 0 < magnitude) :
    ∃ significant zeros, magnitude = significant * 10 ^ zeros ∧ significant % 10 ≠ 0 ∧
      significantDigits magnitude = Nat.toDigits 10 significant ∧
      (Nat.toDigits 10 magnitude).length = (Nat.toDigits 10 significant).length + zeros := by
  induction magnitude using Nat.strongRecOn with
  | ind magnitude ih =>
      by_cases hlast : magnitude % 10 = 0
      · obtain ⟨significant, zeros, hvalue, hdigit, hdigits, hlength⟩ :=
          ih (magnitude / 10) (by omega) (by omega)
        have happend : Nat.toDigits 10 magnitude = Nat.toDigits 10 (magnitude / 10) ++ ['0'] := by
          have hsplit := Nat.toDigits_append_toDigits (b := 10) (n := magnitude / 10) (d := 0)
            (by omega) (by omega) (by omega)
          rw [show 10 * (magnitude / 10) + 0 = magnitude by omega] at hsplit
          exact hsplit.symm
        refine ⟨significant, zeros + 1, ?_, hdigit, ?_, ?_⟩
        · rw [pow_succ, ← Nat.mul_assoc, ← hvalue]
          omega
        · rw [← hdigits, significantDigits, significantDigits, happend]
          simp
        · rw [happend, List.length_append, hlength, List.length_singleton]
          omega
      · refine ⟨magnitude, 0, by simp, hlast, ?_, rfl⟩
        obtain ⟨digits, hdigits⟩ : ∃ digits, Nat.toDigits 10 magnitude =
            digits ++ [Nat.digitChar (magnitude % 10)] := by
          rw [Nat.toDigits_eq_if (by omega)]
          split
          · rename_i hsmall
            exact ⟨[], by rw [Nat.mod_eq_of_lt hsmall]; rfl⟩
          · exact ⟨_, rfl⟩
        have hne : (Nat.digitChar (magnitude % 10) == '0') = false := by
          rw [beq_eq_false_iff_ne]
          exact fun h ↦ hlast (digitChar_inj (Nat.mod_lt _ (by omega)) (by omega) h)
        rw [significantDigits, hdigits, List.reverse_append, List.reverse_singleton,
          List.singleton_append, List.dropWhile_cons, hne]
        simp

/-- The text spells a magnitude times a power of ten: a reader takes its parts from it, whatever follows. -/
structure Spells (text : List Char) (magnitude : Nat) (exponent : Int) : Prop where
  first : ∃ c digits, text = c :: digits ∧ c.isDigit = true
  parts : ∀ rest, Ends rest → ∃ whole afterWhole fraction afterFraction shift,
    readWhole (text ++ rest) = some (whole, afterWhole) ∧
      readFraction afterWhole = some (fraction, afterFraction) ∧
      readExponent afterFraction = some (shift, rest) ∧
      Nat.ofDigitChars 10 (whole ++ fraction) 0 = magnitude ∧ shift - fraction.length = exponent

/-- Digits at the start of a text are its first character and more. -/
theorem exists_first_toDigits (value : Nat) (rest : List Char) :
    ∃ c digits, Nat.toDigits 10 value ++ rest = c :: digits ∧ c.isDigit = true := by
  obtain ⟨c, digits, hdigits⟩ := List.exists_cons_of_ne_nil (toDigits_ne_nil value)
  exact ⟨c, digits ++ rest, by rw [hdigits, List.cons_append],
    isDigit_of_mem_toDigits (hdigits ▸ List.mem_cons_self)⟩

theorem spells_positional (magnitude scale : Nat) :
    Spells (positionalText magnitude scale) magnitude (-scale) where
  first := exists_first_toDigits _ _
  parts := by
    intro rest hrest
    have hfraction : readFraction ((if scale = 0 then [] else '.' :: lowDigits scale magnitude) ++ rest) =
        some (lowDigits scale magnitude, rest) := readFraction_lowDigits scale magnitude hrest
    have hdot : ∀ c ∈ ((if scale = 0 then [] else '.' :: lowDigits scale magnitude) ++ rest).head?,
        c.isDigit = false := by
      intro c hc
      by_cases hscale : scale = 0
      · exact hrest.isDigit_eq_false c (by simpa [hscale] using hc)
      · rw [if_neg hscale] at hc
        obtain rfl : '.' = c := by simpa using hc
        rfl
    refine ⟨_, _, _, _, _, ?_, hfraction, hrest.readExponent_eq, ofDigitChars_digits magnitude scale, ?_⟩
    · rw [positionalText, List.append_assoc]
      exact readWhole_toDigits _ hdot
    · rw [length_lowDigits]
      omega

/-- A written exponent is read back. -/
theorem readExponent_written (exponent : Int) {rest : List Char} (hrest : Ends rest) :
    readExponent ('e' :: (if 0 ≤ exponent then '+' else '-') ::
      (Nat.toDigits 10 exponent.natAbs ++ rest)) = some (exponent, rest) := by
  have hdigits := readDigits_append (toDigits_ne_nil exponent.natAbs)
    (fun c hc ↦ isDigit_of_mem_toDigits hc) hrest.isDigit_eq_false
  rw [readExponent, if_pos (.inl rfl)]
  by_cases hsign : 0 ≤ exponent
  · rw [if_pos hsign, readExponentSign]
    simp only [hdigits, Option.map_some, Nat.ofDigitChars_ten_toDigits, Option.some.injEq, Prod.mk.injEq,
      and_true]
    omega
  · rw [if_neg hsign, readExponentSign]
    simp only [hdigits, Option.map_some, Nat.ofDigitChars_ten_toDigits, Option.some.injEq, Prod.mk.injEq,
      and_true]
    omega

/-- The first digit in exponential notation is read as the whole part, the others as the fraction. -/
theorem spells_exponential {magnitude significant : Nat} {exponent : Int}
    (hdigits : significantDigits magnitude = Nat.toDigits 10 significant) :
    Spells (exponentialText magnitude exponent) significant
      (exponent + 1 - (Nat.toDigits 10 significant).length) := by
  obtain ⟨c, digits, hsplit⟩ := List.exists_cons_of_ne_nil (toDigits_ne_nil significant)
  have hall : ∀ d ∈ c :: digits, d.isDigit = true := fun d hd ↦
    isDigit_of_mem_toDigits (hsplit ▸ hd)
  rw [List.forall_mem_cons] at hall
  -- the first digit is the whole part, and the others are the fraction if there are any
  have htext : exponentialText magnitude exponent =
      c :: ((if digits = [] then [] else '.' :: digits) ++
        'e' :: (if 0 ≤ exponent then '+' else '-') :: Nat.toDigits 10 exponent.natAbs) := by
    rw [exponentialText, hdigits, hsplit]
    cases digits with
    | nil => rfl
    | cons d rest => simp
  refine ⟨⟨c, _, htext, hall.1⟩, fun rest hrest ↦ ?_⟩
  have hexponent := readExponent_written exponent hrest
  refine ⟨[c], (if digits = [] then [] else '.' :: digits) ++ 'e' ::
    (if 0 ≤ exponent then '+' else '-') :: (Nat.toDigits 10 exponent.natAbs ++ rest), digits, _, exponent,
    ?_, ?_, hexponent, ?_, ?_⟩
  · have hstop : ∀ d ∈ ((if digits = [] then [] else '.' :: digits) ++
        'e' :: (if 0 ≤ exponent then '+' else '-') ::
          (Nat.toDigits 10 exponent.natAbs ++ rest)).head?, d.isDigit = false := by
      intro d hd
      by_cases hnil : digits = []
      · obtain rfl : 'e' = d := by simpa [hnil] using hd
        rfl
      · obtain rfl : '.' = d := by simpa [hnil] using hd
        rfl
    have hread := readDigits_append (List.cons_ne_nil c []) (fun d hd ↦ by
      rw [List.mem_singleton.mp hd]
      exact hall.1) hstop
    have hsame : exponentialText magnitude exponent ++ rest = [c] ++
        ((if digits = [] then [] else '.' :: digits) ++ 'e' :: (if 0 ≤ exponent then '+' else '-') ::
          (Nat.toDigits 10 exponent.natAbs ++ rest)) := by
      rw [htext]
      simp
    rw [hsame, readWhole, hread]
    simp
  · by_cases hnil : digits = []
    · rw [if_pos hnil, hnil]
      rfl
    · rw [if_neg hnil, List.cons_append, readFraction,
        readDigits_append hnil hall.2 (by simp)]
  · rw [List.singleton_append, ← hsplit, Nat.ofDigitChars_ten_toDigits]
  · rw [hsplit, List.length_cons]
    omega

/-- The parts of a number are put together. -/
theorem Spells.readNumber_eq {text rest : List Char} {magnitude : Nat} {exponent : Int}
    (h : Spells text magnitude exponent) (hrest : Ends rest) (negative : Prop) [Decidable negative] :
    readNumber ((if negative then ['-'] else []) ++ text ++ rest) =
      some (.shifted (if negative then -magnitude else magnitude) exponent, rest) := by
  obtain ⟨c, digits, hfirst, hdigit⟩ := h.first
  have hminus : c ≠ '-' := by
    rintro rfl
    exact absurd hdigit (by decide)
  have hsign : readSign ((if negative then ['-'] else []) ++ text ++ rest) =
      (decide negative, text ++ rest) := by
    by_cases hnegative : negative
    · simp [hnegative, readSign]
    · simp [hnegative, hfirst, readSign, hminus]
  obtain ⟨whole, afterWhole, fraction, afterFraction, shift, hwhole, hfraction, hexponent, hvalue,
    hshift⟩ := h.parts rest hrest
  rw [readNumber, hsign]
  simp only [hwhole, hfraction, hexponent, hvalue, hshift, Option.bind_eq_bind, Option.bind_some,
    decide_eq_true_eq]

/-- The significant digits of a number, shifted to their place, are the number. -/
theorem Decimal.shifted_significant {number : Decimal} {significant zeros : Nat}
    (hmagnitude : number.mantissa.natAbs = significant * 10 ^ zeros) (hdigit : significant % 10 ≠ 0) :
    Decimal.shifted (if number.mantissa < 0 then -significant else significant)
      (zeros - (number.scale : Int)) = number := by
  have hzeros : number.scale = 0 ∨ zeros = 0 := by
    refine number.canonical.imp_right fun hlast ↦ ?_
    cases zeros with
    | zero => rfl
    | succ zeros =>
        rw [pow_succ, ← Nat.mul_assoc] at hmagnitude
        omega
  rcases hzeros with hscale | rfl
  · have hpower : (significant : Int) * 10 ^ zeros = number.mantissa.natAbs := by
      rw [hmagnitude]
      push_cast
      rfl
    have hmantissa : (if number.mantissa < 0 then -(significant : Int) else significant) * 10 ^ zeros =
        number.mantissa := by
      split
      · rw [Int.neg_mul, hpower]
        omega
      · rw [hpower]
        omega
    have hshift : ((zeros : Int) - (number.scale : Int)).toNat = zeros := by omega
    rw [shifted, if_pos (by omega), hshift, hmantissa]
    exact (Decimal.toInt?_eq_some.mp (if_pos hscale)).symm
  · have hmantissa : (if number.mantissa < 0 then -(significant : Int) else significant) =
        number.mantissa := by
      rw [Nat.pow_zero, Nat.mul_one] at hmagnitude
      rw [← hmagnitude]
      split <;> omega
    rw [hmantissa]
    exact Decimal.shifted_eq number

/-- A written number is read back when a separator or nothing follows it. -/
theorem readNumber_numberText (number : Decimal) {rest : List Char} (hrest : Ends rest) :
    readNumber (numberText number ++ rest) = some (number, rest) := by
  unfold numberText
  by_cases hpositional : number.mantissa = 0 ∨ (-6 < pointPlace number ∧ pointPlace number ≤ 21)
  · have hmantissa : (if number.mantissa < 0 then -(number.mantissa.natAbs : Int)
        else (number.mantissa.natAbs : Int)) = number.mantissa := by
      split <;> omega
    have hshifted := Decimal.shifted_eq number
    rw [Int.zero_sub] at hshifted
    rw [if_pos hpositional,
      (spells_positional number.mantissa.natAbs number.scale).readNumber_eq hrest, hmantissa, hshifted]
  · have hpositive : 0 < number.mantissa.natAbs := by omega
    obtain ⟨significant, zeros, hvalue, hdigit, hdigits, hlength⟩ := exists_significant hpositive
    have hspells := @spells_exponential _ _ (pointPlace number - 1) hdigits
    have hplace : pointPlace number - 1 + 1 - ((Nat.toDigits 10 significant).length : Int) =
        zeros - (number.scale : Int) := by
      rw [pointPlace, hlength]
      omega
    rw [hplace] at hspells
    rw [if_neg hpositional, hspells.readNumber_eq hrest, Decimal.shifted_significant hvalue hdigit]

/-! ## Numbers in a text -/

theorem numberText_inj {left right : Decimal} (h : numberText left = numberText right) :
    left = right := by
  have hleft := @readNumber_numberText left [] (by simp [Ends])
  have hright := @readNumber_numberText right [] (by simp [Ends])
  rw [h, hright] at hleft
  exact (congrArg Prod.fst (Option.some.inj hleft)).symm

/-- A character that may stand inside a number. -/
def isNumberChar (c : Char) : Bool :=
  c.isDigit || c == '-' || c == '.' || c == 'e' || c == '+'

/-- The text cannot continue a number. -/
def Delimited (rest : List Char) : Prop :=
  ∀ c ∈ rest.head?, isNumberChar c = false

theorem isNumberChar_of_mem_positional {magnitude scale : Nat} {c : Char}
    (h : c ∈ positionalText magnitude scale) : isNumberChar c = true := by
  rw [positionalText, List.mem_append] at h
  rcases h with hwhole | hfraction
  · simp [isNumberChar, isDigit_of_mem_toDigits hwhole]
  · split at hfraction
    · cases hfraction
    · rcases List.mem_cons.mp hfraction with rfl | hdigit
      · rfl
      · simp [isNumberChar, isDigit_of_mem_lowDigits hdigit]

theorem isNumberChar_of_mem_exponential {magnitude : Nat} {exponent : Int} {c : Char}
    (h : c ∈ exponentialText magnitude exponent) : isNumberChar c = true := by
  have hdigit : ∀ d ∈ significantDigits magnitude, isNumberChar d = true := by
    intro d hd
    rw [significantDigits, List.mem_reverse] at hd
    have hmem := List.mem_reverse.mp ((List.dropWhile_sublist _).subset hd)
    simp [isNumberChar, isDigit_of_mem_toDigits hmem]
  simp only [exponentialText, List.mem_append, List.mem_cons] at h
  rcases h with (hfirst | hrest) | rfl | rfl | hexponent
  · exact hdigit c (List.mem_of_mem_take hfirst)
  · split at hrest
    · cases hrest
    · rcases List.mem_cons.mp hrest with rfl | hmem
      · rfl
      · exact hdigit c (List.mem_of_mem_drop hmem)
  · rfl
  · split <;> rfl
  · simp [isNumberChar, isDigit_of_mem_toDigits hexponent]

/-- Every character of a number is a number character. -/
theorem isNumberChar_of_mem_numberText {number : Decimal} {c : Char} (h : c ∈ numberText number) :
    isNumberChar c = true := by
  rw [numberText, List.mem_append] at h
  rcases h with hsign | hmagnitude
  · split at hsign
    · rw [List.mem_singleton.mp hsign]
      rfl
    · cases hsign
  · split at hmagnitude
    · exact isNumberChar_of_mem_positional hmagnitude
    · exact isNumberChar_of_mem_exponential hmagnitude

/-- A number has a first character, which is one of a number. -/
theorem exists_numberText_eq_cons (number : Decimal) :
    ∃ c rest, numberText number = c :: rest ∧ isNumberChar c = true := by
  have hne : numberText number ≠ [] := by
    intro hnil
    have hread := @readNumber_numberText number [] (by simp [Ends])
    have hnone : readNumber [] = none := rfl
    rw [hnil, List.append_nil, hnone] at hread
    cases hread
  obtain ⟨c, rest, htext⟩ := List.exists_cons_of_ne_nil hne
  exact ⟨c, rest, htext, isNumberChar_of_mem_numberText (htext ▸ List.mem_cons_self)⟩

/-- Reading a run of characters of one class up to the first character outside it. -/
theorem append_inj_of_class {keep : Char → Bool} {xs ys s t : List Char}
    (hxs : ∀ c ∈ xs, keep c = true) (hys : ∀ c ∈ ys, keep c = true)
    (hs : ∀ c ∈ s.head?, keep c = false) (ht : ∀ c ∈ t.head?, keep c = false)
    (h : xs ++ s = ys ++ t) : xs = ys ∧ s = t := by
  have hstop : ∀ {rest : List Char}, (∀ c ∈ rest.head?, keep c = false) →
      rest.takeWhile keep = [] := by
    intro rest hrest
    cases rest with
    | nil => rfl
    | cons c rest => rw [List.takeWhile_cons, hrest c rfl]; rfl
  have htake := congrArg (List.takeWhile keep) h
  rw [List.takeWhile_append_of_pos hxs, List.takeWhile_append_of_pos hys, hstop hs, hstop ht,
    List.append_nil, List.append_nil] at htake
  exact ⟨htake, List.append_cancel_left (htake ▸ h)⟩

/-- A number can be read back when what follows cannot continue it. -/
theorem numberText_append_inj {left right : Decimal} {s t : List Char} (hs : Delimited s)
    (ht : Delimited t) (h : numberText left ++ s = numberText right ++ t) :
    left = right ∧ s = t := by
  obtain ⟨htext, hrest⟩ := @append_inj_of_class isNumberChar _ _ _ _
    (fun c hc ↦ isNumberChar_of_mem_numberText hc) (fun c hc ↦ isNumberChar_of_mem_numberText hc)
    hs ht h
  exact ⟨numberText_inj htext, hrest⟩

end Json
