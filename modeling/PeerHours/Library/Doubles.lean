import PeerHours.Library.JsonNumbers

/-!
# Doubles as decimals

A program holds a number as a double, and writes it as the shortest decimal that has the double for its nearest
one. A decimal that is read becomes the double nearest to it, which need not be written as that decimal.
-/

namespace Json

/-! ## The nearest double -/

/-- A magnitude `significand * 2 ^ exponent`. -/
structure Double where
  significand : Nat
  exponent : Int
deriving DecidableEq

/-- A ratio times a power of the base. -/
def scaleRatio (base numerator denominator : Nat) (exponent : Int) : Nat × Nat :=
  if 0 ≤ exponent then (numerator * base ^ exponent.toNat, denominator)
  else (numerator, denominator * base ^ (-exponent).toNat)

/-- The larger of the guess and the exponent below it whose power of the base is at most the ratio. -/
def floorExponent (base numerator denominator : Nat) (guess : Int) : Int :=
  let scaled := scaleRatio base numerator denominator (-guess)
  if scaled.2 ≤ scaled.1 then guess else guess - 1

/-- Rounds a ratio to the nearest whole number, a tie to the even one. -/
def roundRatio (numerator denominator : Nat) : Nat :=
  let quotient := numerator / denominator
  let remainder := numerator % denominator
  if 2 * remainder < denominator ∨ (2 * remainder = denominator ∧ quotient % 2 = 0) then quotient
  else quotient + 1

/-- The double nearest to a positive ratio, a tie going to the even significand: 53 bits, and no place below
`2 ^ -1074`. -/
def Double.nearest (numerator denominator : Nat) : Double :=
  let log := floorExponent 2 numerator denominator ((numerator.log2 : Int) - denominator.log2)
  let place := max (-1074) (log - 52)
  let scaled := scaleRatio 2 numerator denominator (-place)
  let significand := roundRatio scaled.1 scaled.2
  if significand = 2 ^ 53 then ⟨2 ^ 52, place + 1⟩ else ⟨significand, place⟩

/-- The double is below `2 ^ 1024`, from where numbers are infinite. -/
def Double.isFinite (double : Double) : Bool :=
  decide (double.exponent ≤ 971)

/-! ## The text of a double -/

/-- The decimals with this many digits next to a double, the nearer one first. -/
def Double.neighbours (double : Double) (digits : Nat) : List (Nat × Int) :=
  let ratio := scaleRatio 2 double.significand 1 double.exponent
  let log := floorExponent 10 ratio.1 ratio.2
    (((Nat.toDigits 10 ratio.1).length : Int) - (Nat.toDigits 10 ratio.2).length)
  let place := log - (digits - 1)
  let scaled := scaleRatio 10 ratio.1 ratio.2 (-place)
  let near := roundRatio scaled.1 scaled.2
  let below := scaled.1 / scaled.2
  [(near, place), (if near = below then below + 1 else below, place)]

/-- The double is the nearest one to the decimal. -/
def Double.isRead (double : Double) (decimal : Nat × Int) : Bool :=
  let ratio := scaleRatio 10 decimal.1 1 decimal.2
  decide (Double.nearest ratio.1 ratio.2 = double)

/-- The digits that a double is written with: as few as tell it from the other doubles, and 17 always do. -/
def Double.shortest (double : Double) : Option (Nat × Int) :=
  (List.range 17).findSome? fun fewer ↦ (double.neighbours (fewer + 1)).find? double.isRead

/-- The decimal that the double nearest to a decimal is written as, `none` beyond the largest double. -/
def Decimal.asDouble (number : Decimal) : Option Decimal :=
  let double := Double.nearest number.mantissa.natAbs (10 ^ number.scale)
  if number.mantissa = 0 ∨ double.significand = 0 then some (.ofInt 0)
  else if double.isFinite then
    double.shortest.map fun decimal ↦
      .shifted (if number.mantissa < 0 then -decimal.1 else decimal.1) decimal.2
  else none

/-- A number that a program can hold: the decimal that a double is written as. -/
def Decimal.IsDouble (number : Decimal) : Prop :=
  number.asDouble = some number

instance decidableIsDouble (number : Decimal) : Decidable number.IsDouble :=
  inferInstanceAs (Decidable (_ = _))

end Json
