import Mathlib

/-!
# Rounding to a binary precision

A floating-point operation on integers returns the exact result rounded to the nearest value whose significand
has `precision` bits, a tie going to the even significand. Integers up to `2 ^ precision` are exact, and larger
ones do not come back below that bound.
-/

namespace PeerHours.Rounding

/-- The distance between neighbouring values of the magnitude of `n`. -/
def unit (precision n : Nat) : Nat :=
  2 ^ (n.size - precision)

/-- Rounds to the nearest multiple, a tie to the even one. -/
def nearestMultiple (unit n : Nat) : Nat :=
  let quotient := n / unit
  let remainder := n % unit
  if 2 * remainder < unit ∨ (2 * remainder = unit ∧ quotient % 2 = 0) then quotient * unit
  else (quotient + 1) * unit

/-- Rounds a magnitude. -/
def roundNat (precision n : Nat) : Nat :=
  nearestMultiple (unit precision n) n

/-- Rounds an integer; the sign plays no part. -/
def round (precision : Nat) : Int → Int
  | .ofNat n => roundNat precision n
  | .negSucc n => -roundNat precision (n + 1)

/-- A double has 53 significant bits. -/
def doublePrecision : Nat := 53

/-- The first integer that a double skips is a tie, and goes to the even significand below it. -/
example : round doublePrecision (2 ^ 53 + 1) = 2 ^ 53 := by decide +kernel

/-- A multiple of the unit stays. -/
theorem nearestMultiple_of_dvd {unit n : Nat} (hunit : 0 < unit) (h : unit ∣ n) :
    nearestMultiple unit n = n := by
  unfold nearestMultiple
  simp only [Nat.mod_eq_zero_of_dvd h, Nat.mul_zero, hunit, true_or, if_true]
  exact Nat.div_mul_cancel h

/-- Rounding keeps the multiples of the unit below the value. -/
theorem le_nearestMultiple {unit n bound : Nat} (hdvd : unit ∣ bound) (hle : bound ≤ n) :
    bound ≤ nearestMultiple unit n := by
  have hquotient : bound ≤ n / unit * unit :=
    calc bound = bound / unit * unit := (Nat.div_mul_cancel hdvd).symm
      _ ≤ n / unit * unit := Nat.mul_le_mul_right _ (Nat.div_le_div_right hle)
  unfold nearestMultiple
  simp only
  split
  · exact hquotient
  · exact hquotient.trans (Nat.mul_le_mul_right _ (Nat.le_succ _))

variable {precision : Nat}

/-- Magnitudes up to the precision are exact. -/
theorem roundNat_of_le (hprecision : 0 < precision) {n : Nat} (h : n ≤ 2 ^ precision) :
    roundNat precision n = n := by
  refine nearestMultiple_of_dvd (Nat.two_pow_pos _) ?_
  cases Nat.lt_or_eq_of_le h with
  | inl hless =>
      have hsize : n.size ≤ precision := Nat.size_le.mpr hless
      rw [unit, Nat.sub_eq_zero_of_le hsize]
      exact one_dvd n
  | inr hequal =>
      -- The bound itself has one bit more than the precision, so its unit is two.
      subst hequal
      rw [unit, Nat.size_pow]
      exact Nat.pow_dvd_pow 2 (by omega)

/-- Magnitudes beyond the precision stay beyond it. -/
theorem le_roundNat (hprecision : 0 < precision) {n : Nat} (h : 2 ^ precision ≤ n) :
    2 ^ precision ≤ roundNat precision n := by
  have hsize : precision < n.size := Nat.lt_size.mpr h
  have hbelow : 2 ^ (n.size - 1) ≤ n := Nat.lt_size.mp (by omega)
  calc 2 ^ precision ≤ 2 ^ (n.size - 1) := Nat.pow_le_pow_right (by decide) (by omega)
    _ ≤ roundNat precision n := le_nearestMultiple (Nat.pow_dvd_pow 2 (by omega)) hbelow

/-- Integers up to the precision are exact. -/
theorem round_of_abs_le (hprecision : 0 < precision) {n : Int} (hlow : -2 ^ precision ≤ n)
    (hhigh : n ≤ 2 ^ precision) : round precision n = n := by
  cases n with
  | ofNat n =>
      have hle : n ≤ 2 ^ precision := by
        rw [Int.ofNat_eq_natCast] at hhigh
        exact_mod_cast hhigh
      show (roundNat precision n : Int) = n
      rw [roundNat_of_le hprecision hle]
  | negSucc n =>
      have hle : n + 1 ≤ 2 ^ precision := by
        rw [Int.negSucc_eq] at hlow
        exact_mod_cast neg_le_neg_iff.mp hlow
      show -(roundNat precision (n + 1) : Int) = Int.negSucc n
      rw [roundNat_of_le hprecision hle, Int.negSucc_eq]
      rfl

/-- An integer below the range of the precision does not come back into it. -/
theorem round_le (hprecision : 0 < precision) {n : Int} (h : n ≤ -2 ^ precision) :
    round precision n ≤ -2 ^ precision := by
  cases n with
  | ofNat n =>
      have hpositive : (0 : Int) < 2 ^ precision := by positivity
      have hnonneg : (0 : Int) ≤ Int.ofNat n := Int.natCast_nonneg n
      omega
  | negSucc n =>
      have hle : 2 ^ precision ≤ n + 1 := by
        rw [Int.negSucc_eq] at h
        exact_mod_cast neg_le_neg_iff.mp h
      show -(roundNat precision (n + 1) : Int) ≤ -2 ^ precision
      have hround := le_roundNat hprecision hle
      exact neg_le_neg (by exact_mod_cast hround)

/-! ## Exact arithmetic -/

/-- Rounding leaves the integers up to a bound alone and brings none from below back above it. -/
structure ExactUpTo (round : Int → Int) (bound : Int) : Prop where
  exact : ∀ n, -bound ≤ n → n ≤ bound → round n = n
  below : ∀ n, n ≤ -bound → round n ≤ -bound

theorem exactUpTo_round (hprecision : 0 < precision) :
    ExactUpTo (round precision) (2 ^ precision) where
  exact _ hlow hhigh := round_of_abs_le hprecision hlow hhigh
  below _ h := round_le hprecision h

/-- Comparing a rounded integer with a limit inside the range gives what comparing the exact one does. -/
theorem ExactUpTo.lt_iff {round : Int → Int} {bound limit n : Int} (h : ExactUpTo round bound)
    (hlimit : -bound < limit) (hn : n ≤ bound) : round n < limit ↔ n < limit := by
  by_cases hlow : -bound ≤ n
  · rw [h.exact n hlow hn]
  · have hround := h.below n (by omega)
    constructor <;> intro <;> omega

end PeerHours.Rounding
