import Mathlib.Data.List.Basic
import PeerHours.Library.Text

/-!
# Canonical UTC timestamps

The texts that `Date.prototype.toISOString` writes: a four-digit year, or a signed six-digit one
outside 0..9999, and a date and time that exist, within the range of a `Date`.
-/

namespace Timestamp

/-- The number that a list of decimal digits spells. -/
def number? (digits : List Char) : Option Nat :=
  if digits.all Char.isDigit then
    some (digits.foldl (fun total digit ↦ 10 * total + (digit.toNat - '0'.toNat)) 0)
  else none

/-- The Gregorian leap years. -/
def leapYear (year : Int) : Bool :=
  year % 4 == 0 && (year % 100 != 0 || year % 400 == 0)

/-- The length of a month. -/
def daysInMonth (year : Int) (month : Nat) : Nat :=
  if month = 2 then if leapYear year then 29 else 28
  else if month = 4 ∨ month = 6 ∨ month = 9 ∨ month = 11 then 30
  else 31

/-- Days from 1970-01-01 to a date, counting years from March. -/
def daysFromCivil (year : Int) (month day : Nat) : Int :=
  let shifted : Int := if month ≤ 2 then year - 1 else year
  let era := shifted / 400
  let yearOfEra := shifted % 400
  let dayOfYear : Int := (153 * ((month + 9) % 12 : Nat) + 2) / 5 + day - 1
  era * 146097 + (yearOfEra * 365 + yearOfEra / 4 - yearOfEra / 100 + dayOfYear) - 719468

/-- The furthest a `Date` reaches from the epoch, in milliseconds. -/
def maxMillis : Int := 8640000000000000

/-- The time of the text after the year, in milliseconds since the epoch. -/
def millisOfYear (year : Int) : List Char → Option Int
  | ['-', m1, m2, '-', d1, d2, 'T', h1, h2, ':', n1, n2, ':', s1, s2, '.', z1, z2, z3, 'Z'] => do
      let month ← number? [m1, m2]
      let day ← number? [d1, d2]
      let hour ← number? [h1, h2]
      let minute ← number? [n1, n2]
      let second ← number? [s1, s2]
      let milli ← number? [z1, z2, z3]
      let millis := (((daysFromCivil year month day * 24 + hour) * 60 + minute) * 60 + second) *
        1000 + milli
      if 1 ≤ month ∧ month ≤ 12 ∧ 1 ≤ day ∧ day ≤ daysInMonth year month ∧ hour ≤ 23 ∧
          minute ≤ 59 ∧ second ≤ 59 ∧ -maxMillis ≤ millis ∧ millis ≤ maxMillis then
        some millis
      else none
  | _ => none

/-- The time of a canonical timestamp, in milliseconds since the epoch. -/
def millis? (text : String) : Option Int :=
  match text.toList with
  | '+' :: y1 :: y2 :: y3 :: y4 :: y5 :: y6 :: rest => do
      let year ← number? [y1, y2, y3, y4, y5, y6]
      if 9999 < year then millisOfYear year rest else none
  | '-' :: y1 :: y2 :: y3 :: y4 :: y5 :: y6 :: rest => do
      let year ← number? [y1, y2, y3, y4, y5, y6]
      if 0 < year then millisOfYear (-year) rest else none
  | y1 :: y2 :: y3 :: y4 :: rest => do
      let year ← number? [y1, y2, y3, y4]
      millisOfYear year rest
  | _ => none

/-- The text is what `toISOString` writes for its own time. -/
def isCanonical (text : String) : Bool :=
  (millis? text).isSome

/-- UTC text with a year of four digits that `Date.parse` reads: a day may run over its month by up to
three days, and midnight may be written as the hour 24. -/
def isIsoUtc (text : String) : Bool :=
  match text.toList with
  | [y1, y2, y3, y4, '-', m1, m2, '-', d1, d2, 'T', h1, h2, ':', n1, n2, ':', s1, s2, '.', z1, z2, z3,
      'Z'] =>
      match number? [y1, y2, y3, y4], number? [m1, m2], number? [d1, d2], number? [h1, h2],
        number? [n1, n2], number? [s1, s2], number? [z1, z2, z3] with
      | some _, some month, some day, some hour, some minute, some second, some milli =>
          decide (1 ≤ month ∧ month ≤ 12 ∧ 1 ≤ day ∧ day ≤ 31 ∧ minute ≤ 59 ∧ second ≤ 59 ∧
            (hour ≤ 23 ∨ hour = 24 ∧ minute = 0 ∧ second = 0 ∧ milli = 0))
      | _, _, _, _, _, _, _ => false
  | _ => false

/-- The digits of a number are no white space. -/
theorem isSpace_of_number? {digits : List Char} {value : Nat} (h : number? digits = some value) :
    ∀ c ∈ digits, Text.isSpace c = false := by
  unfold number? at h
  split at h
  · rename_i hdigits
    intro c hc
    have hdigit := List.all_eq_true.mp hdigits c hc
    have hrange : 48 ≤ c.toNat ∧ c.toNat ≤ 57 := by
      simp only [Char.isDigit, Bool.and_eq_true, decide_eq_true_eq] at hdigit
      exact hdigit
    rw [Text.isSpace, decide_eq_false_iff_not]
    omega
  · exact absurd h (by simp)

/-- UTC text has no white space. -/
theorem trim_of_isIsoUtc {text : String} (h : isIsoUtc text = true) :
    Text.trim text = text ∧ text ≠ "" := by
  unfold isIsoUtc at h
  split at h
  · rename_i y1 y2 y3 y4 m1 m2 d1 d2 h1 h2 n1 n2 s1 s2 z1 z2 z3 htext
    split at h
    · rename_i hyear hmonth hday hhour hminute hsecond hmilli
      refine ⟨Text.trim_of_forall ?_, ?_⟩
      · have hmarks : ['-', 'T', ':', '.', 'Z'].all (fun c ↦ !Text.isSpace c) = true := rfl
        have hmark : ∀ c ∈ ['-', 'T', ':', '.', 'Z'], Text.isSpace c = false := fun c hc ↦ by
          simpa using List.all_eq_true.mp hmarks c hc
        have hnumber := List.forall_mem_append.mpr ⟨isSpace_of_number? hyear,
          List.forall_mem_append.mpr ⟨isSpace_of_number? hmonth,
          List.forall_mem_append.mpr ⟨isSpace_of_number? hday,
          List.forall_mem_append.mpr ⟨isSpace_of_number? hhour,
          List.forall_mem_append.mpr ⟨isSpace_of_number? hminute,
          List.forall_mem_append.mpr ⟨isSpace_of_number? hsecond, isSpace_of_number? hmilli⟩⟩⟩⟩⟩⟩
        have hall := List.forall_mem_append.mpr ⟨hmark, hnumber⟩
        intro c hc
        refine hall c ?_
        rw [htext] at hc
        simp only [List.mem_cons, List.mem_append, List.not_mem_nil] at hc ⊢
        grind
      · rintro rfl
        exact absurd htext (by simp)
    · exact absurd h (by simp)
  · exact absurd h (by simp)

example : millis? "1970-01-02T00:00:01.005Z" = some 86401005 := by decide

example : isCanonical "2026-02-29T00:00:00.000Z" = false := by decide

end Timestamp
