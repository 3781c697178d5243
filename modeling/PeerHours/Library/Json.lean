import PeerHours.Library.KeyedMap
import PeerHours.Library.Sorting
import PeerHours.Library.Text
import Mathlib.Algebra.Group.Nat.Defs
import Mathlib.Data.Int.Basic

/-!
# JSON values

The values that JSON text can carry. A number is a finite decimal in lowest terms, so equal
numbers are equal values. An object is its list of own properties; reading a missing property, or
a property of a value that is not an object, gives `none`, the counterpart of `undefined`.
-/

namespace Json

open Sorting

/-- A finite decimal number `mantissa / 10 ^ scale` in lowest terms. -/
structure Decimal where
  mantissa : Int
  scale : Nat
  canonical : scale = 0 ∨ mantissa % 10 ≠ 0
deriving DecidableEq

/-- The decimal of a whole number. -/
def Decimal.ofInt (value : Int) : Decimal := ⟨value, 0, .inl rfl⟩

/-- The whole number a decimal denotes, if it is whole. -/
def Decimal.toInt? (number : Decimal) : Option Int :=
  if number.scale = 0 then some number.mantissa else none

@[simp] theorem Decimal.toInt?_ofInt (value : Int) : (ofInt value).toInt? = some value := rfl

theorem Decimal.toInt?_eq_some {number : Decimal} {value : Int} :
    number.toInt? = some value ↔ number = ofInt value := by
  obtain ⟨mantissa, scale, canonical⟩ := number
  by_cases hscale : scale = 0
  · subst hscale
    simp [toInt?, ofInt]
  · simp [toInt?, ofInt, hscale]

/-- A value that JSON text can carry. -/
inductive JsonValue where
  | null
  | bool (value : Bool)
  | num (value : Decimal)
  | str (value : String)
  | arr (items : List JsonValue)
  | obj (fields : List (String × JsonValue))

namespace JsonValue

/-- A whole number. -/
def int (value : Int) : JsonValue := .num (.ofInt value)

@[simp] theorem int_inj {left right : Int} : int left = int right ↔ left = right := by
  simp [int, Decimal.ofInt]

/-- The value under a property name in a list of properties. -/
def get (name : String) (fields : List (String × JsonValue)) : Option JsonValue :=
  (KeyedMap.lookup Prod.fst name fields).map Prod.snd

@[simp] theorem get_nil (name : String) : get name [] = none := rfl

@[simp] theorem get_cons (name first : String) (value : JsonValue)
    (rest : List (String × JsonValue)) :
    get name ((first, value) :: rest) = if first = name then some value else get name rest := by
  by_cases h : first = name <;> simp [get, KeyedMap.lookup_cons, h]

/-- The own property of a value, `none` when it is missing. -/
def field (value : JsonValue) (name : String) : Option JsonValue :=
  match value with
  | .obj fields => get name fields
  | _ => none

@[simp] theorem field_obj (fields : List (String × JsonValue)) (name : String) :
    field (.obj fields) name = get name fields := rfl

/-- The text of a string value. -/
def text? : Option JsonValue → Option String
  | some (.str value) => some value
  | _ => none

@[simp] theorem text?_str (value : String) : text? (some (.str value)) = some value := rfl

theorem text?_eq_some {value : Option JsonValue} {text : String} :
    text? value = some text ↔ value = some (.str text) := by
  unfold text?
  split <;> simp_all

/-- The whole number of a number value. -/
def int? : Option JsonValue → Option Int
  | some (.num value) => value.toInt?
  | _ => none

@[simp] theorem int?_int (value : Int) : int? (some (.int value)) = some value := rfl

theorem int?_eq_some {value : Option JsonValue} {number : Int} :
    int? value = some number ↔ value = some (.int number) := by
  unfold int?
  split
  · simp [int, Decimal.toInt?_eq_some]
  · rename_i hnot
    simp only [reduceCtorEq, false_iff]
    rintro rfl
    exact hnot _ rfl

/-- The own properties of a value, which a spread copies. -/
def properties : JsonValue → List (String × JsonValue)
  | .obj fields => fields
  | _ => []

/-- Narrows a value to an object, as opposed to a primitive, `null` or an array. -/
def isObject : JsonValue → Bool
  | .obj _ => true
  | _ => false

theorem isObject_eq_true {value : JsonValue} : value.isObject = true ↔ ∃ fields, value = .obj fields := by
  cases value <;> simp [isObject]

end JsonValue

/-- The number a property name spells when it is an array index: decimal digits without a leading
zero, below `2 ^ 32 - 1`. -/
def arrayIndex? (name : String) : Option Nat :=
  let digits := name.toList
  let value := digits.foldl (fun total digit ↦ 10 * total + (digit.toNat - '0'.toNat)) 0
  if digits ≠ [] ∧ digits.all Char.isDigit ∧ (digits.head? ≠ some '0' ∨ digits.length = 1) ∧
      value < 2 ^ 32 - 1 then
    some value
  else none

/-- Where a property name stands among the sorted names of an object: array indices first, in
numeric order, then the other names by UTF-16 code units. -/
def propertyRank (name : String) : List Nat :=
  match arrayIndex? name with
  | some index => [0, index]
  | none => 1 :: Text.utf16 name

/-- The order in which an object lists properties that were assigned in sorted order. -/
def compareProperties (left right : String × JsonValue) : Ordering :=
  compareOn (fun property : String × JsonValue ↦ propertyRank property.1) left right

instance : Std.TransCmp compareProperties :=
  inferInstanceAs (Std.TransCmp (compareOn fun property : String × JsonValue ↦
    propertyRank property.1))

/-- Sorting the properties of an object does not change what it reads. -/
@[simp] theorem get_sortBy (name : String) (fields : List (String × JsonValue)) :
    JsonValue.get name (sortBy compareProperties fields) = JsonValue.get name fields := by
  have hsame : sortBy compareProperties (fields.filter fun entry ↦ decide (entry.1 = name)) =
      fields.filter fun entry ↦ decide (entry.1 = name) := by
    refine sortBy_eq_self (List.pairwise_of_forall_mem_list ?_)
    intro left hleft right hright
    have hnames : left.1 = right.1 := by
      rw [of_decide_eq_true (List.mem_filter.mp hleft).2,
        of_decide_eq_true (List.mem_filter.mp hright).2]
    simp [compareProperties, compareOn, hnames]
  rw [JsonValue.get, JsonValue.get, KeyedMap.lookup, KeyedMap.lookup, ← List.head?_filter,
    ← List.head?_filter, filter_sortBy, hsame]

end Json
