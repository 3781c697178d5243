import PeerHours.Library.JsonParse

/-!
# The record store's values

A record store keeps JSON text. A record is checked and cloned before it enters the core and again when it leaves
it; what was stored is read back as it was.
-/

namespace PeerHours.PeerRuntime

open Checked Json

/-- A value as a program passes it: a number may be infinite or no number at all, an object may have another
prototype, and some values are no data. -/
inductive JsValue where
  | null
  | bool (value : Bool)
  | num (value : Option Decimal)
  | str (value : String)
  | arr (items : List JsValue)
  | obj (plain : Bool) (fields : List (String × JsValue))
  | other

namespace JsValue

mutual

/-- Verifies that a value is a finite, recursively JSON-serializable value. -/
def isJsonValue : JsValue → Bool
  | .null | .bool _ | .str _ => true
  | .num value => value.isSome
  | .arr items => everyItem items
  | .obj plain fields => plain && everyField fields
  | .other => false

/-- `value.every(isJsonValue)`. -/
def everyItem : List JsValue → Bool
  | [] => true
  | item :: rest => item.isJsonValue && everyItem rest

/-- `Object.values(value).every(isJsonValue)`. -/
def everyField : List (String × JsValue) → Bool
  | [] => true
  | (_, value) :: rest => value.isJsonValue && everyField rest

end

mutual

/-- The data that `JSON.stringify` writes; what is no data becomes null. -/
def json : JsValue → JsonValue
  | .null => .null
  | .bool value => .bool value
  | .num (some value) => .num value
  | .num none => .null
  | .str value => .str value
  | .arr items => .arr (jsonItems items)
  | .obj _ fields => .obj (jsonFields fields)
  | .other => .null

/-- The data of the items of an array. -/
def jsonItems : List JsValue → List JsonValue
  | [] => []
  | item :: rest => item.json :: jsonItems rest

/-- The data of the properties of an object. -/
def jsonFields : List (String × JsValue) → List (String × JsonValue)
  | [] => []
  | (name, value) :: rest => (name, value.json) :: jsonFields rest

end

mutual

/-- The value that `JSON.parse` builds for some data. -/
def ofJson : JsonValue → JsValue
  | .null => .null
  | .bool value => .bool value
  | .num value => .num (some value)
  | .str value => .str value
  | .arr items => .arr (ofItems items)
  | .obj fields => .obj true (ofFields fields)

/-- The values of the items of an array. -/
def ofItems : List JsonValue → List JsValue
  | [] => []
  | item :: rest => ofJson item :: ofItems rest

/-- The values of the properties of an object. -/
def ofFields : List (String × JsonValue) → List (String × JsValue)
  | [] => []
  | (name, value) :: rest => (name, ofJson value) :: ofFields rest

end

mutual

/-- A value that was parsed passes the check, and is written as what it was parsed from. -/
theorem ofJson_spec (value : JsonValue) :
    (ofJson value).isJsonValue = true ∧ (ofJson value).json = value := by
  match value with
  | .null | .bool _ | .num _ | .str _ => exact ⟨rfl, rfl⟩
  | .arr items =>
      obtain ⟨hevery, hjson⟩ := ofItems_spec items
      exact ⟨hevery, congrArg JsonValue.arr hjson⟩
  | .obj fields =>
      obtain ⟨hevery, hjson⟩ := ofFields_spec fields
      exact ⟨hevery, congrArg JsonValue.obj hjson⟩

theorem ofItems_spec (items : List JsonValue) :
    everyItem (ofItems items) = true ∧ jsonItems (ofItems items) = items := by
  match items with
  | [] => exact ⟨rfl, rfl⟩
  | item :: rest =>
      obtain ⟨hitem, hjson⟩ := ofJson_spec item
      obtain ⟨hrest, hjsons⟩ := ofItems_spec rest
      exact ⟨by rw [ofItems, everyItem, hitem, hrest, Bool.and_self], by rw [ofItems, jsonItems, hjson, hjsons]⟩

theorem ofFields_spec (fields : List (String × JsonValue)) :
    everyField (ofFields fields) = true ∧ jsonFields (ofFields fields) = fields := by
  match fields with
  | [] => exact ⟨rfl, rfl⟩
  | (name, value) :: rest =>
      obtain ⟨hvalue, hjson⟩ := ofJson_spec value
      obtain ⟨hrest, hjsons⟩ := ofFields_spec rest
      exact ⟨by rw [ofFields, everyField, hvalue, hrest, Bool.and_self],
        by rw [ofFields, jsonFields, hjson, hjsons]⟩

end

end JsValue

/-- Validates and clones a generic JSON record before it enters or leaves a core. -/
def normalizeRecord (value : JsValue) : Except String JsonValue := do
  require (value.isJsonValue = true) "A record store accepts only finite JSON values"
  present (parse (stringify value.json)) "Unexpected end of JSON input"

/-- The clone of a value is the data that it was written as. -/
theorem normalizeRecord_eq_ok {value : JsValue} (hvalue : WellFormed value.json)
    {record : JsonValue} :
    normalizeRecord value = .ok record ↔ value.isJsonValue = true ∧ value.json = record := by
  simp only [normalizeRecord, bind_eq_ok, require_eq_ok, exists_const, parse_stringify hvalue,
    present_eq_ok, Option.some.injEq]

theorem normalizeRecord_ofJson {value : JsonValue} (hvalue : WellFormed value) :
    normalizeRecord (.ofJson value) = .ok value := by
  obtain ⟨hjson, hwritten⟩ := JsValue.ofJson_spec value
  exact (normalizeRecord_eq_ok (hwritten.symm ▸ hvalue)).mpr ⟨hjson, hwritten⟩

/-- A block of a core with JSON encoding. -/
abbrev Block := String

/-- Reads one record from its block (`core.get` decodes the block, and `read` clones what it gets). -/
def readBlock (block : Block) : Except String JsonValue := do
  let value ← present (parse block) "Unexpected end of JSON input"
  normalizeRecord (.ofJson value)

/-- A block that a record was written to is read back as the record. -/
@[simp] theorem readBlock_stringify {record : JsonValue} (hrecord : WellFormed record) :
    readBlock (stringify record) = .ok record := by
  rw [readBlock, parse_stringify hrecord]
  exact normalizeRecord_ofJson hrecord

end PeerHours.PeerRuntime
