import PeerHours.Library.JsonReader
import PeerHours.Library.JsonText

/-!
# Reading JSON text

`parse` is `JSON.parse` for texts whose values are exact decimals and well-formed strings: the value a JSON text
denotes, `none` when the text is no JSON. A number is the decimal that it spells, not the double nearest to it, and
zero has no sign; a text that escapes half of a surrogate pair denotes no value here. (`Plain.parse` reads these as
the language does.) Reading what `stringify` wrote gives the value back when every object in it lists its
properties as an object does.
-/

namespace Json

open KeyedMap Sorting

/-! ## Objects -/

/-- Where an assigned property stands in its object: array indices in numeric order, then the other names. -/
def listingRank (name : String) : List Nat :=
  match arrayIndex? name with
  | some index => [0, index]
  | none => [1]

/-- The order in which an object lists the properties that were assigned to it. -/
def compareListing (left right : String × JsonValue) : Ordering :=
  compareOn (fun property : String × JsonValue ↦ listingRank property.1) left right

instance : Std.TransCmp compareListing :=
  inferInstanceAs (Std.TransCmp (compareOn fun property : String × JsonValue ↦
    listingRank property.1))

/-- The properties of an object after assigning each property in turn; the last value of a name stays. -/
def assigned (fields : List (String × JsonValue)) : List (String × JsonValue) :=
  sortBy compareListing (fields.foldl (fun object property ↦ upsert Prod.fst property object) [])

/-- Properties listed as an object lists them: each name once, array indices first. -/
structure Listed (fields : List (String × JsonValue)) : Prop where
  nodup : (fields.map Prod.fst).Nodup
  ordered : fields.Pairwise fun left right ↦ (compareListing left right).isLE = true

/-- Assigning listed properties lists them again. -/
theorem Listed.assigned_eq {fields : List (String × JsonValue)} (h : Listed fields) :
    assigned fields = fields := by
  rw [assigned, foldl_upsert_of_nodup (by simpa using h.nodup), List.nil_append]
  exact sortBy_eq_self h.ordered

/-- The names are distinct and none is an array index. -/
def plainNames (names : List String) : Bool :=
  decide names.Nodup && names.all fun name ↦ (arrayIndex? name).isNone

/-- Properties under distinct names that are no array indices are listed as they stand. -/
theorem Listed.of_plainNames {fields : List (String × JsonValue)}
    (h : plainNames (fields.map Prod.fst) = true) : Listed fields := by
  obtain ⟨hnodup, hnames⟩ := (Bool.and_eq_true_iff.mp h)
  have hrank : ∀ property ∈ fields, listingRank property.1 = [1] := by
    intro property hproperty
    have hnone := List.all_eq_true.mp hnames _ (List.mem_map_of_mem hproperty)
    rw [listingRank, Option.isNone_iff_eq_none.mp hnone]
  refine ⟨of_decide_eq_true hnodup, List.pairwise_of_forall_mem_list fun left hleft right hright ↦ ?_⟩
  simp [compareListing, compareOn, hrank left hleft, hrank right hright]

/-- Sorting properties with distinct names by name lists them. -/
theorem Listed.sorted {fields : List (String × JsonValue)} (h : (fields.map Prod.fst).Nodup) :
    Listed (sortBy compareProperties fields) where
  nodup := (nodup_map_sortBy Prod.fst).mpr h
  ordered := (pairwise_sortBy fields).imp fun {left right} hle ↦ by
    simp only [compareListing, compareProperties, compareOn, listingRank, propertyRank] at hle ⊢
    generalize arrayIndex? left.1 = leftIndex at hle ⊢
    generalize arrayIndex? right.1 = rightIndex at hle ⊢
    cases leftIndex <;> cases rightIndex
    · rfl
    · cases hle
    · rfl
    · exact hle

mutual

/-- Every object in the value lists its properties as an object does. -/
def WellFormed : JsonValue → Prop
  | .null | .bool _ | .num _ | .str _ => True
  | .arr items => WellFormedItems items
  | .obj fields => Listed fields ∧ WellFormedFields fields

/-- Every item is well formed. -/
def WellFormedItems : List JsonValue → Prop
  | [] => True
  | item :: rest => WellFormed item ∧ WellFormedItems rest

/-- Every property has a well formed value. -/
def WellFormedFields : List (String × JsonValue) → Prop
  | [] => True
  | (_, value) :: rest => WellFormed value ∧ WellFormedFields rest

end

theorem wellFormedItems_iff {items : List JsonValue} :
    WellFormedItems items ↔ ∀ item ∈ items, WellFormed item := by
  induction items with
  | nil => simp [WellFormedItems]
  | cons item rest ih => simp [WellFormedItems, ih]

theorem wellFormedFields_iff {fields : List (String × JsonValue)} :
    WellFormedFields fields ↔ ∀ property ∈ fields, WellFormed property.2 := by
  induction fields with
  | nil => simp [WellFormedFields]
  | cons property rest ih => simp [WellFormedFields, ih]

/-- The properties of a well formed object may be listed anew. -/
theorem wellFormed_obj_of_mem {fields other : List (String × JsonValue)}
    (h : WellFormedFields fields) (hlisted : Listed other) (hmem : ∀ property ∈ other, property ∈ fields) :
    WellFormed (.obj other) :=
  ⟨hlisted, wellFormedFields_iff.mpr fun property hproperty ↦
    wellFormedFields_iff.mp h property (hmem property hproperty)⟩

/-! ## Strings -/

/-- The value of a hexadecimal digit. -/
def hexValue? (c : Char) : Option Nat :=
  if c.isDigit then some (c.toNat - 48)
  else if 97 ≤ c.toNat ∧ c.toNat ≤ 102 then some (c.toNat - 87)
  else if 65 ≤ c.toNat ∧ c.toNat ≤ 70 then some (c.toNat - 55)
  else none

/-- The code unit of four hexadecimal digits. -/
def readUnit : List Char → Option (Nat × List Char)
  | a :: b :: c :: d :: rest => do
      let a ← hexValue? a
      let b ← hexValue? b
      let c ← hexValue? c
      let d ← hexValue? d
      some (((a * 16 + b) * 16 + c) * 16 + d, rest)
  | _ => none

/-- The character after `\u`. A leading surrogate needs its trailing one, and neither stands alone. -/
def readEscapedUnits (text : List Char) : Option (Char × List Char) := do
  let (unit, rest) ← readUnit text
  if 0xD800 ≤ unit ∧ unit < 0xDC00 then
    match rest with
    | '\\' :: 'u' :: rest =>
        let (trail, rest) ← readUnit rest
        if 0xDC00 ≤ trail ∧ trail < 0xE000 then
          some (Char.ofNat (0x10000 + (unit - 0xD800) * 0x400 + (trail - 0xDC00)), rest)
        else none
    | _ => none
  else if 0xDC00 ≤ unit ∧ unit < 0xE000 then none
  else some (Char.ofNat unit, rest)

/-- One character inside a JSON string. -/
def readChar : List Char → Option (Char × List Char)
  | '\\' :: '"' :: rest => some ('"', rest)
  | '\\' :: '\\' :: rest => some ('\\', rest)
  | '\\' :: '/' :: rest => some ('/', rest)
  | '\\' :: 'b' :: rest => some (Char.ofNat 8, rest)
  | '\\' :: 'f' :: rest => some (Char.ofNat 12, rest)
  | '\\' :: 'n' :: rest => some (Char.ofNat 10, rest)
  | '\\' :: 'r' :: rest => some (Char.ofNat 13, rest)
  | '\\' :: 't' :: rest => some (Char.ofNat 9, rest)
  | '\\' :: 'u' :: rest => readEscapedUnits rest
  | '\\' :: _ => none
  | c :: rest => if c.toNat < 32 then none else some (c, rest)
  | [] => none

/-- The characters up to the closing quotation mark, at most as many as the fuel. -/
def readText : Nat → List Char → Option (List Char × List Char)
  | 0, _ => none
  | _ + 1, '"' :: rest => some ([], rest)
  | fuel + 1, text => do
      let (c, rest) ← readChar text
      let (chars, rest) ← readText fuel rest
      some (c :: chars, rest)

/-- A JSON string after its opening quotation mark. -/
def readString (text : List Char) : Option (String × List Char) :=
  (readText text.length text).map fun (chars, rest) ↦ (String.ofList chars, rest)

theorem readChar_escapeChar (c : Char) (rest : List Char) :
    readChar (escapeChar c ++ rest) = some (c, rest) := by
  by_cases hcontrol : c.toNat < 32
  · have hc : c = Char.ofNat c.toNat := (Char.ofNat_toNat c).symm
    generalize c.toNat = code at hc hcontrol
    subst hc
    interval_cases code <;> rfl
  · by_cases hquote : c = '"'
    · subst hquote; rfl
    · by_cases hslash : c = '\\'
      · subst hslash; rfl
      · have hplain : escapeChar c = [c] := by
          unfold escapeChar
          rw [if_neg hquote, if_neg hslash, if_neg (by omega), if_neg (by omega), if_neg (by omega),
            if_neg (by omega), if_neg (by omega), if_neg hcontrol]
        rw [hplain, List.singleton_append]
        unfold readChar
        split <;> simp_all

theorem readText_flatMap (chars rest : List Char) {fuel : Nat} (hfuel : chars.length < fuel) :
    readText fuel (chars.flatMap escapeChar ++ '"' :: rest) = some (chars, rest) := by
  induction chars generalizing fuel with
  | nil =>
      cases fuel with
      | zero => exact absurd hfuel (by omega)
      | succ fuel => rfl
  | cons c chars ih =>
      cases fuel with
      | zero => exact absurd hfuel (by omega)
      | succ fuel =>
          have htail := @ih fuel (by simpa using hfuel)
          have hopen : ∀ tail, (c :: chars).flatMap escapeChar ++ '"' :: rest ≠ '"' :: tail := by
            intro tail
            rw [List.flatMap_cons, List.append_assoc]
            exact escapeChar_ne_quote c _ tail
          rw [readText.eq_3 _ _ hopen, List.flatMap_cons, List.append_assoc, readChar_escapeChar]
          simp [htail]

theorem length_le_flatMap_escapeChar (chars : List Char) :
    chars.length ≤ (chars.flatMap escapeChar).length := by
  induction chars with
  | nil => simp
  | cons c chars ih =>
      have hpositive : 0 < (escapeChar c).length := by
        unfold escapeChar
        split_ifs <;> simp
      rw [List.flatMap_cons, List.length_append, List.length_cons]
      omega

/-- A written string is read back, whatever follows it. -/
theorem readString_quote (text : String) (rest : List Char) :
    readString (text.toList.flatMap escapeChar ++ '"' :: rest) = some (text, rest) := by
  have hlength := length_le_flatMap_escapeChar text.toList
  rw [readString, readText_flatMap _ _ (by rw [List.length_append, List.length_cons]; omega)]
  simp

/-! ## Values -/

/-- How a value is read: an object assigns its properties in turn. -/
def jsonReader : Reader String JsonValue where
  text := readString
  number text := (readNumber text).map fun (number, rest) ↦ (.num number, rest)
  null := .null
  bool := .bool
  str := .str
  arr := .arr
  obj fields := .obj (assigned fields)

/-- `JSON.parse`: the value of a whole text. -/
def parse (text : String) : Option JsonValue :=
  jsonReader.parse text

/-- Every quoted string and every number is read back. -/
theorem reads_jsonReader : jsonReader.Reads quoting .num fun _ ↦ True where
  text text rest := by
    refine ⟨text.toList.flatMap escapeChar ++ '"' :: rest, ?_, readString_quote text rest⟩
    show '"' :: (_ ++ ['"']) ++ rest = _
    rw [List.cons_append, List.append_assoc, List.singleton_append]
  number value rest _ hrest := by
    show (readNumber _).map _ = _
    rw [readNumber_numberText value hrest]
    rfl

mutual

theorem numerals_tree (value : JsonValue) : value.tree.Numerals fun _ ↦ True := by
  match value with
  | .null | .bool _ | .num _ | .str _ => trivial
  | .arr items => exact numeralItems_trees items
  | .obj fields => exact numeralFields_trees fields

theorem numeralItems_trees (items : List JsonValue) :
    Tree.NumeralItems (fun _ ↦ True) (JsonValue.itemTrees items) := by
  match items with
  | [] => trivial
  | item :: rest => exact ⟨numerals_tree item, numeralItems_trees rest⟩

theorem numeralFields_trees (fields : List (String × JsonValue)) :
    Tree.NumeralFields (fun _ ↦ True) (JsonValue.fieldTrees fields) := by
  match fields with
  | [] => trivial
  | (name, value) :: rest => exact ⟨numerals_tree value, numeralFields_trees rest⟩

end

mutual

/-- A well formed value is built from its tree. -/
theorem build_tree (value : JsonValue) (hvalue : WellFormed value) :
    jsonReader.build .num value.tree = value := by
  match value with
  | .null | .bool _ | .num _ | .str _ => rfl
  | .arr items => exact congrArg JsonValue.arr (buildItems_trees items hvalue)
  | .obj fields =>
      show JsonValue.obj (assigned (jsonReader.buildFields .num (JsonValue.fieldTrees fields))) = _
      rw [buildFields_trees fields hvalue.2, hvalue.1.assigned_eq]

theorem buildItems_trees (items : List JsonValue) (hitems : WellFormedItems items) :
    jsonReader.buildItems .num (JsonValue.itemTrees items) = items := by
  match items with
  | [] => rfl
  | item :: rest =>
      rw [JsonValue.itemTrees, Reader.buildItems, build_tree item hitems.1,
        buildItems_trees rest hitems.2]

theorem buildFields_trees (fields : List (String × JsonValue)) (hfields : WellFormedFields fields) :
    jsonReader.buildFields .num (JsonValue.fieldTrees fields) = fields := by
  match fields with
  | [] => rfl
  | (name, value) :: rest =>
      rw [JsonValue.fieldTrees, Reader.buildFields, build_tree value hfields.1,
        buildFields_trees rest hfields.2]

end

/-- A written value is read back when a separator or nothing follows it. -/
theorem readValue_render (value : JsonValue) (hvalue : WellFormed value) (fuel : Nat)
    {rest : List Char} (hfuel : (render value).length < fuel) (hrest : Ends rest) :
    jsonReader.readValue fuel (render value ++ rest) = some (value, rest) := by
  rw [← render_tree] at hfuel ⊢
  rw [Reader.readValue_render reads_jsonReader value.tree (numerals_tree value) fuel hfuel hrest,
    build_tree value hvalue]

/-- Reading the text of a well formed value gives the value back. -/
theorem parse_stringify {value : JsonValue} (h : WellFormed value) :
    parse (stringify value) = some value := by
  rw [parse, stringify, ← render_tree,
    Reader.parse_render reads_jsonReader (numerals_tree value), build_tree value h]

end Json
