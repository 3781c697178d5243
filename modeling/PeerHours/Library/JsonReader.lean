import PeerHours.Library.JsonTree

/-!
# Reading JSON text into any type

The grammar of JSON over a reader: how texts and numbers are read, and what is built from the parts. A reader that
reads back every quoted text and the text of every number in a class builds its value of each written tree whose
numbers are in the class.
-/

namespace Json

/-- White space between the parts of a JSON text. -/
def isBlank (c : Char) : Bool :=
  c == ' ' || c == '\t' || c == '\n' || c == '\r'

/-- The text after its leading white space. -/
def skipBlank (text : List Char) : List Char :=
  text.dropWhile isBlank

/-- How texts (after their opening quotation mark) and numbers are read, and what is built from the parts of a
JSON text. -/
structure Reader (τ ν : Type) where
  text : List Char → Option (τ × List Char)
  number : List Char → Option (ν × List Char)
  null : ν
  bool : Bool → ν
  str : τ → ν
  arr : List ν → ν
  obj : List (τ × ν) → ν

namespace Reader

variable {τ ν : Type} (reader : Reader τ ν)

/-- A word or a number at the start of a text. -/
def readScalar : List Char → Option (ν × List Char)
  | 'n' :: 'u' :: 'l' :: 'l' :: rest => some (reader.null, rest)
  | 't' :: 'r' :: 'u' :: 'e' :: rest => some (reader.bool true, rest)
  | 'f' :: 'a' :: 'l' :: 's' :: 'e' :: rest => some (reader.bool false, rest)
  | text => reader.number text

mutual

/-- A value at the start of a text. The fuel bounds the nesting and the lengths of lists together. -/
def readValue : Nat → List Char → Option (ν × List Char)
  | 0, _ => none
  | fuel + 1, text =>
      match skipBlank text with
      | '"' :: rest => (reader.text rest).map fun (value, rest) ↦ (reader.str value, rest)
      | '[' :: rest =>
          match skipBlank rest with
          | ']' :: rest => some (reader.arr [], rest)
          | rest => (readItems fuel rest).map fun (items, rest) ↦ (reader.arr items, rest)
      | '\x7b' :: rest =>
          match skipBlank rest with
          | '\x7d' :: rest => some (reader.obj [], rest)
          | rest => (readFields fuel rest).map fun (fields, rest) ↦ (reader.obj fields, rest)
      | text => reader.readScalar text

/-- One item of an array and those after it, up to the closing bracket. -/
def readItems : Nat → List Char → Option (List ν × List Char)
  | 0, _ => none
  | fuel + 1, text => do
      let (item, rest) ← readValue fuel text
      match skipBlank rest with
      | ']' :: rest => some ([item], rest)
      | ',' :: rest =>
          let (items, rest) ← readItems fuel rest
          some (item :: items, rest)
      | _ => none

/-- One property of an object and those after it, up to the closing brace. -/
def readFields : Nat → List Char → Option (List (τ × ν) × List Char)
  | 0, _ => none
  | fuel + 1, text =>
      match skipBlank text with
      | '"' :: rest => do
          let (name, rest) ← reader.text rest
          match skipBlank rest with
          | ':' :: rest =>
              let (value, rest) ← readValue fuel rest
              match skipBlank rest with
              | '\x7d' :: rest => some ([(name, value)], rest)
              | ',' :: rest =>
                  let (fields, rest) ← readFields fuel rest
                  some ((name, value) :: fields, rest)
              | _ => none
          | _ => none
      | _ => none

end

/-- The value of a whole text. -/
def parse (text : String) : Option ν := do
  let (value, rest) ← reader.readValue (text.toList.length + 1) text.toList
  if skipBlank rest = [] then some value else none

/-! ## What is built from a written tree -/

variable (number : Decimal → ν)

mutual

/-- What a reader builds from the parts of a tree. -/
def build : Tree τ → ν
  | .null => reader.null
  | .bool value => reader.bool value
  | .num value => number value
  | .str value => reader.str value
  | .arr items => reader.arr (buildItems items)
  | .obj fields => reader.obj (buildFields fields)

/-- What a reader builds from the items of an array. -/
def buildItems : List (Tree τ) → List ν
  | [] => []
  | item :: rest => build item :: buildItems rest

/-- What a reader builds from the properties of an object. -/
def buildFields : List (τ × Tree τ) → List (τ × ν)
  | [] => []
  | (name, value) :: rest => (name, build value) :: buildFields rest

end

variable {reader number}

/-- The reader reads back every quoted text and the text of every numeral. -/
structure Reads (reader : Reader τ ν) (quoting : Quoting τ) (number : Decimal → ν)
    (numeral : Decimal → Prop) : Prop where
  text : ∀ text rest, ∃ chars, quoting.quote text ++ rest = '"' :: chars ∧
    reader.text chars = some (text, rest)
  number : ∀ value rest, numeral value → Ends rest →
    reader.number (numberText value ++ rest) = some (number value, rest)

end Reader

namespace Tree

variable {τ : Type} (numeral : Decimal → Prop)

mutual

/-- Every number of a tree is a numeral. -/
def Numerals : Tree τ → Prop
  | .num value => numeral value
  | .arr items => NumeralItems items
  | .obj fields => NumeralFields fields
  | .null | .bool _ | .str _ => True

/-- Every number of the items is a numeral. -/
def NumeralItems : List (Tree τ) → Prop
  | [] => True
  | item :: rest => item.Numerals ∧ NumeralItems rest

/-- Every number of the values of the properties is a numeral. -/
def NumeralFields : List (τ × Tree τ) → Prop
  | [] => True
  | (_, value) :: rest => value.Numerals ∧ NumeralFields rest

end

variable {numeral}

theorem numeralItems_iff {items : List (Tree τ)} :
    NumeralItems numeral items ↔ ∀ item ∈ items, item.Numerals numeral := by
  induction items with
  | nil => simp [NumeralItems]
  | cons item rest ih => simp [NumeralItems, ih]

theorem numeralFields_iff {fields : List (τ × Tree τ)} :
    NumeralFields numeral fields ↔ ∀ property ∈ fields, property.2.Numerals numeral := by
  induction fields with
  | nil => simp [NumeralFields]
  | cons property rest ih => simp [NumeralFields, ih]

end Tree

theorem skipBlank_cons {c : Char} (h : isBlank c = false) (rest : List Char) :
    skipBlank (c :: rest) = c :: rest := by
  rw [skipBlank, List.dropWhile_cons, h]
  rfl

theorem isBlank_of_isNumberChar {c : Char} (h : isNumberChar c = true) : isBlank c = false := by
  have hne : c ≠ ' ' ∧ c ≠ '\t' ∧ c ≠ '\n' ∧ c ≠ '\r' := by
    refine ⟨?_, ?_, ?_, ?_⟩ <;> rintro rfl <;> exact absurd h (by decide)
  simp [isBlank, hne]

namespace Reader

variable {τ ν : Type} {reader : Reader τ ν} {quoting : Quoting τ} {number : Decimal → ν}
  {numeral : Decimal → Prop}

theorem skipBlank_renderItems (items : List (Tree τ)) (rest : List Char) :
    skipBlank (Tree.renderItems quoting [','] items ++ rest) =
      Tree.renderItems quoting [','] items ++ rest := by
  cases items <;> rfl

theorem skipBlank_renderFields (fields : List (τ × Tree τ)) (rest : List Char) :
    skipBlank (Tree.renderFields quoting [','] fields ++ rest) =
      Tree.renderFields quoting [','] fields ++ rest := by
  cases fields <;> rfl

theorem ends_renderItems (items : List (Tree τ)) (rest : List Char) :
    Ends (Tree.renderItems quoting [','] items ++ rest) := by
  cases items <;> simp [Ends, Tree.renderItems]

theorem ends_renderFields (fields : List (τ × Tree τ)) (rest : List Char) :
    Ends (Tree.renderFields quoting [','] fields ++ rest) := by
  cases fields <;> simp [Ends, Tree.renderFields]

/-- A number is read as a value. -/
theorem readValue_number (h : Reads reader quoting number numeral) {value : Decimal}
    (hvalue : numeral value) (fuel : Nat) {rest : List Char} (hrest : Ends rest) :
    reader.readValue (fuel + 1) (numberText value ++ rest) = some (number value, rest) := by
  have hread := h.number value rest hvalue hrest
  obtain ⟨c, digits, htext, hc⟩ := exists_numberText_eq_cons value
  have hopen : c ≠ '"' ∧ c ≠ '[' ∧ c ≠ '\x7b' ∧ c ≠ 'n' ∧ c ≠ 't' ∧ c ≠ 'f' := by
    refine ⟨?_, ?_, ?_, ?_, ?_, ?_⟩ <;> rintro rfl <;> exact absurd hc (by decide)
  obtain ⟨hquote, hbracket, hbrace, hnull, htrue, hfalse⟩ := hopen
  rw [htext, List.cons_append] at hread ⊢
  have hskip := skipBlank_cons (isBlank_of_isNumberChar hc) (digits ++ rest)
  have hscalar : reader.readScalar (c :: (digits ++ rest)) = some (number value, rest) := by
    rw [readScalar, hread]
    all_goals simp [hnull, htrue, hfalse]
  rw [readValue, hskip]
  split
  · rename_i heq; exact absurd (List.cons.inj heq).1 hquote
  · rename_i heq; exact absurd (List.cons.inj heq).1 hbracket
  · rename_i heq; exact absurd (List.cons.inj heq).1 hbrace
  · exact hscalar

/-- A value begins with no white space and no closing bracket. -/
theorem exists_render_eq_cons (value : Tree τ) :
    ∃ c chars, Tree.render quoting value = c :: chars ∧ isBlank c = false ∧ c ≠ ']' := by
  cases value with
  | null => exact ⟨_, _, rfl, rfl, by decide⟩
  | bool value => cases value <;> exact ⟨_, _, rfl, rfl, by decide⟩
  | num value =>
      obtain ⟨c, chars, htext, hc⟩ := exists_numberText_eq_cons value
      refine ⟨c, chars, by rw [Tree.render, htext], isBlank_of_isNumberChar hc, ?_⟩
      rintro rfl
      exact absurd hc (by decide)
  | str value =>
      obtain ⟨chars, hquote⟩ := quoting.opens value
      exact ⟨'"', chars, by rw [Tree.render, hquote], rfl, by decide⟩
  | arr items => exact ⟨_, _, rfl, rfl, by decide⟩
  | obj fields => exact ⟨_, _, rfl, rfl, by decide⟩

/-- An array that does not close at once is read item by item. -/
theorem readValue_bracket {c : Char} (chars : List Char) (fuel : Nat) (hblank : isBlank c = false)
    (hclose : c ≠ ']') : reader.readValue (fuel + 1) ('[' :: c :: chars) =
      (reader.readItems fuel (c :: chars)).map fun (items, rest) ↦ (reader.arr items, rest) := by
  have hskip := skipBlank_cons hblank chars
  show (match skipBlank (c :: chars) with
    | ']' :: rest => some (reader.arr [], rest)
    | rest => (reader.readItems fuel rest).map fun (items, rest) ↦ (reader.arr items, rest)) = _
  rw [hskip]
  split
  · rename_i heq
    exact absurd (List.cons.inj heq).1 hclose
  · rfl

mutual

/-- What a reader builds from a written tree when a separator or nothing follows it. -/
theorem readValue_render (h : Reads reader quoting number numeral) (value : Tree τ)
    (hvalue : value.Numerals numeral) (fuel : Nat) {rest : List Char}
    (hfuel : (Tree.render quoting value).length < fuel) (hrest : Ends rest) :
    reader.readValue fuel (Tree.render quoting value ++ rest) =
      some (reader.build number value, rest) := by
  obtain ⟨fuel, rfl⟩ := Nat.exists_eq_add_one.mpr (Nat.zero_lt_of_lt hfuel)
  match value with
  | .null | .bool true | .bool false => rfl
  | .num value => exact readValue_number h hvalue fuel hrest
  | .str text =>
      obtain ⟨chars, hquote, hread⟩ := h.text text rest
      rw [Tree.render, hquote]
      show (reader.text chars).map _ = _
      rw [hread]
      rfl
  | .arr [] => rfl
  | .arr (item :: items) =>
      have hitems := readItems_render h (item :: items) hvalue (List.cons_ne_nil _ _) rest
        fuel (by simpa [Tree.render] using hfuel)
      obtain ⟨c, chars, hitem, hblank, hclose⟩ := @exists_render_eq_cons _ quoting item
      rw [Tree.render, List.cons_append]
      rw [Tree.renderItems, List.nil_append, hitem, List.cons_append, List.cons_append] at hitems ⊢
      rw [readValue_bracket _ fuel hblank hclose, hitems]
      rfl
  | .obj [] => rfl
  | .obj ((name, value) :: fields) =>
      have hfields := readFields_render h ((name, value) :: fields) hvalue (List.cons_ne_nil _ _) rest
        fuel (by simpa [Tree.render] using hfuel)
      obtain ⟨chars, hquote⟩ := quoting.opens name
      rw [Tree.render, List.cons_append]
      rw [Tree.renderFields, List.nil_append, hquote, List.cons_append, List.cons_append] at hfields ⊢
      show (reader.readFields fuel _).map _ = _
      rw [hfields]
      rfl

/-- The items of an array are read up to its closing bracket. -/
theorem readItems_render (h : Reads reader quoting number numeral) (items : List (Tree τ))
    (hitems : Tree.NumeralItems numeral items) (hne : items ≠ []) (rest : List Char) (fuel : Nat)
    (hfuel : (Tree.renderItems quoting [] items).length < fuel) :
    reader.readItems fuel (Tree.renderItems quoting [] items ++ rest) =
      some (reader.buildItems number items, rest) := by
  obtain ⟨fuel, rfl⟩ := Nat.exists_eq_add_one.mpr (Nat.zero_lt_of_lt hfuel)
  match items with
  | [] => exact absurd rfl hne
  | item :: more =>
      have hends := @ends_renderItems _ quoting more rest
      rw [Tree.renderItems, List.nil_append, List.length_append] at hfuel
      have hclosing : 0 < (Tree.renderItems quoting [','] more).length := by
        cases more <;> simp [Tree.renderItems]
      have hitem := readValue_render h item hitems.1 fuel (by omega) hends
      rw [Tree.renderItems, List.nil_append, List.append_assoc, readItems, hitem]
      show (match skipBlank (Tree.renderItems quoting [','] more ++ rest) with
        | ']' :: rest => some ([reader.build number item], rest)
        | ',' :: rest => (reader.readItems fuel rest).bind fun (items, rest) ↦
            some (reader.build number item :: items, rest)
        | _ => none) = _
      rw [skipBlank_renderItems]
      match more with
      | [] => rfl
      | next :: others =>
          rw [Tree.renderItems, List.length_append, List.length_singleton] at hfuel
          have hmore := readItems_render h (next :: others) hitems.2 (List.cons_ne_nil _ _) rest
            fuel (by rw [Tree.renderItems, List.nil_append]; omega)
          show (reader.readItems fuel (Tree.renderItems quoting [] (next :: others) ++ rest)).bind _ = _
          rw [hmore]
          rfl

/-- The properties of an object are read up to its closing brace. -/
theorem readFields_render (h : Reads reader quoting number numeral) (fields : List (τ × Tree τ))
    (hfields : Tree.NumeralFields numeral fields) (hne : fields ≠ []) (rest : List Char) (fuel : Nat)
    (hfuel : (Tree.renderFields quoting [] fields).length < fuel) :
    reader.readFields fuel (Tree.renderFields quoting [] fields ++ rest) =
      some (reader.buildFields number fields, rest) := by
  obtain ⟨fuel, rfl⟩ := Nat.exists_eq_add_one.mpr (Nat.zero_lt_of_lt hfuel)
  match fields with
  | [] => exact absurd rfl hne
  | (name, value) :: more =>
      have hends := @ends_renderFields _ quoting more rest
      rw [Tree.renderFields, List.nil_append, List.length_append, List.length_cons,
        List.length_append] at hfuel
      have hclosing : 0 < (Tree.renderFields quoting [','] more).length := by
        cases more <;> simp [Tree.renderFields]
      have hvalue := readValue_render h value hfields.1 fuel (by omega) hends
      obtain ⟨chars, hquote, hname⟩ := h.text name
        (':' :: (Tree.render quoting value ++ (Tree.renderFields quoting [','] more ++ rest)))
      -- the name, then the value, then what the reader does at the separator or the brace after it
      have htext : Tree.renderFields quoting [] ((name, value) :: more) ++ rest = '"' :: chars := by
        rw [← hquote]
        simp [Tree.renderFields]
      rw [htext]
      show ((reader.text chars).bind fun (name, rest) ↦ match skipBlank rest with
        | ':' :: rest => (reader.readValue fuel rest).bind fun (value, rest) ↦
            match skipBlank rest with
            | '\x7d' :: rest => some ([(name, value)], rest)
            | ',' :: rest => (reader.readFields fuel rest).bind fun (fields, rest) ↦
                some ((name, value) :: fields, rest)
            | _ => none
        | _ => none) = _
      rw [hname]
      show (reader.readValue fuel (Tree.render quoting value ++
        (Tree.renderFields quoting [','] more ++ rest))).bind _ = _
      rw [hvalue]
      show (match skipBlank (Tree.renderFields quoting [','] more ++ rest) with
        | '\x7d' :: rest => some ([(name, reader.build number value)], rest)
        | ',' :: rest => (reader.readFields fuel rest).bind fun (fields, rest) ↦
            some ((name, reader.build number value) :: fields, rest)
        | _ => none) = _
      rw [skipBlank_renderFields]
      match more with
      | [] => rfl
      | (next, other) :: others =>
          rw [Tree.renderFields, List.length_append, List.length_singleton] at hfuel
          have hmore := readFields_render h ((next, other) :: others) hfields.2 (List.cons_ne_nil _ _)
            rest fuel (by rw [Tree.renderFields, List.nil_append]; omega)
          show (reader.readFields fuel
            (Tree.renderFields quoting [] ((next, other) :: others) ++ rest)).bind _ = _
          rw [hmore]
          rfl

end

/-- A reader builds its value of a written tree from the whole text. -/
theorem parse_render (h : Reads reader quoting number numeral) {value : Tree τ}
    (hvalue : value.Numerals numeral) :
    reader.parse (String.ofList (Tree.render quoting value)) = some (reader.build number value) := by
  have hread := @readValue_render _ _ _ _ _ _ h value hvalue
    ((Tree.render quoting value).length + 1) [] (by omega) (by simp [Ends])
  rw [List.append_nil] at hread
  rw [parse, String.toList_ofList, hread]
  rfl

end Reader

end Json
