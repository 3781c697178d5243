import PeerHours.Library.JsonParse

/-!
# Indented JSON text

The text that `JSON.stringify` writes with an indentation of two: each item and each property has a line of its own.
A parser skips the indentation, so the text is read back as the value.
-/

namespace Json

/-- A line break and the indentation of a depth. -/
def newline (depth : Nat) : List Char :=
  '\n' :: List.replicate (2 * depth) ' '

mutual

/-- The text of a value at a depth. -/
def renderIndented (depth : Nat) : JsonValue → List Char
  | .arr items => '[' :: itemLines depth [] items
  | .obj fields => '\x7b' :: fieldLines depth [] fields
  | value => render value

/-- The lines of the items of an array; an empty array stays on its line. -/
def itemLines (depth : Nat) (separator : List Char) : List JsonValue → List Char
  | [] => (if separator = [] then [] else newline depth) ++ [']']
  | item :: rest =>
      separator ++ (newline (depth + 1) ++ (renderIndented (depth + 1) item ++ itemLines depth [','] rest))

/-- The lines of the properties of an object; an empty object stays on its line. -/
def fieldLines (depth : Nat) (separator : List Char) : List (String × JsonValue) → List Char
  | [] => (if separator = [] then [] else newline depth) ++ ['\x7d']
  | (name, value) :: rest =>
      separator ++ (newline (depth + 1) ++ (quote name ++ ':' :: ' ' ::
        (renderIndented (depth + 1) value ++ fieldLines depth [','] rest)))

end

/-- `JSON.stringify(value, null, 2)`. -/
def stringifyIndented (value : JsonValue) : String :=
  String.ofList (renderIndented 0 value)

/-! ## Skipping the indentation -/

theorem skipBlank_newline (depth : Nat) (text : List Char) :
    skipBlank (newline depth ++ text) = skipBlank text :=
  List.dropWhile_append_of_pos fun c hc ↦ by
    rcases List.mem_cons.mp hc with rfl | hspace
    · rfl
    · rw [List.eq_of_mem_replicate hspace]
      rfl

theorem readValue_newline (fuel depth : Nat) (text : List Char) :
    jsonReader.readValue fuel (newline depth ++ text) = jsonReader.readValue fuel text := by
  cases fuel with
  | zero => rfl
  | succ fuel => rw [Reader.readValue, Reader.readValue, skipBlank_newline]

theorem readItems_newline (fuel depth : Nat) (text : List Char) :
    jsonReader.readItems fuel (newline depth ++ text) = jsonReader.readItems fuel text := by
  cases fuel with
  | zero => rfl
  | succ fuel => rw [Reader.readItems, Reader.readItems, readValue_newline]

theorem readFields_newline (fuel depth : Nat) (text : List Char) :
    jsonReader.readFields fuel (newline depth ++ text) = jsonReader.readFields fuel text := by
  cases fuel with
  | zero => rfl
  | succ fuel => rw [Reader.readFields, Reader.readFields, skipBlank_newline]

theorem readValue_space (fuel : Nat) (text : List Char) :
    jsonReader.readValue fuel (' ' :: text) = jsonReader.readValue fuel text := by
  cases fuel with
  | zero => rfl
  | succ fuel => rw [Reader.readValue, Reader.readValue]; rfl

/-! ## Reading indented text -/

theorem ends_itemLines (depth : Nat) (items : List JsonValue) (rest : List Char) :
    Ends (itemLines depth [','] items ++ rest) := by
  cases items <;> simp [Ends, itemLines, newline]

theorem ends_fieldLines (depth : Nat) (fields : List (String × JsonValue)) (rest : List Char) :
    Ends (fieldLines depth [','] fields ++ rest) := by
  cases fields with
  | nil => simp [Ends, fieldLines, newline]
  | cons property fields => simp [Ends, fieldLines]

/-- A value begins with no white space and no closing bracket. -/
theorem exists_renderIndented_eq_cons (depth : Nat) (value : JsonValue) :
    ∃ c chars, renderIndented depth value = c :: chars ∧ isBlank c = false ∧ c ≠ ']' := by
  cases value with
  | arr | obj => exact ⟨_, _, rfl, rfl, by decide⟩
  | null => exact ⟨_, _, rfl, rfl, by decide⟩
  | bool value => cases value <;> exact ⟨_, _, rfl, rfl, by decide⟩
  | num value => exact @Reader.exists_render_eq_cons _ quoting (.num value)
  | str value => exact ⟨_, _, rfl, rfl, by decide⟩

theorem length_itemLines_pos (depth : Nat) (separator : List Char) (items : List JsonValue) :
    0 < (itemLines depth separator items).length := by
  cases items <;> simp [itemLines, newline]

theorem length_fieldLines_pos (depth : Nat) (separator : List Char)
    (fields : List (String × JsonValue)) : 0 < (fieldLines depth separator fields).length := by
  cases fields <;> simp [fieldLines, newline]

mutual

/-- An indented value is read back when a separator, a line break or nothing follows it. -/
theorem readValue_renderIndented (value : JsonValue) (depth : Nat) (hvalue : WellFormed value)
    (fuel : Nat) {rest : List Char} (hfuel : (renderIndented depth value).length < fuel)
    (hrest : Ends rest) : jsonReader.readValue fuel (renderIndented depth value ++ rest) = some (value, rest) := by
  match value with
  | .null => exact readValue_render .null hvalue fuel hfuel hrest
  | .bool value => exact readValue_render (.bool value) hvalue fuel hfuel hrest
  | .num value => exact readValue_render (.num value) hvalue fuel hfuel hrest
  | .str value => exact readValue_render (.str value) hvalue fuel hfuel hrest
  | .arr [] =>
      obtain ⟨fuel, rfl⟩ := Nat.exists_eq_add_one.mpr (Nat.zero_lt_of_lt hfuel)
      rfl
  | .obj [] =>
      obtain ⟨fuel, rfl⟩ := Nat.exists_eq_add_one.mpr (Nat.zero_lt_of_lt hfuel)
      rfl
  | .arr (item :: items) =>
      obtain ⟨fuel, rfl⟩ := Nat.exists_eq_add_one.mpr (Nat.zero_lt_of_lt hfuel)
      have hitems := readItems_itemLines (item :: items) depth hvalue (List.cons_ne_nil _ _) rest
        fuel (by simpa [renderIndented] using hfuel)
      obtain ⟨c, chars, hitem, hblank, hclose⟩ := exists_renderIndented_eq_cons (depth + 1) item
      have hskip : skipBlank (itemLines depth [] (item :: items) ++ rest) =
          c :: (chars ++ (itemLines depth [','] items ++ rest)) := by
        rw [itemLines, List.nil_append, hitem, List.append_assoc, skipBlank_newline, List.cons_append,
          List.cons_append, skipBlank_cons hblank, List.append_assoc]
      rw [itemLines, List.nil_append, hitem, List.append_assoc, readItems_newline, List.cons_append,
        List.cons_append, List.append_assoc] at hitems
      show (match skipBlank (itemLines depth [] (item :: items) ++ rest) with
        | ']' :: rest => some (JsonValue.arr [], rest)
        | rest => (jsonReader.readItems fuel rest).map fun (items, rest) ↦ (.arr items, rest)) = _
      rw [hskip]
      split
      · rename_i heq
        exact absurd (List.cons.inj heq).1 hclose
      · rw [hitems]
        rfl
  | .obj ((name, value) :: fields) =>
      obtain ⟨fuel, rfl⟩ := Nat.exists_eq_add_one.mpr (Nat.zero_lt_of_lt hfuel)
      have hfields := readFields_fieldLines ((name, value) :: fields) depth hvalue.2
        (List.cons_ne_nil _ _) rest fuel (by simpa [renderIndented] using hfuel)
      have hskip : ∃ text, skipBlank (fieldLines depth [] ((name, value) :: fields) ++ rest) =
          '"' :: text ∧ jsonReader.readFields fuel ('"' :: text) =
            jsonReader.readFields fuel (fieldLines depth [] ((name, value) :: fields) ++ rest) := by
        rw [fieldLines, List.nil_append, List.append_assoc, skipBlank_newline, readFields_newline]
        exact ⟨_, rfl, rfl⟩
      obtain ⟨text, hskip, hsame⟩ := hskip
      show (match skipBlank (fieldLines depth [] ((name, value) :: fields) ++ rest) with
        | '\x7d' :: rest => some (JsonValue.obj [], rest)
        | rest => (jsonReader.readFields fuel rest).map fun (fields, rest) ↦ (.obj (assigned fields), rest)) = _
      rw [hskip]
      show (jsonReader.readFields fuel ('"' :: text)).map _ = _
      rw [hsame, hfields]
      show some (JsonValue.obj (assigned ((name, value) :: fields)), rest) = _
      rw [hvalue.1.assigned_eq]

/-- The items of an array are read up to its closing bracket. -/
theorem readItems_itemLines (items : List JsonValue) (depth : Nat) (hitems : WellFormedItems items)
    (hne : items ≠ []) (rest : List Char) (fuel : Nat)
    (hfuel : (itemLines depth [] items).length < fuel) :
    jsonReader.readItems fuel (itemLines depth [] items ++ rest) = some (items, rest) := by
  obtain ⟨fuel, rfl⟩ := Nat.exists_eq_add_one.mpr (Nat.zero_lt_of_lt hfuel)
  match items with
  | [] => exact absurd rfl hne
  | item :: more =>
      have hends := ends_itemLines depth more rest
      rw [itemLines, List.nil_append, List.length_append, List.length_append] at hfuel
      have hclosing := length_itemLines_pos depth [','] more
      have hitem := readValue_renderIndented item (depth + 1) hitems.1 fuel (by omega) hends
      rw [itemLines, List.nil_append, List.append_assoc, readItems_newline, List.append_assoc, Reader.readItems,
        hitem]
      show (match skipBlank (itemLines depth [','] more ++ rest) with
        | ']' :: rest => some ([item], rest)
        | ',' :: rest => (jsonReader.readItems fuel rest).bind fun (items, rest) ↦ some (item :: items, rest)
        | _ => none) = _
      match more with
      | [] =>
          rw [itemLines, if_neg (List.cons_ne_nil _ _), List.append_assoc, skipBlank_newline]
          rfl
      | next :: others =>
          rw [itemLines, List.length_append, List.length_singleton] at hfuel
          have hmore := readItems_itemLines (next :: others) depth hitems.2 (List.cons_ne_nil _ _) rest
            fuel (by rw [itemLines, List.nil_append]; omega)
          show (jsonReader.readItems fuel (itemLines depth [] (next :: others) ++ rest)).bind _ = _
          rw [hmore]
          rfl

/-- The properties of an object are read up to its closing brace. -/
theorem readFields_fieldLines (fields : List (String × JsonValue)) (depth : Nat)
    (hfields : WellFormedFields fields) (hne : fields ≠ []) (rest : List Char) (fuel : Nat)
    (hfuel : (fieldLines depth [] fields).length < fuel) :
    jsonReader.readFields fuel (fieldLines depth [] fields ++ rest) = some (fields, rest) := by
  obtain ⟨fuel, rfl⟩ := Nat.exists_eq_add_one.mpr (Nat.zero_lt_of_lt hfuel)
  match fields with
  | [] => exact absurd rfl hne
  | (name, value) :: more =>
      have hends := ends_fieldLines depth more rest
      rw [fieldLines, List.nil_append, List.length_append, List.length_append, List.length_cons,
        List.length_cons, List.length_append] at hfuel
      have hclosing := length_fieldLines_pos depth [','] more
      have hvalue := readValue_renderIndented value (depth + 1) hfields.1 fuel (by omega) hends
      have hname := readString_quote name (':' :: ' ' ::
        (renderIndented (depth + 1) value ++ (fieldLines depth [','] more ++ rest)))
      have htext : fieldLines depth [] ((name, value) :: more) ++ rest = newline (depth + 1) ++
          '"' :: (name.toList.flatMap escapeChar ++ '"' :: ':' :: ' ' ::
            (renderIndented (depth + 1) value ++ (fieldLines depth [','] more ++ rest))) := by
        simp [fieldLines, quote]
      rw [htext, readFields_newline]
      show ((readString _).bind fun (name, rest) ↦ match skipBlank rest with
        | ':' :: rest => (jsonReader.readValue fuel rest).bind fun (value, rest) ↦
            match skipBlank rest with
            | '\x7d' :: rest => some ([(name, value)], rest)
            | ',' :: rest => (jsonReader.readFields fuel rest).bind fun (fields, rest) ↦
                some ((name, value) :: fields, rest)
            | _ => none
        | _ => none) = _
      rw [hname]
      show (jsonReader.readValue fuel (' ' :: _)).bind _ = _
      rw [readValue_space, hvalue]
      show (match skipBlank (fieldLines depth [','] more ++ rest) with
        | '\x7d' :: rest => some ([(name, value)], rest)
        | ',' :: rest => (jsonReader.readFields fuel rest).bind fun (fields, rest) ↦
            some ((name, value) :: fields, rest)
        | _ => none) = _
      match more with
      | [] =>
          rw [fieldLines, if_neg (List.cons_ne_nil _ _), List.append_assoc, skipBlank_newline]
          rfl
      | (next, other) :: others =>
          rw [fieldLines, List.length_append, List.length_singleton] at hfuel
          have hmore := readFields_fieldLines ((next, other) :: others) depth hfields.2
            (List.cons_ne_nil _ _) rest fuel (by rw [fieldLines, List.nil_append]; omega)
          show (jsonReader.readFields fuel (fieldLines depth [] ((next, other) :: others) ++ rest)).bind _ = _
          rw [hmore]
          rfl

end

/-- Reading the indented text of a well formed value gives the value back, also with a line break after it. -/
theorem parse_stringifyIndented {value : JsonValue} (h : WellFormed value) :
    parse (stringifyIndented value ++ "\n") = some value := by
  have hread := @readValue_renderIndented value 0 h ((renderIndented 0 value ++ ['\n']).length + 1)
    ['\n'] (by rw [List.length_append, List.length_singleton]; omega) (by simp [Ends])
  rw [parse, Reader.parse, stringifyIndented, String.toList_append, String.toList_ofList]
  show (jsonReader.readValue ((renderIndented 0 value ++ ['\n']).length + 1) (renderIndented 0 value ++ ['\n'])).bind
    _ = _
  rw [hread]
  rfl

end Json
