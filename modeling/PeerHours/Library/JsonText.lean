import PeerHours.Library.JsonTree

/-!
# JSON text

`stringify` writes a value without white space, with the escapes of `JSON.stringify`. The text determines the
value.
-/

namespace Json

/-- The lower-case hexadecimal digit of a number below sixteen. -/
def hexDigit (value : Nat) : Char :=
  if value < 10 then Char.ofNat (value + 48) else Char.ofNat (value + 87)

/-- One character inside a JSON string. -/
def escapeChar (c : Char) : List Char :=
  if c = '"' then ['\\', '"']
  else if c = '\\' then ['\\', '\\']
  else if c.toNat = 8 then ['\\', 'b']
  else if c.toNat = 9 then ['\\', 't']
  else if c.toNat = 10 then ['\\', 'n']
  else if c.toNat = 12 then ['\\', 'f']
  else if c.toNat = 13 then ['\\', 'r']
  else if c.toNat < 32 then ['\\', 'u', '0', '0', hexDigit (c.toNat / 16), hexDigit (c.toNat % 16)]
  else [c]

/-- A JSON string with its quotation marks. -/
def quote (text : String) : List Char :=
  '"' :: (text.toList.flatMap escapeChar ++ ['"'])

mutual

/-- The characters of a value. -/
def render : JsonValue → List Char
  | .null => ['n', 'u', 'l', 'l']
  | .bool true => ['t', 'r', 'u', 'e']
  | .bool false => ['f', 'a', 'l', 's', 'e']
  | .num value => numberText value
  | .str value => quote value
  | .arr items => '[' :: renderItems [] items
  | .obj fields => '{' :: renderFields [] fields

/-- The remaining items of an array, each after the separator, and its closing bracket. -/
def renderItems (separator : List Char) : List JsonValue → List Char
  | [] => [']']
  | item :: rest => separator ++ (render item ++ renderItems [','] rest)

/-- The remaining properties of an object, each after the separator, and its closing brace. -/
def renderFields (separator : List Char) : List (String × JsonValue) → List Char
  | [] => ['}']
  | (name, value) :: rest =>
      separator ++ (quote name ++ ':' :: (render value ++ renderFields [','] rest))

end

/-- The compact text of a value. -/
def stringify (value : JsonValue) : String :=
  String.ofList (render value)

/-! ## Strings -/

/-- Read back one escaped character. -/
def unescape : List Char → Option (Char × List Char)
  | '\\' :: 'u' :: '0' :: '0' :: high :: low :: rest =>
      let hexValue (digit : Char) : Nat :=
        if digit.toNat < 58 then digit.toNat - 48 else digit.toNat - 87
      some (Char.ofNat (16 * hexValue high + hexValue low), rest)
  | '\\' :: 'b' :: rest => some (Char.ofNat 8, rest)
  | '\\' :: 't' :: rest => some (Char.ofNat 9, rest)
  | '\\' :: 'n' :: rest => some (Char.ofNat 10, rest)
  | '\\' :: 'f' :: rest => some (Char.ofNat 12, rest)
  | '\\' :: 'r' :: rest => some (Char.ofNat 13, rest)
  | '\\' :: c :: rest => some (c, rest)
  | c :: rest => some (c, rest)
  | [] => none

theorem unescape_escapeChar (c : Char) (rest : List Char) :
    unescape (escapeChar c ++ rest) = some (c, rest) := by
  by_cases hcontrol : c.toNat < 32
  · have hc : c = Char.ofNat c.toNat := (Char.ofNat_toNat c).symm
    generalize c.toNat = code at hc hcontrol
    subst hc
    interval_cases code <;> rfl
  · by_cases hquote : c = '"'
    · subst hquote; rfl
    · by_cases hslash : c = '\\'
      · subst hslash; rfl
      · have hplain : escapeChar c = [c] := by
          unfold escapeChar
          rw [if_neg hquote, if_neg hslash, if_neg (by omega), if_neg (by omega), if_neg (by omega),
            if_neg (by omega), if_neg (by omega), if_neg hcontrol]
        rw [hplain, List.singleton_append]
        unfold unescape
        split <;> simp_all

/-- No escape begins with a quotation mark. -/
theorem escapeChar_ne_quote (c : Char) (rest tail : List Char) :
    escapeChar c ++ rest ≠ '"' :: tail := by
  unfold escapeChar
  split_ifs with h <;> simp [h]

theorem escapeChar_inj {c d : Char} {s t : List Char}
    (h : escapeChar c ++ s = escapeChar d ++ t) : c = d ∧ s = t := by
  have hread := congrArg unescape h
  simpa [unescape_escapeChar] using hread

/-- A quoted string can be read back whatever follows it. -/
theorem quote_append_inj {left right : String} {s t : List Char}
    (h : quote left ++ s = quote right ++ t) : left = right ∧ s = t := by
  simp only [quote, List.cons_append, List.append_assoc, List.nil_append, List.cons.injEq,
    true_and] at h
  rw [← String.toList_inj]
  generalize left.toList = xs at h
  generalize right.toList = ys at h
  induction xs generalizing ys with
  | nil =>
      cases ys with
      | nil => simpa using h
      | cons y ys =>
          rw [List.flatMap_cons, List.append_assoc] at h
          exact absurd h.symm (escapeChar_ne_quote y _ _)
  | cons x xs ih =>
      cases ys with
      | nil =>
          rw [List.flatMap_cons, List.append_assoc] at h
          exact absurd h (escapeChar_ne_quote x _ _)
      | cons y ys =>
          rw [List.flatMap_cons, List.append_assoc, List.flatMap_cons, List.append_assoc] at h
          obtain ⟨rfl, hrest⟩ := escapeChar_inj h
          obtain ⟨rfl, rfl⟩ := ih ys hrest
          exact ⟨rfl, rfl⟩

/-- JSON strings. -/
def quoting : Quoting String where
  quote := quote
  opens _ := ⟨_, rfl⟩
  readable := quote_append_inj

/-! ## Values -/

mutual

/-- The tree of a value. -/
def JsonValue.tree : JsonValue → Tree String
  | .null => .null
  | .bool value => .bool value
  | .num value => .num value
  | .str value => .str value
  | .arr items => .arr (itemTrees items)
  | .obj fields => .obj (fieldTrees fields)

/-- The trees of the items of an array. -/
def JsonValue.itemTrees : List JsonValue → List (Tree String)
  | [] => []
  | item :: rest => item.tree :: itemTrees rest

/-- The trees of the properties of an object. -/
def JsonValue.fieldTrees : List (String × JsonValue) → List (String × Tree String)
  | [] => []
  | (name, value) :: rest => (name, value.tree) :: fieldTrees rest

end

mutual

/-- The tree determines the value. -/
theorem JsonValue.tree_inj {left right : JsonValue} (h : left.tree = right.tree) : left = right := by
  match left, right with
  | .null, .null => rfl
  | .bool _, .bool _ | .num _, .num _ | .str _, .str _ =>
      simpa [JsonValue.tree] using h
  | .arr _, .arr _ =>
      rw [JsonValue.tree, JsonValue.tree, Tree.arr.injEq] at h
      rw [JsonValue.itemTrees_inj h]
  | .obj _, .obj _ =>
      rw [JsonValue.tree, JsonValue.tree, Tree.obj.injEq] at h
      rw [JsonValue.fieldTrees_inj h]

theorem JsonValue.itemTrees_inj {left right : List JsonValue}
    (h : JsonValue.itemTrees left = JsonValue.itemTrees right) : left = right := by
  match left, right with
  | [], [] => rfl
  | [], _ :: _ | _ :: _, [] => simp [JsonValue.itemTrees] at h
  | item :: rest, item' :: rest' =>
      rw [JsonValue.itemTrees, JsonValue.itemTrees, List.cons.injEq] at h
      rw [JsonValue.tree_inj h.1, JsonValue.itemTrees_inj h.2]

theorem JsonValue.fieldTrees_inj {left right : List (String × JsonValue)}
    (h : JsonValue.fieldTrees left = JsonValue.fieldTrees right) : left = right := by
  match left, right with
  | [], [] => rfl
  | [], _ :: _ | _ :: _, [] => simp [JsonValue.fieldTrees] at h
  | (name, value) :: rest, (name', value') :: rest' =>
      rw [JsonValue.fieldTrees, JsonValue.fieldTrees, List.cons.injEq, Prod.mk.injEq] at h
      rw [h.1.1, JsonValue.tree_inj h.1.2, JsonValue.fieldTrees_inj h.2]

end

mutual

/-- A value is written like its tree. -/
theorem render_tree (value : JsonValue) : Tree.render quoting value.tree = render value := by
  match value with
  | .null | .bool true | .bool false | .num _ | .str _ => rfl
  | .arr items => rw [JsonValue.tree, Tree.render, render, renderItems_tree [] items]
  | .obj fields => rw [JsonValue.tree, Tree.render, render, renderFields_tree [] fields]

theorem renderItems_tree (separator : List Char) (items : List JsonValue) :
    Tree.renderItems quoting separator (JsonValue.itemTrees items) = renderItems separator items := by
  match items with
  | [] => rfl
  | item :: rest =>
      rw [JsonValue.itemTrees, Tree.renderItems, renderItems, render_tree item,
        renderItems_tree [','] rest]

theorem renderFields_tree (separator : List Char) (fields : List (String × JsonValue)) :
    Tree.renderFields quoting separator (JsonValue.fieldTrees fields) =
      renderFields separator fields := by
  match fields with
  | [] => rfl
  | (name, value) :: rest =>
      rw [JsonValue.fieldTrees, Tree.renderFields, renderFields, render_tree value,
        renderFields_tree [','] rest]
      rfl

end

/-- The text determines the value. -/
theorem stringify_inj {left right : JsonValue} : stringify left = stringify right ↔ left = right := by
  refine ⟨fun h ↦ ?_, fun h ↦ h ▸ rfl⟩
  have htext : render left = render right := String.ofList_injective h
  rw [← render_tree, ← render_tree, Tree.render_inj] at htext
  exact JsonValue.tree_inj htext

/-- Values are compared through their text. -/
instance : DecidableEq JsonValue := fun _ _ ↦ decidable_of_iff _ stringify_inj

example : stringify (.obj [("id", .str "a\"b"), ("minutes", .int (-90)), ("more", .arr [.null])]) =
    "\x7b\"id\":\"a\\\"b\",\"minutes\":-90,\"more\":[null]\x7d" := by decide

end Json
