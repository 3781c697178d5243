import PeerHours.Library.JsonNumbers

/-!
# JSON text over any text type

How a value is written without white space, whatever the type of its texts is, as long as a quoted text can be
read back. The written characters determine the value: whatever follows it, as long as that could not continue a
number, the value and the rest can be read back.
-/

namespace Json

/-! ## Values -/

/-- A value with texts of any type. -/
inductive Tree (τ : Type) where
  | null
  | bool (value : Bool)
  | num (value : Decimal)
  | str (value : τ)
  | arr (items : List (Tree τ))
  | obj (fields : List (τ × Tree τ))

/-- How a text is quoted: between quotation marks, so that it can be read back whatever follows. -/
structure Quoting (τ : Type) where
  quote : τ → List Char
  opens : ∀ text, ∃ rest, quote text = '"' :: rest
  readable : ∀ {left right : τ} {s t : List Char}, quote left ++ s = quote right ++ t →
    left = right ∧ s = t

namespace Tree

variable {τ : Type}

/-- The value under a property name in a list of properties. -/
def get [DecidableEq τ] (name : τ) (fields : List (τ × Tree τ)) : Option (Tree τ) :=
  (KeyedMap.lookup Prod.fst name fields).map Prod.snd

/-- The own property of a value, `none` when it is missing. -/
def field [DecidableEq τ] (value : Tree τ) (name : τ) : Option (Tree τ) :=
  match value with
  | .obj fields => get name fields
  | _ => none

/-- The own properties of a value, which a spread copies. -/
def properties : Tree τ → List (τ × Tree τ)
  | .obj fields => fields
  | _ => []

/-- A whole number. -/
def int (value : Int) : Tree τ := .num (.ofInt value)

theorem eq_obj_of_field [DecidableEq τ] {value found : Tree τ} {name : τ}
    (h : value.field name = some found) : value = .obj value.properties := by
  cases value <;> simp_all [field, properties]

mutual

/-- The characters of a value. -/
def render (quoting : Quoting τ) : Tree τ → List Char
  | .null => ['n', 'u', 'l', 'l']
  | .bool true => ['t', 'r', 'u', 'e']
  | .bool false => ['f', 'a', 'l', 's', 'e']
  | .num value => numberText value
  | .str value => quoting.quote value
  | .arr items => '[' :: renderItems quoting [] items
  | .obj fields => '{' :: renderFields quoting [] fields

/-- The remaining items of an array, each after the separator, and its closing bracket. -/
def renderItems (quoting : Quoting τ) (separator : List Char) : List (Tree τ) → List Char
  | [] => [']']
  | item :: rest => separator ++ (render quoting item ++ renderItems quoting [','] rest)

/-- The remaining properties of an object, each after the separator, and its closing brace. -/
def renderFields (quoting : Quoting τ) (separator : List Char) : List (τ × Tree τ) → List Char
  | [] => ['}']
  | (name, value) :: rest =>
      separator ++ (quoting.quote name ++ ':' :: (render quoting value ++
        renderFields quoting [','] rest))

end

/-- The first character of a value tells which constructor wrote it. -/
def leadClass (c : Char) : Nat :=
  if c = 'n' then 0 else if c = 't' then 1 else if c = 'f' then 2 else if c = '"' then 4
  else if c = '[' then 5 else if c = '{' then 6 else if isNumberChar c then 3 else 7

/-- The class of the first character of a value. -/
def leadOf : Tree τ → Nat
  | .null => 0
  | .bool true => 1
  | .bool false => 2
  | .num _ => 3
  | .str _ => 4
  | .arr _ => 5
  | .obj _ => 6

theorem leadClass_of_isNumberChar {c : Char} (h : isNumberChar c = true) : leadClass c = 3 := by
  have hne : c ≠ 'n' ∧ c ≠ 't' ∧ c ≠ 'f' ∧ c ≠ '"' ∧ c ≠ '[' ∧ c ≠ '\x7b' := by
    refine ⟨?_, ?_, ?_, ?_, ?_, ?_⟩ <;> rintro rfl <;> exact absurd h (by decide)
  simp [leadClass, hne, h]

variable {quoting : Quoting τ}

theorem exists_render_eq_cons (quoting : Quoting τ) (value : Tree τ) :
    ∃ c rest, render quoting value = c :: rest ∧ leadClass c = leadOf value := by
  cases value with
  | null => exact ⟨_, _, rfl, rfl⟩
  | bool value => cases value <;> exact ⟨_, _, rfl, rfl⟩
  | num value =>
      obtain ⟨c, rest, htext, hc⟩ := exists_numberText_eq_cons value
      exact ⟨c, rest, by rw [render, htext], leadClass_of_isNumberChar hc⟩
  | str value =>
      obtain ⟨rest, hquote⟩ := quoting.opens value
      exact ⟨_, rest, by rw [render, hquote], rfl⟩
  | arr items => exact ⟨_, _, rfl, rfl⟩
  | obj fields => exact ⟨_, _, rfl, rfl⟩

/-- Values written at the start of one text have one constructor. -/
theorem leadOf_eq {left right : Tree τ} {s t : List Char}
    (h : render quoting left ++ s = render quoting right ++ t) : leadOf left = leadOf right := by
  obtain ⟨c, xs, hleft, hc⟩ := exists_render_eq_cons quoting left
  obtain ⟨d, ys, hright, hd⟩ := exists_render_eq_cons quoting right
  rw [hleft, hright, List.cons_append, List.cons_append, List.cons.injEq] at h
  rw [← hc, ← hd, h.1]

/-- A value does not begin with a closing bracket. -/
theorem render_append_ne_close (value : Tree τ) (s t : List Char) :
    render quoting value ++ s ≠ ']' :: t := by
  intro h
  obtain ⟨c, rest, hvalue, hc⟩ := exists_render_eq_cons quoting value
  rw [hvalue, List.cons_append, List.cons.injEq] at h
  rw [h.1] at hc
  cases value with
  | bool value => cases value <;> exact absurd hc (by simp [leadOf, leadClass, isNumberChar])
  | _ => exact absurd hc (by simp [leadOf, leadClass, isNumberChar])

theorem delimited_renderItems (items : List (Tree τ)) (s : List Char) :
    Delimited (renderItems quoting [','] items ++ s) := by
  cases items <;> simp [Delimited, renderItems, isNumberChar]

theorem delimited_renderFields (fields : List (τ × Tree τ)) (s : List Char) :
    Delimited (renderFields quoting [','] fields ++ s) := by
  cases fields <;> simp [Delimited, renderFields, isNumberChar]

mutual

/-- A value can be read back when what follows cannot continue a number. -/
theorem render_append_inj (left right : Tree τ) {s t : List Char} (hs : Delimited s)
    (ht : Delimited t) (h : render quoting left ++ s = render quoting right ++ t) : left = right ∧ s = t := by
  have hlead := leadOf_eq h
  match left, right with
  | .null, .null | .bool true, .bool true | .bool false, .bool false =>
      exact ⟨rfl, List.append_cancel_left h⟩
  | .num l, .num r =>
      obtain ⟨rfl, hrest⟩ := numberText_append_inj hs ht h
      exact ⟨rfl, hrest⟩
  | .str l, .str r =>
      obtain ⟨rfl, hrest⟩ := quoting.readable h
      exact ⟨rfl, hrest⟩
  | .arr l, .arr r =>
      obtain ⟨rfl, hrest⟩ := renderItems_append_inj [] (.inl rfl) l r (List.cons.inj h).2
      exact ⟨rfl, hrest⟩
  | .obj l, .obj r =>
      obtain ⟨rfl, hrest⟩ := renderFields_append_inj [] (.inl rfl) l r (List.cons.inj h).2
      exact ⟨rfl, hrest⟩

/-- The items of an array end at its closing bracket. -/
theorem renderItems_append_inj (separator : List Char) (hsep : separator = [] ∨ separator = [','])
    (left right : List (Tree τ)) {s t : List Char}
    (h : renderItems quoting separator left ++ s = renderItems quoting separator right ++ t) :
    left = right ∧ s = t := by
  match left, right with
  | [], [] => exact ⟨rfl, by simpa [renderItems] using h⟩
  | [], item :: rest =>
      rcases hsep with rfl | rfl
      · rw [renderItems, renderItems, List.nil_append, List.append_assoc] at h
        exact absurd h.symm (render_append_ne_close item _ _)
      · simp [renderItems] at h
  | item :: rest, [] =>
      rcases hsep with rfl | rfl
      · rw [renderItems, renderItems, List.nil_append, List.append_assoc] at h
        exact absurd h (render_append_ne_close item _ _)
      · simp [renderItems] at h
  | item :: rest, item' :: rest' =>
      rw [renderItems, renderItems, List.append_assoc, List.append_assoc, List.append_assoc,
        List.append_assoc] at h
      obtain ⟨rfl, htail⟩ := render_append_inj item item' (delimited_renderItems rest s)
        (delimited_renderItems rest' t) (List.append_cancel_left h)
      obtain ⟨rfl, hrest⟩ := renderItems_append_inj [','] (.inr rfl) rest rest' htail
      exact ⟨rfl, hrest⟩

/-- The properties of an object end at its closing brace. -/
theorem renderFields_append_inj (separator : List Char)
    (hsep : separator = [] ∨ separator = [',']) (left right : List (τ × Tree τ))
    {s t : List Char} (h : renderFields quoting separator left ++ s = renderFields quoting separator right ++ t) :
    left = right ∧ s = t := by
  match left, right with
  | [], [] => exact ⟨rfl, by simpa [renderFields] using h⟩
  | [], (name, value) :: rest =>
      obtain ⟨rest', hquote⟩ := quoting.opens name
      rcases hsep with rfl | rfl <;> simp [renderFields, hquote] at h
  | (name, value) :: rest, [] =>
      obtain ⟨rest', hquote⟩ := quoting.opens name
      rcases hsep with rfl | rfl <;> simp [renderFields, hquote] at h
  | (name, value) :: rest, (name', value') :: rest' =>
      rw [renderFields, renderFields, List.append_assoc, List.append_assoc, List.append_assoc,
        List.append_assoc] at h
      obtain ⟨rfl, hvalue⟩ := quoting.readable (List.append_cancel_left h)
      rw [List.cons_append, List.cons_append, List.append_assoc, List.append_assoc] at hvalue
      obtain ⟨rfl, htail⟩ := render_append_inj value value' (delimited_renderFields rest s)
        (delimited_renderFields rest' t) (List.cons.inj hvalue).2
      obtain ⟨rfl, hrest⟩ := renderFields_append_inj [','] (.inr rfl) rest rest' htail
      exact ⟨rfl, hrest⟩

end

/-- The written characters determine the value. -/
theorem render_inj {left right : Tree τ} :
    render quoting left = render quoting right ↔ left = right := by
  refine ⟨fun h ↦ ?_, fun h ↦ h ▸ rfl⟩
  have htext : render quoting left ++ [] = render quoting right ++ [] := by simpa using h
  exact (render_append_inj left right (by simp [Delimited]) (by simp [Delimited]) htext).1

end Tree

end Json
