import PeerHours.Library.Doubles
import PeerHours.Library.JsonParse
import PeerHours.Library.PlainData

/-!
# The JSON text of plain data

`stringify` and `parse` as a program sees them: texts are code units, numbers are doubles and zero has a sign. What
was written is read back as the same data, with its properties in the order in which objects list them and every
zero positive.
-/

namespace Json

open KeyedMap Sorting

/-! ## Strings of code units -/

/-- The code units that one character or one escape inside a JSON string stands for. -/
def readPiece : List Char → Option (CodeUnits × List Char)
  | '\\' :: 'u' :: rest => (readUnit rest).map fun (unit, rest) ↦ ([unit.toUInt16], rest)
  | text => (readChar text).map fun (c, rest) ↦ ((CodeUnits.Piece.scalar c).units, rest)

/-- The code units up to the closing quotation mark, from at most as many pieces as the fuel. -/
def readPieces : Nat → List Char → Option (CodeUnits × List Char)
  | 0, _ => none
  | _ + 1, '"' :: rest => some ([], rest)
  | fuel + 1, text => do
      let (units, rest) ← readPiece text
      let (others, rest) ← readPieces fuel rest
      some (units ++ others, rest)

/-- A JSON string of code units after its opening quotation mark. -/
def readCodeUnits (text : List Char) : Option (CodeUnits × List Char) :=
  readPieces text.length text

theorem hexValue?_hexDigit : ∀ value < 16, hexValue? (hexDigit value) = some value := by decide

/-- A written piece is read back. -/
theorem readPiece_escapePiece (piece : CodeUnits.Piece) (rest : List Char) :
    readPiece (CodeUnits.escapePiece piece ++ rest) = some (piece.units, rest) := by
  cases piece with
  | scalar c =>
      by_cases hcontrol : c.toNat < 32
      · have hc : c = Char.ofNat c.toNat := (Char.ofNat_toNat c).symm
        generalize c.toNat = code at hc hcontrol
        subst hc
        interval_cases code <;> rfl
      · have hread := readChar_escapeChar c rest
        show readPiece (escapeChar c ++ rest) = _
        -- no other character is written as an escape of its code
        have hescape : ∀ tail, escapeChar c ++ rest ≠ '\\' :: 'u' :: tail := by
          intro tail
          unfold escapeChar
          split_ifs <;> simp_all
        rw [readPiece.eq_2 _ hescape, hread]
        rfl
  | lone unit =>
      have hrange := of_decide_eq_true unit.2
      have hunit : readUnit (hexDigit (unit.1.toNat / 0x1000) :: hexDigit (unit.1.toNat / 0x100 % 16) ::
          hexDigit (unit.1.toNat / 16 % 16) :: hexDigit (unit.1.toNat % 16) :: rest) =
          some (unit.1.toNat, rest) := by
        rw [readUnit, hexValue?_hexDigit _ (by omega), hexValue?_hexDigit _ (by omega),
          hexValue?_hexDigit _ (by omega), hexValue?_hexDigit _ (by omega)]
        show some (_, rest) = some (_, rest)
        rw [show ((unit.1.toNat / 0x1000 * 16 + unit.1.toNat / 0x100 % 16) * 16 +
          unit.1.toNat / 16 % 16) * 16 + unit.1.toNat % 16 = unit.1.toNat by omega]
      refine (congrArg (Option.map _) hunit).trans ?_
      simp [CodeUnits.Piece.units]

theorem escapePiece_ne_nil (piece : CodeUnits.Piece) : CodeUnits.escapePiece piece ≠ [] := by
  cases piece with
  | scalar c =>
      rw [CodeUnits.escapePiece]
      unfold escapeChar
      split_ifs <;> simp
  | lone unit => simp [CodeUnits.escapePiece]

theorem readPieces_flatMap (pieces : List CodeUnits.Piece) (rest : List Char) {fuel : Nat}
    (hfuel : pieces.length < fuel) :
    readPieces fuel (pieces.flatMap CodeUnits.escapePiece ++ '"' :: rest) =
      some (pieces.flatMap CodeUnits.Piece.units, rest) := by
  induction pieces generalizing fuel with
  | nil =>
      obtain ⟨fuel, rfl⟩ := Nat.exists_eq_add_one.mpr (Nat.zero_lt_of_lt hfuel)
      rfl
  | cons piece pieces ih =>
      obtain ⟨fuel, rfl⟩ := Nat.exists_eq_add_one.mpr (Nat.zero_lt_of_lt hfuel)
      have htail := @ih fuel (by simpa using hfuel)
      have hopen : ∀ tail, (piece :: pieces).flatMap CodeUnits.escapePiece ++ '"' :: rest ≠
          '"' :: tail := by
        intro tail
        rw [List.flatMap_cons, List.append_assoc]
        exact CodeUnits.escapePiece_ne_quote piece _ tail
      rw [readPieces.eq_3 _ _ hopen, List.flatMap_cons, List.append_assoc, readPiece_escapePiece]
      simp [htail]

theorem length_le_flatMap_escapePiece (pieces : List CodeUnits.Piece) :
    pieces.length ≤ (pieces.flatMap CodeUnits.escapePiece).length := by
  induction pieces with
  | nil => simp
  | cons piece pieces ih =>
      have hpositive := List.length_pos_iff.mpr (escapePiece_ne_nil piece)
      rw [List.flatMap_cons, List.length_append, List.length_cons]
      omega

/-- A quoted text is read back, whatever follows it. -/
theorem readCodeUnits_quote (text : CodeUnits) (rest : List Char) :
    readCodeUnits ((CodeUnits.pieces text).flatMap CodeUnits.escapePiece ++ '"' :: rest) =
      some (text, rest) := by
  have hlength := length_le_flatMap_escapePiece (CodeUnits.pieces text)
  rw [readCodeUnits, readPieces_flatMap _ _ (by rw [List.length_append, List.length_cons]; omega),
    CodeUnits.flatMap_units_pieces]

namespace Plain

/-! ## Writing -/

/-- Where an assigned property stands in its object: array indices in numeric order, then the other names. -/
def listingRank (name : CodeUnits) : List Nat :=
  match arrayIndex? (CodeUnits.toWellFormed name) with
  | some index => [0, index]
  | none => [1]

/-- The order in which an object lists the properties that were added to it, where it is not the order in which
they were added. -/
def listing (left right : CodeUnits) : Ordering :=
  compareOn listingRank left right

instance transCmpListing : Std.TransCmp listing :=
  inferInstanceAs (Std.TransCmp (compareOn listingRank))

/-- The data as objects list it, without the sign of zeros. -/
def written (value : Plain) : CodeUnits.Value :=
  value.orderedBy listing

/-- `JSON.stringify`. -/
def stringify (value : Plain) : String :=
  String.ofList (Tree.render CodeUnits.quoting value.written)

theorem stringify_eq_iff {left right : Plain} :
    left.stringify = right.stringify ↔ left.written = right.written := by
  rw [stringify, stringify, String.ofList_inj, Tree.render_inj]

/-! ## Numbers -/

mutual

/-- Every number of the data is one that a program can hold. -/
def Doubles : Plain → Prop
  | .num value => value.written.IsDouble
  | .arr items => DoubleItems items
  | .obj fields => DoubleFields fields
  | .null | .bool _ | .str _ => True

/-- `Doubles` of every item. -/
def DoubleItems : List Plain → Prop
  | [] => True
  | item :: rest => item.Doubles ∧ DoubleItems rest

/-- `Doubles` of the value of every property. -/
def DoubleFields : List (CodeUnits × Plain) → Prop
  | [] => True
  | (_, value) :: rest => value.Doubles ∧ DoubleFields rest

end

theorem doubleItems_iff {items : List Plain} :
    DoubleItems items ↔ ∀ item ∈ items, item.Doubles := by
  induction items with
  | nil => simp [DoubleItems]
  | cons item rest ih => simp [DoubleItems, ih]

theorem doubleFields_iff {fields : List (CodeUnits × Plain)} :
    DoubleFields fields ↔ ∀ property ∈ fields, property.2.Doubles := by
  induction fields with
  | nil => simp [DoubleFields]
  | cons property rest ih => simp [DoubleFields, ih]

/-- The numbers of data are those of its written forms. -/
theorem numerals_orderedBy (order : CodeUnits → CodeUnits → Ordering) (value : Plain) :
    (value.orderedBy order).Numerals Decimal.IsDouble ↔ value.Doubles := by
  induction value using induct with
  | null | bool | num | str => exact Iff.rfl
  | arr items ih =>
      rw [orderedBy, Tree.Numerals, Tree.numeralItems_iff, orderedItemsBy_eq_map, List.forall_mem_map,
        Doubles, doubleItems_iff]
      exact forall₂_congr ih
  | obj fields ih =>
      rw [orderedBy, Tree.Numerals, Tree.numeralFields_iff, orderedFieldsBy_eq_map, Doubles,
        doubleFields_iff]
      simp only [mem_sortBy, List.forall_mem_map]
      exact forall₂_congr ih

/-- Data that a program can hold: one property of each name, and doubles for numbers. -/
structure Held (value : Plain) : Prop where
  oneOfEach : value.OneOfEach
  doubles : value.Doubles

theorem held_obj {fields : List (CodeUnits × Plain)} : (Plain.obj fields).Held ↔
    (fields.map Prod.fst).Nodup ∧ ∀ property ∈ fields, property.2.Held := by
  constructor
  · intro h
    obtain ⟨hnodup, hvalues⟩ := h.oneOfEach
    refine ⟨hnodup, fun property hproperty ↦ ⟨oneOfEachField_iff.mp hvalues property hproperty, ?_⟩⟩
    exact doubleFields_iff.mp h.doubles property hproperty
  · intro h
    exact ⟨⟨h.1, oneOfEachField_iff.mpr fun property hproperty ↦ (h.2 property hproperty).oneOfEach⟩,
      doubleFields_iff.mpr fun property hproperty ↦ (h.2 property hproperty).doubles⟩

/-! ## Reading -/

/-- The number that a text spells: the double nearest to its decimal, with the sign of a zero. A number beyond the
largest double, which the language reads as infinite, denotes no finite number. -/
def readNumber (text : List Char) : Option (Plain × List Char) := do
  let (number, rest) ← Json.readNumber text
  let value ← number.asDouble
  if value.mantissa = 0 ∧ text.head? = some '-' then some (.num .negativeZero, rest)
  else some (.num (.decimal value), rest)

/-- The properties of an object after assigning each property in turn; the last value of a name stays. -/
def assigned (fields : List (CodeUnits × Plain)) : List (CodeUnits × Plain) :=
  fields.foldl (fun object property ↦ upsert Prod.fst property object) []

/-- How data is read: an object assigns its properties in turn. -/
def reader : Reader CodeUnits Plain where
  text := readCodeUnits
  number := readNumber
  null := .null
  bool := .bool
  str := .str
  arr := .arr
  obj fields := .obj (assigned fields)

/-- `JSON.parse`, `none` for a text that is no JSON or spells a number beyond the largest double. -/
def parse (text : String) : Option Plain :=
  reader.parse text

/-- The text of a decimal begins with a sign only when it is negative. -/
theorem head_numberText {value : Decimal} (h : value.mantissa = 0) (rest : List Char) :
    (numberText value ++ rest).head? ≠ some '-' := by
  obtain ⟨c, digits, hdigits, hdigit⟩ := exists_first_toDigits 0
    ((if value.scale = 0 then [] else '.' :: lowDigits value.scale 0) ++ rest)
  have htext : numberText value ++ rest = c :: digits := by
    rw [numberText, if_neg (by omega), if_pos (.inl h), h, Int.natAbs_zero, positionalText,
      Nat.zero_div, List.nil_append, List.append_assoc, hdigits]
  rw [htext, List.head?_cons, ne_eq, Option.some.injEq]
  rintro rfl
  exact absurd hdigit (by decide)

theorem reads_reader :
    reader.Reads CodeUnits.quoting (fun number ↦ .num (.decimal number)) Decimal.IsDouble where
  text text rest := by
    refine ⟨_, ?_, readCodeUnits_quote text rest⟩
    show '"' :: (_ ++ ['"']) ++ rest = _
    rw [List.cons_append, List.append_assoc, List.singleton_append]
  number value rest hvalue hrest := by
    show readNumber _ = _
    rw [readNumber, readNumber_numberText value hrest]
    show (value.asDouble).bind _ = _
    rw [show value.asDouble = some value from hvalue]
    exact if_neg fun h ↦ head_numberText h.1 rest h.2

/-! ## What is read back -/

mutual

/-- The data that is read back from its text. -/
def stored : Plain → Plain
  | .null => .null
  | .bool value => .bool value
  | .num value => .num (.decimal value.written)
  | .str value => .str value
  | .arr items => .arr (storedItems items)
  | .obj fields => .obj (sortBy (byName listing) (storedFields fields))

/-- The items that are read back. -/
def storedItems : List Plain → List Plain
  | [] => []
  | item :: rest => item.stored :: storedItems rest

/-- The properties that are read back, in the order in which they were added. -/
def storedFields : List (CodeUnits × Plain) → List (CodeUnits × Plain)
  | [] => []
  | (name, value) :: rest => (name, value.stored) :: storedFields rest

end

theorem storedItems_eq_map (items : List Plain) : storedItems items = items.map stored := by
  induction items with
  | nil => rfl
  | cons item rest ih => rw [storedItems, ih, List.map_cons]

theorem storedFields_eq_map (fields : List (CodeUnits × Plain)) :
    storedFields fields = fields.map fun property ↦ (property.1, property.2.stored) := by
  induction fields with
  | nil => rfl
  | cons property rest ih => rw [storedFields, ih, List.map_cons]

theorem buildFields_eq_map (fields : List (CodeUnits × CodeUnits.Value)) :
    reader.buildFields (fun number ↦ .num (.decimal number)) fields =
      fields.map fun property ↦
        (property.1, reader.build (fun number ↦ .num (.decimal number)) property.2) := by
  induction fields with
  | nil => rfl
  | cons property rest ih => rw [Reader.buildFields, ih, List.map_cons]

theorem buildItems_eq_map (items : List CodeUnits.Value) :
    reader.buildItems (fun number ↦ .num (.decimal number)) items =
      items.map (reader.build fun number ↦ .num (.decimal number)) := by
  induction items with
  | nil => rfl
  | cons item rest ih => rw [Reader.buildItems, ih, List.map_cons]

/-- The written data is read as what is stored of it. -/
theorem build_written (value : Plain) (hvalue : value.OneOfEach) :
    reader.build (fun number ↦ .num (.decimal number)) value.written = value.stored := by
  induction value using induct with
  | null | bool | num | str => rfl
  | arr items ih =>
      rw [OneOfEach, oneOfEachItem_iff] at hvalue
      rw [written, orderedBy, Reader.build, buildItems_eq_map, orderedItemsBy_eq_map, stored,
        storedItems_eq_map, List.map_map]
      exact congrArg Plain.arr (List.map_congr_left fun item hitem ↦ ih item hitem (hvalue item hitem))
  | obj fields ih =>
      rw [OneOfEach, oneOfEachField_iff] at hvalue
      have hbuilt : reader.buildFields (fun number ↦ .num (.decimal number))
          (sortBy (byName listing) (orderedFieldsBy listing fields)) =
            sortBy (byName listing) (storedFields fields) := by
        rw [buildFields_eq_map, map_sortBy_byName, orderedFieldsBy_eq_map, storedFields_eq_map,
          List.map_map]
        refine congrArg _ (List.map_congr_left fun property hproperty ↦ ?_)
        exact Prod.ext rfl (ih property hproperty (hvalue.2 property hproperty))
      have hnodup : ((sortBy (byName listing) (storedFields fields)).map Prod.fst).Nodup := by
        rw [nodup_map_sortBy, storedFields_eq_map, List.map_map]
        exact hvalue.1
      rw [written, orderedBy, Reader.build, hbuilt]
      show Plain.obj (assigned _) = _
      rw [assigned, foldl_upsert_of_nodup (by simpa using hnodup), List.nil_append, stored]

/-- What was written is read back with its properties as objects list them and every zero positive. -/
theorem parse_stringify {value : Plain} (h : value.Held) :
    parse value.stringify = some value.stored := by
  have hnumerals : value.written.Numerals Decimal.IsDouble :=
    (numerals_orderedBy listing value).mpr h.doubles
  rw [parse, stringify, Reader.parse_render reads_reader hnumerals, build_written value h.oneOfEach]

/-- What is stored of data has the names of its properties. -/
theorem oneOfEach_stored (value : Plain) (hvalue : value.OneOfEach) : value.stored.OneOfEach := by
  induction value using induct with
  | null | bool | num | str => trivial
  | arr items ih =>
      rw [OneOfEach, oneOfEachItem_iff] at hvalue
      rw [stored, OneOfEach, oneOfEachItem_iff, storedItems_eq_map, List.forall_mem_map]
      exact fun item hitem ↦ ih item hitem (hvalue item hitem)
  | obj fields ih =>
      rw [OneOfEach, oneOfEachField_iff] at hvalue
      rw [stored, OneOfEach, oneOfEachField_iff, nodup_map_sortBy, storedFields_eq_map, List.map_map]
      refine ⟨hvalue.1, fun property hproperty ↦ ?_⟩
      obtain ⟨given, hgiven, rfl⟩ := List.mem_map.mp (mem_sortBy.mp hproperty)
      exact ih given hgiven (hvalue.2 given hgiven)

/-- What is stored of data is written as the data is. -/
theorem written_stored (value : Plain) : value.stored.written = value.written := by
  induction value using induct with
  | null | bool | num | str => rfl
  | arr items ih =>
      rw [stored, written, written, orderedBy, orderedBy, orderedItemsBy_eq_map, orderedItemsBy_eq_map,
        storedItems_eq_map, List.map_map]
      exact congrArg Tree.arr (List.map_congr_left fun item hitem ↦ ih item hitem)
  | obj fields ih =>
      rw [stored, written, written, orderedBy, orderedBy, orderedFieldsBy_eq_map, map_sortBy_byName,
        sortBy_sortBy, orderedFieldsBy_eq_map, storedFields_eq_map, List.map_map]
      refine congrArg (fun fields ↦ Tree.obj (sortBy (byName listing) fields)) ?_
      exact List.map_congr_left fun property hproperty ↦ Prod.ext rfl (ih property hproperty)

theorem Held.stored {value : Plain} (h : value.Held) : value.stored.Held where
  oneOfEach := oneOfEach_stored value h.oneOfEach
  doubles := by
    have hnumerals : value.stored.written.Numerals Decimal.IsDouble := by
      rw [written_stored]
      exact (numerals_orderedBy listing value).mpr h.doubles
    exact (numerals_orderedBy listing _).mp hnumerals

/-- Data is stored alike exactly when it is written alike. -/
theorem stored_eq_iff {left right : Plain} (hleft : left.OneOfEach) (hright : right.OneOfEach) :
    left.stored = right.stored ↔ left.written = right.written := by
  constructor
  · intro h
    rw [← written_stored left, ← written_stored right, h]
  · intro h
    rw [← build_written left hleft, ← build_written right hright, h]

/-- What was stored once is stored as it is. -/
theorem stored_stored (value : Plain) : value.stored.stored = value.stored := by
  induction value using induct with
  | null | bool | num | str => rfl
  | arr items ih =>
      rw [stored, stored, storedItems_eq_map, storedItems_eq_map, List.map_map]
      exact congrArg Plain.arr (List.map_congr_left fun item hitem ↦ ih item hitem)
  | obj fields ih =>
      rw [stored, stored, storedFields_eq_map, storedFields_eq_map, map_sortBy_byName, sortBy_sortBy,
        List.map_map]
      refine congrArg (fun fields ↦ Plain.obj (sortBy (byName listing) fields)) ?_
      exact List.map_congr_left fun property hproperty ↦ Prod.ext rfl (ih property hproperty)

/-- What is read of a stored object is what is stored of what the object reads. -/
theorem get_storedFields (name : CodeUnits) (fields : List (CodeUnits × Plain)) :
    get name (storedFields fields) = (get name fields).map stored := by
  induction fields with
  | nil => rfl
  | cons property rest ih =>
      obtain ⟨first, value⟩ := property
      rw [storedFields, get, lookup_cons, get, lookup_cons]
      by_cases hname : first = name
      · rw [if_pos hname, if_pos hname]
        rfl
      · rw [if_neg hname, if_neg hname]
        exact ih

/-- Written with its properties in an order of their names, what is stored of data is the data. -/
theorem orderedBy_stored {order : CodeUnits → CodeUnits → Ordering} [Std.TransCmp order]
    [Std.LawfulEqCmp order] (value : Plain) (hvalue : value.OneOfEach) :
    value.stored.orderedBy order = value.orderedBy order := by
  induction value using induct with
  | null | bool | num | str => rfl
  | arr items ih =>
      rw [OneOfEach, oneOfEachItem_iff] at hvalue
      rw [stored, orderedBy, orderedBy, orderedItemsBy_eq_map, orderedItemsBy_eq_map,
        storedItems_eq_map, List.map_map]
      exact congrArg Tree.arr (List.map_congr_left fun item hitem ↦ ih item hitem (hvalue item hitem))
  | obj fields ih =>
      rw [OneOfEach, oneOfEachField_iff] at hvalue
      have hsame : orderedFieldsBy order (storedFields fields) = orderedFieldsBy order fields := by
        rw [orderedFieldsBy_eq_map, orderedFieldsBy_eq_map, storedFields_eq_map, List.map_map]
        exact List.map_congr_left fun property hproperty ↦
          Prod.ext rfl (ih property hproperty (hvalue.2 property hproperty))
      have hnodup : ((orderedFieldsBy order fields).map Prod.fst).Nodup :=
        map_fst_orderedFieldsBy fields ▸ hvalue.1
      rw [stored, orderedBy, orderedBy, orderedFieldsBy_eq_map, map_sortBy_byName,
        ← orderedFieldsBy_eq_map, hsame]
      congr 1
      refine (sortBy_eq_of_perm (perm_sortBy _) fun first hfirst second hsecond h ↦ ?_)
      exact eq_of_byName hnodup (mem_sortBy.mp hfirst) (mem_sortBy.mp hsecond) h

/-- What is stored of data is the same data. -/
theorem same_stored {value : Plain} (hvalue : value.OneOfEach) : Same value value.stored :=
  (@orderedBy_eq_iff compare _ _ _ _ hvalue (oneOfEach_stored value hvalue)).mp
    (orderedBy_stored value hvalue).symm

/-! ## Properties that were added in sorted order -/

/-- The order in which an object lists properties that were added in the order of plain `sort`. -/
def sortedListing : CodeUnits → CodeUnits → Ordering :=
  compareLex listing compare

instance transCmpSortedListing : Std.TransCmp sortedListing :=
  inferInstanceAs (Std.TransCmp (compareLex listing compare))

instance lawfulEqCmpSortedListing : Std.LawfulEqCmp sortedListing where
  compare_self := Std.ReflCmp.compare_self
  eq_of_compare h := Std.LawfulEqCmp.eq_of_compare (Ordering.then_eq_eq.mp h).2

/-- An object lists array indices first and keeps the order in which the other properties were added. -/
theorem sortBy_listing_sortBy {γ : Type} {fields : List (CodeUnits × γ)}
    (hnodup : (fields.map Prod.fst).Nodup) :
    sortBy (byName listing) (sortBy compareUnits fields) = sortBy (byName sortedListing) fields := by
  have hstable := @pairwise_sortBy_stable _ (byName listing) _ _ _
    (@pairwise_sortBy _ (@compareUnits γ) _ fields)
  refine List.Perm.eq_of_pairwise (fun first second hfirst hsecond hle hge ↦ ?_)
    (hstable.imp fun {first second} h ↦ ?_) (pairwise_sortBy fields)
    (((perm_sortBy _).trans (perm_sortBy fields)).trans (perm_sortBy fields).symm)
  · exact eq_of_byName hnodup (mem_sortBy.mp (mem_sortBy.mp hfirst)) (mem_sortBy.mp hsecond)
      (Std.OrientedCmp.isLE_antisymm hle hge)
  · show ((listing first.1 second.1).then (compare first.1 second.1)).isLE = true
    rcases h with hlt | ⟨heq, hle⟩
    · rw [show listing first.1 second.1 = .lt from hlt]
      rfl
    · rw [show listing first.1 second.1 = .eq from heq]
      exact hle

end Plain

end Json
