import PeerHours.Library.PlainText

/-!
# Objects under names of a program

Plain objects whose properties a program names in its own text: what it reads under a name, what it writes, and what
it spreads into a new object.
-/

namespace Json.Plain

open CodeUnits KeyedMap Sorting

/-! ## Properties -/

/-- The own property of a value. -/
def field (value : Plain) (name : CodeUnits) : Option Plain :=
  match value with
  | .obj fields => get name fields
  | _ => none

/-- The own property of a value under a name of the program. -/
def prop (value : Plain) (name : String) : Option Plain :=
  value.field (ofString name)

/-- A text literal of the program. -/
def text (literal : String) : Plain := .str (ofString literal)

/-- A whole number. -/
def int (value : Int) : Plain := .num (.decimal (.ofInt value))

/-- The text of a value. -/
def text? : Option Plain → Option CodeUnits
  | some (.str units) => some units
  | _ => none

/-- The whole number of a value. -/
def int? : Option Plain → Option Int
  | some (.num value) => value.written.toInt?
  | _ => none

/-- Properties under names of the program. -/
def named (fields : List (String × Plain)) : List (CodeUnits × Plain) :=
  fields.map fun field ↦ (ofString field.1, field.2)

/-- An object with properties under names of the program. -/
def object (fields : List (String × Plain)) : Plain := .obj (named fields)

/-- The properties of an object in the order in which it lists them. -/
def own : Plain → List (CodeUnits × Plain)
  | .obj fields => sortBy (byName listing) fields
  | _ => []

/-- `Object.keys`. -/
def ownKeys (value : Plain) : List CodeUnits :=
  value.own.map Prod.fst

theorem text?_eq_some {value : Option Plain} {units : CodeUnits} :
    text? value = some units ↔ value = some (.str units) := by
  unfold text?
  split <;> simp_all

@[simp] theorem prop_object_nil (name : String) : prop (object []) name = none := rfl

@[simp] theorem prop_object_cons (name first : String) (value : Plain) (rest : List (String × Plain)) :
    prop (object ((first, value) :: rest)) name =
      if first = name then some value else prop (object rest) name := by
  show get (ofString name) ((ofString first, value) :: named rest) = _
  rw [get, lookup_cons]
  by_cases hname : first = name
  · simp [hname]
  · rw [if_neg fun h ↦ hname (ofString_inj h), if_neg hname]
    rfl

/-! ## Data that a program can hold -/

theorem held_str (units : CodeUnits) : (Plain.str units).Held := ⟨trivial, trivial⟩

theorem held_object {fields : List (String × Plain)} (hnodup : (fields.map Prod.fst).Nodup)
    (h : ∀ field ∈ fields, field.2.Held) : (object fields).Held := by
  refine held_obj.mpr ⟨?_, List.forall_mem_map.mpr h⟩
  have hnames : (named fields).map Prod.fst = (fields.map Prod.fst).map ofString := by
    rw [named, List.map_map, List.map_map]
    rfl
  rw [hnames, List.nodup_map_iff fun _ _ h ↦ ofString_inj h]
  exact hnodup

/-- What an object that a program can hold reads is such data. -/
theorem held_of_field {value found : Plain} {name : CodeUnits} (h : value.Held)
    (hfound : value.field name = some found) : found.Held := by
  cases value with
  | obj fields =>
      obtain ⟨hnodup, hvalues⟩ := held_obj.mp h
      exact hvalues _ ((get_eq_some hnodup).mp hfound)
  | _ => cases hfound

/-! ## Writing and reading back -/

/-- An object under names that are no array indices is written as it stands. -/
theorem written_object {fields : List (String × Plain)} (h : plainNames (fields.map Prod.fst) = true) :
    (object fields).written = .obj (fields.map fun field ↦ (ofString field.1, field.2.written)) := by
  obtain ⟨-, hnames⟩ := Bool.and_eq_true_iff.mp h
  have hrank : ∀ field ∈ fields, Plain.listingRank (ofString field.1) = [1] := by
    intro field hfield
    have hnone := List.all_eq_true.mp hnames _ (List.mem_map_of_mem hfield)
    rw [Plain.listingRank, toWellFormed_ofString, Option.isNone_iff_eq_none.mp hnone]
  rw [object, named, written, orderedBy, orderedFieldsBy_eq_map, List.map_map]
  refine congrArg Tree.obj (sortBy_eq_self (List.pairwise_map.mpr ?_))
  refine List.pairwise_of_forall_mem_list fun left hleft right hright ↦ ?_
  simp [byName, listing, compareOn, hrank left hleft, hrank right hright]

/-- An object that was read back has the properties that it was stored with. -/
theorem field_stored (value : Plain) (name : CodeUnits) :
    value.stored.field name = (value.field name).map stored := by
  cases value with
  | obj fields =>
      rw [stored, field, get_sortBy_byName, get_storedFields]
      rfl
  | _ => rfl

theorem prop_stored (value : Plain) (name : String) :
    prop value.stored name = (prop value name).map stored :=
  field_stored value (ofString name)

/-- Spreading an object keeps what it reads. -/
theorem field_own (value : Plain) (name : CodeUnits) : field (.obj value.own) name = value.field name := by
  cases value with
  | obj fields => exact get_sortBy_byName listing name fields
  | _ => rfl

/-- What was stored lists its properties in the order in which they were added. -/
theorem own_stored (fields : List (CodeUnits × Plain)) :
    .obj (stored (.obj fields)).own = stored (.obj fields) := by
  rw [stored, own, sortBy_sortBy]

/-- Properties whose names are listed in order are listed as they stand. -/
theorem sortBy_of_ownKeys {γ : Type} {fields : List (CodeUnits × γ)} {value : Plain}
    (h : fields.map Prod.fst = value.ownKeys) : sortBy (byName listing) fields = fields := by
  have hnames : value.ownKeys.Pairwise fun left right ↦ (listing left right).isLE = true := by
    cases value with
    | obj fields => exact List.pairwise_map.mpr (@pairwise_sortBy _ (byName listing) _ fields)
    | _ => exact List.Pairwise.nil
  rw [← h, List.pairwise_map] at hnames
  exact sortBy_eq_self hnames

/-! ## JSON values -/

theorem prop_ofJson (value : JsonValue) (name : String) :
    prop (ofJson value) name = (value.field name).map ofJson := by
  cases value with
  | obj fields => exact get_ofFields name fields
  | _ => rfl

theorem prop_of_text {source : JsonValue} {name literal : String}
    (h : source.field name = some (.str literal)) : prop (ofJson source) name = some (text literal) := by
  rw [prop_ofJson, h]
  rfl

/-- The properties of a JSON value are listed as they stand. -/
theorem own_ofJson {value : JsonValue} (h : WellFormed value) :
    (ofJson value).own = ofFields value.properties := by
  cases value with
  | obj fields =>
      have hcompare : ∀ left right : String × JsonValue,
          listing (ofString left.1) (ofString right.1) = compareListing left right := by
        intro left right
        show compare (Plain.listingRank _) (Plain.listingRank _) =
          compare (Json.listingRank left.1) (Json.listingRank right.1)
        rw [Plain.listingRank, Plain.listingRank, toWellFormed_ofString, toWellFormed_ofString]
        rfl
      refine sortBy_eq_self ?_
      rw [ofFields_eq_map, List.pairwise_map]
      refine h.1.ordered.imp fun {left right} hle ↦ ?_
      rw [byName, hcompare]
      exact hle
  | _ => rfl

end Json.Plain
