import PeerHours.Library.CodeUnits
import PeerHours.Library.JsonParse

/-!
# Plain data

Values built from null, booleans, finite numbers, strings, arrays and plain objects, as a program holds them:
zero has a sign, and an object lists its properties in the order in which they were added. Two values that
differ in the order of properties and in the sign of zeros alone are the same data.
-/

namespace Json

open KeyedMap Sorting

/-- A finite number. Each but the negative zero is the decimal that its text spells. -/
inductive PlainNumber where
  | negativeZero
  | decimal (value : Decimal)

/-- The decimal that `JSON.stringify` writes for a number; it drops the sign of zero. -/
def PlainNumber.written : PlainNumber → Decimal
  | .negativeZero => .ofInt 0
  | .decimal value => value

/-- A value built from null, booleans, finite numbers, strings, arrays and plain objects. -/
inductive Plain where
  | null
  | bool (value : Bool)
  | num (value : PlainNumber)
  | str (value : CodeUnits)
  | arr (items : List Plain)
  | obj (fields : List (CodeUnits × Plain))

namespace Plain

/-- The value of a property. -/
def get (name : CodeUnits) (fields : List (CodeUnits × Plain)) : Option Plain :=
  (lookup Prod.fst name fields).map Prod.snd

mutual

/-- No object has two properties of one name. -/
def OneOfEach : Plain → Prop
  | .arr items => OneOfEachItem items
  | .obj fields => (fields.map Prod.fst).Nodup ∧ OneOfEachField fields
  | _ => True

/-- `OneOfEach` of every item. -/
def OneOfEachItem : List Plain → Prop
  | [] => True
  | item :: rest => item.OneOfEach ∧ OneOfEachItem rest

/-- `OneOfEach` of the value of every property. -/
def OneOfEachField : List (CodeUnits × Plain) → Prop
  | [] => True
  | (_, value) :: rest => value.OneOfEach ∧ OneOfEachField rest

end

mutual

/-- What holds of a value when it holds of its items and of the values of its properties. -/
theorem induct {motive : Plain → Prop} (null : motive .null) (bool : ∀ value, motive (.bool value))
    (num : ∀ value, motive (.num value)) (str : ∀ value, motive (.str value))
    (arr : ∀ items, (∀ item ∈ items, motive item) → motive (.arr items))
    (obj : ∀ fields, (∀ property ∈ fields, motive property.2) → motive (.obj fields)) :
    ∀ value, motive value
  | .null => null
  | .bool value => bool value
  | .num value => num value
  | .str value => str value
  | .arr items => arr items (inductItems null bool num str arr obj items)
  | .obj fields => obj fields (inductFields null bool num str arr obj fields)

theorem inductItems {motive : Plain → Prop} (null : motive .null) (bool : ∀ value, motive (.bool value))
    (num : ∀ value, motive (.num value)) (str : ∀ value, motive (.str value))
    (arr : ∀ items, (∀ item ∈ items, motive item) → motive (.arr items))
    (obj : ∀ fields, (∀ property ∈ fields, motive property.2) → motive (.obj fields)) :
    ∀ items : List Plain, ∀ item ∈ items, motive item
  | [] => fun _ hitem ↦ absurd hitem List.not_mem_nil
  | first :: rest => List.forall_mem_cons.mpr
      ⟨induct null bool num str arr obj first, inductItems null bool num str arr obj rest⟩

theorem inductFields {motive : Plain → Prop} (null : motive .null) (bool : ∀ value, motive (.bool value))
    (num : ∀ value, motive (.num value)) (str : ∀ value, motive (.str value))
    (arr : ∀ items, (∀ item ∈ items, motive item) → motive (.arr items))
    (obj : ∀ fields, (∀ property ∈ fields, motive property.2) → motive (.obj fields)) :
    ∀ fields : List (CodeUnits × Plain), ∀ property ∈ fields, motive property.2
  | [] => fun _ hproperty ↦ absurd hproperty List.not_mem_nil
  | (_, value) :: rest => List.forall_mem_cons.mpr
      ⟨induct null bool num str arr obj value, inductFields null bool num str arr obj rest⟩

end

/-- Equal data up to the order of properties, with the two zeros identified. -/
inductive Same : Plain → Plain → Prop
  | null : Same .null .null
  | bool (value : Bool) : Same (.bool value) (.bool value)
  | num {left right : PlainNumber} (h : left.written = right.written) : Same (.num left) (.num right)
  | str (value : CodeUnits) : Same (.str value) (.str value)
  | arr {left right : List Plain} (hlength : left.length = right.length)
      (hitems : ∀ (position : Nat) (x y : Plain), left[position]? = some x →
        right[position]? = some y → Same x y) : Same (.arr left) (.arr right)
  | obj {left right : List (CodeUnits × Plain)}
      (hnames : ∀ name, get name left = none ↔ get name right = none)
      (hvalues : ∀ name x y, get name left = some x → get name right = some y → Same x y) :
      Same (.obj left) (.obj right)

/-- Properties in an order of their names. -/
def byName {γ : Type} (order : CodeUnits → CodeUnits → Ordering) (left right : CodeUnits × γ) :
    Ordering :=
  order left.1 right.1

instance byNameTransCmp {γ : Type} (order : CodeUnits → CodeUnits → Ordering)
    [Std.TransCmp order] : Std.TransCmp (@byName γ order) where
  eq_swap := fun {left right} ↦ @Std.OrientedCmp.eq_swap _ order _ left.1 right.1
  isLE_trans := fun {first second third} hfirst hsecond ↦
    @Std.TransCmp.isLE_trans _ order _ first.1 second.1 third.1 hfirst hsecond

/-- Properties in the order of their names by code units, as plain `sort` orders them. -/
abbrev compareUnits {γ : Type} : CodeUnits × γ → CodeUnits × γ → Ordering :=
  byName compare

/-- Properties are ordered by their names, whatever their values are. -/
theorem map_sortBy_byName {γ δ : Type} (order : CodeUnits → CodeUnits → Ordering) (f : γ → δ)
    (fields : List (CodeUnits × γ)) :
    (sortBy (byName order) fields).map (fun property ↦ (property.1, f property.2)) =
      sortBy (byName order) (fields.map fun property ↦ (property.1, f property.2)) :=
  List.map_insertionSort _ _ _ _ fun _ _ _ _ ↦ Iff.rfl

section Ordered

variable (order : CodeUnits → CodeUnits → Ordering)

mutual

/-- The written form of a value with the properties of every object in an order of their names. -/
def orderedBy : Plain → CodeUnits.Value
  | .null => .null
  | .bool value => .bool value
  | .num value => .num value.written
  | .str value => .str value
  | .arr items => .arr (orderedItemsBy items)
  | .obj fields => .obj (sortBy (byName order) (orderedFieldsBy fields))

/-- The written forms of the items of an array. -/
def orderedItemsBy : List Plain → List CodeUnits.Value
  | [] => []
  | item :: rest => item.orderedBy :: orderedItemsBy rest

/-- The properties of an object with the written forms of their values. -/
def orderedFieldsBy : List (CodeUnits × Plain) → List (CodeUnits × CodeUnits.Value)
  | [] => []
  | (name, value) :: rest => (name, value.orderedBy) :: orderedFieldsBy rest

end

end Ordered

theorem oneOfEachItem_iff {items : List Plain} :
    OneOfEachItem items ↔ ∀ item ∈ items, item.OneOfEach := by
  induction items with
  | nil => simp [OneOfEachItem]
  | cons item rest ih => simp [OneOfEachItem, ih]

theorem oneOfEachField_iff {fields : List (CodeUnits × Plain)} :
    OneOfEachField fields ↔ ∀ property ∈ fields, property.2.OneOfEach := by
  induction fields with
  | nil => simp [OneOfEachField]
  | cons property rest ih => simp [OneOfEachField, ih]

/-- In an object with one property of each name, a property is what its name reads. -/
theorem get_eq_some {fields : List (CodeUnits × Plain)} (hnodup : (fields.map Prod.fst).Nodup)
    {name : CodeUnits} {value : Plain} : get name fields = some value ↔ (name, value) ∈ fields := by
  rw [get, Option.map_eq_some_iff]
  constructor
  · rintro ⟨⟨found, _⟩, hfound, rfl⟩
    obtain ⟨hmem, rfl⟩ := lookup_eq_some hfound
    exact hmem
  · intro hmem
    exact ⟨(name, value), lookup_of_mem hnodup hmem, rfl⟩

theorem get_eq_none {fields : List (CodeUnits × Plain)} {name : CodeUnits} :
    get name fields = none ↔ name ∉ fields.map Prod.fst := by
  rw [get, Option.map_eq_none_iff, lookup_eq_none, List.mem_map]
  constructor
  · rintro h ⟨property, hmem, hname⟩
    exact h property hmem hname
  · intro h property hmem hname
    exact h ⟨property, hmem, hname⟩

/-- Ordering the properties of an object does not change what it reads. -/
theorem get_sortBy_byName (order : CodeUnits → CodeUnits → Ordering) [Std.TransCmp order]
    (name : CodeUnits) (fields : List (CodeUnits × Plain)) :
    get name (sortBy (byName order) fields) = get name fields := by
  have hsorted : sortBy (byName order) (fields.filter fun property ↦ property.1 = name) =
      fields.filter fun property ↦ property.1 = name := by
    refine sortBy_eq_self (List.pairwise_of_forall_mem_list fun left hleft right hright ↦ ?_)
    -- properties of one name stay in the order in which they were added
    have hsame : order name name = .eq := Std.ReflCmp.compare_self
    rw [byName, of_decide_eq_true (List.mem_filter.mp hleft).2,
      of_decide_eq_true (List.mem_filter.mp hright).2, hsame]
    rfl
  rw [get, get, lookup, lookup, ← List.head?_filter, ← List.head?_filter, filter_sortBy, hsorted]

/-! ## Written forms of the same data -/

section Ordered

variable {order : CodeUnits → CodeUnits → Ordering}

theorem orderedItemsBy_eq_map (items : List Plain) :
    orderedItemsBy order items = items.map (orderedBy order) := by
  induction items with
  | nil => rfl
  | cons item rest ih => rw [orderedItemsBy, ih, List.map_cons]

theorem orderedFieldsBy_eq_map (fields : List (CodeUnits × Plain)) :
    orderedFieldsBy order fields =
      fields.map fun property ↦ (property.1, property.2.orderedBy order) := by
  induction fields with
  | nil => rfl
  | cons property rest ih => rw [orderedFieldsBy, ih, List.map_cons]

/-- Properties whose names are all different are separated by their names. -/
theorem eq_of_byName [Std.LawfulEqCmp order] {γ : Type} {fields : List (CodeUnits × γ)}
    (hnodup : (fields.map Prod.fst).Nodup) {first second : CodeUnits × γ} (hfirst : first ∈ fields)
    (hsecond : second ∈ fields) (h : byName order first second = .eq) : first = second := by
  have hname : first.1 = second.1 := Std.LawfulEqCmp.eq_of_compare h
  exact List.inj_on_of_nodup_map hnodup hfirst hsecond hname

theorem map_fst_orderedFieldsBy (fields : List (CodeUnits × Plain)) :
    (orderedFieldsBy order fields).map Prod.fst = fields.map Prod.fst := by
  rw [orderedFieldsBy_eq_map, List.map_map]
  rfl

/-- The same data has one written form. -/
theorem orderedBy_eq_of_same [Std.TransCmp order] [Std.LawfulEqCmp order] {left right : Plain}
    (h : Same left right) (hleft : left.OneOfEach) (hright : right.OneOfEach) :
    left.orderedBy order = right.orderedBy order := by
  induction h with
  | null | bool | str => rfl
  | num h => rw [orderedBy, orderedBy, h]
  | @arr left right hlength _ ih =>
      rw [OneOfEach, oneOfEachItem_iff] at hleft hright
      rw [orderedBy, orderedBy, orderedItemsBy_eq_map, orderedItemsBy_eq_map]
      congr 1
      refine List.ext_getElem (by simpa using hlength) fun position hl hr ↦ ?_
      rw [List.length_map] at hl hr
      rw [List.getElem_map, List.getElem_map]
      exact ih position _ _ (List.getElem?_eq_getElem hl) (List.getElem?_eq_getElem hr)
        (hleft _ (List.getElem_mem hl)) (hright _ (List.getElem_mem hr))
  | @obj left right hnames _ ih =>
      rw [OneOfEach, oneOfEachField_iff] at hleft hright
      -- both objects have the properties that one of them has
      have hsubset : ∀ {first second : List (CodeUnits × Plain)}, (first.map Prod.fst).Nodup →
          (second.map Prod.fst).Nodup → (∀ name, get name second = none → get name first = none) →
          (∀ name x y, get name first = some x → get name second = some y →
            x.orderedBy order = y.orderedBy order) →
          ∀ property ∈ orderedFieldsBy order first, property ∈ orderedFieldsBy order second := by
        intro first second hfirst hsecond hpresent hsame property hproperty
        rw [orderedFieldsBy_eq_map] at hproperty ⊢
        obtain ⟨⟨name, x⟩, hmem, rfl⟩ := List.mem_map.mp hproperty
        have hx := (get_eq_some hfirst).mpr hmem
        cases hy : get name second with
        | none => simp [hpresent name hy] at hx
        | some y =>
            refine List.mem_map.mpr ⟨(name, y), (get_eq_some hsecond).mp hy, ?_⟩
            rw [hsame name x y hx hy]
      have hordered : ∀ name x y, get name left = some x → get name right = some y →
          x.orderedBy order = y.orderedBy order := by
        intro name x y hx hy
        exact ih name x y hx hy (hleft.2 _ ((get_eq_some hleft.1).mp hx))
          (hright.2 _ ((get_eq_some hright.1).mp hy))
      have hnodup : ∀ {fields : List (CodeUnits × Plain)}, (fields.map Prod.fst).Nodup →
          ((orderedFieldsBy order fields).map Prod.fst).Nodup := fun h ↦ map_fst_orderedFieldsBy _ ▸ h
      rw [orderedBy, orderedBy]
      congr 1
      refine sortBy_eq_of_mem_iff (hnodup hleft.1).of_map (hnodup hright.1).of_map
        (fun property ↦ ⟨?_, ?_⟩) fun _ hx _ hy ↦ eq_of_byName (hnodup hleft.1) hx hy
      · exact hsubset hleft.1 hright.1 (fun name ↦ (hnames name).mpr) hordered property
      · exact hsubset hright.1 hleft.1 (fun name ↦ (hnames name).mp)
          (fun name x y hx hy ↦ (hordered name y x hy hx).symm) property

/-- The properties of an object that has the written form of another. -/
theorem mem_of_sortBy_orderedFieldsBy {left right : List (CodeUnits × Plain)}
    (h : sortBy (byName order) (orderedFieldsBy order left) =
      sortBy (byName order) (orderedFieldsBy order right))
    {name : CodeUnits} {x : Plain} (hmem : (name, x) ∈ left) :
    ∃ y, (name, y) ∈ right ∧ x.orderedBy order = y.orderedBy order := by
  have hwritten : (name, x.orderedBy order) ∈ orderedFieldsBy order left := by
    rw [orderedFieldsBy_eq_map]
    exact List.mem_map.mpr ⟨(name, x), hmem, rfl⟩
  have hsorted := (@mem_sortBy _ (byName order) _ _).mpr hwritten
  rw [h, mem_sortBy, orderedFieldsBy_eq_map] at hsorted
  obtain ⟨⟨_, y⟩, hy, hpair⟩ := List.mem_map.mp hsorted
  obtain ⟨rfl, hvalue⟩ := Prod.mk.inj hpair
  exact ⟨y, hy, hvalue.symm⟩

mutual

/-- Values with one written form are the same data. -/
theorem same_of_orderedBy_eq (left : Plain) {right : Plain} (hleft : left.OneOfEach)
    (hright : right.OneOfEach) (h : left.orderedBy order = right.orderedBy order) : Same left right := by
  match left, right with
  | .null, .null => exact .null
  | .bool _, .bool _ =>
      obtain rfl := Tree.bool.inj h
      exact .bool _
  | .num _, .num _ => exact .num (Tree.num.inj h)
  | .str _, .str _ =>
      obtain rfl := Tree.str.inj h
      exact .str _
  | .arr items, .arr others =>
      rw [OneOfEach, oneOfEachItem_iff] at hleft hright
      rw [orderedBy, orderedBy, orderedItemsBy_eq_map, orderedItemsBy_eq_map, Tree.arr.injEq] at h
      refine .arr (by simpa using congrArg List.length h) fun position x y hx hy ↦ ?_
      have hitem := congrArg (·[position]?) h
      simp only [List.getElem?_map, hx, hy, Option.map_some, Option.some.injEq] at hitem
      exact same_of_mem_items items x (List.mem_of_getElem? hx) (hleft x (List.mem_of_getElem? hx))
        (hright y (List.mem_of_getElem? hy)) hitem
  | .obj fields, .obj others =>
      rw [OneOfEach, oneOfEachField_iff] at hleft hright
      rw [orderedBy, orderedBy, Tree.obj.injEq] at h
      refine .obj (fun name ↦ ?_) fun name x y hx hy ↦ ?_
      · rw [get_eq_none, get_eq_none, ← map_fst_orderedFieldsBy fields, ← map_fst_orderedFieldsBy others,
          ← ((@perm_sortBy _ (byName order) (orderedFieldsBy order fields)).map Prod.fst).mem_iff, h,
          ((@perm_sortBy _ (byName order) (orderedFieldsBy order others)).map Prod.fst).mem_iff]
      · have hmem := (get_eq_some hleft.1).mp hx
        have hother := (get_eq_some hright.1).mp hy
        obtain ⟨found, hfound, hordered⟩ := mem_of_sortBy_orderedFieldsBy h hmem
        obtain rfl : found = y :=
          Option.some.inj (((get_eq_some hright.1).mpr hfound).symm.trans hy)
        exact same_of_mem_fields fields (name, x) hmem (hleft.2 _ hmem) (hright.2 _ hother) hordered

theorem same_of_mem_items (items : List Plain) : ∀ item ∈ items, ∀ {right : Plain},
    item.OneOfEach → right.OneOfEach → item.orderedBy order = right.orderedBy order → Same item right := by
  match items with
  | [] => intro item hitem; cases hitem
  | first :: rest =>
      intro item hitem right hleft hright h
      rcases List.mem_cons.mp hitem with hfirst | hrest
      · rw [hfirst] at hleft h ⊢
        exact same_of_orderedBy_eq first hleft hright h
      · exact same_of_mem_items rest item hrest hleft hright h

theorem same_of_mem_fields (fields : List (CodeUnits × Plain)) : ∀ property ∈ fields,
    ∀ {right : Plain}, property.2.OneOfEach → right.OneOfEach →
      property.2.orderedBy order = right.orderedBy order → Same property.2 right := by
  match fields with
  | [] => intro property hproperty; cases hproperty
  | (name, value) :: rest =>
      intro property hproperty right hleft hright h
      rcases List.mem_cons.mp hproperty with hfirst | hrest
      · rw [hfirst] at hleft h ⊢
        exact same_of_orderedBy_eq value hleft hright h
      · exact same_of_mem_fields rest property hrest hleft hright h

end

/-- Written forms with properties in order tell data apart, and nothing more. -/
theorem orderedBy_eq_iff [Std.TransCmp order] [Std.LawfulEqCmp order] {left right : Plain}
    (hleft : left.OneOfEach) (hright : right.OneOfEach) :
    left.orderedBy order = right.orderedBy order ↔ Same left right :=
  ⟨same_of_orderedBy_eq left hleft hright, fun h ↦ orderedBy_eq_of_same h hleft hright⟩

end Ordered

/-- Objects that list the same properties in different orders are the same data. -/
theorem same_of_perm {left right : List (CodeUnits × Plain)} (hperm : left.Perm right)
    (h : (Plain.obj left).OneOfEach) : (Plain.obj right).OneOfEach ∧ Same (.obj left) (.obj right) := by
  obtain ⟨hnodup, hfields⟩ := id h
  rw [oneOfEachField_iff] at hfields
  have hright : (Plain.obj right).OneOfEach :=
    ⟨(hperm.map Prod.fst).nodup_iff.mp hnodup,
      oneOfEachField_iff.mpr fun property hproperty ↦ hfields property (hperm.mem_iff.mpr hproperty)⟩
  refine ⟨hright, (@orderedBy_eq_iff compare _ _ _ _ h hright).mp ?_⟩
  have hordered : ((orderedFieldsBy compare left).map Prod.fst).Nodup :=
    map_fst_orderedFieldsBy left ▸ hnodup
  rw [orderedBy, orderedBy]
  congr 1
  refine sortBy_eq_of_perm ?_ fun _ hx _ hy ↦ eq_of_byName hordered hx hy
  rw [orderedFieldsBy_eq_map, orderedFieldsBy_eq_map]
  exact hperm.map _

/-! ## JSON values as plain data -/

mutual

/-- A JSON value as plain data. -/
def ofJson : JsonValue → Plain
  | .null => .null
  | .bool value => .bool value
  | .num value => .num (.decimal value)
  | .str value => .str (CodeUnits.ofString value)
  | .arr items => .arr (ofItems items)
  | .obj fields => .obj (ofFields fields)

/-- The items of an array as plain data. -/
def ofItems : List JsonValue → List Plain
  | [] => []
  | item :: rest => ofJson item :: ofItems rest

/-- The properties of an object as plain data. -/
def ofFields : List (String × JsonValue) → List (CodeUnits × Plain)
  | [] => []
  | (name, value) :: rest => (CodeUnits.ofString name, ofJson value) :: ofFields rest

end

theorem map_fst_ofFields (fields : List (String × JsonValue)) :
    (ofFields fields).map Prod.fst = (fields.map Prod.fst).map CodeUnits.ofString := by
  induction fields with
  | nil => rfl
  | cons property rest ih => rw [ofFields, List.map_cons, ih, List.map_cons, List.map_cons]

mutual

/-- A JSON value that a program can hold has one property of each name. -/
theorem oneOfEach_ofJson {value : JsonValue} (h : WellFormed value) : (ofJson value).OneOfEach := by
  match value with
  | .null | .bool _ | .num _ | .str _ => trivial
  | .arr items => exact oneOfEachItem_ofItems h
  | .obj fields =>
      obtain ⟨hlisted, hfields⟩ := h
      refine ⟨?_, oneOfEachField_ofFields hfields⟩
      rw [map_fst_ofFields]
      exact hlisted.nodup.map fun _ _ h ↦ CodeUnits.ofString_inj h

theorem oneOfEachItem_ofItems {items : List JsonValue} (h : WellFormedItems items) :
    OneOfEachItem (ofItems items) := by
  match items with
  | [] => trivial
  | item :: rest => exact ⟨oneOfEach_ofJson h.1, oneOfEachItem_ofItems h.2⟩

theorem oneOfEachField_ofFields {fields : List (String × JsonValue)} (h : WellFormedFields fields) :
    OneOfEachField (ofFields fields) := by
  match fields with
  | [] => trivial
  | (name, value) :: rest => exact ⟨oneOfEach_ofJson h.1, oneOfEachField_ofFields h.2⟩

end

theorem oneOfEach_arr {items : List JsonValue} :
    (ofJson (.arr items)).OneOfEach ↔ ∀ item ∈ items, (ofJson item).OneOfEach := by
  induction items with
  | nil => simp [ofJson, ofItems, OneOfEach, OneOfEachItem]
  | cons item rest ih =>
      rw [List.forall_mem_cons, ← ih]
      rfl

theorem oneOfEach_obj {fields : List (String × JsonValue)} :
    (ofJson (.obj fields)).OneOfEach ↔
      (fields.map Prod.fst).Nodup ∧ ∀ property ∈ fields, (ofJson property.2).OneOfEach := by
  rw [ofJson, OneOfEach, map_fst_ofFields,
    List.nodup_map_iff fun _ _ h ↦ CodeUnits.ofString_inj h]
  refine and_congr Iff.rfl ?_
  induction fields with
  | nil => simp [ofFields, OneOfEachField]
  | cons property rest ih =>
      rw [List.forall_mem_cons, ← ih]
      rfl

/-- Two JSON values are equal up to the order of properties. -/
def SameJson (left right : JsonValue) : Prop :=
  Same (ofJson left) (ofJson right)

/-- The values of a property in two objects are the same data, where both have it. -/
def SameProperty (left right : List (String × JsonValue)) (name : String) : Prop :=
  Option.Rel SameJson (JsonValue.get name left) (JsonValue.get name right)

theorem SameProperty.nil (name : String) : SameProperty [] [] name := .none

theorem SameProperty.cons {left right : List (String × JsonValue)} {name first : String}
    {x y : JsonValue} (h : SameJson x y) (hrest : SameProperty left right name) :
    SameProperty ((first, x) :: left) ((first, y) :: right) name := by
  unfold SameProperty at hrest ⊢
  rw [JsonValue.get_cons, JsonValue.get_cons]
  split
  · exact .some h
  · exact hrest

theorem ofItems_eq_map (items : List JsonValue) : ofItems items = items.map ofJson := by
  induction items with
  | nil => rfl
  | cons item rest ih => rw [ofItems, ih, List.map_cons]

theorem ofFields_eq_map (fields : List (String × JsonValue)) :
    ofFields fields = fields.map fun property ↦ (CodeUnits.ofString property.1, ofJson property.2) := by
  induction fields with
  | nil => rfl
  | cons property rest ih => rw [ofFields, ih, List.map_cons]

theorem get_ofFields (name : String) (fields : List (String × JsonValue)) :
    get (CodeUnits.ofString name) (ofFields fields) = (JsonValue.get name fields).map ofJson := by
  induction fields with
  | nil => rfl
  | cons property rest ih =>
      obtain ⟨first, value⟩ := property
      rw [JsonValue.get_cons, ofFields, get, lookup_cons]
      by_cases hname : first = name
      · simp [hname]
      · have hunits : ¬CodeUnits.ofString first = CodeUnits.ofString name :=
          fun h ↦ hname (CodeUnits.ofString_inj h)
        rw [if_neg hunits, if_neg hname]
        exact ih

/-- A name that an object has is text. -/
theorem exists_name_of_get {fields : List (String × JsonValue)} {name : CodeUnits}
    (h : get name (ofFields fields) ≠ none) : ∃ text, name = CodeUnits.ofString text := by
  induction fields with
  | nil => exact absurd rfl h
  | cons property rest ih =>
      obtain ⟨first, value⟩ := property
      by_cases hname : CodeUnits.ofString first = name
      · exact ⟨first, hname.symm⟩
      · rw [ofFields, get, lookup_cons, if_neg hname] at h
        exact ih h

/-- Objects are the same data when each of their properties is. -/
theorem sameJson_obj {left right : List (String × JsonValue)} :
    SameJson (.obj left) (.obj right) ↔ ∀ name, SameProperty left right name := by
  constructor
  · intro h name
    rw [SameJson, ofJson, ofJson] at h
    obtain ⟨hnames, hvalues⟩ : (∀ name, get name (ofFields left) = none ↔
        get name (ofFields right) = none) ∧ ∀ name x y, get name (ofFields left) = some x →
        get name (ofFields right) = some y → Same x y := by
      cases h with
      | obj hnames hvalues => exact ⟨hnames, hvalues⟩
    have hnone := hnames (CodeUnits.ofString name)
    have hsome := hvalues (CodeUnits.ofString name)
    rw [get_ofFields, get_ofFields] at hnone hsome
    unfold SameProperty
    cases hleft : JsonValue.get name left with
    | none =>
        rw [hleft] at hnone
        rw [Option.map_eq_none_iff.mp (hnone.mp rfl)]
        exact .none
    | some x =>
        cases hright : JsonValue.get name right with
        | none => simp [hleft, hright] at hnone
        | some y => exact .some (hsome _ _ (by rw [hleft]; rfl) (by rw [hright]; rfl))
  · intro h
    have hrel : ∀ name, Option.Rel Same (get name (ofFields left)) (get name (ofFields right)) := by
      intro name
      by_cases hboth : get name (ofFields left) = none ∧ get name (ofFields right) = none
      · rw [hboth.1, hboth.2]
        exact .none
      · obtain ⟨text, rfl⟩ : ∃ text, name = CodeUnits.ofString text := by
          by_cases hleft : get name (ofFields left) = none
          · exact exists_name_of_get fun hright ↦ hboth ⟨hleft, hright⟩
          · exact exists_name_of_get hleft
        rw [get_ofFields, get_ofFields]
        have hproperty := h text
        unfold SameProperty at hproperty
        generalize JsonValue.get text left = x at hproperty ⊢
        generalize JsonValue.get text right = y at hproperty ⊢
        cases hproperty with
        | none => exact .none
        | some h => exact .some h
    refine .obj (fun name ↦ ?_) fun name x y hx hy ↦ ?_
    · have hpair := hrel name
      generalize get name (ofFields left) = x at hpair ⊢
      generalize get name (ofFields right) = y at hpair ⊢
      cases hpair <;> simp
    · have hpair := hrel name
      rw [hx, hy] at hpair
      cases hpair with
      | some h => exact h

theorem sameJson_arr {left right : List JsonValue} :
    SameJson (.arr left) (.arr right) ↔ List.Forall₂ SameJson left right := by
  rw [List.forall₂_iff_get, SameJson, ofJson, ofJson, ofItems_eq_map, ofItems_eq_map]
  constructor
  · intro h
    cases h with
    | arr hlength hitems =>
        refine ⟨by simpa using hlength, fun position hl hr ↦ ?_⟩
        exact hitems position _ _ (by simp [hl]) (by simp [hr])
  · rintro ⟨hlength, hitems⟩
    refine .arr (by simpa using hlength) fun position x y hx hy ↦ ?_
    rw [List.getElem?_map, Option.map_eq_some_iff] at hx hy
    obtain ⟨first, hfirst, rfl⟩ := hx
    obtain ⟨second, hsecond, rfl⟩ := hy
    obtain ⟨hl, rfl⟩ := List.getElem?_eq_some_iff.mp hfirst
    obtain ⟨hr, rfl⟩ := List.getElem?_eq_some_iff.mp hsecond
    exact hitems position hl hr

@[simp] theorem sameJson_str {left right : String} :
    SameJson (.str left) (.str right) ↔ left = right := by
  constructor
  · intro h
    rw [SameJson, ofJson, ofJson] at h
    generalize hl : CodeUnits.ofString left = first at h
    generalize hr : CodeUnits.ofString right = second at h
    cases h with
    | str => exact CodeUnits.ofString_inj (hl.trans hr.symm)
  · rintro rfl
    exact .str _

@[simp] theorem sameJson_num {left right : Decimal} :
    SameJson (.num left) (.num right) ↔ left = right := by
  constructor
  · intro h
    cases h with
    | num h => exact h
  · rintro rfl
    exact .num rfl

theorem sameJson_int {left right : Int} : SameJson (.int left) (.int right) ↔ left = right :=
  sameJson_num.trans ⟨fun h ↦ congrArg Decimal.mantissa h, fun h ↦ h ▸ rfl⟩

end Plain

end Json
