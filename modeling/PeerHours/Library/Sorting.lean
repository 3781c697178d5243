import Mathlib.Data.List.Pairwise
import Mathlib.Data.List.Sort

/-!
# Stable sorting by a comparator

`sortBy compare` is the stable sort of a list by a three-way comparator. For a total preorder the
result is determined by the comparator and, among equal elements, by the input order. When the
comparator separates the elements of a list the result depends on its set of elements alone.
-/

namespace Sorting

variable {α β : Type}

/-- Stable sort by a three-way comparator. -/
def sortBy (compare : α → α → Ordering) (values : List α) : List α :=
  values.insertionSort fun left right ↦ (compare left right).isLE = true

/-- Compare two values by what a projection reads from them. -/
def on (compare : β → β → Ordering) (read : α → β) (left right : α) : Ordering :=
  compare (read left) (read right)

instance (compare : β → β → Ordering) [Std.TransCmp compare] (read : α → β) :
    Std.TransCmp (on compare read) where
  eq_swap := @fun _ _ ↦ @Std.OrientedCmp.eq_swap _ compare _ _ _
  isLE_trans := @fun _ _ _ ↦ @Std.TransCmp.isLE_trans _ compare _ _ _ _

variable {compare : α → α → Ordering}

theorem perm_sortBy (values : List α) : (sortBy compare values).Perm values :=
  List.perm_insertionSort _ values

@[simp] theorem mem_sortBy {values : List α} {value : α} :
    value ∈ sortBy compare values ↔ value ∈ values :=
  List.mem_insertionSort _

@[simp] theorem sortBy_nil : sortBy compare [] = [] := rfl

@[simp] theorem sortBy_singleton (value : α) : sortBy compare [value] = [value] := rfl

theorem nodup_sortBy {values : List α} : (sortBy compare values).Nodup ↔ values.Nodup :=
  (perm_sortBy values).nodup_iff

theorem nodup_map_sortBy (f : α → β) {values : List α} :
    ((sortBy compare values).map f).Nodup ↔ (values.map f).Nodup :=
  ((perm_sortBy values).map f).nodup_iff

/-- Comparators that agree on a list sort it alike. -/
theorem sortBy_congr {other : α → α → Ordering} {values : List α}
    (h : ∀ x ∈ values, ∀ y ∈ values, compare x y = other x y) :
    sortBy compare values = sortBy other values := by
  have hinsert (value : α) (sorted : List α)
      (hsame : ∀ x ∈ sorted, compare value x = other value x) :
      sorted.orderedInsert (fun left right ↦ (compare left right).isLE = true) value =
        sorted.orderedInsert (fun left right ↦ (other left right).isLE = true) value := by
    induction sorted with
    | nil => rfl
    | cons first rest ih =>
        simp only [List.orderedInsert, hsame first List.mem_cons_self,
          ih fun x hx ↦ hsame x (List.mem_cons_of_mem _ hx)]
  unfold sortBy
  induction values with
  | nil => rfl
  | cons value rest ih =>
      have hrest := ih fun x hx y hy ↦ h x (List.mem_cons_of_mem _ hx) y (List.mem_cons_of_mem _ hy)
      rw [List.insertionSort_cons, List.insertionSort_cons, hrest]
      refine hinsert value _ fun x hx ↦ h value List.mem_cons_self x (List.mem_cons_of_mem _ ?_)
      exact (List.mem_insertionSort _).mp hx

/-- A nondecreasing list is already sorted. -/
theorem sortBy_eq_self {values : List α}
    (h : values.Pairwise fun left right ↦ (compare left right).isLE = true) :
    sortBy compare values = values :=
  List.Pairwise.insertionSort_eq h

variable [Std.TransCmp compare]

instance total_isLE : Std.Total fun left right : α ↦ (compare left right).isLE = true where
  total left right := by
    cases h : compare left right with
    | lt | eq => exact .inl rfl
    | gt => exact .inr (by rw [Std.OrientedCmp.gt_iff_lt.mp h]; rfl)

instance isTrans_isLE : IsTrans α fun left right : α ↦ (compare left right).isLE = true where
  trans _ _ _ := Std.TransCmp.isLE_trans

/-- A sorted list is nondecreasing. -/
theorem pairwise_sortBy (values : List α) :
    (sortBy compare values).Pairwise fun left right ↦ (compare left right).isLE = true :=
  List.pairwise_insertionSort _ values

/-- What holds between the elements of a sorted list and those after them holds from a smaller element to a
greater one. -/
theorem rel_of_pairwise_sortBy {values : List α} {relation : α → α → Prop}
    (h : (sortBy compare values).Pairwise relation) {left right : α} (hleft : left ∈ values)
    (hright : right ∈ values) (hless : compare left right = .lt) : relation left right := by
  let ordered (x y : α) : Prop := (compare x y).isLE = true ∧ relation x y
  have hsymm : Std.Symm fun x y ↦ ordered x y ∨ ordered y x := ⟨fun _ _ ↦ Or.symm⟩
  have hpairs : (sortBy compare values).Pairwise fun x y ↦ ordered x y ∨ ordered y x :=
    ((pairwise_sortBy values).and h).imp Or.inl
  have hne : left ≠ right := by
    rintro rfl
    have hself : compare left left = .eq := Std.ReflCmp.compare_self
    rw [hself] at hless
    cases hless
  cases hpairs.forall (mem_sortBy.mpr hleft) (mem_sortBy.mpr hright) hne with
  | inl hinOrder => exact hinOrder.2
  | inr hreversed =>
      have hle := hreversed.1
      rw [@Std.OrientedCmp.eq_swap _ compare _ right left, hless] at hle
      cases hle

/-- What is inserted before what it is related to keeps the order and, between equals, the relation. -/
theorem pairwise_orderedInsert_stable {relation : α → α → Prop} {value : α} {sorted : List α}
    (hrelated : ∀ x ∈ sorted, relation value x)
    (hsorted : sorted.Pairwise fun left right ↦
      compare left right = .lt ∨ compare left right = .eq ∧ relation left right) :
    (sorted.orderedInsert (fun left right ↦ (compare left right).isLE = true) value).Pairwise
      fun left right ↦ compare left right = .lt ∨ compare left right = .eq ∧ relation left right := by
  induction sorted with
  | nil => exact List.pairwise_singleton _ _
  | cons first rest ih =>
      have hpairs := List.pairwise_cons.mp hsorted
      rw [List.orderedInsert_cons]
      split
      · rename_i hle
        refine List.pairwise_cons.mpr ⟨fun x hx ↦ ?_, hsorted⟩
        have hbelow : (compare value x).isLE = true := by
          rcases List.mem_cons.mp hx with hsame | hrest
          · rw [hsame]
            exact hle
          · refine Std.TransCmp.isLE_trans hle ?_
            rcases hpairs.1 x hrest with hlt | ⟨heq, -⟩
            · rw [hlt]
              rfl
            · rw [heq]
              rfl
        cases hcompare : compare value x with
        | lt => exact .inl rfl
        | eq => exact .inr ⟨rfl, hrelated x hx⟩
        | gt => simp [hcompare] at hbelow
      · rename_i hnot
        refine List.pairwise_cons.mpr ⟨fun x hx ↦ ?_,
          ih (fun x hx ↦ hrelated x (List.mem_cons_of_mem _ hx)) hpairs.2⟩
        rcases (List.mem_orderedInsert _).mp hx with rfl | hrest
        · refine .inl (Std.OrientedCmp.gt_iff_lt.mp ?_)
          cases hcompare : compare x first with
          | lt | eq => simp [hcompare] at hnot
          | gt => rfl
        · exact hpairs.1 x hrest

/-- Elements that compare equal keep the relation that they had in their list. -/
theorem pairwise_sortBy_stable {values : List α} {relation : α → α → Prop}
    (h : values.Pairwise relation) : (sortBy compare values).Pairwise fun left right ↦
      compare left right = .lt ∨ compare left right = .eq ∧ relation left right := by
  induction values with
  | nil => exact List.Pairwise.nil
  | cons value rest ih =>
      rw [List.pairwise_cons] at h
      exact pairwise_orderedInsert_stable (fun x hx ↦ h.1 x (mem_sortBy.mp hx)) (ih h.2)

omit [Std.TransCmp compare] in
/-- Lists that are related element by element, in relations that keep the comparison, are sorted alike. -/
theorem forall₂_sortBy {other : β → β → Ordering} {relation : α → β → Prop} {left : List α}
    {right : List β} (h : List.Forall₂ relation left right)
    (hcompare : ∀ x y z w, relation x y → relation z w → compare x z = other y w) :
    List.Forall₂ relation (sortBy compare left) (sortBy other right) := by
  have hinsert {x : α} {y : β} (hxy : relation x y) {xs : List α} {ys : List β}
      (hlists : List.Forall₂ relation xs ys) :
      List.Forall₂ relation
        (xs.orderedInsert (fun left right ↦ (compare left right).isLE = true) x)
        (ys.orderedInsert (fun left right ↦ (other left right).isLE = true) y) := by
    induction hlists with
    | nil => exact .cons hxy .nil
    | @cons z w xs ys hzw hrest ih =>
        rw [List.orderedInsert_cons, List.orderedInsert_cons, hcompare x y z w hxy hzw]
        split
        · exact .cons hxy (.cons hzw hrest)
        · exact .cons hzw ih
  induction h with
  | nil => exact .nil
  | cons hfirst _ ih => exact hinsert hfirst ih

@[simp] theorem sortBy_sortBy (values : List α) :
    sortBy compare (sortBy compare values) = sortBy compare values :=
  sortBy_eq_self (pairwise_sortBy values)

/-- Two lists with the same elements, up to order, sort to the same list when the comparator
separates those elements. -/
theorem sortBy_eq_of_perm {left right : List α} (hperm : left.Perm right)
    (hseparates : ∀ x ∈ left, ∀ y ∈ left, compare x y = .eq → x = y) :
    sortBy compare left = sortBy compare right := by
  refine List.Perm.eq_of_pairwise ?_ (pairwise_sortBy left) (pairwise_sortBy right)
    ((perm_sortBy left).trans (hperm.trans (perm_sortBy right).symm))
  intro x y hx hy hxy hyx
  refine hseparates x (mem_sortBy.mp hx) y (hperm.mem_iff.mpr (mem_sortBy.mp hy)) ?_
  exact Std.OrientedCmp.isLE_antisymm hxy hyx

/-- A duplicate-free list of the same elements is the same list after sorting. -/
theorem sortBy_eq_of_mem_iff {left right : List α} (hleft : left.Nodup) (hright : right.Nodup)
    (hmem : ∀ x, x ∈ left ↔ x ∈ right)
    (hseparates : ∀ x ∈ left, ∀ y ∈ left, compare x y = .eq → x = y) :
    sortBy compare left = sortBy compare right :=
  sortBy_eq_of_perm ((List.perm_ext_iff_of_nodup hleft hright).mpr hmem) hseparates

/-- Inserting into a sorted list and then filtering inserts into the filtered list, if at all. -/
theorem filter_orderedInsert (keep : α → Bool) (value : α) {values : List α}
    (hsorted : values.Pairwise fun left right ↦ (compare left right).isLE = true) :
    (values.orderedInsert (fun left right ↦ (compare left right).isLE = true) value).filter keep =
      if keep value then
        (values.filter keep).orderedInsert (fun left right ↦ (compare left right).isLE = true) value
      else values.filter keep := by
  induction values with
  | nil => by_cases hkeep : keep value <;> simp [hkeep]
  | cons head rest ih =>
      rw [List.pairwise_cons] at hsorted
      rw [List.orderedInsert_cons]
      by_cases hle : (compare value head).isLE = true
      · rw [if_pos hle, List.filter_cons]
        by_cases hkeep : keep value
        · rw [if_pos hkeep, if_pos hkeep]
          -- every later element is above `value`, so the insertion point is the front
          have hfront : ∀ x ∈ (head :: rest).filter keep, (compare value x).isLE = true := by
            intro x hx
            rcases List.mem_cons.mp (List.mem_filter.mp hx).1 with rfl | hx
            · exact hle
            · exact Std.TransCmp.isLE_trans hle (hsorted.1 x hx)
          cases hf : (head :: rest).filter keep with
          | nil => rfl
          | cons next later =>
              rw [List.orderedInsert_cons, if_pos (hfront next (by rw [hf]; exact List.mem_cons_self))]
        · rw [if_neg hkeep, if_neg hkeep]
      · rw [if_neg hle, List.filter_cons, ih hsorted.2, List.filter_cons]
        by_cases hhead : keep head <;> by_cases hkeep : keep value <;>
          simp [hhead, hkeep, hle, List.orderedInsert_cons]

/-- Sorting commutes with filtering. -/
theorem filter_sortBy (keep : α → Bool) (values : List α) :
    (sortBy compare values).filter keep = sortBy compare (values.filter keep) := by
  induction values with
  | nil => rfl
  | cons value rest ih =>
      change (List.orderedInsert _ value (sortBy compare rest)).filter keep = _
      rw [filter_orderedInsert keep value (pairwise_sortBy rest), ih, List.filter_cons]
      by_cases hkeep : keep value
      · rw [if_pos hkeep, if_pos hkeep]; rfl
      · rw [if_neg hkeep, if_neg hkeep]

omit [Std.TransCmp compare] in
/-- In an ordered list, elements that may not stand after the dropped ones stand before them. -/
theorem filter_append_filter_not {keep : α → Bool} {values : List α}
    (hordered : values.Pairwise fun left right ↦ (compare left right).isLE = true)
    (habove : ∀ kept ∈ values, ∀ dropped ∈ values, keep kept = true → keep dropped = false →
      (compare dropped kept).isLE = false) :
    values.filter keep ++ values.filter (fun value ↦ !keep value) = values := by
  induction values with
  | nil => rfl
  | cons head rest ih =>
      rw [List.pairwise_cons] at hordered
      have hrest := ih hordered.2 fun kept hkept dropped hdropped ↦
        habove kept (List.mem_cons_of_mem _ hkept) dropped (List.mem_cons_of_mem _ hdropped)
      by_cases hhead : keep head = true
      · rw [List.filter_cons_of_pos hhead, List.filter_cons_of_neg (by simp [hhead]),
          List.cons_append, hrest]
      · -- a dropped head leaves no kept element behind it
        have hnone : rest.filter keep = [] := by
          rw [List.filter_eq_nil_iff]
          intro kept hkept hkeep
          have hnot := habove kept (List.mem_cons_of_mem _ hkept) head List.mem_cons_self hkeep
            (Bool.eq_false_iff.mpr hhead)
          rw [hordered.1 kept hkept] at hnot
          cases hnot
        rw [hnone, List.nil_append] at hrest
        rw [List.filter_cons_of_neg hhead, hnone, List.nil_append,
          List.filter_cons_of_pos (by simp [hhead]), hrest]

/-- An element strictly above all others is sorted to the end. -/
theorem sortBy_of_last {values : List α} {last : α} {keep : α → Bool}
    (hlast : ∀ value ∈ values, keep value = true → compare value last = .lt)
    (hdropped : values.filter (fun value ↦ !keep value) = [last]) :
    sortBy compare values = sortBy compare (values.filter keep) ++ [last] := by
  have hsorted := @filter_append_filter_not _ compare keep _ (pairwise_sortBy values) ?_
  · rw [filter_sortBy, filter_sortBy, hdropped, sortBy_singleton] at hsorted
    exact hsorted.symm
  · intro kept hkept dropped hdrop hkeep hnot
    have hmem : dropped ∈ values.filter fun value ↦ !keep value :=
      List.mem_filter.mpr ⟨mem_sortBy.mp hdrop, by simp [hnot]⟩
    rw [hdropped] at hmem
    rw [List.mem_singleton.mp hmem,
      Std.OrientedCmp.gt_iff_lt.mpr (hlast kept (mem_sortBy.mp hkept) hkeep)]
    rfl

/-- Appending an element strictly above all others appends it to the sorted list. -/
theorem sortBy_concat_of_last {values : List α} {last : α}
    (hlast : ∀ value ∈ values, compare value last = .lt) :
    sortBy compare (values ++ [last]) = sortBy compare values ++ [last] := by
  have hself : (compare last last).isLT = false := by
    rw [@Std.ReflCmp.compare_self _ compare _ last]
    rfl
  have hkept : values.filter (fun value ↦ (compare value last).isLT) = values := by
    rw [List.filter_eq_self]
    intro value hvalue
    rw [hlast value hvalue]
    rfl
  have hdropped : values.filter (fun value ↦ !(compare value last).isLT) = [] := by
    rw [List.filter_eq_nil_iff]
    intro value hvalue
    rw [hlast value hvalue]
    simp
  have hsorted := @sortBy_of_last _ compare _ (values ++ [last]) last
    (fun value ↦ (compare value last).isLT) ?_ ?_
  · rwa [List.filter_append, hkept, List.filter_cons_of_neg (by simp [hself]), List.filter_nil,
      List.append_nil] at hsorted
  · intro value _ hlt
    exact Ordering.isLT_iff_eq_lt.mp hlt
  · rw [List.filter_append, hdropped, List.nil_append, List.filter_cons_of_pos (by simp [hself]),
      List.filter_nil]

end Sorting
