import Mathlib.Data.List.Basic
import Mathlib.Data.List.DropRight
import Mathlib.Data.List.TakeWhile

/-!
# Text

White space as `String.prototype.trim` sees it, UTF-16 code units, and texts joined by a separator character.
-/

namespace Text

/-- The code points that `trim` removes: white space and line terminators. -/
def isSpace (c : Char) : Bool :=
  decide ((9 ≤ c.toNat ∧ c.toNat ≤ 13) ∨ c.toNat = 0x20 ∨ c.toNat = 0xA0 ∨ c.toNat = 0x1680 ∨
    (0x2000 ≤ c.toNat ∧ c.toNat ≤ 0x200A) ∨ c.toNat = 0x2028 ∨ c.toNat = 0x2029 ∨
    c.toNat = 0x202F ∨ c.toNat = 0x205F ∨ c.toNat = 0x3000 ∨ c.toNat = 0xFEFF)

/-- The text is empty once trimmed. -/
def blank (text : String) : Bool :=
  text.toList.all isSpace

/-- The text without the white space at its ends. -/
def trim (text : String) : String :=
  String.ofList ((text.toList.dropWhile isSpace).reverse.dropWhile isSpace).reverse

/-- The UTF-16 code units of one character. -/
def charUnits (c : Char) : List Nat :=
  if c.toNat < 0x10000 then [c.toNat]
  else [0xD800 + (c.toNat - 0x10000) / 0x400, 0xDC00 + (c.toNat - 0x10000) % 0x400]

/-- The UTF-16 code units of a text, which `length` counts and plain `sort` compares. -/
def utf16 (text : String) : List Nat :=
  text.toList.flatMap charUnits

/-- The text ends in the suffix. -/
def endsWith (text suffix : String) : Bool :=
  suffix.toList.isSuffixOf text.toList

/-- A text with a visible character is not blank. -/
theorem blank_eq_false_of_mem {text : String} {c : Char} (hmem : c ∈ text.toList)
    (hspace : isSpace c = false) : blank text = false := by
  rw [blank, List.all_eq_false]
  exact ⟨c, hmem, by simp [hspace]⟩

/-- Adding text keeps a text from being blank. -/
@[simp] theorem blank_append (left right : String) :
    blank (left ++ right) = (blank left && blank right) := by
  simp [blank]

/-- A text without white space has none to trim. -/
theorem trim_of_forall {text : String} (h : ∀ c ∈ text.toList, isSpace c = false) :
    trim text = text := by
  have hdrop (characters : List Char) (hclear : ∀ c ∈ characters, isSpace c = false) :
      characters.dropWhile isSpace = characters := by
    cases characters with
    | nil => rfl
    | cons c rest => exact List.dropWhile_cons_of_neg (by simp [hclear c List.mem_cons_self])
  rw [trim, hdrop _ h, hdrop _ fun c hc ↦ h c (List.mem_reverse.mp hc), List.reverse_reverse,
    String.ofList_toList]

/-- A text that is empty once trimmed, but not empty, has white space to trim. -/
theorem blank_of_trim {text : String} (htrim : trim text = text) (hne : text ≠ "") :
    blank text = false := by
  by_contra hblank
  have hall : ∀ c ∈ text.toList, isSpace c = true :=
    List.all_eq_true.mp ((Bool.not_eq_false _).mp hblank)
  refine hne (htrim.symm.trans ?_)
  rw [trim, List.dropWhile_eq_nil_iff.mpr hall]
  rfl

theorem toList_trim (text : String) :
    (trim text).toList = (text.toList.dropWhile isSpace).rdropWhile isSpace :=
  String.toList_ofList

/-- A text without white space at its ends starts and ends with a visible character. -/
theorem trim_eq_self_iff {text : String} : trim text = text ↔
    text.toList.dropWhile isSpace = text.toList ∧ text.toList.rdropWhile isSpace = text.toList := by
  rw [← String.toList_inj, toList_trim]
  constructor
  · intro h
    have hfront := List.dropWhile_suffix isSpace (l := text.toList)
    have hback := List.rdropWhile_prefix isSpace (text.toList.dropWhile isSpace)
    have hlength := hback.length_le
    rw [h] at hlength
    have hsame := hfront.eq_of_length_le hlength
    rw [hsame] at h
    exact ⟨hsame, h⟩
  · intro ⟨hfront, hback⟩
    rw [hfront, hback]

/-- Trimming leaves nothing to trim. -/
@[simp] theorem trim_trim (text : String) : trim (trim text) = trim text := by
  rw [trim_eq_self_iff, toList_trim]
  refine ⟨?_, List.rdropWhile_idempotent _ _⟩
  rw [List.dropWhile_eq_self_iff]
  intro hpositive
  -- what is left starts where the text without white space in front starts
  have hdropped := List.rdropWhile_prefix isSpace (text.toList.dropWhile isSpace)
  have hstart : 0 < (text.toList.dropWhile isSpace).length := Nat.lt_of_lt_of_le hpositive hdropped.length_le
  have hhead := List.dropWhile_eq_self_iff.mp
    (@List.dropWhile_idempotent _ isSpace text.toList) hstart
  rwa [hdropped.getElem hpositive]

/-- Trimming leaves something of a text that is not blank. -/
theorem trim_ne_of_blank {text : String} (h : blank text = false) : trim text ≠ "" := by
  intro hempty
  have hnil := toList_trim text
  rw [hempty, show ("" : String).toList = [] from rfl, eq_comm, List.rdropWhile_eq_nil_iff] at hnil
  obtain ⟨c, hmem, hspace⟩ := List.all_eq_false.mp h
  have hrest : text.toList.dropWhile isSpace ≠ [] := fun hall ↦
    hspace (List.dropWhile_eq_nil_iff.mp hall c hmem)
  have hhead := List.head_dropWhile_not isSpace hrest
  rw [hnil _ (List.head_mem hrest)] at hhead
  exact absurd hhead (by decide)

/-- White space after a text without any at its ends is trimmed. -/
theorem trim_append_space {text : String} (htrim : trim text = text) (hne : text ≠ "") :
    trim (text ++ " ") = text := by
  obtain ⟨hfront, hback⟩ := trim_eq_self_iff.mp htrim
  have hvisible : text.toList ≠ [] := fun hnil ↦ hne (String.toList_inj.mp hnil)
  rw [← String.toList_inj, toList_trim, String.toList_append]
  rw [List.dropWhile_append, hfront, if_neg (by simpa using hvisible),
    show (" ".toList : List Char) = [' '] from rfl, List.rdropWhile_concat_pos _ _ _ (by decide), hback]

/-- A character takes one or two units. -/
theorem length_charUnits (c : Char) : 1 ≤ (charUnits c).length ∧ (charUnits c).length ≤ 2 := by
  unfold charUnits
  split <;> simp

/-- Each character that a text lacks leaves it shorter by a unit at least. -/
theorem length_units_of_sublist {left right : List Char} (h : left.Sublist right) :
    (left.flatMap charUnits).length + right.length ≤ (right.flatMap charUnits).length + left.length := by
  induction h with
  | slnil => exact Nat.le_refl _
  | cons c _ ih =>
      have hc := length_charUnits c
      rw [List.flatMap_cons, List.length_append, List.length_cons]
      omega
  | cons_cons c _ ih =>
      rw [List.flatMap_cons, List.flatMap_cons, List.length_append, List.length_append,
        List.length_cons, List.length_cons]
      omega

theorem trim_sublist (text : String) : (trim text).toList.Sublist text.toList := by
  rw [toList_trim]
  exact (List.rdropWhile_prefix _ _).sublist.trans (List.dropWhile_suffix _).sublist

/-- Trimming does not make a text longer. -/
theorem length_utf16_trim (text : String) : (utf16 (trim text)).length ≤ (utf16 text).length := by
  have hsublist := trim_sublist text
  have hunits := length_units_of_sublist hsublist
  have hlength := hsublist.length_le
  unfold utf16
  omega

/-- A text that is no longer than what trimming leaves has no white space to trim. -/
theorem trim_of_length {text : String} (h : (utf16 text).length ≤ (utf16 (trim text)).length) :
    trim text = text := by
  have hsublist := trim_sublist text
  have hunits := length_units_of_sublist hsublist
  unfold utf16 at h
  rw [← String.toList_inj]
  exact hsublist.eq_of_length_le (by omega)

/-- Two lists agree up to an element that neither has before it exactly when they agree before it and
after it. -/
theorem append_cons_inj {α : Type} {a : α} {xs ys s t : List α} (hxs : a ∉ xs) (hys : a ∉ ys) :
    xs ++ a :: s = ys ++ a :: t ↔ xs = ys ∧ s = t := by
  refine ⟨fun h ↦ ?_, fun ⟨h, h'⟩ ↦ by rw [h, h']⟩
  induction xs generalizing ys with
  | nil =>
      cases ys with
      | nil => simpa using h
      | cons y ys =>
          rw [List.nil_append, List.cons_append, List.cons.injEq] at h
          exact absurd (h.1 ▸ List.mem_cons_self) hys
  | cons x xs ih =>
      cases ys with
      | nil =>
          rw [List.nil_append, List.cons_append, List.cons.injEq] at h
          exact absurd (h.1 ▸ List.mem_cons_self) hxs
      | cons y ys =>
          rw [List.cons_append, List.cons_append, List.cons.injEq] at h
          rw [List.mem_cons, not_or] at hxs hys
          obtain ⟨rfl, hrest⟩ := ih hxs.2 hys.2 h.2
          exact ⟨by rw [h.1], hrest⟩

/-- Two texts joined by a separator that the first parts do not contain are the same join exactly
when both parts agree. -/
theorem join_inj {separator : Char} {left left' right right' : String}
    (hleft : separator ∉ left.toList) (hleft' : separator ∉ left'.toList) :
    left ++ (String.singleton separator ++ right) =
      left' ++ (String.singleton separator ++ right') ↔ left = left' ∧ right = right' := by
  have hchars := @append_cons_inj _ separator _ _ right.toList right'.toList hleft hleft'
  simpa [← String.toList_inj] using hchars

/-- Where only one first part is known to be free of the separator, equal joins agree part by part, or the
other first part goes on beyond it. -/
theorem join_cases {separator : Char} {left left' right right' : String}
    (hleft' : separator ∉ left'.toList)
    (h : left ++ (String.singleton separator ++ right) =
      left' ++ (String.singleton separator ++ right')) :
    (left = left' ∧ right = right') ∨ ∃ rest,
      left = left' ++ (String.singleton separator ++ rest) ∧
        right' = rest ++ (String.singleton separator ++ right) := by
  by_cases hleft : separator ∈ left.toList
  · -- the first separator of the other part is the one that ends this part
    obtain ⟨first, rest, hsplit, hfirst⟩ := List.eq_append_cons_of_mem hleft
    have hparts : left = String.ofList first ++
        (String.singleton separator ++ String.ofList rest) := by
      rw [← String.toList_inj]
      simpa using hsplit
    rw [hparts, String.append_assoc, String.append_assoc] at h
    have hjoin := (join_inj (by simpa using hfirst) hleft').mp h
    exact .inr ⟨String.ofList rest, by rw [hparts, hjoin.1], hjoin.2.symm⟩
  · exact .inl ((join_inj hleft hleft').mp h)

/-- Two texts joined by a separator that the second parts do not contain are the same join exactly
when both parts agree. -/
theorem join_last_inj {separator : Char} {left left' right right' : String}
    (hright : separator ∉ right.toList) (hright' : separator ∉ right'.toList) :
    left ++ (String.singleton separator ++ right) =
      left' ++ (String.singleton separator ++ right') ↔ left = left' ∧ right = right' := by
  -- backwards, the second parts come first
  have hchars := @append_cons_inj _ separator _ _ left.toList.reverse left'.toList.reverse
    (mt List.mem_reverse.mp hright) (mt List.mem_reverse.mp hright')
  rw [← List.reverse_inj] at hchars
  simp only [← String.toList_inj]
  simpa [and_comm] using hchars

end Text
