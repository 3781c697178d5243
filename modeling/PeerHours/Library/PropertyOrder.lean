import PeerHours.Library.CodeUnits
import PeerHours.Library.Json

/-!
# The order of properties

An object lists array indices before other names. Different names have different places, so that the properties
that an object reads fix the order in which it lists them.
-/

namespace Json

open Sorting

/-- A digit is the digit of the number that it stands for. -/
theorem digitChar_toNat {c : Char} (h : c.isDigit = true) :
    c.toNat - '0'.toNat < 10 ∧ (c.toNat - '0'.toNat).digitChar = c := by
  have hbounds : 48 ≤ c.toNat ∧ c.toNat ≤ 57 := by
    simpa [Char.isDigit, UInt32.le_iff_toNat_le] using h
  have hvalue : c.toNat - '0'.toNat < 10 := by
    show c.toNat - 48 < 10
    omega
  refine ⟨hvalue, Char.toNat_inj.mp ?_⟩
  rw [Nat.toNat_digitChar_of_lt_ten hvalue]
  show 48 + (c.toNat - 48) = c.toNat
  omega

/-- The number that decimal digits spell. -/
abbrev digitsValue (digits : List Char) : Nat :=
  digits.foldl (fun total digit ↦ 10 * total + (digit.toNat - '0'.toNat)) 0

/-- Digits without a leading zero are those of the number that they spell, which is positive. -/
theorem toDigits_digitsValue {digits : List Char} (hdigits : ∀ c ∈ digits, c.isDigit = true)
    (hlead : digits.head? ≠ some '0') (hne : digits ≠ []) :
    0 < digitsValue digits ∧ Nat.toDigits 10 (digitsValue digits) = digits := by
  induction digits using List.reverseRecOn with
  | nil => exact absurd rfl hne
  | append_singleton digits last ih =>
      obtain ⟨hlast, hchar⟩ := digitChar_toNat (hdigits last (by simp))
      have hvalue : digitsValue (digits ++ [last]) =
          10 * digitsValue digits + (last.toNat - '0'.toNat) := by
        simp [digitsValue]
      rw [hvalue]
      cases digits with
      | nil =>
          have hzero : last ≠ '0' := fun hsame ↦ hlead (by simp [hsame])
          have hpositive : last.toNat - '0'.toNat ≠ 0 := by
            intro hnone
            rw [hnone] at hchar
            exact hzero hchar.symm
          have hempty : digitsValue [] = 0 := rfl
          rw [hempty, Nat.mul_zero, Nat.zero_add]
          refine ⟨Nat.pos_of_ne_zero hpositive, ?_⟩
          rw [Nat.toDigits_of_lt_base hlast, hchar]
          rfl
      | cons first rest =>
          obtain ⟨hpositive, hsame⟩ := ih (fun c hc ↦ hdigits c (List.mem_append_left _ hc)) hlead
            (List.cons_ne_nil _ _)
          refine ⟨by omega, ?_⟩
          rw [← Nat.toDigits_append_toDigits (by omega) hpositive hlast, hsame,
            Nat.toDigits_of_lt_base hlast, hchar]

/-- Only one name spells an array index. -/
theorem arrayIndex?_inj {left right : String} {index : Nat} (hleft : arrayIndex? left = some index)
    (hright : arrayIndex? right = some index) : left = right := by
  have hspells : ∀ name, arrayIndex? name = some index →
      index = 0 ∧ name.toList = ['0'] ∨ 0 < index ∧ Nat.toDigits 10 index = name.toList := by
    intro name hname
    rw [arrayIndex?] at hname
    split at hname
    · rename_i hcanonical
      obtain ⟨hne, hdigits, hlead, -⟩ := hcanonical
      obtain rfl := Option.some.inj hname
      by_cases hzero : name.toList.head? = some '0'
      · refine .inl ?_
        have hsingle := hlead.resolve_left (not_not_intro hzero)
        obtain ⟨c, hc⟩ := List.length_eq_one_iff.mp hsingle
        rw [hc, List.head?_cons, Option.some.injEq] at hzero
        rw [hc, hzero]
        exact ⟨rfl, rfl⟩
      · exact .inr (toDigits_digitsValue (List.all_eq_true.mp hdigits) hzero hne)
    · cases hname
  refine String.toList_inj.mp ?_
  rcases hspells left hleft with ⟨hzero, hl⟩ | ⟨hpositive, hl⟩
  · rcases hspells right hright with ⟨-, hr⟩ | ⟨hpositive, -⟩
    · rw [hl, hr]
    · omega
  · rcases hspells right hright with ⟨hzero, -⟩ | ⟨-, hr⟩
    · omega
    · rw [← hl, ← hr]

/-- Properties of different names have different places. -/
theorem propertyRank_inj {left right : String} (h : propertyRank left = propertyRank right) :
    left = right := by
  unfold propertyRank at h
  cases hleft : arrayIndex? left with
  | some index =>
      cases hright : arrayIndex? right with
      | some other =>
          simp only [hleft, hright, List.cons.injEq, and_true, true_and] at h
          exact arrayIndex?_inj hleft (h ▸ hright)
      | none => simp [hleft, hright] at h
  | none =>
      cases hright : arrayIndex? right with
      | some other => simp [hleft, hright] at h
      | none =>
          simp only [hleft, hright, List.cons.injEq, true_and] at h
          exact Text.utf16_inj.mp h

/-- Two lists of properties that read the same, with each name once, sort to the same list. -/
theorem sortBy_eq_of_get {left right : List (String × JsonValue)} (hleft : (left.map Prod.fst).Nodup)
    (hright : (right.map Prod.fst).Nodup)
    (hget : ∀ name, JsonValue.get name left = JsonValue.get name right) :
    sortBy compareProperties left = sortBy compareProperties right := by
  have hmem : ∀ (fields : List (String × JsonValue)), (fields.map Prod.fst).Nodup → ∀ property,
      property ∈ fields ↔ JsonValue.get property.1 fields = some property.2 := by
    intro fields hfields property
    rw [JsonValue.get, Option.map_eq_some_iff]
    constructor
    · intro hproperty
      exact ⟨property, KeyedMap.lookup_of_mem hfields hproperty, rfl⟩
    · rintro ⟨found, hfound, hvalue⟩
      obtain ⟨hproperty, hname⟩ := KeyedMap.lookup_eq_some hfound
      exact (Prod.ext hname hvalue) ▸ hproperty
  refine sortBy_eq_of_mem_iff hleft.of_map hright.of_map (fun property ↦ ?_) ?_
  · rw [hmem left hleft, hmem right hright, hget]
  · intro first hfirst second hsecond hsame
    have hname : first.1 = second.1 := by
      refine propertyRank_inj ?_
      have heq : compare (propertyRank first.1) (propertyRank second.1) = .eq := hsame
      exact Std.LawfulEqCmp.eq_of_compare heq
    have hvalue := (hmem left hleft first).mp hfirst
    rw [hname, (hmem left hleft second).mp hsecond] at hvalue
    exact Prod.ext hname (Option.some.inj hvalue).symm

end Json
