import PeerHours.Library.JsonText

/-!
# Texts of UTF-16 code units

A text as the source language has it: any sequence of code units, also one with surrogates that have no partner.
`JSON.stringify` writes such a surrogate as an escape, so the written text determines every code unit.
-/

/-- Any sequence of UTF-16 code units. -/
abbrev CodeUnits := List UInt16

namespace CodeUnits

open Json (Quoting escapeChar)

/-! ## Pieces -/

/-- A surrogate code unit. -/
def isSurrogate (unit : UInt16) : Bool :=
  decide (0xD800 ≤ unit.toNat ∧ unit.toNat < 0xE000)

/-- A character, or a surrogate without a partner. -/
inductive Piece where
  | scalar (c : Char)
  | lone (unit : {unit : UInt16 // isSurrogate unit = true})
deriving DecidableEq

/-- The code units of a piece. -/
def Piece.units : Piece → CodeUnits
  | .scalar c => (Text.charUnits c).map Nat.toUInt16
  | .lone unit => [unit.1]

/-- The character of a leading and a trailing surrogate. -/
def combine (lead trail : UInt16) : Char :=
  Char.ofNat (0x10000 + (lead.toNat - 0xD800) * 0x400 + (trail.toNat - 0xDC00))

/-- The leading surrogate begins a pair that the trailing surrogate ends. -/
def isPair (lead trail : UInt16) : Bool :=
  decide ((0xD800 ≤ lead.toNat ∧ lead.toNat < 0xDC00) ∧ 0xDC00 ≤ trail.toNat ∧ trail.toNat < 0xE000)

/-- A code unit by itself. -/
def single (unit : UInt16) : Piece :=
  if h : isSurrogate unit = true then .lone ⟨unit, h⟩ else .scalar (Char.ofNat unit.toNat)

/-- Reads a text from the left, joining every leading surrogate with a trailing one after it. -/
def pieces : CodeUnits → List Piece
  | [] => []
  | [unit] => [single unit]
  | lead :: trail :: rest =>
      if isPair lead trail then .scalar (combine lead trail) :: pieces rest
      else single lead :: pieces (trail :: rest)

/-- The text of a string. -/
def ofString (text : String) : CodeUnits :=
  (Text.utf16 text).map Nat.toUInt16

/-- The string of a text, with the replacement character for every surrogate without a partner. -/
def toWellFormed (text : CodeUnits) : String :=
  String.ofList ((pieces text).map fun piece ↦
    match piece with
    | .scalar c => c
    | .lone _ => Char.ofNat 0xFFFD)

/-- A number outside the surrogates is the code point of its character. -/
theorem toNat_ofNat_of_lt {value : Nat} (hbound : value < 0x110000)
    (hsurrogate : ¬(0xD800 ≤ value ∧ value < 0xE000)) : (Char.ofNat value).toNat = value := by
  have hvalid : value.isValidChar := by
    show value < 0xD800 ∨ (0xDFFF < value ∧ value < 0x110000)
    omega
  rw [Char.ofNat, dif_pos hvalid]
  rfl

/-- The code unit of a number is found from the number. -/
theorem toUInt16_eq {value : Nat} {unit : UInt16} (h : value = unit.toNat) : value.toUInt16 = unit := by
  subst h
  simp

theorem units_single (unit : UInt16) : (single unit).units = [unit] := by
  unfold single
  split
  · rfl
  · rename_i hsurrogate
    have hbound : unit.toNat < 0x10000 := unit.toNat_lt
    have hunit : (Char.ofNat unit.toNat).toNat = unit.toNat :=
      toNat_ofNat_of_lt (by omega) (by simpa [isSurrogate] using hsurrogate)
    simp [Piece.units, Text.charUnits, hunit, hbound]

theorem toNat_combine {lead trail : UInt16} (h : isPair lead trail = true) :
    (combine lead trail).toNat =
      0x10000 + (lead.toNat - 0xD800) * 0x400 + (trail.toNat - 0xDC00) := by
  have hrange := of_decide_eq_true h
  exact toNat_ofNat_of_lt (by omega) (by omega)

theorem units_combine {lead trail : UInt16} (h : isPair lead trail = true) :
    (Piece.scalar (combine lead trail)).units = [lead, trail] := by
  have hrange := of_decide_eq_true h
  have hlead : 0xD800 + ((combine lead trail).toNat - 0x10000) / 0x400 = lead.toNat := by
    rw [toNat_combine h]
    omega
  have htrail : 0xDC00 + ((combine lead trail).toNat - 0x10000) % 0x400 = trail.toNat := by
    rw [toNat_combine h]
    omega
  have hlarge : ¬(combine lead trail).toNat < 0x10000 := by
    rw [toNat_combine h]
    omega
  rw [Piece.units, Text.charUnits, if_neg hlarge, List.map_cons, List.map_cons, List.map_nil,
    toUInt16_eq hlead, toUInt16_eq htrail]

/-- The pieces have the code units of the text. -/
theorem flatMap_units_pieces (text : CodeUnits) : (pieces text).flatMap Piece.units = text := by
  induction text using pieces.induct with
  | case1 => rfl
  | case2 unit => simp [pieces, units_single]
  | case3 lead trail rest hpair ih =>
      rw [pieces, if_pos hpair, List.flatMap_cons, units_combine hpair, ih]
      rfl
  | case4 lead trail rest hpair ih =>
      rw [pieces, if_neg hpair, List.flatMap_cons, units_single, ih]
      rfl

theorem pieces_inj {left right : CodeUnits} (h : pieces left = pieces right) : left = right := by
  rw [← flatMap_units_pieces left, ← flatMap_units_pieces right, h]

/-- The code units of one character are read back as the character. -/
theorem pieces_units_append (c : Char) (rest : CodeUnits) :
    pieces ((Piece.scalar c).units ++ rest) = .scalar c :: pieces rest := by
  have hvalid : c.toNat < 0xD800 ∨ (0xDFFF < c.toNat ∧ c.toNat < 0x110000) := c.valid
  by_cases hsmall : c.toNat < 0x10000
  · have hunit : c.toNat.toUInt16.toNat = c.toNat := by
      simp only [Nat.toUInt16_eq, UInt16.toNat_ofNat']
      omega
    have hsingle : single c.toNat.toUInt16 = .scalar c := by
      rw [single, dif_neg]
      · rw [hunit, Char.ofNat_toNat]
      · simp only [isSurrogate, hunit, decide_eq_true_eq]
        omega
    have hunits : (Piece.scalar c).units = [c.toNat.toUInt16] := by
      rw [Piece.units, Text.charUnits, if_pos hsmall]
      rfl
    rw [hunits, List.singleton_append]
    cases rest with
    | nil => rw [pieces.eq_2, hsingle, pieces]
    | cons next rest =>
        rw [pieces, if_neg, hsingle]
        simp only [isPair, hunit, decide_eq_true_eq]
        omega
  · have hsize : UInt16.size = 0x10000 := rfl
    obtain ⟨lead, hlead⟩ : ∃ lead : UInt16, lead.toNat = 0xD800 + (c.toNat - 0x10000) / 0x400 :=
      ⟨_, UInt16.toNat_ofNat_of_lt' (by rw [hsize]; omega)⟩
    obtain ⟨trail, htrail⟩ : ∃ trail : UInt16, trail.toNat = 0xDC00 + (c.toNat - 0x10000) % 0x400 :=
      ⟨_, UInt16.toNat_ofNat_of_lt' (by rw [hsize]; omega)⟩
    have hpair : isPair lead trail = true := by
      simp only [isPair, hlead, htrail, decide_eq_true_eq]
      omega
    have hcombine : combine lead trail = c := by
      rw [← Char.ofNat_toNat (combine lead trail), toNat_combine hpair, hlead, htrail,
        show 0x10000 + (0xD800 + (c.toNat - 0x10000) / 0x400 - 0xD800) * 0x400 +
          (0xDC00 + (c.toNat - 0x10000) % 0x400 - 0xDC00) = c.toNat by omega, Char.ofNat_toNat]
    rw [← hcombine, units_combine hpair, List.cons_append, List.singleton_append, pieces, if_pos hpair]

/-- The pieces of a string's text are its characters. -/
theorem pieces_ofString (text : String) : pieces (ofString text) = text.toList.map .scalar := by
  have hchars (chars : List Char) :
      pieces ((chars.flatMap Text.charUnits).map Nat.toUInt16) = chars.map .scalar := by
    induction chars with
    | nil => rfl
    | cons c rest ih =>
        rw [List.flatMap_cons, List.map_append, List.map_cons, ← ih]
        exact pieces_units_append c _
  exact hchars text.toList

theorem ofString_inj {left right : String} (h : ofString left = ofString right) : left = right := by
  have hpieces := congrArg pieces h
  rw [pieces_ofString, pieces_ofString] at hpieces
  rw [← String.toList_inj]
  exact List.map_injective_iff.mpr (fun _ _ hc ↦ Piece.scalar.inj hc) hpieces

theorem ofString_append (left right : String) :
    ofString (left ++ right) = ofString left ++ ofString right := by
  rw [ofString, Text.utf16, String.toList_append, List.flatMap_append, List.map_append]
  rfl

@[simp] theorem toWellFormed_ofString (text : String) : toWellFormed (ofString text) = text := by
  rw [toWellFormed, pieces_ofString, List.map_map]
  exact (congrArg String.ofList (List.map_id text.toList)).trans (String.ofList_toList)

/-- A text whose string has no replacement character has only paired surrogates. -/
theorem ofString_toWellFormed {text : CodeUnits}
    (h : Char.ofNat 0xFFFD ∉ (toWellFormed text).toList) : ofString (toWellFormed text) = text := by
  rw [toWellFormed, String.toList_ofList] at h
  have hscalar : ∀ piece ∈ pieces text, ∃ c, piece = .scalar c := by
    intro piece hpiece
    cases piece with
    | scalar c => exact ⟨c, rfl⟩
    | lone unit => exact absurd (List.mem_map.mpr ⟨Piece.lone unit, hpiece, rfl⟩) h
  obtain ⟨chars, hchars⟩ : ∃ chars : List Char, pieces text = chars.map .scalar := by
    generalize pieces text = parts at hscalar
    induction parts with
    | nil => exact ⟨[], rfl⟩
    | cons piece rest ih =>
        rw [List.forall_mem_cons] at hscalar
        obtain ⟨⟨c, rfl⟩, hrest⟩ := hscalar
        obtain ⟨chars, rfl⟩ := ih hrest
        exact ⟨c :: chars, rfl⟩
  refine pieces_inj ?_
  rw [pieces_ofString, toWellFormed, String.toList_ofList, hchars, List.map_map, List.map_map]
  rfl

/-! ## Order -/

theorem compare_toUInt16 {left right : Nat} (hleft : left < 65536) (hright : right < 65536) :
    compare left.toUInt16 right.toUInt16 = compare left right := by
  have hl : left.toUInt16.toNat = left := by
    simp only [Nat.toUInt16, UInt16.toNat_ofNat']
    omega
  have hr : right.toUInt16.toNat = right := by
    simp only [Nat.toUInt16, UInt16.toNat_ofNat']
    omega
  show compareOfLessAndEq left.toUInt16 right.toUInt16 = compareOfLessAndEq left right
  simp only [compareOfLessAndEq, UInt16.lt_iff_toNat_lt, ← UInt16.toNat_inj, hl, hr]

theorem compare_map_toUInt16 {left right : List Nat} (hleft : ∀ unit ∈ left, unit < 65536)
    (hright : ∀ unit ∈ right, unit < 65536) :
    compare (left.map Nat.toUInt16) (right.map Nat.toUInt16) = compare left right := by
  induction left generalizing right with
  | nil => cases right <;> rfl
  | cons first rest ih =>
      cases right with
      | nil => rfl
      | cons other others =>
          rw [List.forall_mem_cons] at hleft hright
          rw [List.map_cons, List.map_cons, List.compare_cons_cons, List.compare_cons_cons,
            compare_toUInt16 hleft.1 hright.1, ih hleft.2 hright.2]

theorem lt_of_mem_utf16 {text : String} {unit : Nat} (h : unit ∈ Text.utf16 text) : unit < 65536 := by
  obtain ⟨c, -, hunit⟩ := List.mem_flatMap.mp h
  have hchar : c.toNat < 0x110000 := by
    have hvalid := c.valid
    simp only [UInt32.isValidChar, Nat.isValidChar] at hvalid
    show c.val.toNat < 0x110000
    omega
  unfold Text.charUnits at hunit
  split at hunit
  · rw [List.mem_singleton] at hunit
    omega
  · simp only [List.mem_cons, List.not_mem_nil, or_false] at hunit
    omega

/-- Texts of strings are ordered by their code units. -/
theorem compare_ofString (left right : String) :
    compare (ofString left) (ofString right) = compare (Text.utf16 left) (Text.utf16 right) :=
  compare_map_toUInt16 (fun _ ↦ lt_of_mem_utf16) fun _ ↦ lt_of_mem_utf16

/-! ## Quoted texts -/

/-- One piece inside a JSON string. -/
def escapePiece : Piece → List Char
  | .scalar c => escapeChar c
  | .lone unit => ['\\', 'u', Json.hexDigit (unit.1.toNat / 0x1000),
      Json.hexDigit (unit.1.toNat / 0x100 % 16), Json.hexDigit (unit.1.toNat / 16 % 16),
      Json.hexDigit (unit.1.toNat % 16)]

/-- A JSON string with its quotation marks. -/
def quote (text : CodeUnits) : List Char :=
  '"' :: ((pieces text).flatMap escapePiece ++ ['"'])

theorem hexDigit_inj : ∀ left < 16, ∀ right < 16, Json.hexDigit left = Json.hexDigit right →
    left = right := by decide

/-- The escape of a surrogate begins with the digit that no escaped character has there. -/
theorem escapePiece_lone (unit : {unit : UInt16 // isSurrogate unit = true}) :
    ∃ rest, escapePiece (.lone unit) = '\\' :: 'u' :: 'd' :: rest := by
  have hrange := of_decide_eq_true unit.2
  have hdigit : unit.1.toNat / 0x1000 = 13 := by omega
  exact ⟨_, by rw [escapePiece, hdigit]; exact rfl⟩

theorem escapeChar_ne_lone (c : Char) (s t : List Char) :
    escapeChar c ++ s ≠ '\\' :: 'u' :: 'd' :: t := by
  unfold escapeChar
  split_ifs with h <;> simp_all

theorem escapePiece_lone_inj {left right : {unit : UInt16 // isSurrogate unit = true}}
    {s t : List Char} (h : escapePiece (.lone left) ++ s = escapePiece (.lone right) ++ t) :
    left = right ∧ s = t := by
  have hl := of_decide_eq_true left.2
  have hr := of_decide_eq_true right.2
  simp only [escapePiece, List.cons_append, List.nil_append, List.cons.injEq, true_and] at h
  obtain ⟨-, hsecond, hthird, hlast, hrest⟩ := h
  have hsecond := hexDigit_inj _ (by omega) _ (by omega) hsecond
  have hthird := hexDigit_inj _ (by omega) _ (by omega) hthird
  have hlast := hexDigit_inj _ (by omega) _ (by omega) hlast
  have hvalue : left.1.toNat = right.1.toNat := by omega
  exact ⟨Subtype.ext (UInt16.toNat_inj.mp hvalue), hrest⟩

/-- A written piece can be read back whatever follows it. -/
theorem escapePiece_inj {left right : Piece} {s t : List Char}
    (h : escapePiece left ++ s = escapePiece right ++ t) : left = right ∧ s = t := by
  cases left with
  | scalar c =>
      cases right with
      | scalar d =>
          obtain ⟨rfl, hrest⟩ := Json.escapeChar_inj h
          exact ⟨rfl, hrest⟩
      | lone unit =>
          obtain ⟨rest, hlone⟩ := escapePiece_lone unit
          rw [hlone] at h
          exact absurd h (escapeChar_ne_lone c s _)
  | lone unit =>
      cases right with
      | scalar d =>
          obtain ⟨rest, hlone⟩ := escapePiece_lone unit
          rw [hlone] at h
          exact absurd h.symm (escapeChar_ne_lone d t _)
      | lone unit' =>
          obtain ⟨rfl, hrest⟩ := escapePiece_lone_inj h
          exact ⟨rfl, hrest⟩

/-- No piece begins with a quotation mark. -/
theorem escapePiece_ne_quote (piece : Piece) (s t : List Char) :
    escapePiece piece ++ s ≠ '"' :: t := by
  cases piece with
  | scalar c => exact Json.escapeChar_ne_quote c s t
  | lone unit => simp [escapePiece]

/-- A quoted text can be read back whatever follows it. -/
theorem quote_append_inj {left right : CodeUnits} {s t : List Char}
    (h : quote left ++ s = quote right ++ t) : left = right ∧ s = t := by
  simp only [quote, List.cons_append, List.append_assoc, List.nil_append, List.cons.injEq,
    true_and] at h
  have hpieces (xs ys : List Piece)
      (h : xs.flatMap escapePiece ++ '"' :: s = ys.flatMap escapePiece ++ '"' :: t) :
      xs = ys ∧ s = t := by
    induction xs generalizing ys with
    | nil =>
        cases ys with
        | nil => simpa using h
        | cons y ys =>
            rw [List.flatMap_cons, List.append_assoc] at h
            exact absurd h.symm (escapePiece_ne_quote y _ _)
    | cons x xs ih =>
        cases ys with
        | nil =>
            rw [List.flatMap_cons, List.append_assoc] at h
            exact absurd h (escapePiece_ne_quote x _ _)
        | cons y ys =>
            rw [List.flatMap_cons, List.append_assoc, List.flatMap_cons, List.append_assoc] at h
            obtain ⟨rfl, hrest⟩ := escapePiece_inj h
            obtain ⟨rfl, rfl⟩ := ih ys hrest
            exact ⟨rfl, rfl⟩
  obtain ⟨hsame, hrest⟩ := hpieces _ _ h
  exact ⟨pieces_inj hsame, hrest⟩

/-- JSON strings of any code units. -/
def quoting : Quoting CodeUnits where
  quote := quote
  opens _ := ⟨_, rfl⟩
  readable := quote_append_inj

/-- The text of a string is quoted like the string. -/
theorem quote_ofString (text : String) :
    quoting.quote (ofString text) = Json.quoting.quote text := by
  show quote (ofString text) = Json.quote text
  rw [quote, pieces_ofString, List.flatMap_map]
  rfl

/-! ## Values -/

/-- A value as the source language has it. -/
abbrev Value := Json.Tree CodeUnits

/-- Values are compared through their text. -/
instance : DecidableEq Value := fun _ _ ↦ decidable_of_iff _ (@Json.Tree.render_inj _ quoting _ _)

mutual

/-- The value of a tree whose texts are strings. -/
def ofTree : Json.Tree String → Value
  | .null => .null
  | .bool value => .bool value
  | .num value => .num value
  | .str value => .str (ofString value)
  | .arr items => .arr (ofTrees items)
  | .obj fields => .obj (ofFields fields)

/-- The values of the items of an array. -/
def ofTrees : List (Json.Tree String) → List Value
  | [] => []
  | item :: rest => ofTree item :: ofTrees rest

/-- The values of the properties of an object. -/
def ofFields : List (String × Json.Tree String) → List (CodeUnits × Value)
  | [] => []
  | (name, value) :: rest => (ofString name, ofTree value) :: ofFields rest

end

theorem ofFields_fieldTrees (fields : List (String × Json.JsonValue)) :
    ofFields (Json.JsonValue.fieldTrees fields) =
      fields.map fun property ↦ (ofString property.1, ofTree property.2.tree) := by
  induction fields with
  | nil => rfl
  | cons property rest ih => rw [Json.JsonValue.fieldTrees, ofFields, ih, List.map_cons]

mutual

/-- A value whose texts are strings is written like its tree. -/
theorem render_ofTree (value : Json.Tree String) :
    Json.Tree.render quoting (ofTree value) = Json.Tree.render Json.quoting value := by
  match value with
  | .null | .bool true | .bool false | .num _ => rfl
  | .str text => exact quote_ofString text
  | .arr items => rw [ofTree, Json.Tree.render, Json.Tree.render, renderItems_ofTrees [] items]
  | .obj fields => rw [ofTree, Json.Tree.render, Json.Tree.render, renderFields_ofFields [] fields]

theorem renderItems_ofTrees (separator : List Char) (items : List (Json.Tree String)) :
    Json.Tree.renderItems quoting separator (ofTrees items) =
      Json.Tree.renderItems Json.quoting separator items := by
  match items with
  | [] => rfl
  | item :: rest =>
      rw [ofTrees, Json.Tree.renderItems, Json.Tree.renderItems, render_ofTree item,
        renderItems_ofTrees [','] rest]

theorem renderFields_ofFields (separator : List Char) (fields : List (String × Json.Tree String)) :
    Json.Tree.renderFields quoting separator (ofFields fields) =
      Json.Tree.renderFields Json.quoting separator fields := by
  match fields with
  | [] => rfl
  | (name, value) :: rest =>
      rw [ofFields, Json.Tree.renderFields, Json.Tree.renderFields, render_ofTree value,
        renderFields_ofFields [','] rest, quote_ofString]

end

end CodeUnits

/-- Different texts have different code units. -/
theorem Text.utf16_inj {left right : String} : Text.utf16 left = Text.utf16 right ↔ left = right := by
  refine ⟨fun h ↦ CodeUnits.ofString_inj ?_, fun h ↦ h ▸ rfl⟩
  unfold CodeUnits.ofString
  rw [h]
