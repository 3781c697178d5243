import PeerHours.Identity.Transparent
import PeerHours.Runtime.Receipts

/-!
# A sample host

A host for concrete runs: keys and signatures of the transparent host, and the addresses of a single web
origin, whose paths are percent-encoded as the WHATWG parser does.
-/

namespace PeerHours.PeerRuntime

/-- The transparent host, which takes any bytes for a key. -/
def sampleCrypto : ReceiptCrypto :=
  { transparentCrypto with createSpkiPublicKey := fun der ↦ some der }

/-! ## Addresses -/

/-- The origin of the sample addresses. -/
def sampleOrigin : List Char := "http://node.example/".toList

/-- Percent-encodes a character outside ASCII. -/
def escapeChar (c : Char) : List Char :=
  if c.toNat < 0x80 then [c]
  else Hex.percentEncode (utf8 (String.singleton c))

/-- The ASCII characters of the sample paths. -/
def inPath (c : Char) : Bool :=
  c.isAlphanum || c == '/' || c == '%'

/-- The address of a path that is percent-encoded already. -/
def sampleAddress (path : List Char) : WebUrl :=
  { href := String.ofList (sampleOrigin ++ path)
    protocol := "http:"
    username := ""
    password := ""
    hash := ""
    pathname := String.ofList ('/' :: path) }

/-- Parses the addresses of the sample origin. -/
def sampleParse (text : String) : Option WebUrl :=
  match sampleOrigin.isPrefixOf? text.toList with
  | some path =>
      if path.all fun c ↦ inPath c || decide (0x80 ≤ c.toNat) then
        some (sampleAddress (path.flatMap escapeChar))
      else none
  | none => none

theorem inPath_capitalDigit {value : Nat} (h : value < 16) : inPath (Hex.capitalDigit value) = true := by
  have hall : ∀ value < 16, inPath (Hex.capitalDigit value) = true := by decide
  exact hall value h

/-- A character that is not escaped is an ASCII character. -/
theorem lt_of_inPath {c : Char} (h : inPath c = true) : c.toNat < 0x80 ∧ Text.isSpace c = false := by
  have hrange : 0x25 ≤ c.toNat ∧ c.toNat < 0x80 := by
    have halphanum : c.isAlphanum = ((decide (c.val ≥ 'A'.val ∧ c.val ≤ 'Z'.val) ||
        decide (c.val ≥ 'a'.val) && decide (c.val ≤ 'z'.val)) ||
          decide (c.val ≥ '0'.val) && decide (c.val ≤ '9'.val)) := rfl
    simp only [inPath, halphanum, Bool.or_eq_true, Bool.and_eq_true, decide_eq_true_eq, beq_iff_eq, ge_iff_le,
      UInt32.le_iff_toNat_le] at h
    change (((65 ≤ c.toNat ∧ c.toNat ≤ 90 ∨ 97 ≤ c.toNat ∧ c.toNat ≤ 122) ∨
      48 ≤ c.toNat ∧ c.toNat ≤ 57) ∨ c = '/') ∨ c = '%' at h
    rcases h with (h | rfl) | rfl
    · omega
    · decide
    · decide
  refine ⟨hrange.2, ?_⟩
  rw [Text.isSpace, decide_eq_false_iff_not]
  omega

/-- Escaping leaves ASCII characters only. -/
theorem inPath_of_mem_escapeChar {c d : Char} (h : (inPath c || decide (0x80 ≤ c.toNat)) = true)
    (hd : d ∈ escapeChar c) : inPath d = true := by
  unfold escapeChar at hd
  split at hd
  · rename_i hascii
    rw [List.mem_singleton] at hd
    subst hd
    simpa [Nat.not_le.mpr hascii] using h
  · obtain ⟨byte, -, hmem⟩ := List.mem_flatMap.mp hd
    have hbyte := byte.toNat_lt
    simp only [List.mem_cons, List.not_mem_nil, or_false] at hmem
    rcases hmem with rfl | rfl | rfl
    · decide
    · exact inPath_capitalDigit (by omega)
    · exact inPath_capitalDigit (by omega)

/-- An escaped path is its own escaped form. -/
theorem flatMap_escapeChar {path : List Char} (h : ∀ c ∈ path, inPath c = true) :
    path.flatMap escapeChar = path := by
  induction path with
  | nil => rfl
  | cons c rest ih =>
      rw [List.forall_mem_cons] at h
      rw [List.flatMap_cons, escapeChar, if_pos (lt_of_inPath h.1).1, ih h.2]
      rfl

theorem sampleParse_eq_some {text : String} {url : WebUrl} :
    sampleParse text = some url ↔ ∃ path, text = String.ofList (sampleOrigin ++ path) ∧
      (∀ c ∈ path, (inPath c || decide (0x80 ≤ c.toNat)) = true) ∧
      sampleAddress (path.flatMap escapeChar) = url := by
  unfold sampleParse
  constructor
  · intro h
    split at h
    · rename_i path hpath
      split at h
      · rename_i hall
        rw [List.isPrefixOf?_eq_some_iff_append_eq] at hpath
        exact ⟨path, by rw [hpath, String.ofList_toList], List.all_eq_true.mp hall,
          Option.some.inj h⟩
      · exact absurd h (by simp)
    · exact absurd h (by simp)
  · rintro ⟨path, rfl, hall, rfl⟩
    have hpath : sampleOrigin.isPrefixOf? (String.ofList (sampleOrigin ++ path)).toList = some path := by
      rw [List.isPrefixOf?_eq_some_iff_append_eq, String.toList_ofList]
    rw [hpath]
    exact if_pos (List.all_eq_true.mpr hall)

/-- Every character of an escaped path is written as it is. -/
theorem inPath_of_mem_flatMap {path : List Char} {c : Char}
    (h : ∀ c ∈ path, (inPath c || decide (0x80 ≤ c.toNat)) = true)
    (hc : c ∈ path.flatMap escapeChar) : inPath c = true := by
  obtain ⟨d, hd, hmem⟩ := List.mem_flatMap.mp hc
  exact inPath_of_mem_escapeChar (h d hd) hmem

/-- The addresses of the sample origin. -/
def sampleUrls : UrlParser where
  parse := sampleParse
  parse_href := by
    intro text url h
    obtain ⟨path, -, hpath, rfl⟩ := sampleParse_eq_some.mp h
    have hescaped (c : Char) (hc : c ∈ path.flatMap escapeChar) : inPath c = true :=
      inPath_of_mem_flatMap hpath hc
    refine sampleParse_eq_some.mpr ⟨_, rfl, fun c hc ↦ ?_, congrArg _ (flatMap_escapeChar hescaped)⟩
    rw [hescaped c hc, Bool.true_or]
  href_ne := by
    intro text url h _ hempty
    obtain ⟨path, -, -, rfl⟩ := sampleParse_eq_some.mp h
    have hnil := String.toList_inj.mpr hempty
    rw [sampleAddress, String.toList_ofList] at hnil
    exact absurd (List.append_eq_nil_iff.mp hnil).1 (by decide)
  trim_href := by
    intro text url h _
    obtain ⟨path, -, hpath, rfl⟩ := sampleParse_eq_some.mp h
    refine Text.trim_of_forall fun c hc ↦ ?_
    rw [sampleAddress, String.toList_ofList] at hc
    cases List.mem_append.mp hc with
    | inl horigin =>
        have hall : sampleOrigin.all (fun c ↦ !Text.isSpace c) = true := rfl
        simpa using List.all_eq_true.mp hall c horigin
    | inr hrest => exact (lt_of_inPath (inPath_of_mem_flatMap hpath hrest)).2

/-- Only an address with a path of its own parses. -/
theorem sampleUrls_parse {path : List Char}
    (h : ∀ c ∈ path, (inPath c || decide (0x80 ≤ c.toNat)) = true) :
    sampleUrls.parse (String.ofList (sampleOrigin ++ path)) =
      some (sampleAddress (path.flatMap escapeChar)) :=
  sampleParse_eq_some.mpr ⟨path, rfl, h, rfl⟩

/-! ## Receipt nodes -/

/-- The key that repeats one byte. -/
def sampleKey (byte : UInt8) : ReceiptKey sampleCrypto where
  der := List.replicate 64 byte
  key := List.replicate 64 byte
  parses := rfl
  ed25519 := rfl
  bounded := by
    rw [Base64Url.length_encode, List.length_replicate]
    decide

theorem signsFor_sampleKey (byte : UInt8) :
    SignsFor (sampleKey byte) fun _ ↦ List.replicate 64 byte := by
  intro payload
  refine ⟨List.length_replicate, ?_⟩
  show decide (List.replicate 64 byte = List.replicate 64 byte) = true
  exact decide_eq_true rfl

/-- The path of the receipts. -/
def receiptsPath : List Char := "receipts/".toList

/-- A node with a key of its own. -/
def sampleNode (byte : UInt8) : CommunityReceiptNode where
  nodeId := (sampleKey byte).nodeId
  publicKey := (sampleKey byte).publicKey
  receiptUrl := (sampleAddress receiptsPath).href

theorem pinnedNode_sampleNode (byte : UInt8) :
    PinnedNode sampleCrypto sampleUrls (sampleNode byte) := by
  refine ⟨⟨sampleKey byte, rfl, rfl⟩, sampleAddress receiptsPath, ?_, rfl, rfl, by decide⟩
  have hpath : ∀ c ∈ receiptsPath, inPath c = true :=
    List.all_eq_true.mp rfl
  refine sampleParse_eq_some.mpr ⟨receiptsPath, rfl, fun c hc ↦ ?_,
    congrArg sampleAddress (flatMap_escapeChar hpath)⟩
  rw [hpath c hc, Bool.true_or]

end PeerHours.PeerRuntime
