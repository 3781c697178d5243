import PeerHours.Crypto
import PeerHours.Library.Checked
import PeerHours.Library.JsonParse
import PeerHours.Runtime.HttpJson

/-!
# Bounded receipt responses

The desktop reads the body of a receipt response chunk by chunk and gives up once it grows past a limit, so that
an unavailable community node cannot exhaust its memory.
-/

namespace PeerHours.Desktop

open Checked Json PeerRuntime

/-- `TextDecoder`. It reads UTF-8, and a byte order mark at the front is no part of the text. -/
structure TextDecoder where
  decode : Buffer → String
  decode_utf8 : ∀ {text : String}, text.toList.head? ≠ some '\uFEFF' → decode (utf8 text) = text

/-- A response as `fetch` gives it: its status, the length it declares, and the chunks of its body. -/
structure ReceiptResponse where
  status : Nat
  contentLength : Option String
  body : Option (List Buffer)

def maxReceiptResponseBytes : Nat := 8 * 1024

/-- The message for a response past the limit. -/
def oversizedReceiptResponse : String := "Receipt endpoint returned an oversized response."

/-- Reads chunks after the bytes that were read before. -/
def readChunks (length : Nat) : List Buffer → Except String Buffer
  | [] => .ok []
  | chunk :: rest => do
      let length := length + chunk.length
      require (length ≤ maxReceiptResponseBytes) oversizedReceiptResponse
      let bytes ← readChunks length rest
      pure (chunk ++ bytes)

/-- Reads a bounded JSON response. -/
def fetchReceiptJson (decoder : TextDecoder) (response : ReceiptResponse) : Except String JsonValue := do
  require (200 ≤ response.status ∧ response.status < 300)
    ("Receipt endpoint returned HTTP " ++ toString response.status ++ ".")
  require (∀ text ∈ response.contentLength,
    isDigits text = true ∧ digitsValue text ≤ maxReceiptResponseBytes) oversizedReceiptResponse
  let chunks ← present response.body "Receipt endpoint returned no response body."
  let bytes ← readChunks 0 chunks
  present (Json.parse (decoder.decode bytes)) "Receipt endpoint returned invalid JSON."

/-- Only a response with the status of a success is read. -/
theorem status_of_fetchReceiptJson {decoder : TextDecoder} {response : ReceiptResponse} {read : JsonValue}
    (h : fetchReceiptJson decoder response = .ok read) : 200 ≤ response.status ∧ response.status < 300 := by
  obtain ⟨_, hstatus, -⟩ := bind_eq_ok.mp h
  exact require_eq_ok.mp hstatus

/-- Chunks are read in full exactly when all of them together stay within the limit. -/
theorem readChunks_eq_ok {length : Nat} {chunks : List Buffer} {bytes : Buffer}
    (hlength : length ≤ maxReceiptResponseBytes) :
    readChunks length chunks = .ok bytes ↔
      chunks.flatten = bytes ∧ length + bytes.length ≤ maxReceiptResponseBytes := by
  induction chunks generalizing length bytes with
  | nil =>
      rw [readChunks, List.flatten_nil]
      constructor
      · intro h
        obtain rfl := Except.ok.inj h
        exact ⟨rfl, hlength⟩
      · rintro ⟨rfl, -⟩
        rfl
  | cons chunk rest ih =>
      simp only [readChunks, bind_eq_ok, require_eq_ok, pure_eq_ok, exists_const, List.flatten_cons]
      constructor
      · rintro ⟨hfits, tail, htail, rfl⟩
        obtain ⟨hflatten, hrest⟩ := (ih hfits).mp htail
        rw [hflatten, List.length_append]
        exact ⟨rfl, by omega⟩
      · rintro ⟨rfl, hfits⟩
        rw [List.length_append] at hfits
        have hchunk : length + chunk.length ≤ maxReceiptResponseBytes := by omega
        exact ⟨hchunk, _, (ih hchunk).mpr ⟨rfl, by omega⟩, rfl⟩

/-- The response carries the value: its text in any chunks, with its length or without. -/
structure ReceiptResponse.Carries (response : ReceiptResponse) (status : Nat) (value : JsonValue) : Prop where
  status : response.status = status
  contentLength : ∀ text ∈ response.contentLength,
    isDigits text = true ∧ digitsValue text = (jsonBytes value).length
  body : ∃ chunks, response.body = some chunks ∧ chunks.flatten = jsonBytes value

/-- No JSON text starts with a byte order mark. -/
theorem head_stringify (value : JsonValue) : (stringify value).toList.head? ≠ some '\uFEFF' := by
  rw [stringify, String.toList_ofList]
  cases value with
  | bool value => cases value <;> exact of_decide_eq_true rfl
  | num value =>
      obtain ⟨c, chars, htext, hc⟩ := exists_numberText_eq_cons value
      rw [render, htext, List.head?_cons, ne_eq, Option.some.injEq]
      rintro rfl
      exact absurd hc (by decide)
  | _ => exact of_decide_eq_true rfl

/-- A carried value is read exactly when the status is that of a success and its text is within the limit,
whatever chunks it comes in. -/
theorem fetchReceiptJson_of_carries (decoder : TextDecoder) {response : ReceiptResponse} {status : Nat}
    {value : JsonValue} (hcarries : response.Carries status value) (hvalue : WellFormed value)
    {read : JsonValue} :
    fetchReceiptJson decoder response = .ok read ↔ (200 ≤ status ∧ status < 300) ∧
      (jsonBytes value).length ≤ maxReceiptResponseBytes ∧ value = read := by
  obtain ⟨chunks, hbody, hflatten⟩ := hcarries.body
  have hdecode : Json.parse (decoder.decode (jsonBytes value)) = some value := by
    rw [jsonBytes, decoder.decode_utf8 (head_stringify value), parse_stringify hvalue]
  simp only [fetchReceiptJson, bind_eq_ok, require_eq_ok, present_eq_ok, exists_const, hcarries.status, hbody,
    Option.some.injEq, exists_eq_left', readChunks_eq_ok (Nat.zero_le _), hflatten, Nat.zero_add]
  constructor
  · rintro ⟨hstatus, -, _, ⟨rfl, hfits⟩, hread⟩
    exact ⟨hstatus, hfits, Option.some.inj (hdecode.symm.trans hread)⟩
  · rintro ⟨hstatus, hfits, rfl⟩
    refine ⟨hstatus, fun text htext ↦ ?_, _, ⟨rfl, hfits⟩, hdecode⟩
    obtain ⟨hdigits, hvalue⟩ := hcarries.contentLength text htext
    exact ⟨hdigits, hvalue ▸ hfits⟩

end PeerHours.Desktop
