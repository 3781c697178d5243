import PeerHours.Crypto
import PeerHours.Library.EventRun
import PeerHours.Runtime.SampleHost

/-!
# Bounded JSON requests

`requestJson` returns a promise and settles it from the events of one HTTP request. A latch lets only the first
outcome through; the parser runs after the latch has closed.
-/

namespace PeerHours.PeerRuntime

open Json EventRun

/-! ## Requests -/

/-- The largest response body, in bytes. -/
def maxHttpJsonResponseBytes : Nat := 64 * 1024

/-- What a promise was settled with. -/
inductive Outcome where
  | resolved (value : JsonValue)
  | rejected (message : String)
deriving DecidableEq

/-- What is being done with the response: nothing yet, nothing any more, or its body is read. -/
inductive ResponseState where
  | awaited
  | ignored
  | reading (body : String) (bodySize : Nat)
deriving DecidableEq

/-- The latch, the promise, and the response. No request is sent to an invalid address. -/
structure RequestState where
  sent : Bool
  settled : Bool
  promise : Option Outcome
  response : ResponseState
deriving DecidableEq

/-- The status and the headers of a response. -/
structure ResponseHead where
  statusCode : Option Nat
  contentType : Option String
  contentLength : Option String

/-- What the request and its response report. A timeout destroys the request, which then reports an error of
its own. -/
inductive RequestEvent where
  | response (head : ResponseHead)
  | data (chunk : String)
  | ended
  | responseError (message : String)
  | requestError (message : String)
  | timeout

/-- The first outcome of a promise stays. -/
def RequestState.conclude (state : RequestState) (outcome : Outcome) : RequestState :=
  { state with promise := some (state.promise.getD outcome) }

/-- Runs a callback that settles the promise, unless one ran before. The latch closes first. -/
def RequestState.settle (state : RequestState) (callback : RequestState → RequestState) :
    RequestState :=
  if state.settled then state else callback { state with settled := true }

/-- Only decimal digits, at least one. -/
def isDigits (text : String) : Bool :=
  text.toList != [] && text.toList.all Char.isDigit

/-- The number that decimal digits spell. -/
def digitsValue (text : String) : Nat :=
  text.toList.foldl (fun total digit ↦ 10 * total + (digit.toNat - '0'.toNat)) 0

/-- Why the head of a response keeps its body from being read. -/
def refuses (head : ResponseHead) : Option String :=
  if head.statusCode.getD 500 < 200 ∨ 300 ≤ head.statusCode.getD 500 then
    some ("HTTP endpoint returned " ++ (head.statusCode.map toString).getD "unknown status")
  else if (head.contentType.any fun text ↦ "application/json".toList.isPrefixOf text.toLower.toList) =
      false then
    some "HTTP endpoint returned a non-JSON response"
  else if (head.contentLength.any fun text ↦
      !isDigits text || decide (maxHttpJsonResponseBytes < digitsValue text)) = true then
    some "HTTP endpoint returned an oversized or invalid JSON response"
  else none

section Machine

variable (parse : String → Option JsonValue)

/-- The handler of the end of a response. The parser throws out of the callback of a closed latch, so the
handler of the exception finds the latch closed. -/
def RequestState.ended (state : RequestState) (body : String) : RequestState :=
  if state.settled then state
  else
    match parse body with
    | some value => state.settle (·.conclude (.resolved value))
    | none => (state.settle id).settle (·.conclude (.rejected "HTTP endpoint returned invalid JSON"))

/-- What one event changes. -/
def RequestState.next (state : RequestState) (event : RequestEvent) : RequestState :=
  if state.sent = false then state
  else
    match event, state.response with
    | .response head, .awaited =>
        match refuses head with
        | some message => { state with response := .ignored }.settle (·.conclude (.rejected message))
        | none => { state with response := .reading "" 0 }
    | .data chunk, .reading body bodySize =>
        let bodySize := bodySize + (utf8 chunk).length
        if maxHttpJsonResponseBytes < bodySize then { state with response := .reading body bodySize }
        else { state with response := .reading (body ++ chunk) bodySize }
    | .ended, .reading body _ => state.ended parse body
    | .responseError message, .reading _ _ => state.settle (·.conclude (.rejected message))
    | .requestError message, _ => state.settle (·.conclude (.rejected message))
    | _, _ => state

/-- The state right after the call. -/
def requestJson (urls : UrlParser) (url : String) : RequestState :=
  if ((urls.parse url).any fun parsed ↦ parsed.protocol == "http:" || parsed.protocol == "https:") then
    { sent := true, settled := false, promise := none, response := .awaited }
  else
    { sent := false
      settled := false
      promise := some (.rejected "Configured HTTP endpoint must be a valid HTTP(S) URL")
      response := .ignored }

/-! ## Settling -/

/-- A closed latch has settled the promise. -/
def RequestState.Settles (state : RequestState) : Prop :=
  state.settled = true → state.promise.isSome = true

/-- The end of a response within the limit, which nothing settled before, settles the promise with the parsed
body if it is valid and with a rejection otherwise. -/
def RequestState.EndsWell (state : RequestState) (event : RequestEvent) : Prop :=
  ∀ body bodySize, event = .ended → state.sent = true → state.settled = false →
    state.response = .reading body bodySize → bodySize ≤ maxHttpJsonResponseBytes →
    (state.next parse event).promise = some (match parse body with
      | some value => .resolved value
      | none => .rejected "HTTP endpoint returned invalid JSON")

/-- The response ends with a body that does not parse, and nothing settled the promise before. -/
def RequestState.EndsUnparsed (state : RequestState) (event : RequestEvent) : Prop :=
  event = .ended ∧ state.sent = true ∧ state.settled = false ∧
    ∃ body bodySize, state.response = .reading body bodySize ∧ parse body = none

/-- The latch is open as long as the promise is pending, and it opens no more. -/
structure RequestState.Consistent (state : RequestState) : Prop where
  pending : state.sent = true → state.settled = false → state.promise = none
  settles : state.Settles

theorem consistent_requestJson (urls : UrlParser) (url : String) : (requestJson urls url).Consistent := by
  unfold requestJson
  split
  · exact ⟨fun _ _ ↦ rfl, nofun⟩
  · exact ⟨nofun, nofun⟩

/-- Settling with an outcome keeps the latch and the promise consistent. -/
theorem RequestState.Consistent.settle {state : RequestState} (h : state.Consistent)
    (outcome : Outcome) : (state.settle (·.conclude outcome)).Consistent := by
  unfold RequestState.settle
  split
  · exact h
  · exact ⟨nofun, fun _ ↦ rfl⟩

/-- What is done with the response does not matter to the latch and the promise. -/
theorem RequestState.Consistent.withResponse {state : RequestState} (h : state.Consistent)
    (response : ResponseState) : { state with response := response }.Consistent :=
  ⟨h.pending, h.settles⟩

variable {parse} {state : RequestState}

/-- A body that parses settles the promise. -/
theorem RequestState.ended_of_parse {body : String} {value : JsonValue}
    (hparse : parse body = some value) :
    state.ended parse body = state.settle (·.conclude (.resolved value)) := by
  unfold RequestState.ended RequestState.settle
  rw [hparse]
  split <;> rfl

/-- A body that does not parse closes the latch and leaves the promise. -/
theorem RequestState.ended_of_not_parse {body : String} (hparse : parse body = none)
    (hopen : state.settled = false) : state.ended parse body = { state with settled := true } := by
  simp [RequestState.ended, RequestState.settle, hparse, hopen]

/-- Every event but the end of an unparsed response keeps the latch and the promise consistent. -/
theorem RequestState.Consistent.next (h : state.Consistent) {event : RequestEvent}
    (hevent : ¬ state.EndsUnparsed parse event) : (state.next parse event).Consistent := by
  unfold RequestState.next
  split
  · exact h
  · rename_i hsent
    split
    · split
      · exact (h.withResponse .ignored).settle _
      · exact h.withResponse _
    · dsimp only
      split <;> exact h.withResponse _
    · rename_i body bodySize hresponse
      by_cases hsettled : state.settled = true
      · simpa [RequestState.ended, hsettled] using h
      · cases hparse : parse body with
        | some value =>
            rw [ended_of_parse hparse]
            exact h.settle _
        | none =>
            exact absurd ⟨rfl, by simpa using hsent, by simpa using hsettled, body, bodySize, hresponse,
              hparse⟩ hevent
    · exact h.settle _
    · exact h.settle _
    · exact h

/-- An event settles the promise as it should exactly when it does not end an unparsed response. -/
theorem RequestState.Consistent.settles_iff (h : state.Consistent) (event : RequestEvent) :
    ¬ state.EndsUnparsed parse event ↔
      (state.next parse event).Settles ∧ state.EndsWell parse event := by
  constructor
  · intro hevent
    refine ⟨(h.next hevent).settles, ?_⟩
    rintro body bodySize rfl hsent hopen hresponse -
    cases hparse : parse body with
    | none => exact absurd ⟨rfl, hsent, hopen, body, bodySize, hresponse, hparse⟩ hevent
    | some value =>
        have hpending := h.pending hsent hopen
        simp [RequestState.next, hsent, hresponse, ended_of_parse hparse, RequestState.settle, hopen,
          RequestState.conclude, hpending]
  · rintro ⟨hsettles, -⟩ ⟨rfl, hsent, hopen, body, bodySize, hresponse, hparse⟩
    have hnext : state.next parse .ended = { state with settled := true } := by
      simp [RequestState.next, hsent, hresponse, ended_of_not_parse hparse hopen]
    have hpromise := hsettles (by rw [hnext])
    rw [hnext, h.pending hsent hopen] at hpromise
    cases hpromise

/-- A promise that is pending behind a closed latch stays pending whatever is reported later. -/
theorem RequestState.promise_of_stuck (hsettled : state.settled = true) (hpromise : state.promise = none)
    (events : List RequestEvent) :
    (run (RequestState.next parse) state events).promise = none := by
  have hkept := @keeps _ _ (RequestState.next parse) (fun _ _ ↦ True) state
    (fun state ↦ state.settled = true ∧ state.promise = none) ?_ ⟨hsettled, hpromise⟩ events
    (along_iff.mpr fun _ _ _ _ ↦ trivial)
  · exact hkept.2
  · intro state event hstuck _
    unfold RequestState.next RequestState.ended RequestState.settle
    grind

end Machine

/-- Along every run of a request, closing the latch settles the promise, and the end of a response settles it
with the parsed body or a rejection, exactly when no response ends with a body that does not parse while the
promise is pending. -/
theorem requestJson_settles_iff (parse : String → Option JsonValue) (urls : UrlParser) (url : String)
    (events : List RequestEvent) :
    Along (RequestState.next parse)
        (fun state event ↦ (state.next parse event).Settles ∧ state.EndsWell parse event)
        (requestJson urls url) events ↔
      Along (RequestState.next parse) (fun state event ↦ ¬ state.EndsUnparsed parse event)
        (requestJson urls url) events := by
  have hcongr := @along_congr _ _ (RequestState.next parse)
    (fun state event ↦ ¬ state.EndsUnparsed parse event)
    (fun state event ↦ (state.next parse event).Settles ∧ state.EndsWell parse event)
    (requestJson urls url) RequestState.Consistent (fun _ _ h hevent ↦ h.next hevent)
    (fun _ event h ↦ h.settles_iff event) (consistent_requestJson urls url) events
  exact hcongr.symm

/-- An unfinished object is sent as the whole body: the latch is closed and the promise pending. -/
theorem unparsed_body_hangs :
    let parse := fun body ↦ if body = "null" then some JsonValue.null else none
    let state := run (RequestState.next parse) (requestJson sampleUrls "http://node.example/")
      [.response ⟨some 200, some "application/json", none⟩, .data "\x7b", .ended]
    state.settled = true ∧ state.promise = none := by
  decide +kernel

end PeerHours.PeerRuntime
