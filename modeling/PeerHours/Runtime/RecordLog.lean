import Mathlib.Data.List.Infix
import Mathlib.Logic.Relation
import PeerHours.Runtime.RecordStore

/-!
# Concurrent calls of a record store

Every call of `append` waits for the completion of the one before it, reads the length of the core and lets the core
append its record. A read takes the length of the core when it starts. Calls go on at their `await` points in any
order.
-/

namespace PeerHours.PeerRuntime

open Checked Json

/-! ## Calls -/

/-- Where a call of `append` stands. -/
inductive AppendPhase where
  | rejected (message : String)
  | waiting (record : JsonValue) (previous : Option Nat)
  | appending (record : JsonValue) (index : Nat) (landed : Bool)
  | resolved (record : JsonValue) (index : Nat)
  | failed (record : JsonValue) (message : String)

/-- A call of `append` with the value that it was given. -/
structure AppendCall where
  value : JsValue
  phase : AppendPhase

/-- The call took a place in the chain of appends. -/
def AppendPhase.queued : AppendPhase → Bool
  | .rejected _ => false
  | _ => true

/-- The call's turn came. -/
def AppendPhase.started : AppendPhase → Bool
  | .rejected _ | .waiting _ _ => false
  | _ => true

/-- The call returned or threw, which completes its promise. -/
def AppendPhase.settled : AppendPhase → Bool
  | .waiting _ _ | .appending _ _ _ => false
  | _ => true

/-- The record that the call made of its value. -/
def AppendPhase.record? : AppendPhase → Option JsonValue
  | .rejected _ => none
  | .waiting record _ | .appending record _ _ | .resolved record _ | .failed record _ => some record

/-- The entry that the call added to the core. -/
def AppendPhase.landed? : AppendPhase → Option (Nat × JsonValue)
  | .appending record index true | .resolved record index => some (index, record)
  | _ => none

/-- Where the loop of `readAll` stands with the records that it took: about to look at the next index, waiting for
the block at it, or settled. -/
inductive ReadAllStage where
  | looking (records : List JsonValue)
  | getting (records : List JsonValue)
  | settled (result : Except String (List JsonValue))

/-- A call of `read` or `readAll` with the length of the core when it was made. A `read` without a result waits for
its block. -/
inductive Reader where
  | read (index : Int) (length : Nat) (result : Option (Except String (Option JsonValue)))
  | readAll (length : Nat) (stage : ReadAllStage)

/-- What a reader was asked for, and the length of the core when it was. -/
def Reader.request : Reader → Option Int × Nat
  | .read index length _ => (some index, length)
  | .readAll length _ => (none, length)

/-- A record store on its core, with the calls in the order in which they were made. -/
structure StoreState where
  log : List Block
  appendTail : Option Nat
  calls : List AppendCall
  readers : List Reader

/-- A store that was opened on a core that holds some records. -/
def StoreState.opened (history : List JsonValue) : StoreState :=
  ⟨history.map stringify, none, [], []⟩

namespace StoreState

/-! ## What a call does -/

/-- The part of `append` before its first `await`. -/
def append (state : StoreState) (value : JsValue) (writable : Bool) : StoreState :=
  match require (writable = true) "This record core is read-only." >>= fun _ ↦ normalizeRecord value with
  | .error message => { state with calls := state.calls ++ [⟨value, .rejected message⟩] }
  | .ok record =>
      { state with
        calls := state.calls ++ [⟨value, .waiting record state.appendTail⟩]
        appendTail := some state.calls.length }

/-- A value that is no record is turned away without a place in the chain. -/
theorem append_of_rejected {state : StoreState} {value : JsValue} {message : String}
    (h : normalizeRecord value = .error message) :
    state.append value true = { state with calls := state.calls ++ [⟨value, .rejected message⟩] } := by
  have hwritable : require (true = true) "This record core is read-only." = .ok () := rfl
  rw [append, hwritable, ok_bind, h]

/-- A record takes its place behind the calls before it. -/
theorem append_of_normalized {state : StoreState} {value : JsValue} {record : JsonValue}
    (h : normalizeRecord value = .ok record) :
    state.append value true =
      { state with
        calls := state.calls ++ [⟨value, .waiting record state.appendTail⟩]
        appendTail := some state.calls.length } := by
  have hwritable : require (true = true) "This record core is read-only." = .ok () := rfl
  rw [append, hwritable, ok_bind, h]

/-- The part of `append` that runs when the call before it is complete. -/
def afterWait (state : StoreState) (record : JsonValue) (writable : Bool) : AppendPhase :=
  match require (writable = true) "This record core is read-only." with
  | .error message => .failed record message
  | .ok _ => .appending record state.log.length false

/-- A call goes on. -/
def setCall (state : StoreState) (position : Nat) (value : JsValue) (phase : AppendPhase) : StoreState :=
  { state with calls := state.calls.set position ⟨value, phase⟩ }

/-- The core adds the block that a call gave it. -/
def land (state : StoreState) (position : Nat) (value : JsValue) (record : JsonValue) (index : Nat) :
    StoreState :=
  { state.setCall position value (.appending record index true) with
    log := state.log ++ [stringify record] }

/-- The part of `read` before it asks the core. -/
def startRead (state : StoreState) (index : Int) : Reader :=
  .read index state.log.length
    (if index < 0 then some (.error "A record index must be a non-negative integer")
    else if state.log.length ≤ index.toNat then some (.ok none)
    else none)

/-- The part of `readAll` before its loop. -/
def startReadAll (state : StoreState) : Reader :=
  .readAll state.log.length (.looking [])

/-- The loop of `readAll` looks at the next index. -/
def nextIndex (state : StoreState) (length : Nat) (records : List JsonValue) : ReadAllStage :=
  if records.length < length then
    if state.log.length ≤ records.length then
      .settled (.error "A record core changed while its immutable history was being read.")
    else .getting records
  else .settled (.ok records)

/-- The loop of `readAll` takes the record that it read. -/
def pushRecord (records : List JsonValue) : Except String JsonValue → ReadAllStage
  | .ok record => .looking (records ++ [record])
  | .error message => .settled (.error message)

/-- A call is added. -/
def addReader (state : StoreState) (reader : Reader) : StoreState :=
  { state with readers := state.readers ++ [reader] }

/-- A read goes on. -/
def setReader (state : StoreState) (position : Nat) (reader : Reader) : StoreState :=
  { state with readers := state.readers.set position reader }

/-- The promise that a call waits for is complete. -/
def Completed (state : StoreState) (previous : Option Nat) : Prop :=
  ∀ position ∈ previous, ∃ call, state.calls[position]? = some call ∧ call.phase.settled = true

/-! ## Runs -/

/-- A new call, as far as its first `await`. -/
inductive Call : StoreState → StoreState → Prop
  | append {state : StoreState} {value : JsValue} (hvalue : WellFormed value.json) (writable : Bool) :
      Call state (state.append value writable)
  | read {state : StoreState} (index : Int) : Call state (state.addReader (state.startRead index))
  | readAll {state : StoreState} : Call state (state.addReader state.startReadAll)

/-- A pending call goes on to its next `await` or to its end. The core adds the block that it was given at some point
before its promise resolves, or it fails. -/
inductive Resume : StoreState → StoreState → Prop
  | proceeds {state : StoreState} {position : Nat} {value : JsValue} {record : JsonValue}
      {previous : Option Nat}
      (hcall : state.calls[position]? = some ⟨value, .waiting record previous⟩)
      (hprevious : state.Completed previous) (writable : Bool) :
      Resume state (state.setCall position value (state.afterWait record writable))
  | lands {state : StoreState} {position : Nat} {value : JsValue} {record : JsonValue} {index : Nat}
      (hcall : state.calls[position]? = some ⟨value, .appending record index false⟩) :
      Resume state (state.land position value record index)
  | fails {state : StoreState} {position : Nat} {value : JsValue} {record : JsonValue} {index : Nat}
      (hcall : state.calls[position]? = some ⟨value, .appending record index false⟩) (message : String) :
      Resume state (state.setCall position value (.failed record message))
  | resolves {state : StoreState} {position : Nat} {value : JsValue} {record : JsonValue} {index : Nat}
      (hcall : state.calls[position]? = some ⟨value, .appending record index true⟩) :
      Resume state (state.setCall position value (.resolved record index))
  | gets {state : StoreState} {position : Nat} {index : Int} {length : Nat} {block : Block}
      (hreader : state.readers[position]? = some (.read index length none))
      (hblock : state.log[index.toNat]? = some block) :
      Resume state (state.setReader position
        (.read index length (some ((readBlock block).map some))))
  | looks {state : StoreState} {position length : Nat} {records : List JsonValue}
      (hreader : state.readers[position]? = some (.readAll length (.looking records))) :
      Resume state (state.setReader position (.readAll length (state.nextIndex length records)))
  | getsNext {state : StoreState} {position length : Nat} {records : List JsonValue} {block : Block}
      (hreader : state.readers[position]? = some (.readAll length (.getting records)))
      (hblock : state.log[records.length]? = some block) :
      Resume state (state.setReader position (.readAll length (pushRecord records (readBlock block))))

/-- Any interleaving of new calls and of pending ones that go on. -/
abbrev Run : StoreState → StoreState → Prop :=
  Relation.ReflTransGen fun state next ↦ Call state next ∨ Resume state next

end StoreState

/-! ## The chain of appends -/

/-- The last call before a position that took a place in the chain. -/
def LastQueued (queued : List Bool) (bound : Nat) : Option Nat → Prop
  | none => ∀ position < bound, queued[position]? ≠ some true
  | some last => last < bound ∧ queued[last]? = some true ∧
      ∀ position, last < position → position < bound → queued[position]? ≠ some true

/-- Which calls took a place in the chain. -/
def StoreState.queued (state : StoreState) : List Bool :=
  state.calls.map (·.phase.queued)

/-- The entries that calls added to the core, in the order of the calls. -/
def StoreState.landed (state : StoreState) : List (Nat × JsonValue) :=
  state.calls.filterMap (·.phase.landed?)

/-- What the chain of promises keeps: the tail is the last call in it, every waiting call waits for the one before
it, and a call starts only when all earlier ones are settled. -/
structure Chained (state : StoreState) : Prop where
  tail : LastQueued state.queued state.calls.length state.appendTail
  previous : ∀ (position : Nat) (value : JsValue) (record : JsonValue) (previous : Option Nat),
    state.calls[position]? = some ⟨value, .waiting record previous⟩ →
      LastQueued state.queued position previous
  started : ∀ (first second : Nat) (earlier later : AppendCall), first < second →
    state.calls[first]? = some earlier →
    state.calls[second]? = some later → later.phase.started = true → earlier.phase.settled = true
  normalized : ∀ call ∈ state.calls, ∀ record, call.phase.record? = some record →
    normalizeRecord call.value = .ok record ∧ WellFormed record

/-- Replacing an entry by one that reads the same changes nothing that is read. -/
theorem map_set_of_eq {α β : Type} (f : α → β) {values : List α} {position : Nat} {old new : α}
    (hold : values[position]? = some old) (hsame : f new = f old) :
    (values.set position new).map f = values.map f := by
  obtain ⟨hbound, rfl⟩ := List.getElem?_eq_some_iff.mp hold
  have hbound' : position < (values.map f).length := by simpa using hbound
  have hself : f values[position] = (values.map f)[position] := by simp
  rw [List.map_set, hsame, hself, List.set_getElem_self]

theorem filterMap_set_of_eq {α β : Type} (f : α → Option β) {values : List α} {position : Nat}
    {old new : α} (hold : values[position]? = some old) (hsame : f new = f old) :
    (values.set position new).filterMap f = values.filterMap f := by
  have hmap (entries : List α) : entries.filterMap f = (entries.map f).filterMap id := by
    rw [List.filterMap_map]
    rfl
  rw [hmap, hmap, map_set_of_eq f hold hsame]

theorem AppendPhase.settled_of_queued {phase : AppendPhase} (h : phase.queued = false) :
    phase.settled = true := by
  cases phase with
  | rejected => rfl
  | _ => cases h

theorem AppendPhase.started_of_settled {phase : AppendPhase} (hqueued : phase.queued = true)
    (hsettled : phase.settled = true) : phase.started = true := by
  cases phase with
  | rejected => cases hqueued
  | waiting | appending => cases hsettled
  | _ => rfl

/-- When the promise that a call waits for is complete, all earlier calls are settled. -/
theorem Chained.turn {state : StoreState} (h : Chained state) {position : Nat} {value : JsValue}
    {record : JsonValue} {previous : Option Nat}
    (hcall : state.calls[position]? = some ⟨value, .waiting record previous⟩)
    (hprevious : state.Completed previous) {first : Nat} {earlier : AppendCall} (hfirst : first < position)
    (hearlier : state.calls[first]? = some earlier) : earlier.phase.settled = true := by
  have hlast := h.previous _ _ _ _ hcall
  by_cases hqueued : earlier.phase.queued = true
  · have hflag : state.queued[first]? = some true := by
      rw [StoreState.queued, List.getElem?_map, hearlier, Option.map_some, hqueued]
    cases previous with
    | none => exact absurd hflag (hlast first hfirst)
    | some last =>
        obtain ⟨-, hqueuedLast, hafter⟩ := hlast
        obtain ⟨call, hcalled, hsettled⟩ := hprevious last rfl
        rcases Nat.lt_trichotomy first last with hless | rfl | hmore
        · rw [StoreState.queued, List.getElem?_map, hcalled, Option.map_some, Option.some.injEq]
            at hqueuedLast
          exact h.started first last earlier call hless hearlier hcalled
            (AppendPhase.started_of_settled hqueuedLast hsettled)
        · cases hearlier.symm.trans hcalled
          exact hsettled
        · exact absurd hflag (hafter first hmore hfirst)
  · exact AppendPhase.settled_of_queued (Bool.not_eq_true _ ▸ hqueued)

theorem LastQueued.append {queued more : List Bool} {bound : Nat} {previous : Option Nat}
    (h : LastQueued queued bound previous) (hbound : bound ≤ queued.length) :
    LastQueued (queued ++ more) bound previous := by
  have hsame {position : Nat} (hposition : position < bound) :
      (queued ++ more)[position]? = queued[position]? :=
    List.getElem?_append_left (Nat.lt_of_lt_of_le hposition hbound)
  cases previous with
  | none =>
      intro position hposition
      rw [hsame hposition]
      exact h position hposition
  | some last =>
      obtain ⟨hlast, hqueued, hafter⟩ := h
      refine ⟨hlast, by rw [hsame hlast, hqueued], fun position hless hposition ↦ ?_⟩
      rw [hsame hposition]
      exact hafter position hless hposition

/-- A call that goes on leaves the chain as it is, if it starts only when its turn came. -/
theorem Chained.setCall {state : StoreState} (h : Chained state) {position : Nat} {value : JsValue}
    {old phase : AppendPhase} (hcall : state.calls[position]? = some ⟨value, old⟩)
    (hqueued : phase.queued = old.queued) (hrecord : phase.record? = old.record?)
    (hphase : phase.started = true) (hopen : old.settled = false)
    (hturn : ∀ first earlier, first < position → state.calls[first]? = some earlier →
      earlier.phase.settled = true) : Chained (state.setCall position value phase) := by
  have hsame : (state.setCall position value phase).queued = state.queued :=
    map_set_of_eq (fun call : AppendCall ↦ call.phase.queued) hcall hqueued
  have hat {other : Nat} {call : AppendCall}
      (hother : (state.setCall position value phase).calls[other]? = some call) :
      other = position ∧ call = ⟨value, phase⟩ ∨ other ≠ position ∧ state.calls[other]? = some call := by
    rw [StoreState.setCall, List.getElem?_set] at hother
    split at hother
    · rename_i hposition
      split at hother
      · exact .inl ⟨hposition.symm, (Option.some.inj hother).symm⟩
      · cases hother
    · rename_i hposition
      exact .inr ⟨Ne.symm hposition, hother⟩
  constructor
  · rw [hsame]
    show LastQueued state.queued (state.calls.set position ⟨value, phase⟩).length state.appendTail
    rw [List.length_set]
    exact h.tail
  · intro other otherValue record previous hother
    rw [hsame]
    rcases hat hother with ⟨-, hnew⟩ | ⟨-, hkept⟩
    · rw [← (AppendCall.mk.inj hnew).2] at hphase
      cases hphase
    · exact h.previous other otherValue record previous hkept
  · intro first second earlier later hless hearlier hlater hstarted
    rcases hat hearlier with ⟨rfl, rfl⟩ | ⟨hne, hfirst⟩
    · rcases hat hlater with ⟨rfl, -⟩ | ⟨-, hsecond⟩
      · omega
      · have hsettled := h.started first second _ later hless hcall hsecond hstarted
        rw [hopen] at hsettled
        cases hsettled
    · rcases hat hlater with ⟨rfl, rfl⟩ | ⟨-, hsecond⟩
      · exact hturn first earlier hless hfirst
      · exact h.started first second earlier later hless hfirst hsecond hstarted
  · intro call hmem record hfound
    obtain ⟨other, hother⟩ := List.mem_iff_getElem?.mp hmem
    rcases hat hother with ⟨-, rfl⟩ | ⟨-, hkept⟩
    · rw [hrecord] at hfound
      exact h.normalized ⟨value, old⟩ (List.mem_of_getElem? hcall) record hfound
    · exact h.normalized call (List.mem_of_getElem? hkept) record hfound

/-- A call with a place behind the ones before it, or without one, extends the chain. -/
theorem Chained.concat {state : StoreState} (h : Chained state) {call : AppendCall}
    {tail : Option Nat} (hopen : call.phase.started = false)
    (hplace : call.phase.queued = false ∧ tail = state.appendTail ∨
      call.phase.queued = true ∧ tail = some state.calls.length)
    (hwaiting : ∀ record previous, call.phase = .waiting record previous → previous = state.appendTail)
    (hnormal : ∀ record, call.phase.record? = some record →
      normalizeRecord call.value = .ok record ∧ WellFormed record) :
    Chained { state with calls := state.calls ++ [call], appendTail := tail } := by
  have hlength : state.queued.length = state.calls.length := List.length_map _
  have hqueued : (state.calls ++ [call]).map (·.phase.queued) = state.queued ++ [call.phase.queued] :=
    List.map_append
  have hat {position : Nat} {found : AppendCall} (hfound : (state.calls ++ [call])[position]? = some found) :
      state.calls[position]? = some found ∨ position = state.calls.length ∧ found = call := by
    rcases Nat.lt_or_ge position state.calls.length with hless | hmore
    · exact .inl (List.getElem?_append_left hless ▸ hfound)
    · rw [List.getElem?_append_right hmore, List.getElem?_singleton] at hfound
      split at hfound
      · exact .inr ⟨by omega, (Option.some.inj hfound).symm⟩
      · cases hfound
  constructor
  · show LastQueued ((state.calls ++ [call]).map _) (state.calls ++ [call]).length tail
    rw [hqueued, List.length_append, List.length_singleton]
    have hlast : (state.queued ++ [call.phase.queued])[state.calls.length]? = some call.phase.queued := by
      rw [← hlength, List.getElem?_concat_length]
    rcases hplace with ⟨hnot, rfl⟩ | ⟨hplaced, rfl⟩
    · have hkept := @LastQueued.append _ [call.phase.queued] _ _ h.tail (by omega)
      have hextra {position : Nat} (hposition : position < state.calls.length + 1)
          (hpast : ¬position < state.calls.length) :
          (state.queued ++ [call.phase.queued])[position]? ≠ some true := by
        obtain rfl : position = state.calls.length := by omega
        rw [hlast, hnot]
        simp
      cases htail : state.appendTail with
      | none =>
          rw [htail] at hkept
          intro position hposition
          by_cases hless : position < state.calls.length
          · exact hkept position hless
          · exact hextra hposition hless
      | some last =>
          rw [htail] at hkept
          obtain ⟨hbound, hflag, hafter⟩ := hkept
          refine ⟨by omega, hflag, fun position hmore hposition ↦ ?_⟩
          by_cases hless : position < state.calls.length
          · exact hafter position hmore hless
          · exact hextra hposition hless
    · exact ⟨by omega, by rw [hlast, hplaced], fun position _ _ ↦ by omega⟩
  · intro position value record previous hfound
    show LastQueued ((state.calls ++ [call]).map _) position previous
    rw [hqueued]
    rcases hat hfound with hkept | ⟨rfl, hnew⟩
    · have hbound := (List.getElem?_eq_some_iff.mp hkept).1
      exact (h.previous position value record previous hkept).append (by omega)
    · rw [hwaiting record previous (by rw [← hnew])]
      exact h.tail.append (by omega)
  · intro first second earlier later hless hearlier hlater hstarted
    rcases hat hlater with hsecond | ⟨rfl, rfl⟩
    · have hbound := (List.getElem?_eq_some_iff.mp hsecond).1
      rcases hat hearlier with hfirst | ⟨rfl, -⟩
      · exact h.started first second earlier later hless hfirst hsecond hstarted
      · omega
    · rw [hopen] at hstarted
      cases hstarted
  · intro found hmem record hrecord
    rcases List.mem_append.mp hmem with hkept | hnew
    · exact h.normalized found hkept record hrecord
    · rw [List.mem_singleton.mp hnew] at hrecord ⊢
      exact hnormal record hrecord

/-- A new call is chained behind the ones before it. -/
theorem Chained.append {state : StoreState} (h : Chained state) {value : JsValue}
    (hvalue : WellFormed value.json) (writable : Bool) : Chained (state.append value writable) := by
  unfold StoreState.append
  split
  · exact h.concat rfl (.inl ⟨rfl, rfl⟩) nofun nofun
  · rename_i record hrecord
    obtain ⟨_, -, hnormal⟩ := bind_eq_ok.mp hrecord
    refine h.concat rfl (.inr ⟨rfl, rfl⟩) (fun _ _ hphase ↦ ?_) fun found hfound ↦ ?_
    · exact (AppendPhase.waiting.inj hphase).2.symm
    · obtain rfl : record = found := Option.some.inj hfound
      exact ⟨hnormal, ((normalizeRecord_eq_ok hvalue).mp hnormal).2 ▸ hvalue⟩

/-! ## The log -/

/-- What the log keeps: it holds the records of the past and those that calls added, in the order of the calls, at the
indexes that the calls return. -/
structure Logged (history : List JsonValue) (state : StoreState) : Prop where
  index : ∀ (position : Nat) (value : JsValue) (record : JsonValue) (index : Nat),
    state.calls[position]? = some ⟨value, .appending record index false⟩ → index = state.log.length
  log : state.log = (history ++ state.landed.map Prod.snd).map stringify
  indexes : state.landed.map Prod.fst = List.range' history.length state.landed.length

variable {history : List JsonValue} {state : StoreState}

theorem Logged.length (h : Logged history state) :
    state.log.length = history.length + state.landed.length := by
  rw [h.log, List.length_map, List.length_append, List.length_map]

/-- A call that goes on without adding an entry leaves the log as it is. -/
theorem Logged.setCall (h : Logged history state) {position : Nat} {value : JsValue}
    {old phase : AppendPhase} (hcall : state.calls[position]? = some ⟨value, old⟩)
    (hlanded : phase.landed? = old.landed?)
    (hindex : ∀ record index, phase = .appending record index false → index = state.log.length) :
    Logged history (state.setCall position value phase) := by
  have hsame : (state.setCall position value phase).landed = state.landed :=
    filterMap_set_of_eq (fun call : AppendCall ↦ call.phase.landed?) hcall hlanded
  refine ⟨fun other otherValue record index hother ↦ ?_, ?_, ?_⟩
  · rw [StoreState.setCall, List.getElem?_set] at hother
    split at hother
    · split at hother
      · exact hindex record index (AppendCall.mk.inj (Option.some.inj hother)).2
      · cases hother
    · exact h.index other otherValue record index hother
  · rw [hsame]
    exact h.log
  · rw [hsame]
    exact h.indexes

/-- A call whose turn has not come adds nothing. -/
theorem AppendPhase.landed?_of_not_started {phase : AppendPhase} (h : phase.started = false) :
    phase.landed? = none := by
  cases phase with
  | rejected | waiting => rfl
  | _ => cases h

/-- While a call has the core to itself, no later call has started: what started calls show is what those up to it
show. -/
theorem Chained.filterMap_eq {β : Type} (h : Chained state) (shown : AppendPhase → Option β)
    (hshown : ∀ phase, phase.started = false → shown phase = none) {position : Nat} {call : AppendCall}
    (hcall : state.calls[position]? = some call) (hopen : call.phase.settled = false) :
    state.calls.filterMap (fun call ↦ shown call.phase) =
      (state.calls.take position).filterMap (fun call ↦ shown call.phase) ++
        (shown call.phase).toList := by
  obtain ⟨hbound, rfl⟩ := List.getElem?_eq_some_iff.mp hcall
  have hlater : (state.calls.drop (position + 1)).filterMap (fun call ↦ shown call.phase) = [] := by
    rw [List.filterMap_eq_nil_iff]
    intro later hmem
    obtain ⟨offset, hoffset⟩ := List.mem_iff_getElem?.mp hmem
    rw [List.getElem?_drop] at hoffset
    refine hshown _ (Bool.eq_false_iff.mpr fun hstarted ↦ ?_)
    have hsettled := h.started position _ _ later (by omega) hcall hoffset hstarted
    rw [hopen] at hsettled
    cases hsettled
  have hsplit := List.take_append_drop position state.calls
  rw [List.drop_eq_getElem_cons hbound] at hsplit
  conv_lhs => rw [← hsplit, List.filterMap_append, List.filterMap_cons, hlater]
  cases shown state.calls[position].phase <;> rfl

/-- The core adds the block of the call that has it to itself. -/
theorem Logged.lands (hchained : Chained state) (h : Logged history state) {position : Nat}
    {value : JsValue} {record : JsonValue} {index : Nat}
    (hcall : state.calls[position]? = some ⟨value, .appending record index false⟩)
    (hnext : Chained (state.setCall position value (.appending record index true))) :
    Logged history (state.land position value record index) := by
  have hbound := (List.getElem?_eq_some_iff.mp hcall).1
  have hbefore : state.landed = _ :=
    hchained.filterMap_eq _ (fun _ ↦ AppendPhase.landed?_of_not_started) hcall rfl
  have hself : (state.setCall position value (.appending record index true)).calls[position]? =
      some ⟨value, .appending record index true⟩ := by
    rw [StoreState.setCall, List.getElem?_set_self hbound]
  have hafter : (state.setCall position value (.appending record index true)).landed = _ :=
    hnext.filterMap_eq _ (fun _ ↦ AppendPhase.landed?_of_not_started) hself rfl
  have htake : (state.setCall position value (.appending record index true)).calls.take position =
      state.calls.take position := by
    rw [StoreState.setCall, List.take_set_of_le (Nat.le_refl position)]
  have hlanded : (state.land position value record index).landed = state.landed ++ [(index, record)] := by
    show (state.setCall position value (.appending record index true)).landed = _
    rw [hafter, htake, hbefore]
    simp [AppendPhase.landed?]
  have hindex := h.index position value record index hcall
  refine ⟨fun other otherValue otherRecord otherIndex hother ↦ ?_, ?_, ?_⟩
  · -- another call cannot have the core at the same time
    exfalso
    have hne : other ≠ position := by
      rintro rfl
      cases hself.symm.trans hother
    rcases Nat.lt_or_gt_of_ne hne with hless | hmore
    · exact Bool.false_ne_true (hnext.started other position _ _ hless hother hself rfl)
    · exact Bool.false_ne_true (hnext.started position other _ _ hmore hself hother rfl)
  · show state.log ++ [stringify record] = _
    rw [hlanded, h.log]
    simp
  · rw [hlanded, List.map_append, h.indexes, List.length_append,
      List.length_singleton, List.range'_concat, List.map_singleton, hindex, h.length, Nat.one_mul]

theorem Logged.append (h : Logged history state) (value : JsValue) (writable : Bool) :
    Logged history (state.append value writable) := by
  have hconcat (phase : AppendPhase) (tail : Option Nat) (hphase : phase.started = false) :
      Logged history ⟨state.log, tail, state.calls ++ [⟨value, phase⟩], state.readers⟩ := by
    have hlanded : StoreState.landed
        ⟨state.log, tail, state.calls ++ [⟨value, phase⟩], state.readers⟩ = state.landed := by
      rw [StoreState.landed, List.filterMap_append, List.filterMap_cons,
        AppendPhase.landed?_of_not_started hphase]
      exact List.append_nil _
    refine ⟨fun position otherValue record index hfound ↦ ?_, ?_, ?_⟩
    · rcases Nat.lt_or_ge position state.calls.length with hless | hmore
      · exact h.index position otherValue record index (List.getElem?_append_left hless ▸ hfound)
      · have hmem := List.mem_of_getElem? (List.getElem?_append_right hmore ▸ hfound)
        obtain ⟨-, hsame⟩ := AppendCall.mk.inj (List.mem_singleton.mp hmem)
        rw [← hsame] at hphase
        cases hphase
    · rw [hlanded]
      exact h.log
    · rw [hlanded]
      exact h.indexes
  unfold StoreState.append
  split
  · exact hconcat _ _ rfl
  · exact hconcat _ _ rfl

end PeerHours.PeerRuntime
