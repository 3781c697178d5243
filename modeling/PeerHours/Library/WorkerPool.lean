import Mathlib.Data.List.Basic
import Mathlib.Logic.Function.Basic
import Mathlib.Logic.Relation

/-!
# Worker pools

A few workers map a list together. A worker takes the next value, sends all requests of that value at once,
waits until each is answered, and stores the result at the position of the value. Answers arrive in any order.
-/

namespace WorkerPool

variable {Input Request Response Output : Type}

/-- What is done with one value: the requests, and the result of their answers. -/
structure Task (Input Request Response Output : Type) where
  requests : Input → List Request
  settle : Input → List Response → Output

/-- The next position to take, the position at which each worker is busy, the answers so far, and the
results so far. -/
structure State (Response Output : Type) where
  nextIndex : Nat
  workers : List (Option Nat)
  responses : Nat → Nat → Option Response
  results : Nat → Option Output

/-- The position that a worker takes, unless all are taken. -/
def take (count nextIndex : Nat) : Option Nat :=
  if nextIndex < count then some nextIndex else none

/-- Each worker has taken its first value. -/
def initial (count concurrency : Nat) : State Response Output where
  nextIndex := min concurrency count
  workers := (List.range (min concurrency count)).map some
  responses := fun _ _ ↦ none
  results := fun _ ↦ none

/-- One answer to a request of the value at a position. -/
def State.answer (state : State Response Output) (index position : Nat) (response : Response) :
    State Response Output :=
  { state with
    responses := Function.update state.responses index
      (Function.update (state.responses index) position (some response)) }

/-- One result, after which the worker takes the next value. -/
def State.store (state : State Response Output) (count worker index : Nat) (output : Output) :
    State Response Output :=
  { state with
    nextIndex := state.nextIndex + 1
    workers := state.workers.set worker (take count state.nextIndex)
    results := Function.update state.results index (some output) }

theorem responses_answer (state : State Response Output) (index position : Nat) (response : Response) :
    (state.answer index position response).responses = Function.update state.responses index
      (Function.update (state.responses index) position (some response)) := rfl

theorem workers_store (state : State Response Output) (count worker index : Nat) (output : Output) :
    (state.store count worker index output).workers =
      state.workers.set worker (take count state.nextIndex) := rfl

theorem results_store (state : State Response Output) (count worker index : Nat) (output : Output) :
    (state.store count worker index output).results =
      Function.update state.results index (some output) := rfl

/-- The requests of a value have been answered by the list. -/
def Answered (task : Task Input Request Response Output) (state : State Response Output) (index : Nat)
    (input : Input) (responses : List Response) : Prop :=
  responses.length = (task.requests input).length ∧
    ∀ position (h : position < responses.length),
      state.responses index position = some responses[position]

/-- A request is answered for the first time, by one of the answers that it may have, or a worker whose
requests are all answered goes on. -/
inductive Step (task : Task Input Request Response Output) (answers : Request → Response → Prop)
    (values : List Input) : State Response Output → State Response Output → Prop where
  | respond {state : State Response Output} {index position : Nat} {input : Input} {request : Request}
      {response : Response} (hworker : some index ∈ state.workers) (hinput : values[index]? = some input)
      (hrequest : (task.requests input)[position]? = some request) (hanswer : answers request response)
      (hfirst : state.responses index position = none) :
      Step task answers values state (state.answer index position response)
  | finish {state : State Response Output} {worker index : Nat} {input : Input}
      {responses : List Response} (hworker : state.workers[worker]? = some (some index))
      (hinput : values[index]? = some input) (hanswered : Answered task state index input responses) :
      Step task answers values state
        (state.store values.length worker index (task.settle input responses))

/-- A run of the pool over the values. -/
abbrev Run (task : Task Input Request Response Output) (answers : Request → Response → Prop)
    (values : List Input) (concurrency : Nat) : State Response Output → Prop :=
  Relation.ReflTransGen (Step task answers values) (initial values.length concurrency)

/-- Every worker has returned. -/
def State.Done (state : State Response Output) : Prop :=
  ∀ worker ∈ state.workers, worker = none

/-! ## The invariant -/

/-- Every answer is one that its request may have, every value taken is being worked on or has its result,
every result is that of the answers, and a worker returns only when all values are taken. -/
structure Consistent (task : Task Input Request Response Output) (answers : Request → Response → Prop)
    (values : List Input) (state : State Response Output) : Prop where
  answered : ∀ index position response, state.responses index position = some response →
    ∃ input request, values[index]? = some input ∧ (task.requests input)[position]? = some request ∧
      answers request response
  taken : ∀ index < state.nextIndex, index < values.length →
    some index ∈ state.workers ∨ state.results index ≠ none
  stored : ∀ index output, state.results index = some output → ∃ input responses,
    values[index]? = some input ∧ Answered task state index input responses ∧
      task.settle input responses = output
  idle : none ∈ state.workers → values.length ≤ state.nextIndex
  staffed : state.workers = [] → values = []

variable {task : Task Input Request Response Output} {answers : Request → Response → Prop}
  {values : List Input}

/-- A first answer leaves every other answer as it is. -/
theorem answer_keeps {state : State Response Output} {index position : Nat} {response old : Response}
    (hfirst : state.responses index position = none) {index' position' : Nat}
    (h : state.responses index' position' = some old) :
    (state.answer index position response).responses index' position' = some old := by
  rw [responses_answer]
  by_cases hindex : index' = index
  · subst hindex
    rw [Function.update_self, Function.update_of_ne, h]
    rintro rfl
    exact absurd (hfirst.symm.trans h) (by simp)
  · rw [Function.update_of_ne hindex, h]

theorem consistent_initial {concurrency : Nat} (h : 0 < concurrency) :
    Consistent task answers values (initial values.length concurrency) where
  answered := by
    intro index position response hresponse
    exact absurd hresponse (by simp [initial])
  taken := by
    intro index hindex _
    exact .inl (List.mem_map_of_mem (List.mem_range.mpr hindex))
  stored := by
    intro index output hresult
    exact absurd hresult (by simp [initial])
  idle := by
    intro hidle
    simp [initial] at hidle
  staffed := by
    intro hnone
    have hlength := congrArg List.length hnone
    simp only [initial, List.length_map, List.length_range, List.length_nil] at hlength
    rw [← List.length_eq_zero_iff]
    omega

/-- A step keeps the invariant. -/
theorem Consistent.step {before after : State Response Output}
    (h : Consistent task answers values before) (hstep : Step task answers values before after) :
    Consistent task answers values after := by
  cases hstep with
  | @respond index position input request response hworker hinput hrequest hanswer hfirst =>
      refine ⟨fun index' position' response' hresponse ↦ ?_, h.taken, fun index output hresult ↦ ?_, h.idle,
        h.staffed⟩
      · by_cases hindex : index' = index
        · subst hindex
          by_cases hposition : position' = position
          · subst hposition
            rw [responses_answer, Function.update_self, Function.update_self] at hresponse
            exact ⟨input, request, hinput, hrequest, Option.some.inj hresponse ▸ hanswer⟩
          · rw [responses_answer, Function.update_self, Function.update_of_ne hposition] at hresponse
            exact h.answered _ _ _ hresponse
        · rw [responses_answer, Function.update_of_ne hindex] at hresponse
          exact h.answered _ _ _ hresponse
      obtain ⟨input, responses, hvalue, ⟨hlength, hanswers⟩, hsettle⟩ := h.stored index output hresult
      exact ⟨input, responses, hvalue,
        ⟨hlength, fun position hposition ↦ answer_keeps hfirst (hanswers position hposition)⟩,
        hsettle⟩
  | @finish worker index input responses hworker hinput hanswered =>
      obtain ⟨hbound, hbusy⟩ := List.getElem?_eq_some_iff.mp hworker
      refine ⟨h.answered, fun other hother hcount ↦ ?_, fun other output hresult ↦ ?_,
        fun hidle ↦ ?_, fun hnil ↦ ?_⟩
      · by_cases hsame : other = index
        · exact .inr (by simp [results_store, hsame])
        · by_cases hnext : other = before.nextIndex
          · -- the value just taken
            refine .inl (List.mem_iff_getElem?.mpr ⟨worker, ?_⟩)
            rw [workers_store, List.getElem?_set_self hbound, take, if_pos (hnext ▸ hcount), hnext]
          · cases h.taken other (by simp only [State.store] at hother; omega) hcount with
            | inl hbusy' =>
                obtain ⟨position, hposition⟩ := List.mem_iff_getElem?.mp hbusy'
                have hne : worker ≠ position := by
                  rintro rfl
                  rw [hworker] at hposition
                  exact hsame (Option.some.inj (Option.some.inj hposition)).symm
                refine .inl (List.mem_iff_getElem?.mpr ⟨position, ?_⟩)
                rw [workers_store, List.getElem?_set_ne hne, hposition]
            | inr hdone =>
                refine .inr ?_
                rw [results_store, Function.update_of_ne hsame]
                exact hdone
      · by_cases hsame : other = index
        · subst hsame
          rw [results_store, Function.update_self] at hresult
          exact ⟨input, responses, hinput, hanswered, Option.some.inj hresult⟩
        · rw [results_store, Function.update_of_ne hsame] at hresult
          exact h.stored other output hresult
      · rw [workers_store] at hidle
        cases List.mem_or_eq_of_mem_set hidle with
        | inl hbefore => exact Nat.le_succ_of_le (h.idle hbefore)
        | inr htake =>
            rw [take] at htake
            split at htake
            · exact absurd htake (by simp)
            · rename_i hcount
              exact Nat.le_succ_of_le (Nat.not_lt.mp hcount)
      · exact h.staffed ((List.set_eq_nil_iff _ _).mp hnil)

/-- Every state of a run meets the invariant. -/
theorem consistent_of_run {concurrency : Nat} (hpositive : 0 < concurrency)
    {state : State Response Output} (hrun : Run task answers values concurrency state) :
    Consistent task answers values state := by
  induction hrun with
  | refl => exact consistent_initial hpositive
  | tail _ hstep ih => exact ih.step hstep

/-- When every worker has returned, every value has the result of the answers to its requests. -/
theorem settled_of_run {concurrency : Nat} (hpositive : 0 < concurrency)
    {state : State Response Output} (hrun : Run task answers values concurrency state) (hdone : state.Done)
    {index : Nat} {input : Input} (hinput : values[index]? = some input) :
    ∃ responses, Answered task state index input responses ∧
      state.results index = some (task.settle input responses) := by
  have hconsistent := consistent_of_run hpositive hrun
  obtain ⟨hindex, -⟩ := List.getElem?_eq_some_iff.mp hinput
  have hidle : none ∈ state.workers := by
    cases hworkers : state.workers with
    | nil =>
        rw [hconsistent.staffed hworkers] at hindex
        exact absurd hindex (Nat.not_lt_zero _)
    | cons worker rest =>
        have hworker := hdone worker (hworkers ▸ List.mem_cons_self)
        exact hworker ▸ List.mem_cons_self
  have hresult : state.results index ≠ none := by
    cases hconsistent.taken index (Nat.lt_of_lt_of_le hindex (hconsistent.idle hidle)) hindex with
    | inl hbusy => exact absurd (hdone _ hbusy) (by simp)
    | inr hresult => exact hresult
  obtain ⟨output, houtput⟩ := Option.ne_none_iff_exists'.mp hresult
  obtain ⟨input', responses, hinput', hanswered, rfl⟩ := hconsistent.stored index output houtput
  cases hinput.symm.trans hinput'
  exact ⟨responses, hanswered, houtput⟩

end WorkerPool
