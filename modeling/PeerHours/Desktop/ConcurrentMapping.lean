import PeerHours.Library.WorkerPool
import Mathlib.Data.List.Nodup
import Mathlib.Data.List.Perm.Subperm

/-!
# Bounded concurrent mapping

`mapWithConcurrency` starts a few workers that share one cursor. A worker takes the index under the cursor,
calls `map` on the value there and stores what the promise resolves with; it returns when no value is left.
The promises resolve in any order.
-/

namespace PeerHours.Desktop

variable {Input Output : Type}

/-! ## The workers -/

/-- The cursor, the index at which each worker awaits its promise, the calls of `map` so far, and the
results. -/
structure Mapping (Input Output : Type) where
  nextIndex : Nat
  workers : List (Option Nat)
  calls : List (Nat × Input)
  results : List (Option Output)

/-- A worker takes the next index: it calls `map` on the value there and awaits the promise, or returns. -/
def Mapping.advance (mapping : Mapping Input Output) (values : List Input) (worker : Nat) :
    Mapping Input Output :=
  let index := mapping.nextIndex
  match values[index]? with
  | none => { mapping with nextIndex := index + 1, workers := mapping.workers.set worker none }
  | some value =>
      { mapping with
        nextIndex := index + 1
        workers := mapping.workers.set worker (some index)
        calls := mapping.calls ++ [(index, value)] }

/-- What a promise resolved with, stored at the index of its call. -/
def Mapping.store (mapping : Mapping Input Output) (index : Nat) (output : Output) :
    Mapping Input Output :=
  { mapping with results := mapping.results.set index (some output) }

/-- Before the first worker runs. -/
def Mapping.empty (values : List Input) (workers : Nat) : Mapping Input Output where
  nextIndex := 0
  workers := List.replicate workers none
  calls := []
  results := List.replicate values.length none

/-- Limits parallel calls of `map`: each worker runs up to its first promise. -/
def mapWithConcurrency (values : List Input) (concurrency : Nat) : Mapping Input Output :=
  (List.range (min concurrency values.length)).foldl (fun mapping worker ↦ mapping.advance values worker)
    (.empty values (min concurrency values.length))

/-- The promise that some worker awaits resolves, and the worker goes on. The call of `map` at an index
resolves with the outcome of that index and value. -/
inductive Mapping.Step (outcome : Nat → Input → Output) (values : List Input) :
    Mapping Input Output → Mapping Input Output → Prop where
  | resolved {mapping : Mapping Input Output} {worker index : Nat} {value : Input}
      (hworker : mapping.workers[worker]? = some (some index)) (hvalue : values[index]? = some value) :
      Step outcome values mapping ((mapping.store index (outcome index value)).advance values worker)

/-- The states that the mapping of some values can reach. -/
abbrev Mapping.Run (outcome : Nat → Input → Output) (values : List Input) (concurrency : Nat) :
    Mapping Input Output → Prop :=
  Relation.ReflTransGen (Mapping.Step outcome values) (mapWithConcurrency values concurrency)

/-- Every worker has returned, so that `Promise.all` resolves. -/
def Mapping.Returned (mapping : Mapping Input Output) : Prop :=
  ∀ worker ∈ mapping.workers, worker = none

/-- The calls whose promise has not resolved. -/
def Mapping.inFlight (mapping : Mapping Input Output) : List (Nat × Input) :=
  mapping.calls.filter fun call ↦ mapping.results[call.1]?.join.isNone

/-! ## The invariant -/

/-- The indexes that workers await. -/
def Mapping.awaited (mapping : Mapping Input Output) : List Nat :=
  mapping.workers.filterMap id

/-- The values with their indexes. -/
def indexed (values : List Input) : List (Nat × Input) :=
  values.mapIdx Prod.mk

/-- The calls are those of the indexes below the cursor, in their order; each of them has its outcome or is
awaited by one worker; and a worker has returned only when the cursor is past the end. -/
structure Mapping.Exact (outcome : Nat → Input → Output) (values : List Input) (staff : Nat)
    (mapping : Mapping Input Output) : Prop where
  staffed : mapping.workers.length = staff
  calls : mapping.calls = (indexed values).take mapping.nextIndex
  length : mapping.results.length = values.length
  awaited : mapping.awaited.Nodup
  waiting : ∀ index, index ∈ mapping.awaited ↔
    index < mapping.nextIndex ∧ mapping.results[index]? = some none
  fresh : ∀ index output, mapping.results[index]? = some (some output) → index < mapping.nextIndex
  results : ∀ index value output, values[index]? = some value →
    mapping.results[index]? = some (some output) → output = outcome index value
  idle : none ∈ mapping.workers → values.length ≤ mapping.nextIndex

variable {outcome : Nat → Input → Output} {values : List Input} {staff concurrency : Nat}
  {mapping : Mapping Input Output}

@[simp] theorem length_indexed : (indexed values).length = values.length := by
  simp [indexed]

theorem indexed_getElem? {index : Nat} :
    (indexed values)[index]? = values[index]?.map (Prod.mk index) := by
  simp [indexed]

theorem take_indexed_succ {index : Nat} {value : Input} (h : values[index]? = some value) :
    (indexed values).take (index + 1) = (indexed values).take index ++ [(index, value)] := by
  rw [List.take_add_one, indexed_getElem?, h]
  rfl

theorem take_indexed_of_le {index : Nat} (h : values.length ≤ index) :
    (indexed values).take (index + 1) = (indexed values).take index := by
  rw [List.take_of_length_le (by simp; omega), List.take_of_length_le (by simpa using h)]

/-- What `map` was called on. -/
theorem Mapping.Exact.mem_calls (h : mapping.Exact outcome values staff) {call : Nat × Input} :
    call ∈ mapping.calls ↔ call.1 < mapping.nextIndex ∧ values[call.1]? = some call.2 := by
  rw [h.calls, List.mem_iff_getElem?]
  constructor
  · intro ⟨index, hindex⟩
    rw [List.getElem?_take, indexed_getElem?] at hindex
    split at hindex
    · rename_i hbound
      obtain ⟨value, hvalue, rfl⟩ := Option.map_eq_some_iff.mp hindex
      exact ⟨hbound, hvalue⟩
    · exact absurd hindex (by simp)
  · intro ⟨hbound, hvalue⟩
    refine ⟨call.1, ?_⟩
    rw [List.getElem?_take_of_lt hbound, indexed_getElem?, hvalue]
    rfl

theorem Mapping.Exact.nodup_calls (h : mapping.Exact outcome values staff) :
    (mapping.calls.map Prod.fst).Nodup := by
  have hindexes : (indexed values).map Prod.fst = List.range values.length := by
    refine List.ext_getElem? fun index ↦ ?_
    rw [List.getElem?_map, indexed_getElem?, Option.map_map]
    by_cases hindex : index < values.length
    · simp [hindex]
    · simp [hindex]
  rw [h.calls, List.map_take, hindexes]
  exact List.nodup_range.sublist (List.take_sublist _ _)

/-! ## Runs -/

/-- The workers that have taken their first index, in the order of their start. -/
theorem started (started : Nat) (hstarted : started ≤ staff) (hstaff : staff ≤ values.length) :
    (List.range started).foldl (fun mapping worker ↦ mapping.advance values worker)
        (Mapping.empty values staff : Mapping Input Output) =
      { nextIndex := started
        workers := (List.range started).map some ++ List.replicate (staff - started) none
        calls := (indexed values).take started
        results := List.replicate values.length none } := by
  induction started with
  | zero => simp [Mapping.empty]
  | succ worker ih =>
      have hbound : worker < values.length := by omega
      obtain ⟨rest, hrest⟩ : ∃ rest, staff - worker = rest + 1 := ⟨staff - worker - 1, by omega⟩
      have hworkers : ((List.range worker).map some ++ List.replicate (staff - worker) none).set worker
          (some worker) =
            (List.range (worker + 1)).map some ++ List.replicate (staff - (worker + 1)) none := by
        rw [List.set_append_right _ _ (by simp), hrest, List.replicate_succ, List.range_succ,
          show staff - (worker + 1) = rest by omega]
        simp
      rw [List.range_succ, List.foldl_append, ih (by omega), List.foldl_cons, List.foldl_nil,
        Mapping.advance]
      simp only [List.getElem?_eq_getElem hbound]
      rw [hworkers, take_indexed_succ (List.getElem?_eq_getElem hbound)]
      simp [List.range_succ]

/-- The workers have started. -/
theorem exact_start : (mapWithConcurrency values concurrency).Exact outcome values
    (min concurrency values.length) := by
  have hstart := @started _ Output values _ (min concurrency values.length) (Nat.le_refl _)
    (Nat.min_le_right _ _)
  rw [Nat.sub_self, List.replicate_zero, List.append_nil] at hstart
  have hawaited : (mapWithConcurrency values concurrency : Mapping Input Output).awaited =
      List.range (min concurrency values.length) := by
    rw [mapWithConcurrency, hstart, Mapping.awaited, List.filterMap_map]
    simp
  rw [mapWithConcurrency, hstart] at hawaited ⊢
  exact
    { staffed := by simp
      calls := rfl
      length := by simp
      awaited := by
        rw [hawaited]
        exact List.nodup_range
      waiting := fun index ↦ by
        rw [hawaited, List.mem_range, List.getElem?_replicate]
        constructor
        · intro hindex
          exact ⟨hindex, if_pos (by omega)⟩
        · exact And.left
      fresh := fun index output h ↦ by simp [List.getElem?_replicate] at h
      results := fun index value output _ h ↦ by simp [List.getElem?_replicate] at h
      idle := fun h ↦ by simp at h }

/-- A worker's place among the others. -/
theorem exists_split_of_getElem? {α : Type} {list : List α} {position : Nat} {item : α}
    (h : list[position]? = some item) :
    ∃ before after, list = before ++ item :: after ∧
      ∀ other, list.set position other = before ++ other :: after := by
  obtain ⟨hbound, rfl⟩ := List.getElem?_eq_some_iff.mp h
  refine ⟨list.take position, list.drop (position + 1), ?_, fun other ↦ ?_⟩
  · simp
  · exact List.set_eq_take_append_cons_drop.trans (if_pos hbound)

/-- A resolved promise keeps the invariant. -/
theorem Mapping.Exact.step {after : Mapping Input Output} (h : mapping.Exact outcome values staff)
    (hstep : mapping.Step outcome values after) : after.Exact outcome values staff := by
  obtain ⟨hworker, hvalue⟩ := hstep
  rename_i worker index value
  obtain ⟨earlier, later, hworkers, hset⟩ := exists_split_of_getElem? hworker
  have hawaited : mapping.awaited = earlier.filterMap id ++ index :: later.filterMap id := by
    rw [Mapping.awaited, hworkers, List.filterMap_append, List.filterMap_cons]
    rfl
  have hnodup := h.awaited
  rw [hawaited, List.nodup_middle, List.nodup_cons] at hnodup
  obtain ⟨hother, hnodup⟩ := hnodup
  have hmem : ∀ i, i ∈ earlier.filterMap id ++ later.filterMap id ↔
      i ≠ index ∧ i < mapping.nextIndex ∧ mapping.results[i]? = some none := by
    intro i
    rw [← h.waiting, hawaited]
    constructor
    · intro hi
      exact ⟨fun hsame ↦ hother (hsame ▸ hi), by simp at hi ⊢; tauto⟩
    · intro ⟨hne, hi⟩
      simp at hi ⊢
      tauto
  have hindex : index < mapping.nextIndex ∧ mapping.results[index]? = some none :=
    (h.waiting index).mp (by rw [hawaited]; simp)
  have hunsettled : ∀ i, (mapping.results.set index (some (outcome index value)))[i]? = some none ↔
      i ≠ index ∧ mapping.results[i]? = some none := by
    intro i
    rw [List.getElem?_set]
    split
    · rename_i hsame
      subst hsame
      split <;> simp
    · rename_i hne
      simp [Ne.symm hne]
  have hfresh : ∀ i output,
      (mapping.results.set index (some (outcome index value)))[i]? = some (some output) →
        i < mapping.nextIndex ∧ ∀ other, values[i]? = some other → output = outcome i other := by
    intro i output hi
    rw [List.getElem?_set] at hi
    split at hi
    · rename_i hsame
      subst hsame
      split at hi
      · refine ⟨hindex.1, fun other hother ↦ ?_⟩
        obtain rfl := Option.some.inj (hvalue.symm.trans hother)
        exact (Option.some.inj (Option.some.inj hi)).symm
      · exact absurd hi (by simp)
    · exact ⟨h.fresh i output hi, fun other hother ↦ h.results i other output hother hi⟩
  cases hnext : values[mapping.nextIndex]? with
  | none =>
      have hpast : values.length ≤ mapping.nextIndex := List.getElem?_eq_none_iff.mp hnext
      have hafter : ((mapping.store index (outcome index value)).advance values worker) =
          { nextIndex := mapping.nextIndex + 1
            workers := earlier ++ none :: later
            calls := mapping.calls
            results := mapping.results.set index (some (outcome index value)) } := by
        simp [Mapping.advance, Mapping.store, hnext, hset]
      have hrest : (earlier ++ none :: later).filterMap id =
          earlier.filterMap id ++ later.filterMap id := List.filterMap_append
      rw [hafter]
      exact
        { staffed := by simpa [hworkers] using h.staffed
          calls := by rw [take_indexed_of_le hpast]; exact h.calls
          length := by simpa using h.length
          awaited := by
            rw [Mapping.awaited, hrest]
            exact hnodup
          waiting := fun i ↦ by
            rw [Mapping.awaited, hrest, hmem, hunsettled]
            constructor
            · intro ⟨hne, hbefore, hnone⟩
              exact ⟨Nat.lt_succ_of_lt hbefore, hne, hnone⟩
            · intro ⟨_, hne, hnone⟩
              have hlength := (List.getElem?_eq_some_iff.mp hnone).1
              exact ⟨hne, by have := h.length; omega, hnone⟩
          fresh := fun i output hi ↦ Nat.lt_succ_of_lt (hfresh i output hi).1
          results := fun i other output hother hi ↦ (hfresh i output hi).2 other hother
          idle := fun _ ↦ Nat.le_succ_of_le hpast }
  | some next =>
      have hbound : mapping.nextIndex < values.length := (List.getElem?_eq_some_iff.mp hnext).1
      have hafter : ((mapping.store index (outcome index value)).advance values worker) =
          { nextIndex := mapping.nextIndex + 1
            workers := earlier ++ some mapping.nextIndex :: later
            calls := mapping.calls ++ [(mapping.nextIndex, next)]
            results := mapping.results.set index (some (outcome index value)) } := by
        simp [Mapping.advance, Mapping.store, hnext, hset]
      -- nothing is stored under the cursor yet
      have hnone : mapping.results[mapping.nextIndex]? = some none := by
        have hlength := h.length
        cases hresult : mapping.results[mapping.nextIndex]? with
        | none => exact absurd (List.getElem?_eq_none_iff.mp hresult) (by omega)
        | some result =>
            cases result with
            | none => rfl
            | some output => exact absurd (h.fresh _ _ hresult) (Nat.lt_irrefl _)
      have hrest : (earlier ++ some mapping.nextIndex :: later).filterMap id =
          earlier.filterMap id ++ mapping.nextIndex :: later.filterMap id := List.filterMap_append
      have hnew : mapping.nextIndex ∉ earlier.filterMap id ++ later.filterMap id := fun hi ↦
        Nat.lt_irrefl _ ((hmem _).mp hi).2.1
      rw [hafter]
      exact
        { staffed := by simpa [hworkers] using h.staffed
          calls := by rw [take_indexed_succ hnext, h.calls]
          length := by simpa using h.length
          awaited := by
            rw [Mapping.awaited, hrest]
            exact List.nodup_middle.mpr (List.nodup_cons.mpr ⟨hnew, hnodup⟩)
          waiting := fun i ↦ by
            have hmiddle : i ∈ earlier.filterMap id ++ mapping.nextIndex :: later.filterMap id ↔
                i = mapping.nextIndex ∨ i ∈ earlier.filterMap id ++ later.filterMap id := by
              simp only [List.mem_append, List.mem_cons]
              tauto
            rw [Mapping.awaited, hrest, hmiddle, hmem, hunsettled]
            constructor
            · intro hi
              cases hi with
              | inl hsame =>
                  subst hsame
                  exact ⟨Nat.lt_succ_self _, by omega, hnone⟩
              | inr hi => exact ⟨Nat.lt_succ_of_lt hi.2.1, hi.1, hi.2.2⟩
            · intro ⟨hi, hne, hresult⟩
              have hi : i < mapping.nextIndex + 1 := hi
              by_cases hsame : i = mapping.nextIndex
              · exact .inl hsame
              · exact .inr ⟨hne, by omega, hresult⟩
          fresh := fun i output hi ↦ Nat.lt_succ_of_lt (hfresh i output hi).1
          results := fun i other output hother hi ↦ (hfresh i output hi).2 other hother
          idle := fun hidle ↦ by
            refine Nat.le_succ_of_le (h.idle ?_)
            rw [hworkers]
            simpa using hidle }

/-- Every state of a run meets the invariant. -/
theorem exact_of_run (hrun : Mapping.Run outcome values concurrency mapping) :
    mapping.Exact outcome values (min concurrency values.length) := by
  induction hrun with
  | refl => exact exact_start
  | tail _ hstep ih => exact ih.step hstep

/-- A call that has no result is awaited by a worker. -/
theorem Mapping.Exact.length_inFlight (h : mapping.Exact outcome values staff) :
    mapping.inFlight.length ≤ staff := by
  have hnodup : (mapping.inFlight.map Prod.fst).Nodup :=
    h.nodup_calls.sublist (List.filter_sublist.map _)
  have hsubset : mapping.inFlight.map Prod.fst ⊆ mapping.awaited := by
    intro index hindex
    obtain ⟨call, hcall, rfl⟩ := List.mem_map.mp hindex
    obtain ⟨hmem, hunsettled⟩ := List.mem_filter.mp hcall
    obtain ⟨hbefore, hvalue⟩ := h.mem_calls.mp hmem
    refine (h.waiting _).mpr ⟨hbefore, ?_⟩
    have hbound := (List.getElem?_eq_some_iff.mp hvalue).1
    cases hresult : mapping.results[call.1]? with
    | none => exact absurd (List.getElem?_eq_none_iff.mp hresult) (by have := h.length; omega)
    | some result =>
        cases result with
        | none => rfl
        | some output => simp [hresult] at hunsettled
  calc mapping.inFlight.length = (mapping.inFlight.map Prod.fst).length := (List.length_map _).symm
    _ ≤ mapping.awaited.length := (List.subperm_of_subset hnodup hsubset).length_le
    _ ≤ mapping.workers.length := List.length_filterMap_le _ _
    _ = staff := h.staffed

/-- A worker that has not returned awaits a promise, so the run goes on. -/
theorem Mapping.Exact.progress (h : mapping.Exact outcome values staff) (hbusy : ¬ mapping.Returned) :
    ∃ after, mapping.Step outcome values after := by
  simp only [Mapping.Returned, not_forall] at hbusy
  obtain ⟨busy, hmem, hne⟩ := hbusy
  obtain ⟨index, rfl⟩ := Option.ne_none_iff_exists'.mp hne
  obtain ⟨worker, hworker⟩ := List.mem_iff_getElem?.mp hmem
  have hindex : index ∈ mapping.awaited := List.mem_filterMap.mpr ⟨some index, hmem, rfl⟩
  have hbound := (List.getElem?_eq_some_iff.mp ((h.waiting index).mp hindex).2).1
  rw [h.length] at hbound
  exact ⟨_, .resolved hworker (List.getElem?_eq_getElem hbound)⟩

/-! ## The pool of workers -/

/-- The work on one value: a single request, the call of `map`, whose answer is the result. -/
def callTask (outcome : Nat → Input → Output) :
    WorkerPool.Task (Nat × Input) (Nat × Input) Output Output where
  requests call := [call]
  settle call responses := responses.headD (outcome call.1 call.2)

/-- The mapping as a pool of workers. -/
def Mapping.pool (mapping : Mapping Input Output) : WorkerPool.State Output Output where
  nextIndex := mapping.nextIndex
  workers := mapping.workers
  responses index position := if position = 0 then mapping.results[index]?.join else none
  results index := mapping.results[index]?.join

/-- A resolved promise answers the request of its worker, which then goes on. -/
theorem Mapping.Exact.pool_step {after : Mapping Input Output} {answers : Nat × Input → Output → Prop}
    (hanswers : ∀ call, answers call (outcome call.1 call.2)) (h : mapping.Exact outcome values staff)
    (hstep : mapping.Step outcome values after) :
    ∃ answered, WorkerPool.Step (callTask outcome) answers (indexed values) mapping.pool answered ∧
      WorkerPool.Step (callTask outcome) answers (indexed values) answered after.pool := by
  obtain ⟨hworker, hvalue⟩ := hstep
  rename_i worker index value
  have hmem : some index ∈ mapping.workers := List.mem_iff_getElem?.mpr ⟨worker, hworker⟩
  have hnone := ((h.waiting index).mp (List.mem_filterMap.mpr ⟨some index, hmem, rfl⟩)).2
  have hbound := (List.getElem?_eq_some_iff.mp hnone).1
  have hindexed : (indexed values)[index]? = some (index, value) := by
    rw [indexed_getElem?, hvalue]
    rfl
  have hfirst : mapping.pool.responses index 0 = none := by
    show (if 0 = 0 then mapping.results[index]?.join else none) = none
    rw [hnone]
    rfl
  have hanswered : WorkerPool.Answered (callTask outcome)
      (mapping.pool.answer index 0 (outcome index value)) index (index, value)
      [outcome index value] := by
    refine ⟨rfl, fun position hposition ↦ ?_⟩
    obtain rfl : position = 0 := by simpa using hposition
    simp [WorkerPool.State.answer]
  refine ⟨_, .respond hmem hindexed rfl (hanswers (index, value)) hfirst, ?_⟩
  have hstored : ((mapping.store index (outcome index value)).advance values worker).pool =
      (mapping.pool.answer index 0 (outcome index value)).store (indexed values).length worker index
        (outcome index value) := by
    have hset : ∀ i, (mapping.results.set index (some (outcome index value)))[i]?.join =
        Function.update (fun i ↦ mapping.results[i]?.join) index (some (outcome index value)) i := by
      intro i
      by_cases hsame : i = index
      · subst hsame
        rw [Function.update_self, List.getElem?_set_self hbound]
        rfl
      · rw [Function.update_of_ne hsame, List.getElem?_set_ne (Ne.symm hsame)]
    have hresponses : (fun i position ↦ if position = 0 then
        (mapping.results.set index (some (outcome index value)))[i]?.join else none) =
          (mapping.pool.answer index 0 (outcome index value)).responses := by
      funext i position
      rw [hset, WorkerPool.responses_answer]
      by_cases hsame : i = index
      · subst hsame
        by_cases hposition : position = 0
        · subst hposition
          simp
        · simp [hposition, Mapping.pool]
      · simp [hsame, Mapping.pool]
    rw [WorkerPool.State.store, ← hresponses]
    unfold Mapping.advance Mapping.pool Mapping.store WorkerPool.take
    simp only [length_indexed, WorkerPool.State.answer]
    cases hnext : values[mapping.nextIndex]? with
    | none =>
        have hpast : ¬ mapping.nextIndex < values.length :=
          Nat.not_lt.mpr (List.getElem?_eq_none_iff.mp hnext)
        simp only [hpast, if_false, funext hset]
    | some next =>
        have hbefore : mapping.nextIndex < values.length := (List.getElem?_eq_some_iff.mp hnext).1
        simp only [hbefore, if_true, funext hset]
  rw [hstored]
  exact .finish hworker hindexed hanswered

/-- The states that a mapping can reach are states that the pool of its workers can reach. -/
theorem pool_of_run (hrun : Mapping.Run outcome values concurrency mapping) :
    WorkerPool.Run (callTask outcome) (fun call output ↦ outcome call.1 call.2 = output)
      (indexed values) concurrency mapping.pool := by
  induction hrun with
  | refl =>
      have hstart := @started _ Output values _ (min concurrency values.length) (Nat.le_refl _)
        (Nat.min_le_right _ _)
      have hsame : (mapWithConcurrency values concurrency : Mapping Input Output).pool =
          WorkerPool.initial (indexed values).length concurrency := by
        rw [mapWithConcurrency, hstart]
        have hnone : ∀ index : Nat,
            (if index < values.length then some (none : Option Output) else none).join = none := by
          intro index
          split <;> rfl
        simp [Mapping.pool, WorkerPool.initial, List.getElem?_replicate, hnone]
      rw [hsame]
  | tail hbefore hstep ih =>
      obtain ⟨answered, hrespond, hfinish⟩ :=
        (exact_of_run hbefore).pool_step (fun _ ↦ rfl) hstep
      exact (ih.tail hrespond).tail hfinish

/-- Each resolved promise fills one place of the results. -/
theorem Mapping.Exact.decreases {after : Mapping Input Output}
    (h : mapping.Exact outcome values staff) (hstep : mapping.Step outcome values after) :
    after.results.countP Option.isNone < mapping.results.countP Option.isNone := by
  obtain ⟨hworker, hvalue⟩ := hstep
  rename_i worker index value
  have hawaited : index ∈ mapping.awaited :=
    List.mem_filterMap.mpr ⟨some index, List.mem_iff_getElem?.mpr ⟨worker, hworker⟩, rfl⟩
  obtain ⟨hbound, hnone⟩ := List.getElem?_eq_some_iff.mp ((h.waiting index).mp hawaited).2
  have hresults : ((mapping.store index (outcome index value)).advance values worker).results =
      mapping.results.set index (some (outcome index value)) := by
    rw [Mapping.advance]
    split <;> rfl
  have hpositive : 0 < mapping.results.countP Option.isNone :=
    List.countP_pos_iff.mpr ⟨_, List.getElem_mem hbound, by rw [hnone]; rfl⟩
  rw [hresults, List.countP_set hbound, hnone]
  simp only [Option.isNone_none, Option.isNone_some, if_true, Bool.false_eq_true, if_false]
  omega

/-- When all workers have returned, `map` was called at every index, and every result is there. -/
theorem Mapping.Exact.complete (h : mapping.Exact outcome values (min concurrency values.length))
    (hpositive : 1 ≤ concurrency) (hreturned : mapping.Returned) :
    mapping.calls = indexed values ∧
      mapping.results = values.mapIdx fun index value ↦ some (outcome index value) := by
  have hpast : values.length ≤ mapping.nextIndex := by
    cases hworkers : mapping.workers with
    | nil =>
        have hstaffed := h.staffed
        rw [hworkers, List.length_nil] at hstaffed
        omega
    | cons worker rest =>
        have hmem : worker ∈ mapping.workers := hworkers ▸ List.mem_cons_self
        exact h.idle (hreturned worker hmem ▸ hmem)
  have hawaited : mapping.awaited = [] := by
    rw [Mapping.awaited, List.filterMap_eq_nil_iff]
    exact fun worker hworker ↦ hreturned worker hworker
  refine ⟨by rw [h.calls, List.take_of_length_le (by simpa using hpast)], ?_⟩
  refine List.ext_getElem? fun index ↦ ?_
  rw [List.getElem?_mapIdx]
  cases hvalue : values[index]? with
  | none =>
      have hlength := List.getElem?_eq_none_iff.mp hvalue
      exact List.getElem?_eq_none_iff.mpr (by rw [h.length]; exact hlength)
  | some value =>
      have hbound := (List.getElem?_eq_some_iff.mp hvalue).1
      cases hresult : mapping.results[index]? with
      | none =>
          have hlength := h.length
          exact absurd (List.getElem?_eq_none_iff.mp hresult) (by omega)
      | some result =>
          cases result with
          | none =>
              have hmem := (h.waiting index).mpr ⟨by omega, hresult⟩
              rw [hawaited] at hmem
              exact absurd hmem List.not_mem_nil
          | some output =>
              rw [h.results index value output hvalue hresult]
              rfl

/-- For every list of values, every positive concurrency and every order in which the promises resolve:
`map` is called at most once at an index, on the value there; at most `concurrency` calls are in flight; the
run goes on until all workers have returned and cannot go on for ever; and then `map` was called once at
every index and each result is the outcome of its call. -/
theorem mapWithConcurrency_exact (values : List Input) (concurrency : Nat)
    (hpositive : 1 ≤ concurrency) (outcome : Nat → Input → Output) :
    (∀ mapping, Mapping.Run outcome values concurrency mapping →
      (mapping.calls.map Prod.fst).Nodup ∧
      (∀ call ∈ mapping.calls, values[call.1]? = some call.2) ∧
      mapping.inFlight.length ≤ concurrency ∧
      (¬ mapping.Returned → ∃ after, mapping.Step outcome values after) ∧
      (mapping.Returned → mapping.calls = indexed values ∧
        mapping.results = values.mapIdx fun index value ↦ some (outcome index value))) ∧
    ¬ ∃ trace : Nat → Mapping Input Output, trace 0 = mapWithConcurrency values concurrency ∧
      ∀ time, (trace time).Step outcome values (trace (time + 1)) := by
  constructor
  · intro mapping hrun
    have hexact := exact_of_run hrun
    refine ⟨hexact.nodup_calls, fun call hcall ↦ (hexact.mem_calls.mp hcall).2, ?_,
      hexact.progress, hexact.complete hpositive⟩
    exact Nat.le_trans hexact.length_inFlight (Nat.min_le_left _ _)
  · intro ⟨trace, hstart, hsteps⟩
    have hrun : ∀ time, Mapping.Run outcome values concurrency (trace time) := by
      intro time
      induction time with
      | zero => rw [hstart]
      | succ time ih => exact ih.tail (hsteps time)
    -- every step fills one more place, and there are only so many
    have hfilled : ∀ time, (trace time).results.countP Option.isNone + time ≤
        (trace 0).results.countP Option.isNone := by
      intro time
      induction time with
      | zero => exact Nat.le_refl _
      | succ time ih =>
          have hless := (exact_of_run (hrun time)).decreases (hsteps time)
          omega
    have hbound := hfilled ((trace 0).results.countP Option.isNone + 1)
    omega

/-- Three values, two at a time. -/
theorem mapWithConcurrency_exact_three :
    1 ≤ 2 ∧ (∀ mapping, Mapping.Run (fun index value ↦ index + value) [7, 8, 9] 2 mapping →
      mapping.Returned → mapping.results = [some 7, some 9, some 11]) := by
  refine ⟨by decide, fun mapping hrun hreturned ↦ ?_⟩
  obtain ⟨-, -, -, -, hresults⟩ :=
    (mapWithConcurrency_exact [7, 8, 9] 2 (by decide) (fun index value ↦ index + value)).1 mapping hrun
  exact (hresults hreturned).2

end PeerHours.Desktop
