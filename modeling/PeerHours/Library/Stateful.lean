import PeerHours.Library.Checked

/-!
# Stateful computations

Computations that read and write a state and either return a value or stop with a message. What was
written before stopping stays written. A postcondition speaks of the result and of the state left
behind, and is computed backwards through a sequence.
-/

namespace Stateful

variable {σ α β : Type}

/-- A computation over a state that may stop with a message. -/
abbrev Action (σ α : Type) := ExceptT String (StateM σ) α

/-- The result of a computation and the state it leaves behind. -/
def outcome (action : Action σ α) (state : σ) : Except String α × σ :=
  action.run.run state

/-- A computation on values only. -/
def check (computation : Except String α) : Action σ α :=
  match computation with
  | .ok value => pure value
  | .error message => throw message

/-- A computation that puts the state right where it stops with a message. -/
def onFailure (cleanup : σ → σ) (action : Action σ α) : Action σ α :=
  tryCatch action fun message ↦ do
    modify cleanup
    throw message

/-- A computation with another one that runs where it stops, and may itself stop. -/
def cleaningUp (cleanup : Action σ PUnit) (action : Action σ α) : Action σ α :=
  tryCatch action fun message ↦ do
    cleanup
    throw message

/-! ## Outcomes -/

variable {state : σ}

/-- A computation on values that returns goes on with its value. -/
theorem outcome_check_bind {computation : Except String α} {value : α} {next : α → Action σ β}
    (h : computation = .ok value) :
    outcome (check computation >>= next) state = outcome (next value) state := by
  rw [h]
  rfl

theorem outcome_get_bind {next : σ → Action σ β} :
    outcome (get >>= next) state = outcome (next state) state := rfl

theorem outcome_modify_bind {f : σ → σ} {next : PUnit → Action σ β} :
    outcome (modify f >>= next) state = outcome (next ⟨⟩) (f state) := rfl

/-- A sequence goes on where its first computation returns. -/
theorem outcome_bind {first : Action σ α} {next : α → Action σ β} {value : α} {middle : σ}
    (h : outcome first state = (.ok value, middle)) :
    outcome (first >>= next) state = outcome (next value) middle := by
  unfold outcome at h ⊢
  rw [ExceptT.run_bind, StateT.run_bind, h]
  rfl

/-- A sequence stops where its first computation stops. -/
theorem outcome_bind_error {first : Action σ α} {next : α → Action σ β} {message : String} {middle : σ}
    (h : outcome first state = (.error message, middle)) :
    outcome (first >>= next) state = (.error message, middle) := by
  unfold outcome at h ⊢
  rw [ExceptT.run_bind, StateT.run_bind, h]
  rfl

/-- A computation that returns needs no putting right. -/
theorem outcome_onFailure {cleanup : σ → σ} {action : Action σ α} {value : α} {after : σ}
    (h : outcome action state = (.ok value, after)) :
    outcome (onFailure cleanup action) state = (.ok value, after) := by
  unfold outcome onFailure at *
  rw [ExceptT.run_tryCatch, StateT.run_bind, h]
  rfl

/-- A computation that returns needs no cleaning up. -/
theorem outcome_cleaningUp {cleanup : Action σ PUnit} {action : Action σ α} {value : α} {after : σ}
    (h : outcome action state = (.ok value, after)) :
    outcome (cleaningUp cleanup action) state = (.ok value, after) := by
  unfold outcome cleaningUp at *
  rw [ExceptT.run_tryCatch, StateT.run_bind, h]
  rfl

/-! ## Postconditions -/

/-- The postcondition holds of the result and of the state left behind. -/
def Ensures (action : Action σ α) (state : σ) (post : Except String α → σ → Prop) : Prop :=
  post (outcome action state).1 (outcome action state).2

variable {post : Except String α → σ → Prop}

theorem ensures_pure {value : α} : Ensures (pure value) state post ↔ post (.ok value) state := Iff.rfl

theorem ensures_throw {message : String} :
    Ensures (throw message : Action σ α) state post ↔ post (.error message) state := Iff.rfl

/-- A sequence ensures what its second computation ensures after the first one, and what holds when the
first one stops. -/
theorem ensures_bind {first : Action σ α} {next : α → Action σ β}
    {post : Except String β → σ → Prop} :
    Ensures (first >>= next) state post ↔
      Ensures first state fun result middle ↦ match result with
        | .ok value => Ensures (next value) middle post
        | .error message => post (.error message) middle := by
  unfold Ensures outcome
  rw [ExceptT.run_bind, StateT.run_bind]
  rcases hfirst : first.run.run state with ⟨message | value, middle⟩
  · exact Iff.rfl
  · exact Iff.rfl

theorem ensures_get {post : Except String σ → σ → Prop} :
    Ensures (get : Action σ σ) state post ↔ post (.ok state) state := Iff.rfl

theorem ensures_modify {f : σ → σ} {post : Except String PUnit → σ → Prop} :
    Ensures (modify f : Action σ PUnit) state post ↔ post (.ok ⟨⟩) (f state) := Iff.rfl

theorem ensures_check {computation : Except String α} :
    Ensures (check computation) state post ↔ post computation state := by
  cases computation <;> rfl

theorem ensures_get_bind {next : σ → Action σ β} {post : Except String β → σ → Prop} :
    Ensures (get >>= next) state post ↔ Ensures (next state) state post := by
  rw [ensures_bind, ensures_get]

theorem ensures_modify_bind {f : σ → σ} {next : PUnit → Action σ β}
    {post : Except String β → σ → Prop} :
    Ensures (modify f >>= next) state post ↔ Ensures (next ⟨⟩) (f state) post := by
  rw [ensures_bind, ensures_modify]

/-- A computation on values goes on with its value, or stops where it is. -/
theorem Ensures.check_bind {computation : Except String α} {next : α → Action σ β}
    {post : Except String β → σ → Prop} (hstop : ∀ message, post (.error message) state)
    (hnext : ∀ value, computation = .ok value → Ensures (next value) state post) :
    Ensures (check computation >>= next) state post := by
  rw [ensures_bind, ensures_check]
  cases computation with
  | error message => exact hstop message
  | ok value => exact hnext value rfl

/-- A sequence by what its first computation ensures. -/
theorem Ensures.bind {first : Action σ α} {next : α → Action σ β}
    {post : Except String β → σ → Prop} {middlePost : Except String α → σ → Prop}
    (hfirst : Ensures first state middlePost)
    (hstop : ∀ message middle, middlePost (.error message) middle → post (.error message) middle)
    (hnext : ∀ value middle, middlePost (.ok value) middle → Ensures (next value) middle post) :
    Ensures (first >>= next) state post := by
  rw [ensures_bind]
  unfold Ensures at hfirst ⊢
  generalize outcome first state = reached at hfirst
  obtain ⟨message | value, middle⟩ := reached
  · exact hstop message middle hfirst
  · exact hnext value middle hfirst

/-- Where a computation stops, what it ensures is put right. -/
theorem ensures_onFailure {cleanup : σ → σ} {action : Action σ α} :
    Ensures (onFailure cleanup action) state post ↔
      Ensures action state fun result middle ↦ match result with
        | .ok value => post (.ok value) middle
        | .error message => post (.error message) (cleanup middle) := by
  unfold Ensures outcome onFailure
  rw [ExceptT.run_tryCatch, StateT.run_bind]
  rcases hfirst : action.run.run state with ⟨message | value, middle⟩
  · exact Iff.rfl
  · exact Iff.rfl

/-- Where a computation stops, the other one runs and the call stops. -/
theorem ensures_cleaningUp {cleanup : Action σ PUnit} {action : Action σ α} :
    Ensures (cleaningUp cleanup action) state post ↔
      Ensures action state fun result middle ↦ match result with
        | .ok value => post (.ok value) middle
        | .error message => Ensures (cleanup >>= fun _ ↦ throw message : Action σ α) middle post := by
  unfold Ensures outcome cleaningUp
  rw [ExceptT.run_tryCatch, StateT.run_bind]
  rcases hfirst : action.run.run state with ⟨message | value, middle⟩
  · exact Iff.rfl
  · exact Iff.rfl

/-- A weaker postcondition is ensured too. -/
theorem Ensures.mono {action : Action σ α} {weaker : Except String α → σ → Prop}
    (h : Ensures action state post) (hpost : ∀ result after, post result after → weaker result after) :
    Ensures action state weaker :=
  hpost _ _ h

end Stateful
