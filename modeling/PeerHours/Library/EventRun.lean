import Mathlib.Data.List.Basic

/-!
# Runs over a list of events

A machine that takes one step for each event. What every step of a run meets is said of the state before the step
and the event; what one step keeps is kept by the whole run.
-/

namespace EventRun

variable {σ ε : Type}

/-- The state after the events. -/
def run (step : σ → ε → σ) (start : σ) (events : List ε) : σ :=
  events.foldl step start

/-- Every step of the run meets the condition, which reads the state before the step. -/
def Along (step : σ → ε → σ) (condition : σ → ε → Prop) (start : σ) : List ε → Prop
  | [] => True
  | event :: rest => condition start event ∧ Along step condition (step start event) rest

variable {step : σ → ε → σ} {condition other : σ → ε → Prop} {start : σ}

@[simp] theorem run_nil : run step start [] = start := rfl

@[simp] theorem run_cons {event : ε} {rest : List ε} :
    run step start (event :: rest) = run step (step start event) rest := rfl

@[simp] theorem run_append {first second : List ε} :
    run step start (first ++ second) = run step (run step start first) second :=
  List.foldl_append

/-- A condition holds along a run when it holds before every event of it. -/
theorem along_iff {events : List ε} :
    Along step condition start events ↔
      ∀ before event after, events = before ++ event :: after →
        condition (run step start before) event := by
  induction events generalizing start with
  | nil => simp [Along]
  | cons first rest ih =>
      rw [Along, ih]
      constructor
      · rintro ⟨hfirst, hrest⟩ before event after hsplit
        cases before with
        | nil =>
            obtain ⟨rfl, -⟩ := List.cons.inj hsplit
            exact hfirst
        | cons earlier before =>
            rw [List.cons_append, List.cons.injEq] at hsplit
            obtain ⟨rfl, hsplit⟩ := hsplit
            exact hrest before event after hsplit
      · intro h
        refine ⟨h [] first rest rfl, ?_⟩
        intro before event after hsplit
        exact h (first :: before) event after (by rw [hsplit]; rfl)

/-- What every step keeps under the condition holds after the run. -/
theorem keeps {invariant : σ → Prop}
    (hstep : ∀ state event, invariant state → condition state event → invariant (step state event))
    (hstart : invariant start) {events : List ε} (h : Along step condition start events) :
    invariant (run step start events) := by
  induction events generalizing start with
  | nil => exact hstart
  | cons event rest ih => exact ih (hstep start event hstart h.1) h.2

/-- Conditions that agree wherever the invariant holds hold along the same runs. -/
theorem along_congr {invariant : σ → Prop}
    (hstep : ∀ state event, invariant state → condition state event → invariant (step state event))
    (hsame : ∀ state event, invariant state → (condition state event ↔ other state event))
    (hstart : invariant start) {events : List ε} :
    Along step condition start events ↔ Along step other start events := by
  induction events generalizing start with
  | nil => exact Iff.rfl
  | cons event rest ih =>
      rw [Along, Along, ← hsame start event hstart]
      refine and_congr_right fun hcondition ↦ ?_
      exact ih (hstep start event hstart hcondition)

end EventRun
