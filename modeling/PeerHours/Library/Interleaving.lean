import Mathlib.Data.List.Pairwise
import Mathlib.Logic.Relation

/-!
# Interleaved calls

Calls that share one state and give way to each other wherever they wait. A pending call is known by where
it waits. A call that is resumed reads and writes the shared state in one go, and then waits somewhere else
or ends. Any call may start, and any pending call may be resumed, at any time.
-/

namespace Interleaving

variable {ε κ σ : Type}

/-- Resumes a call from where it waits, with what its surroundings give: where it waits next, if it has not
ended, and the shared state that it leaves behind. -/
abbrev Resume (ε κ σ : Type) := ε → κ → σ → Option κ × σ

/-- A condition on a resumption: on what the surroundings give, where the call waits, the shared state and
where the other pending calls wait. -/
abbrev Condition (ε κ σ : Type) := ε → κ → σ → List κ → Prop

/-- The shared state, and where each pending call waits. -/
structure System (κ σ : Type) where
  shared : σ
  pending : List κ

/-- One step of a system: a call starts, or a pending call is resumed under the condition. -/
inductive Step (entry : κ → Prop) (resume : Resume ε κ σ) (condition : Condition ε κ σ) :
    System κ σ → System κ σ → Prop where
  | start {stage : κ} {shared : σ} {pending : List κ} (hentry : entry stage) :
      Step entry resume condition ⟨shared, pending⟩ ⟨shared, stage :: pending⟩
  | resumed {surroundings : ε} {stage : κ} {shared : σ} {before after : List κ}
      (hcondition : condition surroundings stage shared (before ++ after)) :
      Step entry resume condition ⟨shared, before ++ stage :: after⟩
        ⟨(resume surroundings stage shared).2,
          before ++ ((resume surroundings stage shared).1.toList ++ after)⟩

/-- A run: any number of steps. -/
abbrev Run (entry : κ → Prop) (resume : Resume ε κ σ) (condition : Condition ε κ σ) :
    System κ σ → System κ σ → Prop :=
  Relation.ReflTransGen (Step entry resume condition)

/-- A pending call is resumed with this result. -/
theorem Step.go {entry : κ → Prop} {resume : Resume ε κ σ} {condition : Condition ε κ σ}
    {surroundings : ε} {stage : κ} {next : Option κ} {shared left : σ} (before after : List κ)
    (hresume : resume surroundings stage shared = (next, left))
    (hcondition : condition surroundings stage shared (before ++ after)) :
    Step entry resume condition ⟨shared, before ++ stage :: after⟩
      ⟨left, before ++ (next.toList ++ after)⟩ := by
  have hstep := @Step.resumed _ _ _ entry resume condition surroundings stage shared before after
    hcondition
  rw [hresume] at hstep
  exact hstep

/-- The one pending call is resumed. -/
theorem Step.alone {entry : κ → Prop} {resume : Resume ε κ σ} {condition : Condition ε κ σ}
    {surroundings : ε} {stage : κ} {next : Option κ} {before after : σ}
    (hresume : resume surroundings stage before = (next, after))
    (hcondition : condition surroundings stage before []) :
    Step entry resume condition ⟨before, [stage]⟩ ⟨after, next.toList⟩ := by
  have hstep := @Step.go _ _ _ entry _ _ _ _ _ _ _ [] [] hresume hcondition
  rw [List.append_nil] at hstep
  exact hstep

/-! ## Invariants -/

/-- What is kept of a system: of the shared state, of each pending call and the shared state, and of each
two pending calls. -/
structure Invariant (κ σ : Type) where
  shared : σ → Prop
  waiting : σ → κ → Prop
  apart : κ → κ → Prop

/-- The invariant holds of the system. -/
structure Invariant.Holds (invariant : Invariant κ σ) (system : System κ σ) : Prop where
  shared : invariant.shared system.shared
  waiting : ∀ stage ∈ system.pending, invariant.waiting system.shared stage
  apart : system.pending.Pairwise invariant.apart

/-- A call that starts meets the invariant beside any others, and a call that is resumed keeps it for
itself and for the others. -/
structure Invariant.Kept (invariant : Invariant κ σ) (entry : κ → Prop) (resume : Resume ε κ σ)
    (condition : Condition ε κ σ) : Prop where
  symm : ∀ {left right}, invariant.apart left right → invariant.apart right left
  start : ∀ shared stage, entry stage →
    invariant.waiting shared stage ∧ ∀ other, invariant.apart stage other
  resumed : ∀ surroundings stage shared others, condition surroundings stage shared others →
    invariant.shared shared → invariant.waiting shared stage →
    (∀ other ∈ others, invariant.waiting shared other ∧ invariant.apart stage other) →
    invariant.shared (resume surroundings stage shared).2 ∧
      (∀ next ∈ (resume surroundings stage shared).1,
        invariant.waiting (resume surroundings stage shared).2 next ∧
          ∀ other ∈ others, invariant.apart next other) ∧
      ∀ other ∈ others, invariant.waiting (resume surroundings stage shared).2 other

variable {entry : κ → Prop} {resume : Resume ε κ σ} {condition : Condition ε κ σ}
  {invariant : Invariant κ σ}

/-- Where no call is pending, only the shared state counts. -/
theorem Invariant.holds_idle {shared : σ} (h : invariant.shared shared) :
    invariant.Holds ⟨shared, []⟩ where
  shared := h
  waiting _ hmem := absurd hmem List.not_mem_nil
  apart := List.Pairwise.nil

/-- A step keeps the invariant. -/
theorem Invariant.Kept.step (hkept : invariant.Kept entry resume condition) {before after : System κ σ}
    (hholds : invariant.Holds before) (hstep : Step entry resume condition before after) :
    invariant.Holds after := by
  cases hstep with
  | @start stage shared pending hentry =>
      obtain ⟨hwaiting, hapart⟩ := hkept.start shared stage hentry
      refine ⟨hholds.shared, fun other hmem ↦ ?_, ?_⟩
      · cases List.mem_cons.mp hmem with
        | inl hsame => exact hsame ▸ hwaiting
        | inr hmem => exact hholds.waiting other hmem
      · exact List.pairwise_cons.mpr ⟨fun other _ ↦ hapart other, hholds.apart⟩
  | @resumed surroundings stage shared first second hcondition =>
      -- the resumed call is moved to the front, where the others are one list
      obtain ⟨hstage, hothers⟩ := List.pairwise_cons.mp
        ((List.pairwise_middle hkept.symm).mp hholds.apart)
      have hwaiting (other : κ) (hmem : other ∈ first ++ second) :
          invariant.waiting shared other := by
        refine hholds.waiting other ?_
        exact (List.mem_append.mp hmem).elim (List.mem_append_left _)
          fun hmem ↦ List.mem_append_right _ (List.mem_cons_of_mem _ hmem)
      obtain ⟨hshared, hnext, hrest⟩ := hkept.resumed surroundings stage shared (first ++ second)
        hcondition hholds.shared (hholds.waiting stage (by simp))
        fun other hmem ↦ ⟨hwaiting other hmem, hstage other hmem⟩
      cases hresult : (resume surroundings stage shared).1 with
      | none =>
          refine ⟨hshared, hrest, ?_⟩
          exact hothers
      | some next =>
          obtain ⟨hself, hapart⟩ := hnext next hresult
          refine ⟨hshared, fun other hmem ↦ ?_, ?_⟩
          · simp only [Option.toList_some, List.mem_append, List.mem_singleton] at hmem
            rcases hmem with hmem | rfl | hmem
            · exact hrest other (List.mem_append_left _ hmem)
            · exact hself
            · exact hrest other (List.mem_append_right _ hmem)
          · exact (List.pairwise_middle hkept.symm).mpr (List.pairwise_cons.mpr ⟨hapart, hothers⟩)

/-- A run keeps the invariant. -/
theorem Invariant.Kept.run (hkept : invariant.Kept entry resume condition) {before after : System κ σ}
    (hholds : invariant.Holds before) (hrun : Run entry resume condition before after) :
    invariant.Holds after := by
  induction hrun with
  | refl => exact hholds
  | tail _ hstep ih => exact hkept.step ih hstep

/-- Under an invariant, a run keeps what its steps keep of the shared state and all pending calls together,
whatever their order. -/
theorem Invariant.Kept.run_with (hkept : invariant.Kept entry resume condition)
    {holds : σ → List κ → Prop}
    (hperm : ∀ shared left right, left.Perm right → holds shared left → holds shared right)
    (hstart : ∀ shared stage others, entry stage → holds shared others →
      holds shared (stage :: others))
    (hresumed : ∀ surroundings stage shared others, condition surroundings stage shared others →
      invariant.Holds ⟨shared, stage :: others⟩ → holds shared (stage :: others) →
      holds (resume surroundings stage shared).2
        ((resume surroundings stage shared).1.toList ++ others))
    {before after : System κ σ} (hinvariant : invariant.Holds before)
    (hholds : holds before.shared before.pending) (hrun : Run entry resume condition before after) :
    holds after.shared after.pending := by
  induction hrun with
  | refl => exact hholds
  | @tail middle last hrun hstep ih =>
      have hmiddle := hkept.run hinvariant hrun
      cases hstep with
      | @start stage shared pending hentry => exact hstart shared stage pending hentry ih
      | @resumed surroundings stage shared first second hcondition =>
          have hfront : (first ++ stage :: second).Perm (stage :: (first ++ second)) :=
            List.perm_middle
          have hstage : invariant.Holds ⟨shared, stage :: (first ++ second)⟩ :=
            ⟨hmiddle.shared, fun other hmem ↦ hmiddle.waiting other (hfront.mem_iff.mpr hmem),
              (List.pairwise_middle hkept.symm).mp hmiddle.apart⟩
          have hafter := hresumed surroundings stage shared (first ++ second) hcondition hstage
            (hperm _ _ _ hfront ih)
          refine hperm _ _ _ ?_ hafter
          rw [← List.append_assoc, ← List.append_assoc]
          exact List.perm_append_comm.append_right second

end Interleaving
