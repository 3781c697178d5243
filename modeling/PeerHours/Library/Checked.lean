import Mathlib.Data.List.Forall2

/-!
# Checked computations

Rules for computations that either return a value or stop with a message. A validator is a
sequence of `require` steps, so its success is the conjunction of the required facts, and a loop
of validators succeeds when every element passes.
-/

namespace Checked

variable {ε α β : Type}

/-- The computation returns some value. -/
def Succeeds (computation : Except ε α) : Prop :=
  ∃ value, computation = .ok value

/-- Success is decided by looking at the result. -/
instance (computation : Except ε α) : Decidable (Succeeds computation) :=
  match computation with
  | .ok value => isTrue ⟨value, rfl⟩
  | .error _ => isFalse (by rintro ⟨_, h⟩; cases h)

@[simp] theorem succeeds_ok (value : α) : Succeeds (Except.ok value : Except ε α) := ⟨value, rfl⟩

@[simp] theorem not_succeeds_error (message : ε) :
    ¬ Succeeds (Except.error message : Except ε α) := by
  rintro ⟨_, h⟩
  cases h

/-- Continue only when the condition holds; otherwise stop with the message. -/
def require (condition : Prop) [Decidable condition] (message : ε) : Except ε Unit :=
  if condition then .ok () else .error message

@[simp] theorem require_eq_ok {condition : Prop} [Decidable condition] {message : ε}
    {result : Unit} : require condition message = .ok result ↔ condition := by
  unfold require
  split <;> simp_all

@[simp] theorem succeeds_require {condition : Prop} [Decidable condition] {message : ε} :
    Succeeds (require condition message) ↔ condition := by
  simp [Succeeds]

/-- Read a value that may be absent, stopping with the message when it is. -/
def present (value : Option α) (message : ε) : Except ε α :=
  match value with
  | some found => .ok found
  | none => .error message

@[simp] theorem present_eq_ok {value : Option α} {message : ε} {found : α} :
    present value message = .ok found ↔ value = some found := by
  cases value <;> simp [present]

@[simp] theorem ok_bind (value : α) (next : α → Except ε β) :
    (Except.ok value >>= next) = next value := rfl

@[simp] theorem error_bind (message : ε) (next : α → Except ε β) :
    (Except.error message >>= next) = .error message := rfl

/-- A sequence of two computations returns when the first does and the second does on its value. -/
theorem bind_eq_ok {first : Except ε α} {next : α → Except ε β} {result : β} :
    (first >>= next) = .ok result ↔ ∃ value, first = .ok value ∧ next value = .ok result := by
  cases first with
  | error message => simp [bind, Except.bind]
  | ok value => simp [bind, Except.bind]

/-- Mapping over the result does not change whether there is one. -/
theorem map_eq_ok {first : Except ε α} {f : α → β} {result : β} :
    (f <$> first) = .ok result ↔ ∃ value, first = .ok value ∧ f value = result := by
  cases first <;> simp [Functor.map, Except.map]

@[simp] theorem pure_eq_ok {value result : α} :
    (pure value : Except ε α) = .ok result ↔ value = result := by
  simp [pure, Except.pure]

/-- Rewriting the message does not change whether there is a result. -/
@[simp] theorem mapError_eq_ok {f : ε → ε} {computation : Except ε α} {result : α} :
    computation.mapError f = .ok result ↔ computation = .ok result := by
  cases computation <;> simp [Except.mapError]

/-- Run a validator on every element in order, stopping at the first failure. -/
def checkAll (check : α → Except ε Unit) : List α → Except ε Unit
  | [] => .ok ⟨⟩
  | value :: rest => do
      check value
      checkAll check rest

@[simp] theorem checkAll_eq_ok {check : α → Except ε Unit} {values : List α} {result : Unit} :
    checkAll check values = .ok result ↔ ∀ value ∈ values, check value = .ok ⟨⟩ := by
  induction values with
  | nil => simp [checkAll]
  | cons value rest ih =>
      simp only [checkAll, bind_eq_ok, ih, List.forall_mem_cons]
      exact ⟨fun ⟨_, hvalue, hrest⟩ ↦ ⟨hvalue, hrest⟩, fun ⟨hvalue, hrest⟩ ↦ ⟨_, hvalue, hrest⟩⟩

/-- Mapping a computation over a list returns exactly when it returns on every element, pointwise. -/
theorem mapM_eq_ok {f : α → Except ε β} {values : List α} {results : List β} :
    values.mapM f = .ok results ↔ List.Forall₂ (fun value result ↦ f value = .ok result)
      values results := by
  induction values generalizing results with
  | nil => cases results <;> simp [pure, Except.pure]
  | cons value rest ih =>
      rw [List.mapM_cons]
      simp only [bind_eq_ok, pure_eq_ok, ih]
      constructor
      · rintro ⟨head, hhead, tail, htail, rfl⟩
        exact .cons hhead htail
      · rintro (_ | ⟨hhead, htail⟩)
        exact ⟨_, hhead, _, htail, rfl⟩

/-- A mapped list exists exactly when every element maps. -/
theorem succeeds_mapM {f : α → Except ε β} {values : List α} :
    Succeeds (values.mapM f) ↔ ∀ value ∈ values, Succeeds (f value) := by
  induction values with
  | nil => simp [Succeeds, pure, Except.pure]
  | cons value rest ih =>
      simp only [List.mapM_cons, Succeeds, bind_eq_ok, pure_eq_ok, List.forall_mem_cons] at ih ⊢
      rw [← ih]
      constructor
      · rintro ⟨_, head, hhead, tail, htail, rfl⟩
        exact ⟨⟨head, hhead⟩, tail, htail⟩
      · rintro ⟨⟨head, hhead⟩, tail, htail⟩
        exact ⟨_, head, hhead, tail, htail, rfl⟩

/-- The results of a mapped list are the results of its elements. -/
theorem mem_of_mapM {f : α → Except ε β} {values : List α} {results : List β}
    (h : values.mapM f = .ok results) (result : β) :
    result ∈ results ↔ ∃ value ∈ values, f value = .ok result := by
  rw [mapM_eq_ok] at h
  induction h with
  | nil => simp
  | @cons value head rest tail hhead _ ih =>
      rw [List.mem_cons, ih, eq_comm]
      simp only [List.mem_cons, or_and_right, exists_or, exists_eq_left, hhead, Except.ok.injEq]

/-- When the result of each element is known, a mapped list is the list of those results. -/
theorem mapM_eq_ok_map {f : α → Except ε β} {g : α → β} {values : List α} {results : List β}
    (hf : ∀ value ∈ values, ∀ result, f value = .ok result → result = g value) :
    values.mapM f = .ok results ↔
      (∀ value ∈ values, Succeeds (f value)) ∧ results = values.map g := by
  constructor
  · intro h
    refine ⟨succeeds_mapM.mp ⟨results, h⟩, ?_⟩
    rw [mapM_eq_ok] at h
    induction h with
    | nil => rfl
    | @cons value head rest tail hhead _ ih =>
        rw [List.forall_mem_cons] at hf
        rw [List.map_cons, hf.1 head hhead, ← ih hf.2]
  · rintro ⟨hall, rfl⟩
    rw [mapM_eq_ok]
    induction values with
    | nil => exact .nil
    | cons value rest ih =>
        rw [List.forall_mem_cons] at hf hall
        obtain ⟨result, hresult⟩ := hall.1
        exact .cons (hf.1 result hresult ▸ hresult) (ih hf.2 hall.2)

/-- What the related values satisfy on the right holds of every value on the right. -/
theorem forall_right_of_forall₂ {R : α → β → Prop} {P : β → Prop} {values : List α}
    {results : List β} (h : List.Forall₂ R values results)
    (hR : ∀ value result, R value result → P result) : ∀ result ∈ results, P result := by
  induction h with
  | nil => exact List.forall_mem_nil _
  | cons hhead _ ih => exact List.forall_mem_cons.mpr ⟨hR _ _ hhead, ih⟩

/-- What related values are mapped to is one list. -/
theorem map_eq_map_of_forall₂ {γ : Type} {R : α → β → Prop} {f : α → γ} {g : β → γ} {values : List α}
    {results : List β} (h : List.Forall₂ R values results)
    (hR : ∀ value result, R value result → g result = f value) : results.map g = values.map f := by
  induction h with
  | nil => rfl
  | cons hhead _ ih => rw [List.map_cons, List.map_cons, hR _ _ hhead, ih]

/-- A property that agrees on related values holds on one side exactly when it holds on the other. -/
theorem forall_iff_of_forall₂ {R : α → β → Prop} {P : α → Prop} {Q : β → Prop} {values : List α}
    {results : List β} (h : List.Forall₂ R values results)
    (hR : ∀ value result, R value result → (P value ↔ Q result)) :
    (∀ value ∈ values, P value) ↔ ∀ result ∈ results, Q result := by
  induction h with
  | nil => exact iff_of_true (List.forall_mem_nil _) (List.forall_mem_nil _)
  | cons hhead _ ih => rw [List.forall_mem_cons, List.forall_mem_cons, hR _ _ hhead, ih]

/-- Map a computation over a list, with the position of each element. -/
def mapIndexedFrom (f : Nat → α → Except ε β) (index : Nat) : List α → Except ε (List β)
  | [] => .ok []
  | value :: rest => do
      let result ← f index value
      let results ← mapIndexedFrom f (index + 1) rest
      pure (result :: results)

/-- Map a computation over a list, counting positions from zero. -/
def mapIndexed (f : Nat → α → Except ε β) (values : List α) : Except ε (List β) :=
  mapIndexedFrom f 0 values

/-- Each result of a mapped list is the result of its element at some position. -/
theorem forall₂_of_mapIndexedFrom {f : Nat → α → Except ε β} {index : Nat} {values : List α}
    {results : List β} (h : mapIndexedFrom f index values = .ok results) :
    List.Forall₂ (fun value result ↦ ∃ index, f index value = .ok result) values results := by
  induction values generalizing index results with
  | nil =>
      cases h
      exact .nil
  | cons value rest ih =>
      simp only [mapIndexedFrom, bind_eq_ok, pure_eq_ok] at h
      obtain ⟨head, hhead, tail, htail, rfl⟩ := h
      exact .cons ⟨index, hhead⟩ (ih htail)

theorem forall₂_of_mapIndexed {f : Nat → α → Except ε β} {values : List α} {results : List β}
    (h : mapIndexed f values = .ok results) :
    List.Forall₂ (fun value result ↦ ∃ index, f index value = .ok result) values results :=
  forall₂_of_mapIndexedFrom h

/-- A computation that keeps or refuses the encoding of each value maps the encoded list to the
values exactly when it keeps each one. -/
theorem mapIndexed_map_eq_ok {f : Nat → α → Except ε β} {encode : β → α} {Keeps : β → Prop}
    {values : List β}
    (hf : ∀ value ∈ values, ∀ index, f index (encode value) = .ok value ↔ Keeps value) :
    mapIndexed f (values.map encode) = .ok values ↔ ∀ value ∈ values, Keeps value := by
  have hfrom (index : Nat) : mapIndexedFrom f index (values.map encode) = .ok values ↔
      ∀ value ∈ values, Keeps value := by
    induction values generalizing index with
    | nil => simp [mapIndexedFrom]
    | cons value rest ih =>
        rw [List.forall_mem_cons] at hf ⊢
        rw [List.map_cons, mapIndexedFrom, ← hf.1 index, ← ih hf.2 (index + 1)]
        simp only [bind_eq_ok, pure_eq_ok, List.cons.injEq]
        constructor
        · rintro ⟨_, hvalue, _, hrest, rfl, rfl⟩
          exact ⟨hvalue, hrest⟩
        · intro ⟨hvalue, hrest⟩
          exact ⟨value, hvalue, rest, hrest, rfl, rfl⟩
  exact hfrom 0

end Checked
