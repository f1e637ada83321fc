import Mathlib.Tactic.TypeStar

namespace Ocelotl.Library

section Throwing

variable {ε σ α β : Type}

/-- A successful sequence splits into two successful steps. -/
theorem bind_ok {first : EStateM ε σ α} {rest : α → EStateM ε σ β} {start final : σ} {result : β} :
    (first >>= rest) start = .ok result final ↔
      ∃ value middle, first start = .ok value middle ∧ rest value middle = .ok result final := by
  simp only [bind, EStateM.bind]
  cases first start with
  | ok value middle =>
    constructor
    · intro success
      exact ⟨value, middle, rfl, success⟩
    · rintro ⟨_, _, same, success⟩
      cases same
      exact success
  | error error state => simp

/-- A computation that only acts comes before the rest. -/
theorem then_ok {first : EStateM ε σ Unit} {rest : Unit → EStateM ε σ β} {start final : σ}
    {result : β} : (first >>= rest) start = .ok result final ↔
      ∃ middle, first start = .ok () middle ∧ rest () middle = .ok result final := by
  rw [bind_ok]
  exact ⟨fun ⟨_, middle, success, after⟩ => ⟨middle, success, after⟩,
    fun ⟨middle, success, after⟩ => ⟨(), middle, success, after⟩⟩

/-- A failed sequence fails in its first step, or in the rest after it. -/
theorem bind_error {first : EStateM ε σ α} {rest : α → EStateM ε σ β} {start final : σ}
    {error : ε} :
    (first >>= rest) start = .error error final ↔
      first start = .error error final ∨
        ∃ value middle, first start = .ok value middle ∧
          rest value middle = .error error final := by
  simp only [bind, EStateM.bind]
  cases first start with
  | ok value middle =>
    constructor
    · intro failure
      exact .inr ⟨value, middle, rfl, failure⟩
    · rintro (same | ⟨_, _, same, failure⟩)
      · cases same
      · cases same
        exact failure
  | error error state => simp

theorem bind_of_ok {first : EStateM ε σ α} {rest : α → EStateM ε σ β} {start middle : σ} {value : α}
    (success : first start = .ok value middle) : (first >>= rest) start = rest value middle := by
  simp only [bind, EStateM.bind, success]

theorem bind_of_error {first : EStateM ε σ α} {rest : α → EStateM ε σ β} {start final : σ}
    {error : ε} (failure : first start = .error error final) :
    (first >>= rest) start = .error error final := by
  simp only [bind, EStateM.bind, failure]

@[simp] theorem pure_apply (value : α) (state : σ) :
    (pure value : EStateM ε σ α) state = .ok value state := rfl

@[simp] theorem throw_apply (error : ε) (state : σ) :
    (throw error : EStateM ε σ α) state = .error error state := rfl

@[simp] theorem get_apply (state : σ) :
    (get : EStateM ε σ σ) state = .ok state state := rfl

@[simp] theorem modify_apply (update : σ → σ) (state : σ) :
    (modify update : EStateM ε σ PUnit) state = .ok ⟨⟩ (update state) := rfl

@[simp] theorem modifyGet_apply (update : σ → α × σ) (state : σ) :
    (modifyGet update : EStateM ε σ α) state = .ok (update state).1 (update state).2 := rfl

@[simp] theorem ofExcept_ok (value : α) (state : σ) :
    (ofExcept (.ok value : Except ε α) : EStateM ε σ α) state = .ok value state := rfl

@[simp] theorem ofExcept_error (error : ε) (state : σ) :
    (ofExcept (.error error : Except ε α) : EStateM ε σ α) state = .error error state := rfl

/-- Lifting a pure check succeeds exactly when the check does, and leaves the state alone. -/
theorem ofExcept_apply_ok {check : Except ε α} {start final : σ} {value : α} :
    (ofExcept check : EStateM ε σ α) start = .ok value final ↔
      check = .ok value ∧ start = final := by
  cases check <;> simp

theorem ofExcept_apply_error {check : Except ε α} {start final : σ} {error : ε} :
    (ofExcept check : EStateM ε σ α) start = .error error final ↔
      check = .error error ∧ start = final := by
  cases check <;> simp

/-- The state that a successful run ends in. -/
def reached (computation : EStateM ε σ Unit) (start : σ) : Option σ :=
  match computation start with
  | .ok _ final => some final
  | .error _ _ => none

/-- The state that a run ends in, also when it throws. -/
def stateAfter (computation : EStateM ε σ α) (start : σ) : σ :=
  match computation start with
  | .ok _ final => final
  | .error _ final => final

/-- How a run ends, whatever the state it ends in. -/
def outcome (computation : EStateM ε σ α) (start : σ) : Except ε α :=
  match computation start with
  | .ok value _ => .ok value
  | .error error _ => .error error

theorem outcome_eq_ok {computation : EStateM ε σ α} {start : σ} {value : α} :
    outcome computation start = .ok value ↔ ∃ final, computation start = .ok value final := by
  unfold outcome
  cases computation start <;> simp

theorem outcome_eq_error {computation : EStateM ε σ α} {start : σ} {error : ε} :
    outcome computation start = .error error ↔ ∃ final, computation start = .error error final := by
  unfold outcome
  cases computation start <;> simp

theorem outcome_bind_of_ok {first : EStateM ε σ α} {rest : α → EStateM ε σ β} {start middle : σ}
    {value : α} (success : first start = .ok value middle) :
    outcome (first >>= rest) start = outcome (rest value) middle := by
  rw [outcome, bind_of_ok success]
  rfl

theorem reached_eq_some {computation : EStateM ε σ Unit} {start final : σ} :
    reached computation start = some final ↔ computation start = .ok () final := by
  unfold reached
  cases computation start <;> simp

end Throwing

section Except

variable {ε α β : Type}

theorem except_bind_ok {first : Except ε α} {rest : α → Except ε β} {result : β} :
    (first >>= rest) = .ok result ↔ ∃ value, first = .ok value ∧ rest value = .ok result := by
  cases first <;> simp [bind, Except.bind]

/-- A check comes before the rest. -/
theorem except_then_ok {check : Except ε Unit} {rest : Unit → Except ε β} {result : β} :
    (check >>= rest) = .ok result ↔ check = .ok () ∧ rest () = .ok result := by
  cases check <;> simp [bind, Except.bind]

theorem except_bind_error {first : Except ε α} {rest : α → Except ε β} {error : ε} :
    (first >>= rest) = .error error ↔
      first = .error error ∨ ∃ value, first = .ok value ∧ rest value = .error error := by
  cases first <;> simp [bind, Except.bind]

/-- A list of checks passes when each of them does. -/
theorem forM_eq_ok {items : List α} {check : α → Except ε Unit} :
    forM items check = .ok () ↔ ∀ item ∈ items, check item = .ok () := by
  induction items with
  | nil => simp [pure, Except.pure]
  | cons item items ih => rw [List.forM_cons, except_then_ok, ih, List.forall_mem_cons]

/-- A list of checks fails with the error of one of them. -/
theorem exists_of_forM_eq_error {items : List α} {check : α → Except ε Unit} {error : ε}
    (failure : forM items check = .error error) : ∃ item ∈ items, check item = .error error := by
  induction items with
  | nil => cases failure
  | cons item items ih =>
    rw [List.forM_cons, except_bind_error] at failure
    rcases failure with here | ⟨_, _, later⟩
    · exact ⟨item, List.mem_cons_self, here⟩
    · obtain ⟨other, member, here⟩ := ih later
      exact ⟨other, List.mem_cons_of_mem _ member, here⟩

theorem toOption_eq_some {result : Except ε α} {value : α} :
    result.toOption = some value ↔ result = .ok value := by
  cases result <;> simp [Except.toOption]

end Except

end Ocelotl.Library
