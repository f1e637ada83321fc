/-! Runs of a labelled transition system, with the labels in order. -/

namespace Ocelotl.Library

universe u v

/-- Zero or more steps and their labels. -/
inductive Trace {State : Type u} {Label : Type v} (step : State → Label → State → Prop)
    (start : State) :
    List Label → State → Prop where
  | nil : Trace step start [] start
  | snoc {labels : List Label} {middle final : State} {label : Label}
    (before : Trace step start labels middle)
    (taken : step middle label final) : Trace step start (labels ++ [label]) final

namespace Trace

variable {State : Type u} {Label : Type v} {step : State → Label → State → Prop}
  {start final : State} {labels : List Label}

/-- What holds at the start and is kept by each step holds after every run. -/
theorem invariant {holds : List Label → State → Prop} (trace : Trace step start labels final)
    (initial : holds [] start)
    (kept : ∀ {labels state label next}, holds labels state → step state label next →
      holds (labels ++ [label]) next) :
    holds labels final := by
  induction trace with
  | nil => exact initial
  | snoc before taken ih => exact kept ih taken

/-- The last step of a run. -/
theorem exists_of_snoc {label : Label} (trace : Trace step start (labels ++ [label]) final) :
    ∃ middle, Trace step start labels middle ∧ step middle label final := by
  generalize same : labels ++ [label] = all at trace
  cases trace with
  | nil => simp at same
  | snoc before taken =>
    obtain ⟨rfl, last⟩ := List.append_inj' same rfl
    cases last
    exact ⟨_, before, taken⟩

end Trace

end Ocelotl.Library
