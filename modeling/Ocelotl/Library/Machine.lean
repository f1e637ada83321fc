import Mathlib.Logic.Relation

/-! Deterministic machines that step from one configuration to the next until
they halt with an outcome, and simulation between two of them. -/

namespace Ocelotl.Library

universe u v u' v'

/-- A configuration either steps to the next one or halts. -/
structure Machine (Config : Type u) (Outcome : Type v) where
  step : Config → Config ⊕ Outcome

namespace Machine

variable {Config : Type u} {Outcome : Type v} (machine : Machine Config Outcome)

/-- Execution with a bound on the number of steps. -/
def run : Nat → Config → Option Outcome
  | 0, _ => none
  | fuel + 1, config =>
    match machine.step config with
    | .inl next => run fuel next
    | .inr outcome => some outcome

/-- The machine halts with this outcome after finitely many steps. -/
inductive Evaluates : Config → Outcome → Prop where
  | halt (stops : machine.step config = .inr outcome) : Evaluates config outcome
  | next (steps : machine.step config = .inl following)
      (rest : Evaluates following outcome) : Evaluates config outcome

/-- Zero or more steps without halting. -/
abbrev Leads : Config → Config → Prop :=
  Relation.ReflTransGen fun config following => machine.step config = .inl following

variable {machine}

theorem Leads.one (steps : machine.step config = .inl following) :
    machine.Leads config following := .single steps

theorem Evaluates.of_run {fuel : Nat} (result : machine.run fuel config = some outcome) :
    machine.Evaluates config outcome := by
  induction fuel generalizing config with
  | zero => simp [run] at result
  | succ fuel ih =>
    simp only [run] at result
    split at result
    · rename_i next steps
      exact .next steps (ih result)
    · rename_i final stops
      cases result
      exact .halt stops

theorem Evaluates.exists_run (evaluates : machine.Evaluates config outcome) :
    ∃ fuel, machine.run fuel config = some outcome := by
  induction evaluates with
  | halt stops => exact ⟨1, by simp [run, stops]⟩
  | next steps _ ih =>
    obtain ⟨fuel, result⟩ := ih
    exact ⟨fuel + 1, by simp [run, steps, result]⟩

/-- A machine has at most one outcome from each configuration. -/
theorem Evaluates.unique (first : machine.Evaluates config outcome₁)
    (second : machine.Evaluates config outcome₂) : outcome₁ = outcome₂ := by
  induction first with
  | halt stops =>
    cases second with
    | halt other => exact Sum.inr.inj (stops.symm.trans other)
    | next other _ => rw [stops] at other; cases other
  | next steps _ ih =>
    cases second with
    | halt other => rw [steps] at other; cases other
    | next other rest =>
      have same := Sum.inl.inj (steps.symm.trans other)
      subst same
      exact ih rest

/-- The outcome of an execution is that of every configuration it goes through. -/
theorem Evaluates.of_leads (evaluates : machine.Evaluates config outcome)
    (leads : machine.Leads config following) : machine.Evaluates following outcome := by
  induction leads using Relation.ReflTransGen.head_induction_on with
  | refl => exact evaluates
  | head steps _ ih =>
    cases evaluates with
    | halt stops => rw [steps] at stops; cases stops
    | next other rest =>
      cases steps.symm.trans other
      exact ih rest

/-- What every step keeps holds of the configuration that halts. -/
theorem Evaluates.invariant {holds : Config → Prop} (evaluates : machine.Evaluates config outcome)
    (start : holds config)
    (kept : ∀ {config following}, holds config → machine.step config = .inl following →
      holds following) :
    ∃ last, holds last ∧ machine.step last = .inr outcome := by
  induction evaluates with
  | halt stops => exact ⟨_, start, stops⟩
  | next steps _ ih => exact ih (kept start steps)

/-- Where each step lowers a rank that is positive, the rank bounds the execution. -/
theorem exists_run_of_rank {holds : Config → Prop} {rank : Config → Nat}
    (positive : ∀ {config}, holds config → 0 < rank config)
    (lowers : ∀ {config following}, holds config → machine.step config = .inl following →
      holds following ∧ rank following < rank config) (start : holds config) :
    ∃ outcome, machine.run (rank config) config = some outcome := by
  have within : ∀ fuel config, holds config → rank config ≤ fuel →
      ∃ outcome, machine.run fuel config = some outcome := by
    intro fuel
    induction fuel with
    | zero =>
      intro config here bound
      exact absurd (positive here) (Nat.not_lt.mpr bound)
    | succ fuel ih =>
      intro config here bound
      cases steps : machine.step config with
      | inl following =>
        obtain ⟨there, less⟩ := lowers here steps
        obtain ⟨outcome, result⟩ := ih following there (by omega)
        exact ⟨outcome, by simp only [run, steps, result]⟩
      | inr outcome => exact ⟨outcome, by simp only [run, steps]⟩
  exact within _ config start (Nat.le_refl _)

/-- Whatever a later configuration halts with, the earlier one halts with. -/
theorem Leads.evaluates (leads : machine.Leads config following)
    (rest : machine.Evaluates following outcome) : machine.Evaluates config outcome := by
  induction leads using Relation.ReflTransGen.head_induction_on with
  | refl => exact rest
  | head steps _ ih => exact .next steps ih

/-- What is left of a bounded execution fits into the same bound. -/
theorem run_of_leads {fuel : Nat} (result : machine.run fuel config = some outcome)
    (leads : machine.Leads config following) :
    ∃ rest ≤ fuel, machine.run rest following = some outcome := by
  induction leads using Relation.ReflTransGen.head_induction_on generalizing fuel with
  | refl => exact ⟨fuel, Nat.le_refl _, result⟩
  | head steps _ ih =>
    cases fuel with
    | zero => cases result
    | succ fuel =>
      simp only [run, steps] at result
      obtain ⟨rest, within, later⟩ := ih result
      exact ⟨rest, Nat.le_succ_of_le within, later⟩

variable {Config' : Type u'} {Outcome' : Type v'} {target : Machine Config' Outcome'}

/-- Forward simulation: each source step is matched by target steps, and a halt
with the outcome in question by a target halt. -/
theorem Evaluates.simulate {related : Config → Config' → Prop} {matched : Outcome' → Prop}
    (onStep : ∀ config config' following, related config config' →
      machine.step config = .inl following →
      ∃ following', target.Leads config' following' ∧ related following following')
    (onHalt : ∀ config config', related config config' → machine.step config = .inr outcome →
      ∃ outcome', target.Evaluates config' outcome' ∧ matched outcome')
    (evaluates : machine.Evaluates config outcome) (start : related config config') :
    ∃ outcome', target.Evaluates config' outcome' ∧ matched outcome' := by
  induction evaluates generalizing config' with
  | halt stops => exact onHalt _ _ start stops
  | next steps _ ih =>
    obtain ⟨following', leads, next⟩ := onStep _ _ _ start steps
    obtain ⟨outcome', finished, agree⟩ := ih onHalt next
    exact ⟨outcome', leads.evaluates finished, agree⟩

/-- One or more steps without halting. -/
abbrev Moves (machine : Machine Config Outcome) : Config → Config → Prop :=
  Relation.TransGen fun config following => machine.step config = .inl following

/-- What is left of a bounded execution after some steps fits into a smaller bound. -/
theorem run_of_moves {fuel : Nat} (result : machine.run fuel config = some outcome)
    (moves : machine.Moves config following) :
    ∃ rest < fuel, machine.run rest following = some outcome := by
  obtain ⟨middle, steps, leads⟩ := Relation.TransGen.head'_iff.mp moves
  cases fuel with
  | zero => cases result
  | succ fuel =>
    simp only [run, steps] at result
    obtain ⟨rest, within, later⟩ := run_of_leads result leads
    exact ⟨rest, Nat.lt_succ_of_le within, later⟩

/-- Divergence is simulated: where each source step is matched by target steps,
and by none only if it lowers a rank, the source halts if the target does. -/
theorem Evaluates.reflect {related : Config → Config' → Prop} {rank : Config → Nat}
    {outcome' : Outcome'}
    (onStep : ∀ config config' following, related config config' →
      machine.step config = .inl following →
      ∃ following', related following following' ∧
        (target.Moves config' following' ∨ rank following < rank config ∧
          target.Leads config' following'))
    (evaluates : target.Evaluates config' outcome') (start : related config config') :
    ∃ outcome, machine.Evaluates config outcome := by
  obtain ⟨fuel, result⟩ := evaluates.exists_run
  induction fuel using Nat.strongRecOn generalizing config config' with
  | ind fuel shorter =>
    -- The target waits for the source no longer than the rank allows.
    induction waits : rank config using Nat.strongRecOn generalizing config config' with
    | ind bound lower =>
      cases steps : machine.step config with
      | inr outcome => exact ⟨outcome, .halt steps⟩
      | inl following =>
        obtain ⟨following', next, moves | ⟨less, leads⟩⟩ :=
          onStep config config' following start steps
        · obtain ⟨rest, within, later⟩ := run_of_moves result moves
          obtain ⟨outcome, finishes⟩ := shorter rest within (.of_run later) next later
          exact ⟨outcome, .next steps finishes⟩
        · obtain ⟨rest, within, later⟩ := run_of_leads result leads
          rcases Nat.lt_or_eq_of_le within with fewer | same
          · obtain ⟨outcome, finishes⟩ := shorter rest fewer (.of_run later) next later
            exact ⟨outcome, .next steps finishes⟩
          · subst same
            obtain ⟨outcome, finishes⟩ :=
              lower (rank following) (waits ▸ less) (.of_run later) next later rfl
            exact ⟨outcome, .next steps finishes⟩

end Machine

end Ocelotl.Library
