import Ocelotl.Library.Parsing

namespace Ocelotl.Library

variable {ε ε' σ σ' α α' β β' : Type} {onState : σ → σ'} {onError : ε → ε'} {onValue : α → α'}
  {onResult : β → β'}

/-- The image of a result, of the error or of the value with the state. -/
def imageOf (onState : σ → σ') (onError : ε → ε') (onValue : α → α') :
    EStateM.Result ε σ α → EStateM.Result ε' σ' α'
  | .ok value final => .ok (onValue value) (onState final)
  | .error error final => .error (onError error) (onState final)

/-- The second computation does on the images what the first does. -/
def Commutes (onState : σ → σ') (onError : ε → ε') (onValue : α → α') (run : EStateM ε σ α)
    (run' : EStateM ε' σ' α') : Prop :=
  ∀ state, run' (onState state) = imageOf onState onError onValue (run state)

namespace Commutes

variable {run : EStateM ε σ α} {run' : EStateM ε' σ' α'} {next : α → EStateM ε σ β}
  {next' : α' → EStateM ε' σ' β'}

theorem pure {value : α} :
    Commutes onState onError onValue (Pure.pure value) (Pure.pure (onValue value)) :=
  fun _ => rfl

theorem throw {error : ε} :
    Commutes onState onError onValue (MonadExcept.throw error)
      (MonadExcept.throw (onError error)) := fun _ => rfl

theorem bind (first : Commutes onState onError onValue run run')
    (rest : ∀ value, Commutes onState onError onResult (next value) (next' (onValue value))) :
    Commutes onState onError onResult (run >>= next) (run' >>= next') := by
  intro state
  have image := first state
  cases result : run state with
  | ok value middle =>
    rw [result] at image
    rw [bind_of_ok result, bind_of_ok image]
    exact rest value middle
  | error error final =>
    rw [result] at image
    rw [bind_of_error result, bind_of_error image]
    rfl

theorem ite {condition : Prop} [Decidable condition] {other : EStateM ε σ α}
    {other' : EStateM ε' σ' α'} (holds : condition → Commutes onState onError onValue run run')
    (fails : ¬ condition → Commutes onState onError onValue other other') :
    Commutes onState onError onValue (if condition then run else other) (if condition then run'
      else other') := by
  by_cases decided : condition
  · rw [if_pos decided, if_pos decided]
    exact holds decided
  · rw [if_neg decided, if_neg decided]
    exact fails decided

/-- A loop commutes when its condition and its body do. -/
theorem repeatWhile {givenUp : ε} {condition : EStateM ε σ Bool} {condition' : EStateM ε' σ' Bool}
    {body : α → EStateM ε σ α} {body' : α' → EStateM ε' σ' α'}
    (tests : Commutes onState onError id condition condition')
    (steps : ∀ value, Commutes onState onError onValue (body value) (body' (onValue value)))
    (bound : Nat) (value : α) :
    Commutes onState onError onValue (Library.repeatWhile givenUp condition body bound value)
      (Library.repeatWhile (onError givenUp) condition' body' bound (onValue value)) := by
  induction bound generalizing value with
  | zero => exact throw
  | succ bound ih =>
    apply tests.bind
    intro goesOn
    cases goesOn with
    | false => exact pure
    | true => exact (steps value).bind ih

/-- Runs that commute end alike. -/
theorem outcome (commutes : Commutes onState onError onValue run run') (state : σ) :
    Library.outcome run' (onState state) =
      ((Library.outcome run state).map onValue).mapError onError := by
  unfold Library.outcome
  rw [commutes state]
  cases run state <;> rfl

end Commutes

end Ocelotl.Library
