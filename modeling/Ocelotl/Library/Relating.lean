import Ocelotl.Library.Throwing

namespace Ocelotl.Library

variable {ε ε' σ σ' α α' β β' : Type} {onState : σ → σ' → Prop} {onError : ε → ε' → Prop}
  {onValue : α → α' → Prop} {onResult : β → β' → Prop}

/-- Both are values in states that correspond, or both are exceptions. -/
inductive RelatesResult (onState : σ → σ' → Prop) (onError : ε → ε' → Prop)
    (onValue : α → α' → Prop) :
    EStateM.Result ε σ α → EStateM.Result ε' σ' α' → Prop where
  | ok {value : α} {value' : α'} {final : σ} {final' : σ'} (values : onValue value value')
    (states : onState final final') :
      RelatesResult onState onError onValue (.ok value final) (.ok value' final')
  | error {error : ε} {error' : ε'} {final : σ} {final' : σ'} (errors : onError error error') :
    RelatesResult onState onError onValue (.error error final) (.error error' final')

/-- From states that correspond, the second computation does what the first does. -/
def Relates (onState : σ → σ' → Prop) (onError : ε → ε' → Prop) (onValue : α → α' → Prop)
    (run : EStateM ε σ α) (run' : EStateM ε' σ' α') : Prop :=
  ∀ state state', onState state state' →
    RelatesResult onState onError onValue (run state) (run' state')

namespace Relates

variable {run : EStateM ε σ α} {run' : EStateM ε' σ' α'} {next : α → EStateM ε σ β}
  {next' : α' → EStateM ε' σ' β'}

theorem pure {value : α} {value' : α'} (values : onValue value value') :
    Relates onState onError onValue (Pure.pure value) (Pure.pure value') :=
  fun _ _ states => .ok values states

theorem throw {error : ε} {error' : ε'} (errors : onError error error') :
    Relates onState onError onValue (MonadExcept.throw error) (MonadExcept.throw error') :=
  fun _ _ _ => .error errors

theorem get : Relates onState onError onState MonadState.get MonadState.get :=
  fun _ _ states => .ok states states

theorem modify {update : σ → σ} {update' : σ' → σ'}
    (states : ∀ {state state'}, onState state state' → onState (update state) (update' state')) :
    Relates onState onError Eq (modify update) (modify update') :=
  fun _ _ related => .ok rfl (states related)

theorem modifyGet {update : σ → α × σ} {update' : σ' → α' × σ'}
    (values : ∀ {state state'}, onState state state' → onValue (update state).1 (update' state').1)
    (states : ∀ {state state'}, onState state state' →
      onState (update state).2 (update' state').2) :
    Relates onState onError onValue (MonadState.modifyGet update) (MonadState.modifyGet update') :=
  fun _ _ related => .ok (values related) (states related)

theorem bind (first : Relates onState onError onValue run run')
    (rest : ∀ value value', onValue value value' →
      Relates onState onError onResult (next value) (next' value')) :
    Relates onState onError onResult (run >>= next) (run' >>= next') := by
  intro state state' states
  have results := first state state' states
  cases result : run state with
  | ok value middle =>
    cases result' : run' state' with
    | ok value' middle' =>
      rw [result, result'] at results
      cases results with
      | ok values states =>
        rw [bind_of_ok result, bind_of_ok result']
        exact rest value value' values middle middle' states
    | error error' final' =>
      rw [result, result'] at results
      cases results
  | error error final =>
    cases result' : run' state' with
    | ok value' middle' =>
      rw [result, result'] at results
      cases results
    | error error' final' =>
      rw [result, result'] at results
      cases results with
      | error errors =>
        rw [bind_of_error result, bind_of_error result']
        exact .error errors

end Relates

end Ocelotl.Library
