import Ocelotl.Evaluation.Interpreter
import Ocelotl.Semantic.Scoping

namespace Ocelotl.Evaluation

open Ast Semantic Library

variable {Contents : Type} {operations : Operations Contents} {choices : Choices Contents}
  {value : Value Contents} {type : TensorType} {symbols : SymbolTable} {state : State Contents}
  {expression : Expression} {name : String}

section Operators

variable {lhs rhs : Value Contents} {op : BinaryOperator}

theorem analyzeMatmul_productType {lhs rhs : TensorType} :
    analyzeMatmul lhs rhs = .ok type ↔ productType lhs rhs = some type := by
  rw [analyzeMatmul_ok]
  unfold productType
  constructor
  · intro ⟨element, rows, inner, columns, left, right, same⟩
    simp [left, right, same]
  · intro product
    split at product
    · rename_i rows inner otherInner columns left right
      obtain ⟨⟨element, dimension⟩, same⟩ := Option.ite_none_right_eq_some.mp product
      exact ⟨lhs.elementType, rows, inner, columns, TensorType.ext rfl left,
        TensorType.ext element.symm (dimension ▸ right), (Option.some.inj same).symm⟩
    · cases product

/-- A fault that an accepted program may have, or a value of this type. -/
def Yields (type : TensorType) (result : Except Fault (Value Contents)) : Prop :=
  (∃ value, result = .ok value ∧ value.type = type) ∨ result = .error .undefinedDivision

private theorem integerOperation_yields (op : BinaryOperator) (lhs rhs : BitVec 64) :
    Yields (binaryType op (.scalar "i64"))
    (integerOperation op lhs rhs : Except Fault (Value Contents)) := by
  cases op with
  | divide =>
    simp only [integerOperation]
    split
    · exact .inl ⟨_, rfl, rfl⟩
    · exact .inr rfl
  | add | subtract | multiply => exact .inl ⟨_, rfl, rfl⟩
  | equal | notEqual | less | lessEqual | greater | greaterEqual => exact .inl ⟨_, rfl, rfl⟩

private theorem floatOperation_type (op : BinaryOperator) (lhs rhs : Double) :
    (floatOperation operations op lhs rhs).type = binaryType op (.scalar "f64") := by
  cases op <;> rfl

private theorem applyBinary_yields (numeric : type.Numeric) (left : lhs.type = type)
    (right : rhs.type = type) :
    Yields (binaryType op type) (applyBinary operations op lhs rhs) := by
  rcases numeric with integer | float
  · subst integer
    obtain ⟨lhsBits, same⟩ := Value.type_eq_i64.mp left
    obtain ⟨rhsBits, same'⟩ := Value.type_eq_i64.mp right
    subst same same'
    exact integerOperation_yields op lhsBits rhsBits
  · subst float
    obtain ⟨lhsNumber, same⟩ := Value.type_eq_f64.mp left
    obtain ⟨rhsNumber, same'⟩ := Value.type_eq_f64.mp right
    subst same same'
    exact .inl ⟨_, rfl, floatOperation_type op lhsNumber rhsNumber⟩

private theorem matrices_of_productType {lhs rhs : TensorType}
    (product : productType lhs rhs = some type) : ∃ rows inner columns,
      lhs.shape = [rows, inner] ∧ rhs.shape = [inner, columns] ∧
        lhs.elementType = rhs.elementType := by
  unfold productType at product
  split at product
  · rename_i rows inner otherInner columns left right
    obtain ⟨⟨element, dimension⟩, _⟩ := Option.ite_none_right_eq_some.mp product
    subst dimension
    exact ⟨rows, inner, columns, left, right, element⟩
  · cases product

theorem applyMatmul_ok (product : productType lhs.type rhs.type = some type) :
    applyMatmul operations lhs rhs = .ok (operations.matmul lhs rhs) := by
  obtain ⟨rows, inner, columns, left, right, element⟩ := matrices_of_productType product
  unfold applyMatmul
  rw [left, right]
  exact (if_neg (not_not_intro element)).trans (if_neg (not_not_intro rfl))

private theorem applyMatmul_yields (product : productType lhs.type rhs.type = some type) :
    Yields type (applyMatmul operations lhs rhs) :=
  .inl ⟨_, applyMatmul_ok product, operations.matmul_type lhs rhs type product⟩

end Operators

/-- The typed names of a table are bound to values of their types. -/
def StoreTyped (symbols : SymbolTable) (store : Store Contents) : Prop :=
  ∀ name type, symbols.typeOf name = some type →
    ∃ value, store.lookup name = some value ∧ value.type = type

/-- The expression has a value of this type and leaves the store alone, or
divides where there is no quotient. -/
def EvaluatesTo (type : TensorType) (store : Store Contents)
    (result : EStateM.Result Fault (State Contents) (Value Contents)) : Prop :=
  (∃ value final, result = .ok value final ∧ value.type = type ∧ final.store = store) ∨
    ∃ final, result = .error .undefinedDivision final

theorem EvaluatesTo.ofExcept {check : Except Fault (Value Contents)} (yields : Yields type check)
    (state : State Contents) :
    EvaluatesTo type state.store
      ((ofExcept check : Evaluating Contents (Value Contents)) state) := by
  rcases yields with ⟨value, same, typed⟩ | same
  · subst same
    exact .inl ⟨value, state, rfl, typed, rfl⟩
  · subst same
    exact .inr ⟨state, rfl⟩

/-- An operand is evaluated before the rest. -/
theorem EvaluatesTo.bind {operandType : TensorType} {first : Evaluating Contents (Value Contents)}
    {rest : Value Contents → Evaluating Contents (Value Contents)}
    (operand : EvaluatesTo operandType state.store (first state))
    (after : ∀ value middle, value.type = operandType → middle.store = state.store →
      EvaluatesTo type middle.store (rest value middle)) :
    EvaluatesTo type state.store ((first >>= rest) state) := by
  rcases operand with ⟨value, middle, success, typed, same⟩ | ⟨final, failure⟩
  · rw [bind_of_ok success, ← same]
    exact after value middle typed same
  · exact .inr ⟨final, bind_of_error failure⟩

theorem evaluateExpression_sound (stored : StoreTyped symbols state.store)
    (analyzed : analyzeExpression symbols expression = .ok type) :
    EvaluatesTo type state.store (evaluateExpression choices expression state) := by
  induction expression generalizing state type with
  | identifier name location =>
    rw [analyzeExpression, analyzeIdentifier_ok] at analyzed
    obtain ⟨value, found, typed⟩ := stored name type analyzed
    rw [evaluateExpression, evaluateIdentifier, bind_of_ok (get_apply state), found]
    exact .inl ⟨value, state, rfl, typed, rfl⟩
  | integer value location =>
    rw [evaluateExpression]
    exact .inl ⟨_, state, rfl, Except.ok.inj analyzed, rfl⟩
  | float value location =>
    rw [evaluateExpression]
    exact .inl ⟨_, state, rfl, Except.ok.inj analyzed, rfl⟩
  | call callee arguments location ih =>
    rcases analyzeExpression_call_ok.mp analyzed with
      ⟨argument, isRelu, only, typed⟩ |
      ⟨lhsExpression, rhsExpression, lhsType, rhsType, isMatmul, both, left, right, typed⟩
    · subst isRelu only
      rw [evaluateExpression.eq_def]
      apply EvaluatesTo.bind (ih argument List.mem_cons_self stored typed)
      intro input middle inputTyped _
      exact .inl ⟨_, middle.tick, rfl, ((choices.operations _).relu_type input).trans inputTyped,
        rfl⟩
    · subst isMatmul both
      rw [evaluateExpression.eq_def]
      apply EvaluatesTo.bind (ih lhsExpression List.mem_cons_self stored left)
      intro lhsValue middle lhsTyped same
      apply EvaluatesTo.bind (ih rhsExpression (by simp) (same ▸ stored) right)
      intro rhsValue later rhsTyped _
      have product := analyzeMatmul_productType.mp typed
      rw [← lhsTyped, ← rhsTyped] at product
      exact .ofExcept (applyMatmul_yields product) later.tick
  | nullCall => cases analyzed
  | nullBinary => cases analyzed
  | binary op lhsExpression rhsExpression location lhsIH rhsIH =>
    obtain ⟨operand, left, right, numeric, same⟩ := analyzeExpression_binary_ok.mp analyzed
    subst same
    rw [evaluateExpression]
    apply EvaluatesTo.bind (lhsIH stored left)
    intro lhsValue middle lhsTyped same
    apply EvaluatesTo.bind (rhsIH (same ▸ stored) right)
    intro rhsValue later rhsTyped _
    exact .ofExcept (applyBinary_yields numeric lhsTyped rhsTyped) later.tick

theorem EvaluatesTo.store {middle : State Contents}
    (evaluated : EvaluatesTo type state.store (evaluateExpression choices expression state))
    (success : evaluateExpression choices expression state = .ok value middle) :
    value.type = type ∧ middle.store = state.store := by
  rcases evaluated with ⟨_, _, same, typed, stored⟩ | ⟨_, failure⟩
  · cases success.symm.trans same
    exact ⟨typed, stored⟩
  · cases success.symm.trans failure

variable {order : TraversalOrder} {analyzer analyzer' : SemanticAnalyzer} {statement : Statement}
  {statements : List Statement}

theorem StoreTyped.mono {store : Store Contents} {later : SymbolTable}
    (stored : StoreTyped symbols store)
    (known : ∀ {name type}, later.typeOf name = some type → symbols.typeOf name = some type) :
    StoreTyped later store :=
  fun name type found => stored name type (known found)

/-- A name is introduced or overwritten with a value of its type. -/
theorem StoreTyped.bind {store : Store Contents} {later : SymbolTable}
    (stored : StoreTyped symbols store) (typed : value.type = type)
    (known : ∀ {other otherType}, later.typeOf other = some otherType →
      other = name ∧ otherType = type ∨ other ≠ name ∧ symbols.typeOf other = some otherType) :
    StoreTyped later (store.insert name value) := by
  intro other otherType found
  rw [UnorderedMap.lookup_insert_eq]
  rcases known found with ⟨here, same⟩ | ⟨different, earlier⟩
  · rw [if_pos here]
    exact ⟨value, rfl, typed.trans same.symm⟩
  · rw [if_neg different]
    exact stored other otherType earlier

/-- A statement leaves a typed store, returns an `i64`, or divides where there
is no quotient. -/
def Sound (after : SymbolTable) :
    EStateM.Result Fault (State Contents) (Completion Contents) → Prop
  | .ok .continues final => StoreTyped after final.store
  | .ok (.returned value) _ => value.type = .scalar "i64"
  | .error fault _ => fault = .undefinedDivision

/-- An expression is evaluated before the rest of a statement. -/
theorem Sound.bind {first : Evaluating Contents (Value Contents)}
    {rest : Value Contents → Evaluating Contents (Completion Contents)}
    (evaluated : EvaluatesTo type state.store (first state))
    (after : ∀ value middle, value.type = type → middle.store = state.store →
      Sound symbols (rest value middle)) : Sound symbols ((first >>= rest) state) := by
  rcases evaluated with ⟨value, middle, success, typed, same⟩ | ⟨final, failure⟩
  · rw [bind_of_ok success]
    exact after value middle typed same
  · rw [bind_of_error failure]
    rfl

theorem Sound.mono {later : SymbolTable}
    {result : EStateM.Result Fault (State Contents) (Completion Contents)}
    (sound : Sound symbols result)
    (known : ∀ {name type}, later.typeOf name = some type → symbols.typeOf name = some type) :
    Sound later result := by
  cases result with
  | ok completion final =>
    cases completion with
    | continues => exact StoreTyped.mono sound known
    | returned value => exact sound
  | error fault final => exact sound

private theorem evaluateStatements_sound_of
    (each : ∀ statement ∈ statements, ∀ {state analyzer analyzer'},
      StoreTyped analyzer.symbols state.store →
      analyzeStatement order statement analyzer = .ok () analyzer' →
      Sound analyzer'.symbols (evaluateStatement choices statement state))
    (stored : StoreTyped analyzer.symbols state.store)
    (analyzed : analyzeStatements order statements analyzer = .ok () analyzer') :
    Sound analyzer'.symbols (evaluateStatements choices statements state) := by
  induction statements generalizing analyzer state with
  | nil =>
    cases analyzed
    exact stored
  | cons statement statements ih =>
    obtain ⟨middle, first, rest⟩ := analyzeStatements_cons_ok.mp analyzed
    have sound := each statement List.mem_cons_self stored first
    rw [evaluateStatements]
    cases result : evaluateStatement choices statement state with
    | ok completion between =>
      rw [result] at sound
      rw [bind_of_ok result]
      cases completion with
      | continues =>
        exact ih (fun other member => each other (List.mem_cons_of_mem _ member)) sound rest
      | returned value => exact sound
    | error fault between =>
      rw [result] at sound
      rw [bind_of_error result]
      exact sound

theorem chooseBranch_i1 (state : State Contents) (truth : Bool) :
    chooseBranch choices (.i1 truth) state = .ok (choices.branch state.moment truth) state.tick :=
  rfl

/-- The branch that a conditional chooses is sound for what is typed after both. -/
theorem chooseBranch_sound {truth : Bool}
    {thenBranch elseBranch : Evaluating Contents (Completion Contents)}
    (thenSound : Sound symbols (thenBranch state.tick))
    (elseSound : Sound symbols (elseBranch state.tick)) :
    Sound symbols ((do if ← chooseBranch choices (.i1 truth) then thenBranch else elseBranch)
      state) := by
  rw [bind_of_ok (chooseBranch_i1 state truth)]
  split
  · exact thenSound
  · exact elseSound

theorem evaluateStatement_sound (stored : StoreTyped analyzer.symbols state.store)
    (analyzed : analyzeStatement order statement analyzer = .ok () analyzer') :
    Sound analyzer'.symbols (evaluateStatement choices statement state) := by
  induction statement generalizing analyzer analyzer' state with
  | tensorDecl declaration =>
    rw [analyzeStatement] at analyzed
    rw [evaluateStatement]
    exact stored.bind ((choices.operations _).tensor_type _ _)
      (analyzeTensorDeclaration_known analyzed)
  | assignment assignment =>
    rw [analyzeStatement] at analyzed
    obtain ⟨type, typed, known⟩ := analyzeAssignment_known analyzed
    rw [evaluateStatement]
    apply Sound.bind (evaluateExpression_sound stored typed)
    intro value middle valueTyped same
    exact StoreTyped.bind (same ▸ stored) valueTyped known
  | returnStmt returnStatement =>
    rw [analyzeStatement] at analyzed
    rw [evaluateStatement]
    apply Sound.bind (evaluateExpression_sound stored (analyzeReturn_ok.mp analyzed).1)
    intro value middle valueTyped _
    exact valueTyped
  | ifStmt condition thenStatements elseStatements location thenIH elseIH =>
    obtain ⟨thenAnalyzer, elseAnalyzer, typed, thenAnalyzed, elseAnalyzed, merged⟩ :=
      analyzeStatement_if_ok.mp analyzed
    rw [evaluateStatement]
    apply Sound.bind (evaluateExpression_sound stored typed)
    intro value middle valueTyped same
    obtain ⟨truth, isTruth⟩ := Value.type_eq_i1.mp valueTyped
    subst isTruth
    have stored : StoreTyped analyzer.symbols middle.tick.store := same ▸ stored
    apply chooseBranch_sound
    · apply (evaluateStatements_sound_of thenIH stored thenAnalyzed).mono
      intro name type known
      exact (analyzeStatement_if_branches thenAnalyzed elseAnalyzed merged known).1
    · apply (evaluateStatements_sound_of elseIH (by exact stored) elseAnalyzed).mono
      intro name type known
      exact (analyzeStatement_if_branches thenAnalyzed elseAnalyzed merged known).2
  | nullIf =>
    rw [analyzeStatement] at analyzed
    cases analyzed

theorem evaluateStatements_sound (stored : StoreTyped analyzer.symbols state.store)
    (analyzed : analyzeStatements order statements analyzer = .ok () analyzer') :
    Sound analyzer'.symbols (evaluateStatements choices statements state) :=
  evaluateStatements_sound_of (fun _ _ => evaluateStatement_sound) stored analyzed

end Ocelotl.Evaluation
