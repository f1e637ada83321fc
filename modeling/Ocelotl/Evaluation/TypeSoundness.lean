import Ocelotl.Evaluation.Soundness

namespace Ocelotl.Evaluation

open Ast Semantic Library

/-- The statement is evaluated in this state while the statements of the list
are, and analysed from this analyser state in the same place. -/
inductive Reached (order : TraversalOrder) (choices : Choices Contents) (target : Statement)
    (targetAnalyzer : SemanticAnalyzer) (targetState : State Contents) :
    List Statement → SemanticAnalyzer → State Contents → Prop where
  | here : Reached order choices target targetAnalyzer targetState
      (target :: statements) targetAnalyzer targetState
  | later (analyzed : analyzeStatement order statement analyzer = .ok () analyzer')
    (evaluated : evaluateStatement choices statement state = .ok .continues state')
    (rest : Reached order choices target targetAnalyzer targetState statements analyzer' state') :
    Reached order choices target targetAnalyzer targetState
      (statement :: statements) analyzer state
  | thenBranch (evaluated : evaluateExpression choices condition state = .ok value tested)
    (chosen : chooseBranch choices value tested = .ok true started)
    (inside : Reached order choices target targetAnalyzer targetState
      thenStatements analyzer started) :
    Reached order choices target targetAnalyzer targetState
      (.ifStmt condition thenStatements elseStatements location :: statements) analyzer state
  | elseBranch (analyzed : analyzeStatements order thenStatements analyzer = .ok () thenAnalyzer)
    (evaluated : evaluateExpression choices condition state = .ok value tested)
    (chosen : chooseBranch choices value tested = .ok false started)
    (inside : Reached order choices target targetAnalyzer targetState
      elseStatements { thenAnalyzer with symbols := analyzer.symbols } started) :
    Reached order choices target targetAnalyzer targetState
      (.ifStmt condition thenStatements elseStatements location :: statements) analyzer state

/-- The expression is evaluated in this state while the whole expression is. -/
inductive ExpressionReached (choices : Choices Contents) (target : Expression)
    (targetState : State Contents) : Expression → State Contents → Prop where
  | here : ExpressionReached choices target targetState target targetState
  | lhs (inside : ExpressionReached choices target targetState lhs state) :
    ExpressionReached choices target targetState (.binary op lhs rhs location) state
  | rhs (first : evaluateExpression choices lhs state = .ok value middle)
    (inside : ExpressionReached choices target targetState rhs middle) :
    ExpressionReached choices target targetState (.binary op lhs rhs location) state
  | reluArgument (inside : ExpressionReached choices target targetState argument state) :
    ExpressionReached choices target targetState (.call "relu" [argument] location) state
  | matmulLhs (inside : ExpressionReached choices target targetState lhs state) :
    ExpressionReached choices target targetState (.call "matmul" [lhs, rhs] location) state
  | matmulRhs (first : evaluateExpression choices lhs state = .ok value middle)
    (inside : ExpressionReached choices target targetState rhs middle) :
    ExpressionReached choices target targetState (.call "matmul" [lhs, rhs] location) state

variable {Contents : Type} {choices : Choices Contents} {value : Value Contents} {type : TensorType}
  {symbols : SymbolTable} {state : State Contents} {expression : Expression}
  {order : TraversalOrder} {analyzer analyzer' : SemanticAnalyzer} {statements : List Statement}
  {target : Statement} {targetAnalyzer : SemanticAnalyzer} {targetState : State Contents}
  {root : Expression}

/-- Every evaluated expression is analysed with the table of its statement. -/
theorem ExpressionReached.sound (stored : StoreTyped symbols state.store)
    (analyzed : analyzeExpression symbols root = .ok type)
    (reached : ExpressionReached choices expression targetState root state) :
    ∃ type, analyzeExpression symbols expression = .ok type ∧
      EvaluatesTo type targetState.store (evaluateExpression choices expression targetState) := by
  induction reached generalizing type with
  | here => exact ⟨type, analyzed, evaluateExpression_sound stored analyzed⟩
  | lhs inside ih =>
    obtain ⟨_, left, _⟩ := analyzeExpression_binary_ok.mp analyzed
    exact ih stored left
  | rhs first inside ih =>
    obtain ⟨_, left, right, _⟩ := analyzeExpression_binary_ok.mp analyzed
    have same := ((evaluateExpression_sound stored left).store first).2
    exact ih (same ▸ stored) right
  | reluArgument inside ih =>
    rcases analyzeExpression_call_ok.mp analyzed with ⟨_, _, same, typed⟩ | ⟨_, _, _, _, _, same, _⟩
    · cases same
      exact ih stored typed
    · cases same
  | matmulLhs inside ih =>
    rcases analyzeExpression_call_ok.mp analyzed with
      ⟨_, _, same, _⟩ | ⟨_, _, _, _, _, same, left, _⟩
    · cases same
    · cases same
      exact ih stored left
  | matmulRhs first inside ih =>
    rcases analyzeExpression_call_ok.mp analyzed with
      ⟨_, _, same, _⟩ | ⟨_, _, _, _, _, same, left, right, _⟩
    · cases same
    · cases same
      have same := ((evaluateExpression_sound stored left).store first).2
      exact ih (same ▸ stored) right

/-- The condition of an accepted conditional is a truth value. -/
theorem chooseBranch_store {truth : Bool} {tested started : State Contents}
    (chosen : chooseBranch choices value tested = .ok truth started) :
    started.store = tested.store := by
  cases value with
  | i1 _ =>
    cases chosen
    rfl
  | i64 _ | f64 _ | tensor _ _ _ => cases chosen

/-- Wherever a statement is reached, the store is typed and the statement was accepted. -/
theorem Reached.accepted (stored : StoreTyped analyzer.symbols state.store)
    (analyzed : analyzeStatements order statements analyzer = .ok () analyzer')
    (reached : Reached order choices target targetAnalyzer targetState statements analyzer state) :
    StoreTyped targetAnalyzer.symbols targetState.store ∧
      ∃ after, analyzeStatement order target targetAnalyzer = .ok () after := by
  induction reached generalizing analyzer' with
  | here =>
    obtain ⟨between, first, _⟩ := analyzeStatements_cons_ok.mp analyzed
    exact ⟨stored, between, first⟩
  | later firstAnalyzed evaluated rest ih =>
    obtain ⟨between, first, restAnalyzed⟩ := analyzeStatements_cons_ok.mp analyzed
    cases firstAnalyzed.symm.trans first
    have sound : Sound _ (evaluateStatement choices _ _) := evaluateStatement_sound stored first
    rw [evaluated] at sound
    exact ih sound restAnalyzed
  | thenBranch evaluated chosen inside ih =>
    obtain ⟨between, here, _⟩ := analyzeStatements_cons_ok.mp analyzed
    obtain ⟨thenAnalyzer, _, typed, thenAnalyzed, _⟩ := analyzeStatement_if_ok.mp here
    have same := ((evaluateExpression_sound stored typed).store evaluated).2
    have same := (chooseBranch_store chosen).trans same
    exact ih (same ▸ stored) thenAnalyzed
  | elseBranch thenAnalyzed evaluated chosen inside ih =>
    obtain ⟨between, here, _⟩ := analyzeStatements_cons_ok.mp analyzed
    obtain ⟨thenAnalyzer, elseAnalyzer, typed, thenAnalyzed', elseAnalyzed, _⟩ :=
      analyzeStatement_if_ok.mp here
    cases thenAnalyzed.symm.trans thenAnalyzed'
    have same := ((evaluateExpression_sound stored typed).store evaluated).2
    have same := (chooseBranch_store chosen).trans same
    exact ih (by exact same ▸ stored) elseAnalyzed

/-- The names that the analyser types here are bound to values of their types,
and every expression evaluated here has a value of the type it was analysed
with, unless it divides where there is no quotient. -/
structure TypeSound (choices : Choices Contents) (statement : Statement)
    (analyzer : SemanticAnalyzer) (state : State Contents) : Prop where
  names : ∀ name type, analyzer.symbols.typeOf name = some type →
    ∃ value, state.store.lookup name = some value ∧ value.type = type
  expressions : ∀ root expression before, startingExpression statement = some root →
    ExpressionReached choices expression before root state →
      ∃ type, analyzeExpression analyzer.symbols expression = .ok type ∧
        ((∃ value after, evaluateExpression choices expression before = .ok value after ∧
          value.type = type) ∨
        ∃ after, evaluateExpression choices expression before = .error .undefinedDivision after)

variable {program : Program} {accepted : SemanticAnalyzer}

theorem Reached.typeSound (analyzed : analyze order program = .ok accepted)
    (reached : Reached order choices target targetAnalyzer targetState program.statements {} {}) :
    TypeSound choices target targetAnalyzer targetState := by
  have stored : StoreTyped ({} : SemanticAnalyzer).symbols ({} : State Contents).store :=
    fun name type known => by simp at known
  obtain ⟨typed, after, success⟩ := reached.accepted stored (analyze_ok.mp analyzed)
  refine ⟨typed, fun root expression before starts inside => ?_⟩
  obtain ⟨_, whole⟩ := analyzeStatement_starts success starts
  obtain ⟨type, part, evaluated⟩ := inside.sound typed whole
  refine ⟨type, part, evaluated.imp_left ?_⟩
  intro ⟨value, final, success, valueTyped, _⟩
  exact ⟨value, final, success, valueTyped⟩

/-- Programs may return an `i64`, fall off their end, or divide where there is
no quotient. -/
def EndsSafely (result : EStateM.Result Fault (State Contents) (Completion Contents)) : Prop :=
  (∃ bits final, result = .ok (.returned (.i64 bits)) final) ∨
    (∃ final, result = .ok .continues final) ∨
    ∃ final, result = .error .undefinedDivision final

/-- Accepted programs end safely, and are type sound at every statement that
their evaluation reaches. -/
theorem analyze_typeSound (analyzed : analyze order program = .ok accepted)
    (choices : Choices Contents) :
    EndsSafely (evaluate choices program) ∧
    ∀ target targetAnalyzer targetState,
      Reached order choices target targetAnalyzer targetState program.statements {} {} →
        TypeSound choices target targetAnalyzer targetState := by
  refine ⟨?_, fun _ _ _ reached => reached.typeSound analyzed⟩
  have sound : Sound accepted.symbols (evaluate choices program) :=
    evaluateStatements_sound (fun name type known => by simp at known) (analyze_ok.mp analyzed)
  cases result : evaluate choices program with
  | ok completion final =>
    rw [result] at sound
    cases completion with
    | continues => exact .inr (.inl ⟨final, rfl⟩)
    | returned value =>
      obtain ⟨bits, same⟩ := Value.type_eq_i64.mp sound
      exact .inl ⟨bits, final, same ▸ rfl⟩
  | error fault final =>
    rw [result] at sound
    exact .inr (.inr ⟨final, sound ▸ rfl⟩)

/-- A name that one branch returns before, and both branches bind. -/
def branchBinding : Program where
  statements := [
    .tensorDecl ⟨"A", ⟨"f32", [2, 3]⟩, {}⟩,
    .assignment ⟨"X", .integer 7 {}, {}⟩,
    .ifStmt (.binary .greater (.identifier "X" {}) (.integer 3 {}) {})
      [.assignment ⟨"Y", .binary .divide (.integer 21 {}) (.identifier "X" {}) {}, {}⟩]
      [.returnStmt ⟨.identifier "X" {}, {}⟩, .assignment ⟨"Y", .integer 0 {}, {}⟩] {},
    .returnStmt ⟨.identifier "Y" {}, {}⟩]

/-- It is type sound inside the conditional, and where the program returns after it. -/
theorem analyze_typeSound_branchBinding : ∃ accepted,
    analyze .stored branchBinding = .ok accepted ∧
      EndsSafely (evaluate (Operations.fixed : Operations Unit).always branchBinding) ∧
      (∃ analyzer state, TypeSound (Operations.fixed : Operations Unit).always
          (.assignment ⟨"Y", .binary .divide (.integer 21 {}) (.identifier "X" {}) {}, {}⟩)
          analyzer state ∧ state.store.lookup "X" = some (.i64 7)) ∧
      ∃ analyzer state, TypeSound (Operations.fixed : Operations Unit).always
          (.returnStmt ⟨.identifier "Y" {}, {}⟩) analyzer state ∧
        state.store.lookup "Y" = some (.i64 3) := by
  obtain ⟨accepted, analyzed⟩ := Option.isSome_iff_exists.mp
    (show (analyze .stored branchBinding).toOption.isSome = true by decide +kernel)
  have analyzed := toOption_eq_some.mp analyzed
  obtain ⟨endsSafely, reached⟩ :=
    analyze_typeSound analyzed (Operations.fixed : Operations Unit).always
  exact ⟨accepted, analyzed, endsSafely,
    ⟨_, _, reached _ _ _ (.later rfl rfl (.later rfl rfl (.thenBranch rfl rfl .here))), rfl⟩,
    _, _, reached _ _ _ (.later rfl rfl (.later rfl rfl (.later rfl rfl .here))), rfl⟩

end Ocelotl.Evaluation
