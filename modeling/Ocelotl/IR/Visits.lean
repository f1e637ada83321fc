import Ocelotl.IR.Agreement

namespace Ocelotl.IR

open Ast Semantic Library IRGenerator

/-- The statement is generated from this state while the statements of the
list are, and analysed from this analyser state in the same place. Only
statements visited with an active block count. -/
inductive Visit (analysisOrder order : TraversalOrder) (symbols : SymbolTable)
    (target : Statement) (targetAnalyzer : SemanticAnalyzer) (targetGenerator : IRGenerator) :
    List Statement → SemanticAnalyzer → IRGenerator → Prop where
  | here (active : targetGenerator.currentBlockId ≠ none) :
    Visit analysisOrder order symbols target targetAnalyzer targetGenerator
      (target :: statements) targetAnalyzer targetGenerator
  | later (active : generator.currentBlockId ≠ none)
    (analyzed : analyzeStatement analysisOrder statement analyzer = .ok () analyzer')
    (generated : generateStatement order symbols statement generator = .ok () generator')
    (rest : Visit analysisOrder order symbols target targetAnalyzer targetGenerator
      statements analyzer' generator') :
    Visit analysisOrder order symbols target targetAnalyzer targetGenerator
      (statement :: statements) analyzer generator
  | thenBranch (active : generator.currentBlockId ≠ none)
    (first : generateExpression condition generator = .ok info tested)
    (opened : openBranches info tested = .ok (thenBlock, elseBlock) forked)
    (inside : Visit analysisOrder order symbols target targetAnalyzer targetGenerator
      thenStatements analyzer (forked.enter (some thenBlock) tested.values)) :
    Visit analysisOrder order symbols target targetAnalyzer targetGenerator
      (.ifStmt condition thenStatements elseStatements location :: statements) analyzer generator
  | elseBranch (active : generator.currentBlockId ≠ none)
    (first : generateExpression condition generator = .ok info tested)
    (opened : openBranches info tested = .ok (thenBlock, elseBlock) forked)
    (analyzed : analyzeStatements analysisOrder thenStatements analyzer = .ok () thenAnalyzer)
    (generated : generateBranch order symbols thenStatements
      (forked.enter (some thenBlock) tested.values) = .ok () thenGenerator)
    (inside : Visit analysisOrder order symbols target targetAnalyzer targetGenerator
      elseStatements { thenAnalyzer with symbols := analyzer.symbols }
      (thenGenerator.enter (some elseBlock) tested.values)) :
    Visit analysisOrder order symbols target targetAnalyzer targetGenerator
      (.ifStmt condition thenStatements elseStatements location :: statements) analyzer generator

/-- The expression is generated from this state while the whole expression is. -/
inductive ExpressionVisit (target : Expression) (targetGenerator : IRGenerator) :
    Expression → IRGenerator → Prop where
  | here : ExpressionVisit target targetGenerator target targetGenerator
  | lhs (inside : ExpressionVisit target targetGenerator lhs generator) :
    ExpressionVisit target targetGenerator (.binary op lhs rhs location) generator
  | rhs (first : generateExpression lhs generator = .ok info middle)
    (inside : ExpressionVisit target targetGenerator rhs middle) :
    ExpressionVisit target targetGenerator (.binary op lhs rhs location) generator
  | reluArgument (inside : ExpressionVisit target targetGenerator argument generator) :
    ExpressionVisit target targetGenerator (.call "relu" [argument] location) generator
  | matmulLhs (inside : ExpressionVisit target targetGenerator lhs generator) :
    ExpressionVisit target targetGenerator (.call "matmul" [lhs, rhs] location) generator
  | matmulRhs (first : generateExpression lhs generator = .ok info middle)
    (inside : ExpressionVisit target targetGenerator rhs middle) :
    ExpressionVisit target targetGenerator (.call "matmul" [lhs, rhs] location) generator

/-- Tensors are declared by the statements of the program itself, not inside branches. -/
def DeclaresAtTopLevel (program : Program) : Prop :=
  ∀ condition thenStatements elseStatements location,
    .ifStmt condition thenStatements elseStatements location ∈ program.statements →
      declarationsIn thenStatements = [] ∧ declarationsIn elseStatements = []

variable {tensors : Prop} {generator targetGenerator : IRGenerator} {block : BlockId}
  {analysisOrder order : TraversalOrder} {symbols declared : SymbolTable} {type : TensorType}
  {statement target : Statement} {statements : List Statement} {program : Program}
  {analyzer analyzer' targetAnalyzer accepted : SemanticAnalyzer} {root expression : Expression}

/-- What the two sides share wherever a statement is visited. -/
structure Meets (tensors : Prop) (analysisOrder : TraversalOrder) (declared : SymbolTable)
    (statement : Statement) (analyzer : SemanticAnalyzer) (generator : IRGenerator) : Prop where
  valid : ∃ block, Valid generator block
  agrees : Agrees tensors analyzer.symbols generator.values
  faithful : Faithful tensors declared (declarationsOf statement)
  analyzed : ∃ analyzer', analyzeStatement analysisOrder statement analyzer = .ok () analyzer'

theorem Visit.active (visit : Visit analysisOrder order declared target targetAnalyzer
    targetGenerator statements analyzer generator) : generator.currentBlockId ≠ none := by
  cases visit <;> assumption

section Branches

variable {condition : Expression} {info : ValueInfo} {tested forked thenGenerator : IRGenerator}
  {thenBlock elseBlock : BlockId} {thenStatements : List Statement}

/-- The then-branch starts in an open block, with the environment before the conditional. -/
theorem openBranches_thenValid (valid : Valid generator block)
    (first : generateExpression condition generator = .ok info tested)
    (opened : openBranches info tested = .ok (thenBlock, elseBlock) forked) :
    Valid (forked.enter (some thenBlock) tested.values) thenBlock ∧
      tested.values = generator.values := by
  have computed := generateExpression_valid valid first
  obtain ⟨_, typed, current, same, rfl⟩ := openBranches_ok.mp opened
  cases same
  cases current.symm.trans computed.valid.current
  have fork := computed.valid.built.fork computed.valid.isOpen (typed ▸ computed.available)
  exact ⟨fork.thenValid computed.valid, computed.values⟩

/-- The else-branch does so after the then-branch. -/
theorem openBranches_elseValid (valid : Valid generator block)
    (first : generateExpression condition generator = .ok info tested)
    (opened : openBranches info tested = .ok (thenBlock, elseBlock) forked)
    (generated : generateBranch order symbols thenStatements
      (forked.enter (some thenBlock) tested.values) = .ok () thenGenerator) :
    Valid (thenGenerator.enter (some elseBlock) tested.values) elseBlock ∧
      tested.values = generator.values := by
  have computed := generateExpression_valid valid first
  obtain ⟨_, typed, current, same, rfl⟩ := openBranches_ok.mp opened
  cases same
  cases current.symm.trans computed.valid.current
  have fork := computed.valid.built.fork computed.valid.isOpen (typed ▸ computed.available)
  have thenBranch := generateBranch_valid (fork.thenValid computed.valid) generated
  exact ⟨fork.elseValid computed.valid thenBranch, computed.values⟩

end Branches

/-- The generator is valid wherever a statement is visited. -/
theorem Visit.valid (valid : Valid generator block)
    (visit : Visit analysisOrder order declared target targetAnalyzer targetGenerator statements
      analyzer generator) : ∃ block, Valid targetGenerator block := by
  induction visit generalizing block with
  | here _ => exact ⟨block, valid⟩
  | later _ _ generated rest ih =>
    obtain ⟨next, current⟩ := Option.ne_none_iff_exists'.mp rest.active
    exact ih ((generateStatement_valid valid generated).settled.valid next current)
  | thenBranch _ first opened inside ih => exact ih (openBranches_thenValid valid first opened).1
  | elseBranch _ first opened _ generated inside ih =>
    exact ih (openBranches_elseValid valid first opened generated).1

theorem Visit.meets (valid : Valid generator block)
    (agrees : Agrees tensors analyzer.symbols generator.values)
    (faithful : Faithful tensors declared (declarationsIn statements))
    (analyzed : analyzeStatements analysisOrder statements analyzer = .ok () analyzer')
    (visit : Visit analysisOrder order declared target targetAnalyzer targetGenerator statements
      analyzer generator) :
    Meets tensors analysisOrder declared target targetAnalyzer targetGenerator := by
  induction visit generalizing block analyzer' with
  | here _ =>
    obtain ⟨between, first, _⟩ := analyzeStatements_cons_ok.mp analyzed
    exact ⟨⟨block, valid⟩, agrees,
      fun declaration member => faithful declaration (List.mem_append_left _ member),
      between, first⟩
  | later _ firstAnalyzed generated rest ih =>
    obtain ⟨between, first, restAnalyzed⟩ := analyzeStatements_cons_ok.mp analyzed
    cases firstAnalyzed.symm.trans first
    have advanced := generateStatement_valid valid generated
    obtain ⟨next, current⟩ := Option.ne_none_iff_exists'.mp rest.active
    refine ih (advanced.settled.valid next current) ?_ ?_ restAnalyzed
    · exact generateStatement_agrees valid agrees
        (fun declaration member => faithful declaration (List.mem_append_left _ member)) first
        generated rest.active
    · exact fun declaration member => faithful declaration (List.mem_append_right _ member)
  | thenBranch _ first opened inside ih =>
    obtain ⟨between, here, _⟩ := analyzeStatements_cons_ok.mp analyzed
    obtain ⟨thenAnalyzer, _, _, thenAnalyzed, _⟩ := analyzeStatement_if_ok.mp here
    obtain ⟨thenValid, same⟩ := openBranches_thenValid valid first opened
    refine ih thenValid (by exact same ▸ agrees) ?_ thenAnalyzed
    exact fun declaration member => faithful declaration
      (List.mem_append_left _ (List.mem_append_left _ member))
  | elseBranch _ first opened thenAnalyzed generated inside ih =>
    obtain ⟨between, here, _⟩ := analyzeStatements_cons_ok.mp analyzed
    obtain ⟨thenAnalyzer, elseAnalyzer, _, thenAnalyzed', elseAnalyzed, _⟩ :=
      analyzeStatement_if_ok.mp here
    cases thenAnalyzed.symm.trans thenAnalyzed'
    obtain ⟨elseValid, same⟩ := openBranches_elseValid valid first opened generated
    refine ih elseValid (by exact same ▸ agrees) ?_ elseAnalyzed
    exact fun declaration member => faithful declaration
      (List.mem_append_left _ (List.mem_append_right _ member))

/-- At every visited statement of an accepted program. -/
theorem Visit.meets_program (analyzed : analyze analysisOrder program = .ok accepted)
    (faithful : Faithful tensors accepted.symbols (declarationsIn program.statements))
    (visit : Visit analysisOrder order accepted.symbols target targetAnalyzer targetGenerator
      program.statements {} started) :
    Meets tensors analysisOrder accepted.symbols target targetAnalyzer targetGenerator :=
  visit.meets .started (fun name type known => by simp at known) faithful (analyze_ok.mp analyzed)

private theorem faithful_of_topLevel (topLevel : DeclaresAtTopLevel program)
    (analyzed : analyze analysisOrder program = .ok accepted) :
    Faithful tensors accepted.symbols (declarationsIn program.statements) := by
  intro declaration member _
  obtain ⟨statement, present, inside⟩ := mem_declarationsIn.mp member
  cases statement with
  | tensorDecl other =>
    cases List.mem_singleton.mp inside
    exact analyzeStatements_declares (analyze_ok.mp analyzed) present
  | ifStmt condition thenStatements elseStatements location =>
    obtain ⟨noThen, noElse⟩ := topLevel _ _ _ _ present
    rw [declarationsOf, noThen, noElse] at inside
    cases inside
  | assignment _ | returnStmt _ | nullIf => cases inside

/-- Every visited expression is analysed with the table of its statement. -/
theorem ExpressionVisit.total {targetGenerator : IRGenerator} (valid : Valid generator block)
    (agrees : Agrees True symbols generator.values)
    (analyzed : analyzeExpression symbols root = .ok type)
    (visit : ExpressionVisit expression targetGenerator root generator) :
    ∃ info final type, generateExpression expression targetGenerator = .ok info final ∧
      analyzeExpression symbols expression = .ok type ∧ info.type = type := by
  induction visit generalizing block type with
  | here =>
    obtain ⟨info, final, success, typed⟩ := generateExpression_total valid agrees analyzed
    exact ⟨info, final, type, success, analyzed, typed⟩
  | lhs inside ih =>
    obtain ⟨_, left, _⟩ := analyzeExpression_binary_ok.mp analyzed
    exact ih valid agrees left
  | rhs first inside ih =>
    obtain ⟨_, _, right, _⟩ := analyzeExpression_binary_ok.mp analyzed
    have computed := generateExpression_valid valid first
    exact ih computed.valid (computed.values ▸ agrees) right
  | reluArgument inside ih =>
    rcases analyzeExpression_call_ok.mp analyzed with ⟨_, _, same, typed⟩ | ⟨_, _, _, _, _, same, _⟩
    · cases same
      exact ih valid agrees typed
    · cases same
  | matmulLhs inside ih =>
    rcases analyzeExpression_call_ok.mp analyzed with
      ⟨_, _, same, _⟩ | ⟨_, _, _, _, _, same, left, _⟩
    · cases same
    · cases same
      exact ih valid agrees left
  | matmulRhs first inside ih =>
    rcases analyzeExpression_call_ok.mp analyzed with
      ⟨_, _, same, _⟩ | ⟨_, _, _, _, _, same, _, right, _⟩
    · cases same
    · cases same
      have computed := generateExpression_valid valid first
      exact ih computed.valid (computed.values ▸ agrees) right

/-- Analyser and generator agree at a statement: the names of the table are
bound with their types, and the expressions are generated with the types they
are analysed with. -/
structure Simulated (statement : Statement) (analyzer : SemanticAnalyzer)
    (generator : IRGenerator) : Prop where
  names : ∀ name symbol, analyzer.symbols.lookup name = some symbol →
    ∃ info, generator.values.lookup name = some info ∧ info.type = symbol.type
  expressions : ∀ root expression before, startingExpression statement = some root →
    ExpressionVisit expression before root generator →
      ∃ info after type, generateExpression expression before = .ok info after ∧
        analyzeExpression analyzer.symbols expression = .ok type ∧ info.type = type

/-- Analyser and generator stay in simulation when tensors are declared at top
level. -/
theorem visit_simulation (analyzed : analyze analysisOrder program = .ok accepted)
    (topLevel : DeclaresAtTopLevel program)
    (visit : Visit analysisOrder order accepted.symbols target targetAnalyzer targetGenerator
      program.statements {} started) :
    Simulated target targetAnalyzer targetGenerator := by
  have meets : Meets True analysisOrder accepted.symbols target targetAnalyzer targetGenerator :=
    visit.meets_program analyzed (faithful_of_topLevel topLevel analyzed)
  obtain ⟨block, valid⟩ := meets.valid
  refine ⟨fun name symbol found => ?_, fun root expression generator starts inside => ?_⟩
  · obtain ⟨info, bound, typed⟩ :=
      meets.agrees name symbol.type (SymbolTable.typeOf_of_lookup found)
    exact ⟨info, bound, typed (.inr trivial)⟩
  · obtain ⟨_, analyzed⟩ := meets.analyzed
    obtain ⟨type, typed⟩ := analyzeStatement_starts analyzed starts
    exact inside.total valid meets.agrees typed

/-- The conditional of `nestedConditional` is visited with `X` bound. -/
theorem visit_simulation_nestedConditional :
    ∃ (analyzer : SemanticAnalyzer) (generator : IRGenerator) (target : Statement),
      target ∈ nestedConditional.statements ∧
      analyzer.symbols.typeOf "X" = some (.scalar "i64") ∧
      Simulated target analyzer generator := by
  obtain ⟨accepted, _, analyzed, _⟩ :
      ∃ accepted module, analyze .stored nestedConditional = .ok accepted ∧
        generate .stored accepted nestedConditional = .ok module :=
    exists_of_compile (by decide +kernel)
  have fresh : ({} : SemanticAnalyzer).symbols.typeOf "X" = none := SymbolTable.typeOf_empty "X"
  obtain ⟨generator, assigned⟩ : ∃ generator, generateStatement .stored accepted.symbols
      (.assignment ⟨"X", .integer 5 {}, {}⟩) started = .ok () generator ∧
        generator.currentBlockId = some 0 := by
    rw [generateStatement]
    exact ⟨_, generateAssignment_ok.mpr
      ⟨_, _, generateInteger_apply Valid.started.toActive, rfl⟩, rfl⟩
  have typed : analyzeStatement .stored (.assignment ⟨"X", .integer 5 {}, {}⟩) {} =
      .ok () (({} : SemanticAnalyzer).introduce ⟨"X", .scalar "i64", {}⟩) := by
    rw [analyzeStatement]
    exact analyzeAssignment_ok.mpr ⟨_, rfl, .inr ⟨fresh, rfl⟩⟩
  refine ⟨_, generator, _, List.mem_cons_of_mem _ List.mem_cons_self, ?_,
    visit_simulation analyzed ?_
      (.later (by simp [started]) typed assigned.1 (.here (by simp [assigned.2])))⟩
  · rw [SemanticAnalyzer.typeOf_introduce fresh, if_pos rfl]
  · intro condition thenStatements elseStatements location member
    simp only [nestedConditional, List.mem_cons, reduceCtorEq, Statement.ifStmt.injEq,
      List.not_mem_nil, or_false, false_or] at member
    obtain ⟨_, rfl, rfl, _⟩ := member
    exact ⟨rfl, rfl⟩

end Ocelotl.IR
