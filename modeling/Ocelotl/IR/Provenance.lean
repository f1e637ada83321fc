import Ocelotl.IR.EmittedOperations

namespace Ocelotl.IR

open Ast Semantic Library IRGenerator

variable {tensors : Prop} {generator middle final : IRGenerator} {block : BlockId}
  {operation : Operation} {info : ValueInfo} {type : TensorType} {name : String}
  {analysisOrder order : TraversalOrder} {symbols declared : SymbolTable} {before : Environment}
  {declarations : List TensorDecl} {callees : List String} {expression : Expression}
  {statement : Statement} {statements : List Statement}
  {analyzer analyzer' accepted : SemanticAnalyzer} {program : Program}

/-- The types of values: the scalars of the language, and tensors where one is declared. -/
def TypeArises (declarations : List TensorDecl) (type : TensorType) : Prop :=
  type = .scalar "i1" ∨ type.Numeric ∨ type.shape ≠ [] ∧ declarations ≠ []

/-- The operation comes from a declaration, a number, an operator on numbers, a
call, or the join of two branches. -/
def Arises (declared : SymbolTable) (declarations : List TensorDecl) (callees : List String) :
    Operation → Prop
  | .tensorDecl _ name type =>
    declared.typeOf name = some type ∧ ∃ declaration ∈ declarations, declaration.name = name
  | .constantInt _ _ type => type = .scalar "i64"
  | .constantFloat _ _ type => type = .scalar "f64"
  | .binary _ _ _ _ type => type.Numeric
  | .compare _ _ _ _ operandType => operandType.Numeric
  | .phi _ type incoming => TypeArises declarations type ∧ incoming.length = 2
  | .matMul _ _ _ _ => "matmul" ∈ callees
  | .relu _ _ _ => "relu" ∈ callees

/-- All operations written so far arise so, and so do the types of all names. -/
structure Traced (declared : SymbolTable) (declarations : List TensorDecl) (callees : List String)
    (generator : IRGenerator) : Prop where
  emitted : EmitsOnly (Arises declared declarations callees) generator
  bound : ∀ name info, generator.values.lookup name = some info → TypeArises declarations info.type

theorem Traced.appendTo (traced : Traced declared declarations callees generator)
    (isOpen : Open generator block) (here : Arises declared declarations callees operation) :
    Traced declared declarations callees (generator.appendTo block operation) :=
  ⟨traced.emitted.appendTo isOpen here, traced.bound⟩

theorem Traced.rebind (traced : Traced declared declarations callees generator)
    (here : TypeArises declarations info.type) :
    Traced declared declarations callees (generator.rebind name info) := by
  refine ⟨traced.emitted, fun other found known => ?_⟩
  have known : (generator.values.insert name info).lookup other = some found := known
  rw [UnorderedMap.lookup_insert_eq] at known
  split at known
  · cases known
    exact here
  · exact traced.bound other found known

theorem Traced.offer (traced : Traced declared declarations callees generator)
    (here : TypeArises declarations info.type) :
    Traced declared declarations callees (generator.offer name info) := by
  by_cases taken : name ∈ generator.values
  · have same : (generator.offer name info).values = generator.values := by
      rw [IRGenerator.offer, UnorderedMap.emplace_present taken]
    exact ⟨traced.emitted, by rw [same]; exact traced.bound⟩
  · have same : (generator.offer name info).values = generator.values.insert name info := by
      rw [IRGenerator.offer, UnorderedMap.emplace_absent taken]
    refine ⟨traced.emitted, ?_⟩
    rw [same]
    exact (traced.rebind here).bound

/-- The types of all names in the table arise so. -/
def TableArises (declarations : List TensorDecl) (symbols : SymbolTable) : Prop :=
  ∀ name type, symbols.typeOf name = some type → TypeArises declarations type

private theorem typeArises_binaryType {op : BinaryOperator} (numeric : type.Numeric) :
    TypeArises declarations (binaryType op type) := by
  cases op
  all_goals first
    | exact .inr (.inl numeric)
    | exact .inl rfl

private theorem analyzeExpression_arises (table : TableArises declarations symbols)
    (analyzed : analyzeExpression symbols expression = .ok type) :
    TypeArises declarations type := by
  induction expression generalizing type with
  | identifier name location =>
    rw [analyzeExpression, analyzeIdentifier_ok] at analyzed
    exact table name type analyzed
  | integer value location =>
    cases analyzed
    exact .inr (.inl (.inl rfl))
  | float value location =>
    cases analyzed
    exact .inr (.inl (.inr rfl))
  | call callee arguments location ih =>
    rcases analyzeExpression_call_ok.mp analyzed with
      ⟨argument, _, rfl, typed⟩ | ⟨lhsExpression, rhsExpression, lhsType, rhsType, _, rfl,
        leftTyped, _, typed⟩
    · exact ih argument (by simp) typed
    · obtain ⟨element, rows, inner, columns, rfl, rfl, rfl⟩ := analyzeMatmul_ok.mp typed
      rcases ih lhsExpression (by simp) leftTyped with scalar | numeric | ⟨_, some⟩
      · cases scalar
      · cases numeric.shape
      · exact .inr (.inr ⟨by simp, some⟩)
  | nullCall => cases analyzed
  | nullBinary => cases analyzed
  | binary op lhsExpression rhsExpression location lhsIH rhsIH =>
    obtain ⟨operand, _, _, numeric, rfl⟩ := analyzeExpression_binary_ok.mp analyzed
    exact typeArises_binaryType numeric

private theorem analyzeStatements_arises_of
    (each : ∀ statement ∈ statements, ∀ {analyzer analyzer'},
      TableArises declarations analyzer.symbols →
      analyzeStatement analysisOrder statement analyzer = .ok () analyzer' →
      TableArises declarations analyzer'.symbols)
    (table : TableArises declarations analyzer.symbols)
    (analyzed : analyzeStatements analysisOrder statements analyzer = .ok () analyzer') :
    TableArises declarations analyzer'.symbols := by
  induction statements generalizing analyzer with
  | nil =>
    cases analyzed
    exact table
  | cons statement statements ih =>
    obtain ⟨between, first, rest⟩ := analyzeStatements_cons_ok.mp analyzed
    exact ih (fun other member => each other (List.mem_cons_of_mem _ member))
      (each statement List.mem_cons_self table first) rest

private theorem analyzeStatement_arises (table : TableArises declarations analyzer.symbols)
    (declares : ∀ declaration ∈ declarationsOf statement, TypeArises declarations declaration.type)
    (analyzed : analyzeStatement analysisOrder statement analyzer = .ok () analyzer') :
    TableArises declarations analyzer'.symbols := by
  induction statement generalizing analyzer analyzer' with
  | tensorDecl declaration =>
    rw [analyzeStatement] at analyzed
    intro name type known
    rcases analyzeTensorDeclaration_known analyzed known with ⟨_, rfl⟩ | ⟨_, old⟩
    · exact declares declaration (List.mem_singleton.mpr rfl)
    · exact table name type old
  | assignment assignment =>
    rw [analyzeStatement] at analyzed
    obtain ⟨valueType, typed, bound⟩ := analyzeAssignment_known analyzed
    intro name type known
    rcases bound known with ⟨_, rfl⟩ | ⟨_, old⟩
    · exact analyzeExpression_arises table typed
    · exact table name type old
  | returnStmt returnStatement =>
    rw [analyzeStatement] at analyzed
    obtain ⟨_, _, rfl⟩ := analyzeReturn_ok.mp analyzed
    exact table
  | ifStmt condition thenStatements elseStatements location thenIH elseIH =>
    obtain ⟨thenAnalyzer, elseAnalyzer, _, thenAnalyzed, elseAnalyzed, merged⟩ :=
      analyzeStatement_if_ok.mp analyzed
    intro name type known
    refine analyzeStatements_arises_of (fun statement member _ _ table => ?_) table
      thenAnalyzed name type
      (analyzeStatement_if_branches thenAnalyzed elseAnalyzed merged known).1
    exact thenIH statement member table fun declaration here =>
      declares declaration
        (List.mem_append_left _ (mem_declarationsIn.mpr ⟨statement, member, here⟩))
  | nullIf => cases analyzed

/-- The types in the table of a program arise from its declarations. -/
theorem analyze_arises (analyzed : analyze analysisOrder program = .ok accepted)
    (ranked : ∀ declaration ∈ declarationsIn program.statements, declaration.type.shape ≠ []) :
    TableArises (declarationsIn program.statements) accepted.symbols := by
  refine analyzeStatements_arises_of (fun statement member _ _ table => ?_)
    (fun name type known => by simp at known) (analyze_ok.mp analyzed)
  refine analyzeStatement_arises table fun declaration here => ?_
  have listed : declaration ∈ declarationsIn program.statements :=
    mem_declarationsIn.mpr ⟨statement, member, here⟩
  exact .inr (.inr ⟨ranked declaration listed, List.ne_nil_of_mem listed⟩)

/-- An expression adds operations that arise from it, and its value has a type that arises. -/
theorem generateExpression_traced (valid : Valid generator block)
    (agrees : Agrees tensors symbols generator.values)
    (analyzed : analyzeExpression symbols expression = .ok type)
    (calls : calleesOf expression ⊆ callees)
    (success : generateExpression expression generator = .ok info final)
    (traced : Traced declared declarations callees generator) :
    Traced declared declarations callees final ∧ TypeArises declarations info.type := by
  induction expression generalizing generator info final type with
  | identifier name location =>
    obtain ⟨found, rfl⟩ := generateIdentifier_ok.mp success
    exact ⟨traced, traced.bound name info found⟩
  | integer value location =>
    rw [generateExpression, generateInteger_apply valid.toActive] at success
    cases success
    exact ⟨traced.appendTo valid.isOpen rfl, .inr (.inl (.inl rfl))⟩
  | float value location =>
    rw [generateExpression, generateFloat_apply valid.toActive] at success
    cases success
    exact ⟨traced.appendTo valid.isOpen rfl, .inr (.inl (.inr rfl))⟩
  | call callee arguments location ih =>
    have called : callee ∈ callees := calls List.mem_cons_self
    rcases generateExpression_call_ok.mp success with
      ⟨argument, input, middle, rfl, rfl, first, rest⟩ |
      ⟨lhsExpression, rhsExpression, lhs, middle, rhs, later, rfl, rfl, first, second, rest⟩
    · rcases analyzeExpression_call_ok.mp analyzed with
        ⟨_, _, same, argumentTyped⟩ | ⟨_, _, _, _, different, _⟩
      swap
      · exact absurd different (by decide)
      cases same
      have computed := generateExpression_valid valid first
      obtain ⟨before, typed⟩ := ih argument (by simp) valid agrees argumentTyped
        (fun _ member => calls (List.mem_cons_of_mem _ (List.mem_append_left _ member)))
          first traced
      rw [generateRelu_apply computed.valid.toActive] at rest
      cases rest
      exact ⟨before.appendTo computed.valid.isOpen called, typed⟩
    · rcases analyzeExpression_call_ok.mp analyzed with
        ⟨_, different, _⟩ | ⟨_, _, lhsType, rhsType, _, same, leftTyped, rightTyped, _⟩
      · exact absurd different (by decide)
      cases same
      have left := generateExpression_valid valid first
      have right := generateExpression_valid left.valid second
      obtain ⟨before, leftArises⟩ := ih lhsExpression (by simp) valid agrees leftTyped
        (fun _ member => calls (List.mem_cons_of_mem _ (List.mem_append_left _ member)))
          first traced
      obtain ⟨before, _⟩ := ih rhsExpression (by simp) left.valid (left.values ▸ agrees) rightTyped
        (fun _ member =>
          calls (List.mem_cons_of_mem _ (List.mem_append_right _ (List.mem_append_left _ member))))
        second before
      obtain ⟨m, n, rows, _, rfl, rfl⟩ := (generateMatmul_ok right.valid.toActive).mp rest
      refine ⟨before.appendTo right.valid.isOpen called, .inr (.inr ⟨by simp, ?_⟩)⟩
      -- The left operand has a dimension, so it is a tensor.
      rcases leftArises with scalar | numeric | ⟨_, some⟩
      · rw [scalar] at rows
        cases rows
      · rw [numeric.shape] at rows
        cases rows
      · exact some
  | nullCall => cases success
  | nullBinary => cases success
  | binary op lhsExpression rhsExpression location lhsIH rhsIH =>
    obtain ⟨lhs, middle, rhs, later, first, second, rest⟩ := generateExpression_binary_ok.mp success
    obtain ⟨operand, leftTyped, rightTyped, numeric, _⟩ := analyzeExpression_binary_ok.mp analyzed
    have left := generateExpression_valid valid first
    have right := generateExpression_valid left.valid second
    have leftType := generateExpression_type valid agrees leftTyped first (.inl numeric.shape)
    obtain ⟨before, _⟩ := lhsIH valid agrees leftTyped
      (fun _ member => calls (List.mem_append_left _ member)) first traced
    obtain ⟨before, _⟩ := rhsIH left.valid (left.values ▸ agrees) rightTyped
      (fun _ member => calls (List.mem_append_right _ member)) second before
    obtain ⟨_, rfl, rfl⟩ := (generateBinary_ok right.valid.toActive).mp rest
    rw [← leftType] at numeric
    refine ⟨before.appendTo right.valid.isOpen ?_, ?_⟩
    · cases op <;> exact numeric
    · rw [binaryOperation_snd]
      exact typeArises_binaryType numeric

private theorem mergeValues_traced {thenEnd elseEnd : BlockId} {elseValues : Environment}
    {entries : List (String × ValueInfo)} (active : Active generator block)
    (listed : ∀ entry ∈ entries, TypeArises declarations entry.2.type)
    (success : mergeValues thenEnd elseEnd elseValues entries generator = .ok () final)
    (traced : Traced declared declarations callees generator) :
    Traced declared declarations callees final := by
  induction entries generalizing generator with
  | nil =>
    cases success
    exact traced
  | cons entry entries ih =>
    obtain ⟨name, thenValue⟩ := entry
    obtain ⟨here, listed⟩ := List.forall_mem_cons.mp listed
    rcases (mergeValues_cons_ok active).mp success with
      ⟨_, success⟩ | ⟨elseValue, _, _, ⟨_, success⟩ | ⟨_, success⟩⟩
    · exact ih active listed success traced
    · exact ih (active.offer _ _) listed success (traced.offer here)
    · have arises : Arises declared declarations callees
          (joinPhi generator.nextValueId thenEnd elseEnd thenValue elseValue) := ⟨here, rfl⟩
      have joined := traced.appendTo active.isOpen arises
      exact ih ((active.appendTo _).offer _ _) listed success (joined.offer here)

theorem JoinRun.traced {thenGenerator elseGenerator : IRGenerator}
    (run : JoinRun order before thenGenerator elseGenerator final) (built : elseGenerator.WellBuilt)
    (started : ∀ name info, before.lookup name = some info → TypeArises declarations info.type)
    (fromThen : ∀ name info, thenGenerator.values.lookup name = some info →
      TypeArises declarations info.type)
    (traced : Traced declared declarations callees elseGenerator) :
    Traced declared declarations callees final := by
  cases run with
  | neither _ _ same =>
    subst same
    exact ⟨traced.emitted, started⟩
  | elseOnly elseEnd _ _ _ same =>
    subst same
    exact ⟨traced.emitted.join built [elseEnd], traced.bound⟩
  | thenOnly thenEnd _ _ _ same =>
    subst same
    exact ⟨traced.emitted.join built [thenEnd], fromThen⟩
  | both thenEnd elseEnd _ _ _ merging success _ =>
    have joined : Traced declared declarations callees
        ((elseGenerator.join [thenEnd, elseEnd]).enter (some elseGenerator.nextBlockId) ∅) :=
      ⟨traced.emitted.join built [thenEnd, elseEnd], fun name info found => by
        cases (AList.lookup_empty name).symm.trans found⟩
    refine mergeValues_traced merging.valid.toActive (fun entry member => ?_) success joined
    exact fromThen entry.1 entry.2 (order.mem_traverse.mp member)

/-- Only operations that arise so are added. -/
def Traces (declared : SymbolTable) (declarations : List TensorDecl) (callees : List String)
    (generator final : IRGenerator) : Prop :=
  Traced declared declarations callees generator → Traced declared declarations callees final

theorem Traces.refl : Traces declared declarations callees generator generator := id

theorem Traces.trans (first : Traces declared declarations callees generator middle)
    (second : Traces declared declarations callees middle final) :
    Traces declared declarations callees generator final := fun traced => second (first traced)

/-- A statement adds operations that arise from it. -/
theorem generateStatement_traced (valid : Valid generator block)
    (agrees : Agrees tensors analyzer.symbols generator.values)
    (faithful : Faithful tensors declared (declarationsOf statement))
    (analyzed : analyzeStatement analysisOrder statement analyzer = .ok () analyzer')
    (declares : declarationsOf statement ⊆ declarations)
    (declaring : TableArises declarations declared)
    (calls : callsOf statement ⊆ callees)
    (success : generateStatement order declared statement generator = .ok () final) :
    Traces declared declarations callees generator final := by
  intro traced
  induction statement generalizing generator final block analyzer analyzer' with
  | tensorDecl declaration =>
    rw [generateStatement] at success
    obtain ⟨type, found, _, rfl⟩ := (generateTensorDeclaration_ok valid.toActive).mp success
    have member : declaration ∈ declarations := declares (List.mem_singleton.mpr rfl)
    have arises :
        Arises declared declarations callees
          (.tensorDecl generator.nextValueId declaration.name type) :=
      ⟨found, declaration, member, rfl⟩
    exact (traced.appendTo valid.isOpen arises).rebind (declaring declaration.name type found)
  | assignment assignment =>
    rw [analyzeStatement] at analyzed
    rw [generateStatement] at success
    obtain ⟨type, typed, _⟩ := analyzeAssignment_known analyzed
    obtain ⟨info, middle, first, rfl⟩ := generateAssignment_ok.mp success
    obtain ⟨computed, arises⟩ := generateExpression_traced valid agrees typed calls first traced
    exact computed.rebind arises
  | returnStmt returnStatement =>
    rw [analyzeStatement] at analyzed
    rw [generateStatement] at success
    obtain ⟨info, middle, first, rfl⟩ := (generateReturn_ok fun _ _ first =>
      (generateExpression_valid valid first).valid.toActive).mp success
    obtain ⟨computed, _⟩ :=
      generateExpression_traced valid agrees (analyzeReturn_ok.mp analyzed).1 calls first traced
    refine ⟨fun id index operation present => ?_, computed.bound⟩
    exact computed.emitted id index operation ((operationAt_terminate _ _ _ _ _ _).mp present)
  | ifStmt condition thenStatements elseStatements location thenIH elseIH =>
    obtain ⟨thenAnalyzer, elseAnalyzer, conditionTyped, thenAnalyzed, elseAnalyzed, merged⟩ :=
      analyzeStatement_if_ok.mp analyzed
    obtain ⟨info, tested, thenGenerator, elseGenerator, conditional⟩ :=
      generateStatement_conditional valid success
    have agrees' : Agrees tensors analyzer.symbols tested.values :=
      conditional.computed.values ▸ agrees
    obtain ⟨computed, _⟩ := generateExpression_traced valid agrees conditionTyped
      (fun _ member => calls (List.mem_append_left _ member)) conditional.first traced
    have forked : Traced declared declarations callees (tested.enterThen block info.value) :=
      ⟨computed.emitted.fork conditional.computed.valid.built block info.value, computed.bound⟩
    have thenTraces :
        Traces declared declarations callees (tested.enterThen block info.value) thenGenerator :=
      generateBranch_effect (fun _ => Traces.refl) .trans
        (fun statement member _ _ _ _ _ valid agrees faithful analyzed success =>
          thenIH statement member valid agrees faithful analyzed
            (fun _ here =>
              declares (List.mem_append_left _ (mem_declarationsIn.mpr ⟨statement, member, here⟩)))
            (fun _ here =>
              calls (List.mem_append_right _ (List.mem_append_left _ (mem_callsIn member here))))
            success)
        conditional.thenValid agrees'
          (fun declaration member => faithful declaration (List.mem_append_left _ member))
        thenAnalyzed conditional.thenRun
    have thenTraced := thenTraces forked
    have entered : Traced declared declarations callees (thenGenerator.enterElse tested) :=
      ⟨thenTraced.emitted, computed.bound⟩
    have elseTraces :
        Traces declared declarations callees (thenGenerator.enterElse tested) elseGenerator :=
      generateBranch_effect (fun _ => Traces.refl) .trans
        (fun statement member _ _ _ _ _ valid agrees faithful analyzed success =>
          elseIH statement member valid agrees faithful analyzed
            (fun _ here =>
              declares (List.mem_append_right _ (mem_declarationsIn.mpr ⟨statement, member, here⟩)))
            (fun _ here =>
              calls (List.mem_append_right _ (List.mem_append_right _ (mem_callsIn member here))))
            success)
        conditional.elseValid (by exact agrees')
        (fun declaration member => faithful declaration (List.mem_append_right _ member))
        elseAnalyzed conditional.elseRun
    exact conditional.joined.traced conditional.branched.built computed.bound thenTraced.bound
      (elseTraces entered)
  | nullIf =>
    rw [generateStatement] at success
    cases success

/-- Every operation of a generated module arises from its program. -/
theorem generateUnverified_arises (analyzed : analyze analysisOrder program = .ok accepted)
    (ranked : ∀ declaration ∈ declarationsIn program.statements, declaration.type.shape ≠ [])
    (success : generateUnverified order accepted.symbols program {} = .ok () final) :
    EmitsOnly (Arises accepted.symbols (declarationsIn program.statements)
      (callsIn program.statements)) final := by
  obtain ⟨run, _⟩ := generateUnverified_ok.mp success
  have table := analyze_arises analyzed ranked
  have faithful : Faithful False accepted.symbols (declarationsIn program.statements) :=
    fun declaration member exact => absurd (exact.resolve_right id) (ranked declaration member)
  have traces : Traces accepted.symbols (declarationsIn program.statements)
      (callsIn program.statements) started final :=
    generateTopLevel_effect (fun _ => Traces.refl) .trans
      (fun statement member _ _ _ _ _ valid agrees faithful analyzed success =>
        generateStatement_traced valid agrees faithful analyzed
          (fun _ here => mem_declarationsIn.mpr ⟨statement, member, here⟩) table
          (fun _ here => mem_callsIn member here) success)
      .started (fun name type known => by simp at known) faithful (analyze_ok.mp analyzed) run
  refine (traces ⟨?_, fun name info found => ?_⟩).emitted
  · intro block index operation ⟨body, found, here⟩
    rw [blocks_started] at found
    split at found
    · cases found
      cases here
    · cases found
  · cases (AList.lookup_empty name).symm.trans found

end Ocelotl.IR
