import Ocelotl.IR.StrictSSA
import Ocelotl.Semantic.Scoping

namespace Ocelotl.IR

open Ast Semantic Library IRGenerator

variable {tensors : Prop} {generator middle final : IRGenerator} {block thenEnd elseEnd : BlockId}
  {name : String} {type : TensorType} {info thenValue : ValueInfo}
  {analysisOrder order : TraversalOrder} {symbols declared : SymbolTable}
  {values elseValues : Environment} {expression : Expression} {statement : Statement}
  {statements : List Statement} {analyzer analyzer' : SemanticAnalyzer}

/-- The types on which both sides agree: scalars, and tensors where they do. -/
def Exact (tensors : Prop) (type : TensorType) : Prop := type.shape = [] ∨ tensors

/-- Every name the analyser knows is bound, with the same type where types are exact. -/
def Agrees (tensors : Prop) (symbols : SymbolTable) (values : Environment) : Prop :=
  ∀ name type, symbols.typeOf name = some type →
    ∃ info, values.lookup name = some info ∧ (Exact tensors type → info.type = type)

theorem binaryOperation_snd (op : BinaryOperator) (result : ValueId) (lhs rhs : ValueInfo) :
    (binaryOperation op result lhs rhs).2 = binaryType op lhs.type := by
  cases op <;> rfl

/-- Where types are exact, a generated expression has the type it was analysed with. -/
theorem generateExpression_type (valid : Valid generator block)
    (agrees : Agrees tensors symbols generator.values)
    (analyzed : analyzeExpression symbols expression = .ok type)
    (success : generateExpression expression generator = .ok info final)
    (exact : Exact tensors type) : info.type = type := by
  induction expression generalizing generator info final type with
  | identifier name location =>
    obtain ⟨found, rfl⟩ := generateIdentifier_ok.mp success
    rw [analyzeExpression, analyzeIdentifier_ok] at analyzed
    obtain ⟨bound, found', typed⟩ := agrees name type analyzed
    cases found.symm.trans found'
    exact typed exact
  | integer value location =>
    rw [generateExpression, generateInteger_apply valid.toActive] at success
    cases success
    exact Except.ok.inj analyzed
  | float value location =>
    rw [generateExpression, generateFloat_apply valid.toActive] at success
    cases success
    exact Except.ok.inj analyzed
  | call callee arguments location ih =>
    rcases generateExpression_call_ok.mp success with
      ⟨argument, input, middle, rfl, rfl, first, rest⟩ |
      ⟨lhsExpression, rhsExpression, lhs, middle, rhs, later, rfl, rfl, first, second, rest⟩
    · have computed := generateExpression_valid valid first
      rw [generateRelu_apply computed.valid.toActive] at rest
      cases rest
      rcases analyzeExpression_call_ok.mp analyzed with
        ⟨_, _, same, typed⟩ | ⟨_, _, _, _, different, _⟩
      · cases same
        have typed := ih argument (by simp) valid agrees typed first exact
        exact typed
      · exact absurd different (by decide)
    · have left := generateExpression_valid valid first
      have right := generateExpression_valid left.valid second
      obtain ⟨m, n, rows, columns, rfl, rfl⟩ := (generateMatmul_ok right.valid.toActive).mp rest
      rcases analyzeExpression_call_ok.mp analyzed with
        ⟨_, different, _⟩ | ⟨_, _, lhsType, rhsType, _, same, leftTyped, rightTyped, typed⟩
      · exact absurd different (by decide)
      · cases same
        obtain ⟨element, rowCount, inner, columnCount, rfl, rfl, rfl⟩ := analyzeMatmul_ok.mp typed
        -- The product has rank 2, so its type is exact only if all tensor types are.
        have all : tensors := exact.resolve_left (by simp)
        have leftType := ih lhsExpression (by simp) valid agrees leftTyped first (.inr all)
        have rightType := ih rhsExpression (by simp) left.valid (left.values ▸ agrees) rightTyped
          second (.inr all)
        rw [leftType] at rows
        rw [rightType] at columns
        cases rows
        cases columns
        simp [leftType]
  | nullCall => cases success
  | nullBinary => cases success
  | binary op lhsExpression rhsExpression location lhsIH rhsIH =>
    obtain ⟨lhs, middle, rhs, later, first, second, rest⟩ :=
      generateExpression_binary_ok.mp success
    have left := generateExpression_valid valid first
    have right := generateExpression_valid left.valid second
    obtain ⟨_, rfl, _⟩ := (generateBinary_ok right.valid.toActive).mp rest
    obtain ⟨operand, leftTyped, _, numeric, rfl⟩ := analyzeExpression_binary_ok.mp analyzed
    have leftType := lhsIH valid agrees leftTyped first (.inl numeric.shape)
    rw [binaryOperation_snd, leftType]

/-- Where all types agree, every analysed expression is generated, with the type of its analysis. -/
theorem generateExpression_total (valid : Valid generator block)
    (agrees : Agrees True symbols generator.values)
    (analyzed : analyzeExpression symbols expression = .ok type) :
    ∃ info final, generateExpression expression generator = .ok info final ∧ info.type = type := by
  suffices generated : ∃ info final, generateExpression expression generator = .ok info final by
    obtain ⟨info, final, success⟩ := generated
    exact ⟨info, final, success,
      generateExpression_type valid agrees analyzed success (.inr trivial)⟩
  induction expression generalizing generator type with
  | identifier name location =>
    rw [analyzeExpression, analyzeIdentifier_ok] at analyzed
    obtain ⟨info, found, _⟩ := agrees name type analyzed
    exact ⟨info, generator, generateIdentifier_ok.mpr ⟨found, rfl⟩⟩
  | integer value location => exact ⟨_, _, generateInteger_apply valid.toActive⟩
  | float value location => exact ⟨_, _, generateFloat_apply valid.toActive⟩
  | call callee arguments location ih =>
    rcases analyzeExpression_call_ok.mp analyzed with
      ⟨argument, rfl, rfl, typed⟩ |
      ⟨lhsExpression, rhsExpression, lhsType, rhsType, rfl, rfl, leftTyped, rightTyped, typed⟩
    · obtain ⟨input, middle, first⟩ := ih argument (by simp) valid agrees typed
      have computed := generateExpression_valid valid first
      exact ⟨_, _, generateExpression_call_ok.mpr (.inl ⟨argument, input, middle, rfl, rfl, first,
        generateRelu_apply computed.valid.toActive⟩)⟩
    · obtain ⟨lhs, middle, first⟩ := ih lhsExpression (by simp) valid agrees leftTyped
      have left := generateExpression_valid valid first
      have agrees' : Agrees True symbols middle.values := left.values ▸ agrees
      obtain ⟨rhs, later, second⟩ := ih rhsExpression (by simp) left.valid agrees' rightTyped
      have right := generateExpression_valid left.valid second
      obtain ⟨element, rows, inner, columns, rfl, rfl, rfl⟩ := analyzeMatmul_ok.mp typed
      have leftType := generateExpression_type valid agrees leftTyped first (.inr trivial)
      have rightType := generateExpression_type left.valid agrees' rightTyped second (.inr trivial)
      exact ⟨_, _, generateExpression_call_ok.mpr (.inr ⟨lhsExpression, rhsExpression, lhs, middle,
        rhs, later, rfl, rfl, first, second, generateMatmul_apply
          right.valid.toActive (by rw [leftType]; rfl) (by rw [rightType]; rfl)⟩)⟩
  | nullCall => cases analyzed
  | nullBinary => cases analyzed
  | binary op lhsExpression rhsExpression location lhsIH rhsIH =>
    obtain ⟨operand, leftTyped, rightTyped, _, _⟩ := analyzeExpression_binary_ok.mp analyzed
    obtain ⟨lhs, middle, first⟩ := lhsIH valid agrees leftTyped
    have left := generateExpression_valid valid first
    have agrees' : Agrees True symbols middle.values := left.values ▸ agrees
    obtain ⟨rhs, later, second⟩ := rhsIH left.valid agrees' rightTyped
    have right := generateExpression_valid left.valid second
    have leftType := generateExpression_type valid agrees leftTyped first (.inr trivial)
    have rightType := generateExpression_type left.valid agrees' rightTyped second (.inr trivial)
    exact ⟨_, _, generateExpression_binary_ok.mpr ⟨lhs, middle, rhs, later, first, second,
      generateBinary_apply op right.valid.toActive (leftType.trans rightType.symm)⟩⟩

theorem Active.offer (active : Active generator block) (name : String) (info : ValueInfo) :
    Active (generator.offer name info) block :=
  ⟨active.current, active.isOpen⟩

theorem Active.appendTo (active : Active generator block) (operation : Operation) :
    Active (generator.appendTo block operation) block :=
  ⟨active.current, open_appendTo.mpr active.isOpen⟩

theorem lookup_offer (absent : generator.values.lookup name = none) (info : ValueInfo)
    (other : String) : (generator.offer name info).values.lookup other =
      if other = name then some info else generator.values.lookup other :=
  UnorderedMap.lookup_emplace_absent (AList.lookup_eq_none.mp absent) other

/-- The merged environment binds the names that both branches bind, with one type. -/
structure MergedValues (before elseValues : Environment) (entries : List (String × ValueInfo))
    (after : Environment) : Prop where
  kept : ∀ {name info}, before.lookup name = some info → after.lookup name = some info
  joined : ∀ {name thenValue elseValue}, (name, thenValue) ∈ entries →
    elseValues.lookup name = some elseValue → thenValue.type = elseValue.type ∧
      ∃ info, after.lookup name = some info ∧ info.type = thenValue.type
  only : ∀ {name info}, after.lookup name = some info → before.lookup name = some info ∨
    ∃ thenValue elseValue, (name, thenValue) ∈ entries ∧
      elseValues.lookup name = some elseValue ∧ info.type = thenValue.type

/-- One more entry is merged, with a value of its type. -/
theorem MergedValues.cons {after : Environment} {entries : List (String × ValueInfo)}
    {elseValue : ValueInfo} (info : ValueInfo) (absent : generator.values.lookup name = none)
    (found : elseValues.lookup name = some elseValue) (typed : thenValue.type = elseValue.type)
    (same : info.type = thenValue.type) (unlisted : ∀ value, (name, value) ∉ entries)
    (rest : MergedValues (generator.offer name info).values elseValues entries after) :
    MergedValues generator.values elseValues ((name, thenValue) :: entries) after where
  kept := by
    intro other bound known
    refine rest.kept ?_
    rw [lookup_offer absent, if_neg]
    · exact known
    · rintro rfl
      rw [absent] at known
      cases known
  joined := by
    intro other value otherElse member found'
    rcases List.mem_cons.mp member with here | later
    · cases here
      cases found.symm.trans found'
      exact ⟨typed, info, rest.kept (by rw [lookup_offer absent, if_pos rfl]), same⟩
    · exact rest.joined later found'
  only := by
    intro other bound known
    rcases rest.only known with earlier | ⟨value, otherElse, member, found', typed'⟩
    · rw [lookup_offer absent] at earlier
      split at earlier
      · rename_i here
        subst here
        cases earlier
        exact .inr ⟨thenValue, elseValue, List.mem_cons_self, found, same⟩
      · exact .inl earlier
    · exact .inr ⟨value, otherElse, List.mem_cons_of_mem _ member, found', typed'⟩

theorem mergeValues_values {entries : List (String × ValueInfo)} (active : Active generator block)
    (nodup : (entries.map Prod.fst).Nodup)
    (absent : ∀ entry ∈ entries, generator.values.lookup entry.1 = none)
    (success : mergeValues thenEnd elseEnd elseValues entries generator = .ok () final) :
    MergedValues generator.values elseValues entries final.values := by
  induction entries generalizing generator with
  | nil =>
    cases success
    exact ⟨id, nofun, .inl⟩
  | cons entry entries ih =>
    obtain ⟨name, thenValue⟩ := entry
    obtain ⟨unlisted, nodup⟩ := List.nodup_cons.mp nodup
    obtain ⟨here, absent⟩ := List.forall_mem_cons.mp absent
    have unlisted value (member : (name, value) ∈ entries) : False :=
      unlisted (List.mem_map.mpr ⟨_, member, rfl⟩)
    have still (middle : IRGenerator) (info : ValueInfo) (same : middle.values = generator.values) :
        ∀ entry ∈ entries, (middle.offer name info).values.lookup entry.1 = none := by
      intro entry member
      rw [lookup_offer (same ▸ here), if_neg]
      · exact same ▸ absent entry member
      · intro equal
        exact unlisted entry.2 (equal ▸ member)
    rcases (mergeValues_cons_ok active).mp success with
      ⟨missing, success⟩ | ⟨elseValue, found, typed, ⟨_, success⟩ | ⟨_, success⟩⟩
    · obtain ⟨kept, joined, only⟩ := ih active nodup absent success
      refine ⟨kept, fun member found => ?_, fun known => ?_⟩
      · rcases List.mem_cons.mp member with here | later
        · cases here
          rw [missing] at found
          cases found
        · exact joined later found
      · refine (only known).imp_right ?_
        rintro ⟨value, elseValue, member, rest⟩
        exact ⟨value, elseValue, List.mem_cons_of_mem _ member, rest⟩
    · exact .cons thenValue here found typed rfl unlisted
        (ih (active.offer _ _) nodup (still generator _ rfl) success)
    · have rest := ih ((active.appendTo _).offer _ _) nodup
        (still (generator.appendTo block _) _ rfl) success
      exact .cons ⟨generator.nextValueId, thenValue.type⟩ here found typed rfl unlisted rest

mutual

/-- The tensor declarations in a statement, in textual order. -/
def declarationsOf : Statement → List TensorDecl
  | .tensorDecl declaration => [declaration]
  | .ifStmt _ thenStatements elseStatements _ =>
    declarationsIn thenStatements ++ declarationsIn elseStatements
  | .assignment _ | .returnStmt _ | .nullIf => []

def declarationsIn : List Statement → List TensorDecl
  | [] => []
  | statement :: statements => declarationsOf statement ++ declarationsIn statements

end

theorem mem_declarationsIn {declaration : TensorDecl} :
    declaration ∈ declarationsIn statements ↔
      ∃ statement ∈ statements, declaration ∈ declarationsOf statement := by
  induction statements with
  | nil => simp [declarationsIn]
  | cons statement statements ih => simp [declarationsIn, ih]

/-- The table gives these declarations the types they declare, where types are exact. -/
def Faithful (tensors : Prop) (declared : SymbolTable) (declarations : List TensorDecl) : Prop :=
  ∀ declaration ∈ declarations, Exact tensors declaration.type →
    declared.typeOf declaration.name = some declaration.type

/-- A tensor without dimensions, which is an operand like any other number. -/
def declaredScalar : Program where
  statements := [
    .tensorDecl ⟨"A", .scalar "i64", {}⟩,
    .ifStmt (.binary .greater (.identifier "A" {}) (.integer 0 {}) {})
      [.assignment ⟨"Y", .binary .add (.identifier "A" {}) (.integer 1 {}) {}, {}⟩]
      [.assignment ⟨"Y", .integer 0 {}, {}⟩] {},
    .returnStmt ⟨.identifier "Y" {}, {}⟩]

/-- Nothing else has the name of the tensor. -/
theorem declaredScalar_kept {accepted : SemanticAnalyzer}
    (analyzed : analyze analysisOrder declaredScalar = .ok accepted) :
    ∀ declaration ∈ declarationsIn declaredScalar.statements, declaration.type.shape = [] →
      accepted.symbols.typeOf declaration.name = some declaration.type := by
  intro declaration member _
  cases List.mem_singleton.mp member
  exact analyzeStatements_declares (analyze_ok.mp analyzed) List.mem_cons_self

/-- Both sides introduce or overwrite a name with one type. -/
theorem Agrees.bind (agrees : Agrees tensors analyzer.symbols values)
    (typed : Exact tensors type → info.type = type)
    (known : ∀ {other otherType}, analyzer'.symbols.typeOf other = some otherType →
      other = name ∧ otherType = type ∨
        other ≠ name ∧ analyzer.symbols.typeOf other = some otherType) :
    Agrees tensors analyzer'.symbols (values.insert name info) := by
  intro other otherType found
  rw [UnorderedMap.lookup_insert_eq]
  rcases known found with ⟨rfl, rfl⟩ | ⟨different, earlier⟩
  · exact ⟨info, by rw [if_pos rfl], typed⟩
  · rw [if_neg different]
    exact agrees other otherType earlier

private theorem generateTensorDeclaration_agrees {declaration : TensorDecl} (valid : Valid generator block)
    (agrees : Agrees tensors analyzer.symbols generator.values)
    (faithful : Faithful tensors declared [declaration])
    (analyzed : analyzeTensorDeclaration declaration analyzer = .ok () analyzer')
    (success : generateTensorDeclaration declared declaration generator = .ok () final) :
    Agrees tensors analyzer'.symbols final.values := by
  obtain ⟨type, found, _, rfl⟩ := (generateTensorDeclaration_ok valid.toActive).mp success
  apply agrees.bind (fun exact : Exact tensors declaration.type => ?_)
    (analyzeTensorDeclaration_known analyzed)
  have same := faithful declaration (List.mem_singleton.mpr rfl) exact
  exact Option.some.inj (found.symm.trans same)

private theorem generateAssignment_agrees {assignment : Assignment} (valid : Valid generator block)
    (agrees : Agrees tensors analyzer.symbols generator.values)
    (analyzed : analyzeAssignment assignment analyzer = .ok () analyzer')
    (success : generateAssignment assignment generator = .ok () final) :
    Agrees tensors analyzer'.symbols final.values := by
  obtain ⟨type, typed, known⟩ := analyzeAssignment_known analyzed
  obtain ⟨info, middle, first, rfl⟩ := generateAssignment_ok.mp success
  have same := (generateExpression_valid valid first).values
  have exact := generateExpression_type valid agrees typed first
  rw [← same] at agrees
  exact agrees.bind exact known

/-- After the join, what both branches type is bound with that type. -/
theorem JoinRun.agrees {thenGenerator elseGenerator : IRGenerator}
    {thenAnalyzer elseAnalyzer : SemanticAnalyzer}
    (run : JoinRun order values thenGenerator elseGenerator final)
    (fromThen : thenGenerator.currentBlockId ≠ none →
      Agrees tensors thenAnalyzer.symbols thenGenerator.values)
    (fromElse : elseGenerator.currentBlockId ≠ none →
      Agrees tensors elseAnalyzer.symbols elseGenerator.values)
    (both : ∀ {name type}, analyzer'.symbols.typeOf name = some type →
      thenAnalyzer.symbols.typeOf name = some type ∧ elseAnalyzer.symbols.typeOf name = some type)
    (active : final.currentBlockId ≠ none) : Agrees tensors analyzer'.symbols final.values := by
  intro name type known
  obtain ⟨thenKnown, elseKnown⟩ := both known
  cases run with
  | neither _ _ same =>
    subst same
    exact absurd rfl active
  | elseOnly elseEnd _ elseCurrent _ same =>
    subst same
    exact fromElse (by simp [elseCurrent]) name type elseKnown
  | thenOnly thenEnd thenCurrent _ _ same =>
    subst same
    exact fromThen (by simp [thenCurrent]) name type thenKnown
  | both thenEnd elseEnd thenCurrent elseCurrent _ merging success _ =>
    obtain ⟨thenValue, thenFound, thenTyped⟩ := fromThen (by simp [thenCurrent]) name type thenKnown
    obtain ⟨elseValue, elseFound, _⟩ := fromElse (by simp [elseCurrent]) name type elseKnown
    have merged := mergeValues_values merging.valid.toActive (order.nodup_traverse _ _)
      (fun _ _ => AList.lookup_empty _) success
    obtain ⟨_, info, found, same⟩ := merged.joined (order.mem_traverse.mpr thenFound) elseFound
    exact ⟨info, found, fun exact => same.trans (thenTyped exact)⟩

private theorem generateBranch_agrees_of
    (each : ∀ statement ∈ statements, ∀ {generator final block analyzer analyzer'},
      Valid generator block → Agrees tensors analyzer.symbols generator.values →
      Faithful tensors declared (declarationsOf statement) →
      analyzeStatement analysisOrder statement analyzer = .ok () analyzer' →
      generateStatement order declared statement generator = .ok () final →
      final.currentBlockId ≠ none → Agrees tensors analyzer'.symbols final.values)
    (valid : Valid generator block) (agrees : Agrees tensors analyzer.symbols generator.values)
    (faithful : Faithful tensors declared (declarationsIn statements))
    (analyzed : analyzeStatements analysisOrder statements analyzer = .ok () analyzer')
    (success : generateBranch order declared statements generator = .ok () final)
    (active : final.currentBlockId ≠ none) : Agrees tensors analyzer'.symbols final.values := by
  induction statements generalizing generator block analyzer with
  | nil =>
    cases analyzed
    cases success
    exact agrees
  | cons statement statements ih =>
    obtain ⟨between, firstAnalyzed, restAnalyzed⟩ := analyzeStatements_cons_ok.mp analyzed
    rw [generateBranch_cons valid.current] at success
    obtain ⟨middle, first, rest⟩ := then_ok.mp success
    have advanced := generateStatement_valid valid first
    cases current : middle.currentBlockId with
    | none =>
      rw [generateBranch_stopped current] at rest
      cases rest
      exact absurd current active
    | some next =>
      have faithfulHere : Faithful tensors declared (declarationsOf statement) :=
        fun declaration member => faithful declaration (List.mem_append_left _ member)
      have faithfulRest : Faithful tensors declared (declarationsIn statements) :=
        fun declaration member => faithful declaration (List.mem_append_right _ member)
      have agreesNext := each statement List.mem_cons_self valid agrees faithfulHere firstAnalyzed
        first (by simp [current])
      exact ih (fun other member => each other (List.mem_cons_of_mem _ member))
        (advanced.settled.valid next current) agreesNext faithfulRest restAnalyzed rest

/-- One statement keeps the agreement, unless it ends every path. -/
theorem generateStatement_agrees (valid : Valid generator block)
    (agrees : Agrees tensors analyzer.symbols generator.values)
    (faithful : Faithful tensors declared (declarationsOf statement))
    (analyzed : analyzeStatement analysisOrder statement analyzer = .ok () analyzer')
    (success : generateStatement order declared statement generator = .ok () final)
    (active : final.currentBlockId ≠ none) : Agrees tensors analyzer'.symbols final.values := by
  induction statement generalizing generator final block analyzer analyzer' with
  | tensorDecl declaration =>
    rw [analyzeStatement] at analyzed
    rw [generateStatement] at success
    exact generateTensorDeclaration_agrees valid agrees faithful analyzed success
  | assignment assignment =>
    rw [analyzeStatement] at analyzed
    rw [generateStatement] at success
    exact generateAssignment_agrees valid agrees analyzed success
  | returnStmt returnStatement =>
    rw [generateStatement] at success
    exact absurd (generateReturn_valid valid success).2 active
  | ifStmt condition thenStatements elseStatements location thenIH elseIH =>
    obtain ⟨thenAnalyzer, elseAnalyzer, _, thenAnalyzed, elseAnalyzed, merged⟩ :=
      analyzeStatement_if_ok.mp analyzed
    obtain ⟨info, tested, thenGenerator, elseGenerator, conditional⟩ :=
      generateStatement_conditional valid success
    have started : Agrees tensors analyzer.symbols tested.values :=
      conditional.computed.values ▸ agrees
    have faithfulThen : Faithful tensors declared (declarationsIn thenStatements) :=
      fun declaration member => faithful declaration (List.mem_append_left _ member)
    have faithfulElse : Faithful tensors declared (declarationsIn elseStatements) :=
      fun declaration member => faithful declaration (List.mem_append_right _ member)
    exact conditional.joined.agrees
      (generateBranch_agrees_of thenIH conditional.thenValid started faithfulThen thenAnalyzed
        conditional.thenRun)
      (generateBranch_agrees_of elseIH conditional.elseValid (by exact started) faithfulElse
        elseAnalyzed
        conditional.elseRun)
      (analyzeStatement_if_branches thenAnalyzed elseAnalyzed merged) active
  | nullIf =>
    rw [generateStatement] at success
    cases success

section Effects

variable {effect : IRGenerator → IRGenerator → Prop}
  (refl : ∀ {generator block}, Valid generator block → effect generator generator)
  (trans : ∀ {generator middle final}, effect generator middle → effect middle final →
    effect generator final)
  (each : ∀ statement ∈ statements, ∀ {generator final block analyzer analyzer'},
    Valid generator block → Agrees tensors analyzer.symbols generator.values →
    Faithful tensors declared (declarationsOf statement) →
    analyzeStatement analysisOrder statement analyzer = .ok () analyzer' →
    generateStatement order declared statement generator = .ok () final → effect generator final)
include refl trans each

/-- An effect of each statement is an effect of the branch. -/
theorem generateBranch_effect (valid : Valid generator block)
    (agrees : Agrees tensors analyzer.symbols generator.values)
    (faithful : Faithful tensors declared (declarationsIn statements))
    (analyzed : analyzeStatements analysisOrder statements analyzer = .ok () analyzer')
    (success : generateBranch order declared statements generator = .ok () final) :
    effect generator final := by
  induction statements generalizing generator block analyzer with
  | nil =>
    cases success
    exact refl valid
  | cons statement statements ih =>
    obtain ⟨between, firstAnalyzed, restAnalyzed⟩ := analyzeStatements_cons_ok.mp analyzed
    rw [generateBranch_cons valid.current] at success
    obtain ⟨middle, first, rest⟩ := then_ok.mp success
    have faithfulHere : Faithful tensors declared (declarationsOf statement) :=
      fun declaration member => faithful declaration (List.mem_append_left _ member)
    have faithfulRest : Faithful tensors declared (declarationsIn statements) :=
      fun declaration member => faithful declaration (List.mem_append_right _ member)
    have here := each statement List.mem_cons_self valid agrees faithfulHere firstAnalyzed first
    have advanced := generateStatement_valid valid first
    cases current : middle.currentBlockId with
    | none =>
      rw [generateBranch_stopped current] at rest
      cases rest
      exact here
    | some next =>
      have agreesNext := generateStatement_agrees valid agrees faithfulHere firstAnalyzed first
        (by simp [current])
      exact trans here (ih (fun other member => each other (List.mem_cons_of_mem _ member))
        (advanced.settled.valid next current) agreesNext faithfulRest restAnalyzed rest)

/-- An effect of each statement is an effect of the program. -/
theorem generateTopLevel_effect (valid : Valid generator block)
    (agrees : Agrees tensors analyzer.symbols generator.values)
    (faithful : Faithful tensors declared (declarationsIn statements))
    (analyzed : analyzeStatements analysisOrder statements analyzer = .ok () analyzer')
    (success : generateTopLevel order declared statements generator = .ok () final) :
    effect generator final := by
  induction statements generalizing generator block analyzer with
  | nil =>
    cases success
    exact refl valid
  | cons statement statements ih =>
    obtain ⟨between, firstAnalyzed, restAnalyzed⟩ := analyzeStatements_cons_ok.mp analyzed
    rw [generateTopLevel_cons valid.current] at success
    obtain ⟨middle, first, rest⟩ := then_ok.mp success
    have faithfulHere : Faithful tensors declared (declarationsOf statement) :=
      fun declaration member => faithful declaration (List.mem_append_left _ member)
    have faithfulRest : Faithful tensors declared (declarationsIn statements) :=
      fun declaration member => faithful declaration (List.mem_append_right _ member)
    have here := each statement List.mem_cons_self valid agrees faithfulHere firstAnalyzed first
    have advanced := generateStatement_valid valid first
    cases current : middle.currentBlockId with
    | none =>
      cases statements with
      | nil =>
        cases rest
        exact here
      | cons next statements =>
        rw [generateTopLevel_stopped current] at rest
        cases rest
    | some next =>
      have agreesNext := generateStatement_agrees valid agrees faithfulHere firstAnalyzed first
        (by simp [current])
      exact trans here (ih (fun other member => each other (List.mem_cons_of_mem _ member))
        (advanced.settled.valid next current) agreesNext faithfulRest restAnalyzed rest)

end Effects

end Ocelotl.IR
