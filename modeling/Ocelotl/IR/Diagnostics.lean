import Ocelotl.IR.PathEnvironments
import Ocelotl.IR.EmittedOperations

namespace Ocelotl.IR

open Ast Semantic Library IRGenerator

variable {tensors : Prop} {generator middle final : IRGenerator} {block thenEnd elseEnd : BlockId}
  {analysisOrder order : TraversalOrder} {symbols declared : SymbolTable} {before : Environment}
  {expression : Expression} {statement : Statement} {statements : List Statement}
  {analyzer analyzer' accepted : SemanticAnalyzer} {program : Program} {type : TensorType}
  {error : IRError} {name : String} {seen bound bound' callees callees' : List String}
  {declarations declarations' : List TensorDecl}

mutual

/-- The names that a statement binds, once for each place that binds one. -/
def boundBy : Statement → List String
  | .tensorDecl declaration => [declaration.name]
  | .assignment assignment => [assignment.target]
  | .ifStmt _ thenStatements elseStatements _ => boundIn thenStatements ++ boundIn elseStatements
  | .returnStmt _ | .nullIf => []

def boundIn : List Statement → List String
  | [] => []
  | statement :: statements => boundBy statement ++ boundIn statements

end

/-- After the join a name has the type that it has in every branch that continues. -/
theorem JoinRun.keeps {thenGenerator elseGenerator : IRGenerator}
    (run : JoinRun order before thenGenerator elseGenerator final)
    (fromThen : thenGenerator.currentBlockId ≠ none →
      typesOf thenGenerator.values name = typesOf before name)
    (fromElse : elseGenerator.currentBlockId ≠ none →
      typesOf elseGenerator.values name = typesOf before name)
    (active : final.currentBlockId ≠ none) : typesOf final.values name = typesOf before name := by
  cases run with
  | neither _ _ same =>
    subst same
    exact absurd rfl active
  | elseOnly elseEnd _ elseCurrent _ same =>
    subst same
    exact fromElse (by simp [elseCurrent])
  | thenOnly thenEnd thenCurrent _ _ same =>
    subst same
    exact fromThen (by simp [thenCurrent])
  | both thenEnd elseEnd thenCurrent elseCurrent _ merging success _ =>
    have inThen := fromThen (by simp [thenCurrent])
    have inElse := fromElse (by simp [elseCurrent])
    have merged := mergeValues_values merging.valid.toActive (order.nodup_traverse _ _)
      (fun _ _ => AList.lookup_empty _) success
    ext type
    rw [← inThen]
    constructor
    · intro known
      obtain ⟨info, found, typed⟩ := typesOf_eq_some.mp known
      rcases merged.only found with old | ⟨thenValue, _, member, _, same⟩
      · cases (AList.lookup_empty name).symm.trans old
      · exact typesOf_eq_some.mpr ⟨thenValue, order.mem_traverse.mp member, same.symm.trans typed⟩
    · intro known
      obtain ⟨elseValue, elseFound, _⟩ :=
        typesOf_eq_some.mp (inElse.trans (inThen.symm.trans known))
      obtain ⟨thenValue, thenFound, typed⟩ := typesOf_eq_some.mp known
      obtain ⟨_, info, found, same⟩ := merged.joined (order.mem_traverse.mpr thenFound) elseFound
      exact typesOf_eq_some.mpr ⟨info, found, same.trans typed⟩

private theorem generateBranch_unbound_of
    (each : ∀ statement ∈ statements, ∀ {generator final block}, Valid generator block →
      generateStatement order declared statement generator = .ok () final →
        name ∉ boundBy statement →
      final.currentBlockId ≠ none → typesOf final.values name = typesOf generator.values name)
    (valid : Valid generator block)
    (success : generateBranch order declared statements generator = .ok () final)
    (unbound : name ∉ boundIn statements) (active : final.currentBlockId ≠ none) :
    typesOf final.values name = typesOf generator.values name := by
  induction statements generalizing generator block with
  | nil =>
    cases success
    rfl
  | cons statement statements ih =>
    rw [boundIn, List.mem_append, not_or] at unbound
    rw [generateBranch_cons valid.current] at success
    obtain ⟨middle, first, rest⟩ := then_ok.mp success
    cases current : middle.currentBlockId with
    | none =>
      rw [generateBranch_stopped current] at rest
      cases rest
      exact absurd current active
    | some next =>
      have here := each statement List.mem_cons_self valid first unbound.1 (by simp [current])
      have valid' := (generateStatement_valid valid first).settled.valid next current
      exact (ih (fun other member => each other (List.mem_cons_of_mem _ member)) valid' rest
        unbound.2).trans here

/-- A name that a statement does not bind keeps its type, or stays unbound. -/
theorem generateStatement_unbound (valid : Valid generator block)
    (success : generateStatement order declared statement generator = .ok () final)
    (unbound : name ∉ boundBy statement) (active : final.currentBlockId ≠ none) :
    typesOf final.values name = typesOf generator.values name := by
  induction statement generalizing generator final block with
  | tensorDecl declaration =>
    rw [generateStatement] at success
    obtain ⟨type, _, _, rfl⟩ := (generateTensorDeclaration_ok valid.toActive).mp success
    have other : name ≠ declaration.name := fun same => unbound (List.mem_singleton.mpr same)
    exact (typesOf_insert _ _ _ _).trans (if_neg other)
  | assignment assignment =>
    rw [generateStatement] at success
    obtain ⟨info, middle, first, rfl⟩ := generateAssignment_ok.mp success
    have other : name ≠ assignment.target := fun same => unbound (List.mem_singleton.mpr same)
    rw [← (generateExpression_valid valid first).values]
    exact (typesOf_insert _ _ _ _).trans (if_neg other)
  | returnStmt returnStatement =>
    rw [generateStatement] at success
    obtain ⟨info, middle, first, rfl⟩ := (generateReturn_ok fun _ _ first =>
      (generateExpression_valid valid first).valid.toActive).mp success
    exact absurd rfl active
  | ifStmt condition thenStatements elseStatements location thenIH elseIH =>
    obtain ⟨info, tested, thenGenerator, elseGenerator, conditional⟩ :=
      generateStatement_conditional valid success
    rw [boundBy, List.mem_append, not_or] at unbound
    rw [← conditional.computed.values]
    refine conditional.joined.keeps (fun active => ?_) (fun active => ?_) active
    · have kept :=
        generateBranch_unbound_of thenIH conditional.thenValid conditional.thenRun unbound.1 active
      exact kept
    · have kept :=
        generateBranch_unbound_of elseIH conditional.elseValid conditional.elseRun unbound.2 active
      exact kept
  | nullIf =>
    rw [generateStatement] at success
    cases success

theorem generateBranch_unbound (valid : Valid generator block)
    (success : generateBranch order declared statements generator = .ok () final)
    (unbound : name ∉ boundIn statements) (active : final.currentBlockId ≠ none) :
    typesOf final.values name = typesOf generator.values name :=
  generateBranch_unbound_of (fun _ _ => generateStatement_unbound) valid success unbound active

/-- Every name that is bound is one of the list. -/
def BindsOnly (seen : List String) (values : Environment) : Prop :=
  ∀ name, typesOf values name ≠ none → name ∈ seen

theorem BindsOnly.after (only : BindsOnly seen generator.values)
    (keeps : ∀ {name}, name ∉ bound → typesOf middle.values name = typesOf generator.values name) :
    BindsOnly (seen ++ bound) middle.values := by
  intro name known
  by_cases here : name ∈ bound
  · exact List.mem_append_right _ here
  · rw [keeps here] at known
    exact List.mem_append_left _ (only name known)

/-- What an error can mean: a name is bound twice, the declared type of a tensor
is not the one in the table, or the table has none. -/
inductive Blames (tensors : Prop) (declared : SymbolTable) (bound : List String)
    (declarations : List TensorDecl) (callees : List String) : IRError → Prop where
  | duplicateValue {declaration : TensorDecl} (member : declaration ∈ declarations)
    (twice : 2 ≤ bound.count declaration.name) :
    Blames tensors declared bound declarations callees (.duplicateValue declaration.name)
  | branchTypeMismatch {name : String} (twice : 2 ≤ bound.count name) :
    Blames tensors declared bound declarations callees (.branchTypeMismatch name)
  | typeNotFound {declaration : TensorDecl} (member : declaration ∈ declarations)
    (unknown : declared.typeOf declaration.name = none) :
    Blames tensors declared bound declarations callees (.typeNotFound declaration.name)
  | outOfRange (called : "matmul" ∈ callees) (inexact : ¬ tensors) :
    Blames tensors declared bound declarations callees .outOfRange

theorem Blames.mono (blames : Blames tensors declared bound declarations callees error)
    (moreBound : bound.Sublist bound') (moreDeclarations : declarations ⊆ declarations')
    (moreCallees : callees ⊆ callees') :
    Blames tensors declared bound' declarations' callees' error := by
  cases blames with
  | duplicateValue member twice =>
    exact .duplicateValue (moreDeclarations member) (twice.trans (moreBound.count_le _))
  | branchTypeMismatch twice => exact .branchTypeMismatch (twice.trans (moreBound.count_le _))
  | typeNotFound member unknown => exact .typeNotFound (moreDeclarations member) unknown
  | outOfRange called inexact => exact .outOfRange (moreCallees called) inexact

private theorem two_le_count (left : name ∈ seen) (right : name ∈ bound) :
    2 ≤ (seen ++ bound).count name := by
  rw [List.count_append]
  have one := List.count_pos_iff.mpr left
  have other := List.count_pos_iff.mpr right
  lia

/-- A product is only rejected when a dimension that it needs is missing. -/
theorem generateMatmul_error {lhs rhs : ValueInfo} (active : Active generator block)
    (failure : generateMatmul lhs rhs generator = .error error final) : error = .outOfRange := by
  cases rows : lhs.type.shape[0]? with
  | none =>
    rw [generateMatmul, rows] at failure
    cases failure
    rfl
  | some m =>
    cases columns : rhs.type.shape[1]? with
    | none =>
      rw [generateMatmul, rows, columns] at failure
      cases failure
      rfl
    | some n =>
      rw [generateMatmul_apply active rows columns] at failure
      cases failure

/-- An analysed expression is only rejected at a product of matrices whose types changed. -/
theorem generateExpression_error (valid : Valid generator block)
    (agrees : Agrees tensors symbols generator.values)
    (analyzed : analyzeExpression symbols expression = .ok type)
    (failure : generateExpression expression generator = .error error final) :
    error = .outOfRange ∧ "matmul" ∈ calleesOf expression ∧ ¬ tensors := by
  induction expression generalizing generator error final type with
  | identifier name location =>
    rw [analyzeExpression, analyzeIdentifier_ok] at analyzed
    obtain ⟨info, found, _⟩ := agrees name type analyzed
    rw [generateExpression, generateIdentifier_ok.mpr ⟨found, rfl⟩] at failure
    cases failure
  | integer value location =>
    rw [generateExpression, generateInteger_apply valid.toActive] at failure
    cases failure
  | float value location =>
    rw [generateExpression, generateFloat_apply valid.toActive] at failure
    cases failure
  | call callee arguments location ih =>
    rcases analyzeExpression_call_ok.mp analyzed with
      ⟨argument, rfl, rfl, typed⟩ |
      ⟨lhsExpression, rhsExpression, lhsType, rhsType, rfl, rfl, leftTyped, rightTyped, typed⟩
    · rw [generateExpression, if_pos rfl, bind_error] at failure
      rcases failure with inside | ⟨input, middle, first, rest⟩
      · obtain ⟨same, called, inexact⟩ := ih argument (by simp) valid agrees typed inside
        exact ⟨same, List.mem_cons_of_mem _ (List.mem_append_left _ called), inexact⟩
      · rw [generateRelu_apply (generateExpression_valid valid first).valid.toActive] at rest
        cases rest
    · refine ⟨?_, List.mem_cons_self, ?_⟩
      · rw [generateExpression, if_pos rfl, bind_error] at failure
        rcases failure with inside | ⟨lhs, middle, first, failure⟩
        · exact (ih lhsExpression (by simp) valid agrees leftTyped inside).1
        have left := generateExpression_valid valid first
        rcases bind_error.mp failure with inside | ⟨rhs, later, second, rest⟩
        · exact (ih rhsExpression (by simp) left.valid (left.values ▸ agrees) rightTyped inside).1
        have right := generateExpression_valid left.valid second
        exact generateMatmul_error right.valid.toActive rest
      · intro exact
        have agrees : Agrees True symbols generator.values := fun name type known => by
          obtain ⟨info, found, typed⟩ := agrees name type known
          exact ⟨info, found, fun _ => typed (.inr exact)⟩
        obtain ⟨_, _, success, _⟩ := generateExpression_total valid agrees analyzed
        cases success.symm.trans failure
  | nullCall => cases analyzed
  | nullBinary => cases analyzed
  | binary op lhsExpression rhsExpression location lhsIH rhsIH =>
    obtain ⟨operand, leftTyped, rightTyped, numeric, _⟩ := analyzeExpression_binary_ok.mp analyzed
    rw [generateExpression, bind_error] at failure
    rcases failure with inside | ⟨lhs, middle, first, failure⟩
    · obtain ⟨same, called, inexact⟩ := lhsIH valid agrees leftTyped inside
      exact ⟨same, List.mem_append_left _ called, inexact⟩
    have left := generateExpression_valid valid first
    have agrees' : Agrees tensors symbols middle.values := left.values ▸ agrees
    rcases bind_error.mp failure with inside | ⟨rhs, later, second, rest⟩
    · obtain ⟨same, called, inexact⟩ := rhsIH left.valid agrees' rightTyped inside
      exact ⟨same, List.mem_append_right _ called, inexact⟩
    have right := generateExpression_valid left.valid second
    have leftType := generateExpression_type valid agrees leftTyped first (.inl numeric.shape)
    have rightType :=
      generateExpression_type left.valid agrees' rightTyped second (.inl numeric.shape)
    rw [generateBinary_apply op right.valid.toActive (leftType.trans rightType.symm)] at rest
    cases rest

/-- An expression of a statement is to blame. -/
theorem generateExpression_blames (valid : Valid generator block)
    (agrees : Agrees tensors symbols generator.values)
    (analyzed : analyzeExpression symbols expression = .ok type)
    (failure : generateExpression expression generator = .error error final) :
    Blames tensors declared bound declarations (calleesOf expression) error := by
  obtain ⟨rfl, called, inexact⟩ := generateExpression_error valid agrees analyzed failure
  exact .outOfRange called inexact

/-- A declaration is rejected when its name has no type or is bound already. -/
theorem generateTensorDeclaration_error {declaration : TensorDecl} (active : Active generator block)
    (failure : generateTensorDeclaration declared declaration generator = .error error final) :
    error = .typeNotFound declaration.name ∧ declared.typeOf declaration.name = none ∨
      error = .duplicateValue declaration.name ∧
        typesOf generator.values declaration.name ≠ none := by
  cases found : declared.typeOf declaration.name with
  | none =>
    simp only [generateTensorDeclaration, createValue, bind, EStateM.bind,
      modifyGet_apply, lookupType,
      SymbolTable.typeOf_eq_none.mp found, throw_apply, EStateM.Result.error.injEq] at failure
    exact .inl ⟨failure.1.symm, rfl⟩
  | some type =>
    cases known : typesOf generator.values declaration.name with
    | none =>
      have free : declaration.name ∉ generator.values :=
        AList.lookup_eq_none.mp (Option.map_eq_none_iff.mp known)
      cases ((generateTensorDeclaration_ok active).mpr ⟨type, found, free, rfl⟩).symm.trans failure
    | some other =>
      obtain ⟨symbol, looked, _⟩ := SymbolTable.lookup_of_typeOf found
      obtain ⟨info, bound, _⟩ := typesOf_eq_some.mp known
      have taken : declaration.name ∈ generator.values :=
        AList.lookup_isSome.mp (Option.isSome_of_eq_some bound)
      have active' : Active generator.addValue block := ⟨active.current, active.isOpen⟩
      have kept : UnorderedMap.emplace (generator.addValue.changeBlock block
          (·.append (.tensorDecl generator.nextValueId declaration.name symbol.type))).values
          declaration.name (⟨generator.nextValueId, symbol.type⟩ : ValueInfo) =
          (false, generator.values) := UnorderedMap.emplace_present taken
      simp only [generateTensorDeclaration, createValue, emit, bind, EStateM.bind,
        modifyGet_apply, lookupType,
        looked, pure_apply, updateCurrentBlock_apply active', emplaceValue, kept,
          Bool.false_eq_true,
        if_false, throw_apply, EStateM.Result.error.injEq] at failure
      exact .inr ⟨failure.1.symm, by simp⟩

/-- Branches are only rejected at a name to which they give two types. -/
theorem joinBranches_error {thenGenerator elseGenerator : IRGenerator}
    (built : Branched generator block thenGenerator elseGenerator)
    (failure : joinBranches order before thenGenerator.currentBlockId elseGenerator.currentBlockId
      thenGenerator.values elseGenerator.values elseGenerator = .error error final) :
    thenGenerator.currentBlockId ≠ none ∧ elseGenerator.currentBlockId ≠ none ∧
      ∃ name thenType elseType, error = .branchTypeMismatch name ∧ thenType ≠ elseType ∧
        typesOf thenGenerator.values name = some thenType ∧
          typesOf elseGenerator.values name = some elseType := by
  cases thenCurrent : thenGenerator.currentBlockId with
  | none =>
    rw [thenCurrent] at failure
    cases elseCurrent : elseGenerator.currentBlockId with
    | none =>
      rw [elseCurrent, joinBranches_neither] at failure
      cases failure
    | some elseEnd =>
      rw [elseCurrent, joinBranches_else] at failure
      cases failure
  | some thenEnd =>
    rw [thenCurrent] at failure
    cases elseCurrent : elseGenerator.currentBlockId with
    | none =>
      rw [elseCurrent, joinBranches_then] at failure
      cases failure
    | some elseEnd =>
      obtain ⟨_, thenOpen, _⟩ := built.thenEnd thenEnd thenCurrent
      obtain ⟨_, elseOpen, _⟩ := built.elseEnd elseEnd elseCurrent
      have distinct := built.distinct thenEnd elseEnd thenCurrent elseCurrent
      have joined : Joined elseGenerator [thenEnd, elseEnd] _ :=
        built.built.join (by simpa using distinct) (by simpa using ⟨thenOpen, elseOpen⟩)
      rw [elseCurrent, joinBranches_both] at failure
      have active :
          Active ((elseGenerator.join [thenEnd, elseEnd]).enter (some elseGenerator.nextBlockId) ∅)
          elseGenerator.nextBlockId := ⟨rfl, joined.untouched.isOpen⟩
      obtain ⟨name, thenValue, elseValue, same, member, found, different⟩ :=
        mergeValues_error active failure
      exact ⟨by simp, by simp, name, thenValue.type, elseValue.type, same, different,
        typesOf_eq_some.mpr ⟨thenValue, order.mem_traverse.mp member, rfl⟩,
        typesOf_eq_some.mpr ⟨elseValue, found, rfl⟩⟩

/-- A name that the branches give two types is bound in one of them, and before it
or in the other one. -/
theorem two_le_count_of_branches {thenValues elseValues : Environment}
    {thenBound elseBound : List String} {thenType elseType : TensorType}
    (only : BindsOnly seen before) (different : thenType ≠ elseType)
    (inThen : typesOf thenValues name = some thenType)
    (inElse : typesOf elseValues name = some elseType)
    (fromThen : name ∉ thenBound → typesOf thenValues name = typesOf before name)
    (fromElse : name ∉ elseBound → typesOf elseValues name = typesOf before name) :
    2 ≤ (seen ++ (thenBound ++ elseBound)).count name := by
  by_cases thenBinds : name ∈ thenBound
  · by_cases elseBinds : name ∈ elseBound
    · exact (two_le_count thenBinds elseBinds).trans ((List.sublist_append_right _ _).count_le _)
    · have earlier : name ∈ seen := only name (by rw [← fromElse elseBinds, inElse]; simp)
      exact two_le_count earlier (List.mem_append_left _ thenBinds)
  · have earlier := fromThen thenBinds
    by_cases elseBinds : name ∈ elseBound
    · have seen : name ∈ seen := only name (by rw [← earlier, inThen]; simp)
      exact two_le_count seen (List.mem_append_right _ elseBinds)
    · have same := fromElse elseBinds
      rw [inElse, ← earlier, inThen] at same
      exact absurd (Option.some.inj same).symm different

private theorem generateBranch_blames_of
    (each : ∀ statement ∈ statements, ∀ {generator final block analyzer analyzer' error seen},
      Valid generator block → Agrees tensors analyzer.symbols generator.values →
      Faithful tensors declared (declarationsOf statement) → BindsOnly seen generator.values →
      analyzeStatement analysisOrder statement analyzer = .ok () analyzer' →
      generateStatement order declared statement generator = .error error final →
      Blames tensors declared (seen ++ boundBy statement) (declarationsOf statement)
        (callsOf statement) error)
    (valid : Valid generator block) (agrees : Agrees tensors analyzer.symbols generator.values)
    (faithful : Faithful tensors declared (declarationsIn statements))
    (only : BindsOnly seen generator.values)
    (analyzed : analyzeStatements analysisOrder statements analyzer = .ok () analyzer')
    (failure : generateBranch order declared statements generator = .error error final) :
    Blames tensors declared (seen ++ boundIn statements) (declarationsIn statements)
      (callsIn statements) error := by
  induction statements generalizing generator block analyzer seen with
  | nil => cases failure
  | cons statement statements ih =>
    obtain ⟨between, firstAnalyzed, restAnalyzed⟩ := analyzeStatements_cons_ok.mp analyzed
    have faithfulHere : Faithful tensors declared (declarationsOf statement) :=
      fun declaration member => faithful declaration (List.mem_append_left _ member)
    have faithfulRest : Faithful tensors declared (declarationsIn statements) :=
      fun declaration member => faithful declaration (List.mem_append_right _ member)
    rw [generateBranch_cons valid.current, bind_error] at failure
    rcases failure with here | ⟨_, middle, first, rest⟩
    · have blames :=
        each statement List.mem_cons_self valid agrees faithfulHere only firstAnalyzed here
      exact blames.mono (List.Sublist.append_left (List.sublist_append_left _ _) _)
        (List.subset_append_left _ _) (List.subset_append_left _ _)
    · cases current : middle.currentBlockId with
      | none =>
        rw [generateBranch_stopped current] at rest
        cases rest
      | some next =>
        have active : middle.currentBlockId ≠ none := by simp [current]
        have agrees' :=
          generateStatement_agrees valid agrees faithfulHere firstAnalyzed first active
        have only' : BindsOnly (seen ++ boundBy statement) middle.values :=
          only.after fun unbound => generateStatement_unbound valid first unbound active
        have valid' := (generateStatement_valid valid first).settled.valid next current
        have blames :=
          ih (fun other member => each other (List.mem_cons_of_mem _ member)) valid' agrees'
          faithfulRest only' restAnalyzed rest
        rw [List.append_assoc] at blames
        exact blames.mono (List.Sublist.refl _) (List.subset_append_right _ _)
          (List.subset_append_right _ _)

/-- Every error of an analysed statement is to blame on what it binds, declares or calls. -/
theorem generateStatement_blames (valid : Valid generator block)
    (agrees : Agrees tensors analyzer.symbols generator.values)
    (faithful : Faithful tensors declared (declarationsOf statement))
    (only : BindsOnly seen generator.values)
    (analyzed : analyzeStatement analysisOrder statement analyzer = .ok () analyzer')
    (failure : generateStatement order declared statement generator = .error error final) :
    Blames tensors declared (seen ++ boundBy statement) (declarationsOf statement)
      (callsOf statement) error := by
  induction statement generalizing generator final block analyzer analyzer' error seen with
  | tensorDecl declaration =>
    rw [generateStatement] at failure
    have member : declaration ∈ declarationsOf (.tensorDecl declaration) :=
      List.mem_singleton.mpr rfl
    rcases generateTensorDeclaration_error valid.toActive failure with ⟨rfl, unknown⟩ | ⟨rfl, known⟩
    · exact .typeNotFound member unknown
    · exact .duplicateValue member (two_le_count (only _ known) (List.mem_singleton.mpr rfl))
  | assignment assignment =>
    rw [analyzeStatement] at analyzed
    obtain ⟨type, typed, _⟩ := analyzeAssignment_ok.mp analyzed
    rw [generateStatement, generateAssignment, bind_error] at failure
    rcases failure with inside | ⟨_, _, _, bound⟩
    · exact generateExpression_blames valid agrees typed inside
    · cases bound
  | returnStmt returnStatement =>
    rw [analyzeStatement] at analyzed
    rw [generateStatement, generateReturn, bind_error] at failure
    rcases failure with inside | ⟨info, middle, first, rest⟩
    · exact generateExpression_blames valid agrees (analyzeReturn_ok.mp analyzed).1 inside
    · have active := (generateExpression_valid valid first).valid.toActive
      rw [bind_of_ok (updateCurrentBlock_apply active)] at rest
      cases rest
  | ifStmt condition thenStatements elseStatements location thenIH elseIH =>
    obtain ⟨thenAnalyzer, elseAnalyzer, conditionTyped, thenAnalyzed, elseAnalyzed, _⟩ :=
      analyzeStatement_if_ok.mp analyzed
    cases first : generateExpression condition generator with
    | error other middle =>
      rw [generateStatement, bind_of_error first] at failure
      cases failure
      have blames :
          Blames tensors declared (seen ++
            boundBy (.ifStmt condition thenStatements elseStatements location))
          (declarationsOf (.ifStmt condition thenStatements elseStatements location))
            (calleesOf condition) error :=
        generateExpression_blames valid agrees conditionTyped first
      exact blames.mono (List.Sublist.refl _) (List.Subset.refl _) (List.subset_append_left _ _)
    | ok info tested =>
      have typed := generateExpression_type valid agrees conditionTyped first (.inl rfl)
      have computed := generateExpression_valid valid first
      have fork := computed.valid.built.fork computed.valid.isOpen (typed ▸ computed.available)
      have thenValid := fork.thenValid computed.valid
      have agrees' : Agrees tensors analyzer.symbols tested.values := computed.values ▸ agrees
      have only' : BindsOnly seen tested.values := computed.values ▸ only
      rw [generateStatement_if_apply first typed computed.valid.current, bind_error] at failure
      rcases failure with inside | ⟨_, thenGenerator, thenRun, failure⟩
      · have blames := generateBranch_blames_of thenIH thenValid agrees'
          (fun declaration member => faithful declaration (List.mem_append_left _ member)) only'
            thenAnalyzed inside
        exact blames.mono (List.Sublist.append_left (List.sublist_append_left _ _) _)
          (List.subset_append_left _ _)
          fun _ member => List.mem_append_right _ (List.mem_append_left _ member)
      have thenBranch := generateBranch_valid thenValid thenRun
      have elseValid := fork.elseValid computed.valid thenBranch
      have failure : (generateBranch order declared elseStatements >>= fun _ => do
          let elseGenerator ← get
          joinBranches order tested.values thenGenerator.currentBlockId elseGenerator.currentBlockId
            thenGenerator.values elseGenerator.values) (thenGenerator.enterElse tested) =
              .error error final := failure
      rcases bind_error.mp failure with inside | ⟨_, elseGenerator, elseRun, joining⟩
      · have agrees'' : Agrees tensors { thenAnalyzer with symbols := analyzer.symbols }.symbols
            tested.values := agrees'
        have blames := generateBranch_blames_of elseIH elseValid agrees''
          (fun declaration member => faithful declaration (List.mem_append_right _ member)) only'
            elseAnalyzed inside
        exact blames.mono (List.Sublist.append_left (List.sublist_append_right _ _) _)
          (List.subset_append_right _ _)
          fun _ member => List.mem_append_right _ (List.mem_append_right _ member)
      have elseBranch := generateBranch_valid elseValid elseRun
      obtain ⟨thenActive, elseActive, name, thenType, elseType, rfl, different, inThen, inElse⟩ :=
        joinBranches_error (fork.branched computed.valid thenBranch elseBranch) joining
      refine .branchTypeMismatch
        (two_le_count_of_branches only' different inThen inElse (fun unbound => ?_)
        fun unbound => ?_)
      · have kept := generateBranch_unbound thenValid thenRun unbound thenActive
        exact kept
      · have kept := generateBranch_unbound elseValid elseRun unbound elseActive
        exact kept
  | nullIf => cases analyzed

/-- What follows a conditional is reached from the branches that continue. -/
theorem JoinRun.active_iff {thenGenerator elseGenerator : IRGenerator}
    (run : JoinRun order before thenGenerator elseGenerator final) :
    final.currentBlockId ≠ none ↔ thenGenerator.currentBlockId ≠ none ∨
      elseGenerator.currentBlockId ≠ none := by
  cases run with
  | neither thenCurrent elseCurrent same =>
    subst same
    simp [thenCurrent, elseCurrent]
  | elseOnly elseEnd thenCurrent elseCurrent _ same =>
    subst same
    simp [elseCurrent]
  | thenOnly thenEnd thenCurrent elseCurrent _ same =>
    subst same
    simp [thenCurrent]
  | both thenEnd elseEnd thenCurrent elseCurrent _ _ _ merged =>
    simp [thenCurrent, merged.merging.valid.current]

private theorem generateBranch_continues_of
    (each : ∀ statement ∈ statements, ∀ {generator final block}, Valid generator block →
      generateStatement order declared statement generator = .ok () final →
      (final.currentBlockId ≠ none ↔ continues statement = true))
    (valid : Valid generator block)
    (success : generateBranch order declared statements generator = .ok () final) :
    final.currentBlockId ≠ none ↔ continuesIn statements = true := by
  induction statements generalizing generator block with
  | nil =>
    cases success
    simp [valid.current, continuesIn]
  | cons statement statements ih =>
    rw [generateBranch_cons valid.current] at success
    obtain ⟨middle, first, rest⟩ := then_ok.mp success
    have here := each statement List.mem_cons_self valid first
    cases current : middle.currentBlockId with
    | none =>
      rw [generateBranch_stopped current] at rest
      cases rest
      rw [here, continuesIn]
      simp [current] at here
      simp [here]
    | some next =>
      have goes := here.mp (by simp [current])
      have valid' := (generateStatement_valid valid first).settled.valid next current
      rw [continuesIn, goes, Bool.true_and]
      exact ih (fun other member => each other (List.mem_cons_of_mem _ member)) valid' rest

/-- The generator has an active block after a statement that some path continues after. -/
theorem generateStatement_continues (valid : Valid generator block)
    (success : generateStatement order declared statement generator = .ok () final) :
    final.currentBlockId ≠ none ↔ continues statement = true := by
  induction statement generalizing generator final block with
  | tensorDecl declaration =>
    rw [generateStatement] at success
    obtain ⟨type, _, _, rfl⟩ := (generateTensorDeclaration_ok valid.toActive).mp success
    simp [rebind, valid.current, continues]
  | assignment assignment =>
    rw [generateStatement] at success
    obtain ⟨info, middle, first, rfl⟩ := generateAssignment_ok.mp success
    simp [rebind, (generateExpression_valid valid first).valid.current, continues]
  | returnStmt returnStatement =>
    rw [generateStatement] at success
    obtain ⟨info, middle, first, rfl⟩ := (generateReturn_ok fun _ _ first =>
      (generateExpression_valid valid first).valid.toActive).mp success
    simp [continues]
  | ifStmt condition thenStatements elseStatements location thenIH elseIH =>
    obtain ⟨info, tested, thenGenerator, elseGenerator, conditional⟩ :=
      generateStatement_conditional valid success
    rw [conditional.joined.active_iff, continues, Bool.or_eq_true,
      generateBranch_continues_of thenIH conditional.thenValid conditional.thenRun,
      generateBranch_continues_of elseIH conditional.elseValid conditional.elseRun]
  | nullIf =>
    rw [generateStatement] at success
    cases success

private theorem generateTopLevel_continues (valid : Valid generator block)
    (success : generateTopLevel order declared statements generator = .ok () final) :
    final.currentBlockId ≠ none ↔ continuesIn statements = true := by
  induction statements generalizing generator block with
  | nil =>
    cases success
    simp [valid.current, continuesIn]
  | cons statement statements ih =>
    rw [generateTopLevel_cons valid.current] at success
    obtain ⟨middle, first, rest⟩ := then_ok.mp success
    have here := generateStatement_continues valid first
    cases current : middle.currentBlockId with
    | none =>
      cases statements with
      | nil =>
        cases rest
        simpa [continuesIn] using here
      | cons next statements =>
        rw [generateTopLevel_stopped current] at rest
        cases rest
    | some next =>
      have goes := here.mp (by simp [current])
      have valid' := (generateStatement_valid valid first).settled.valid next current
      rw [continuesIn, goes, Bool.true_and]
      exact ih valid' rest

private theorem generateTopLevel_blames (valid : Valid generator block)
    (agrees : Agrees tensors analyzer.symbols generator.values)
    (faithful : Faithful tensors declared (declarationsIn statements))
    (only : BindsOnly seen generator.values)
    (analyzed : analyzeStatements analysisOrder statements analyzer = .ok () analyzer')
    (failure : generateTopLevel order declared statements generator = .error error final) :
    error = .unreachableStatement ∧ hasUnreachable statements = true ∨
      Blames tensors declared (seen ++ boundIn statements) (declarationsIn statements)
        (callsIn statements) error := by
  induction statements generalizing generator block analyzer seen with
  | nil => cases failure
  | cons statement statements ih =>
    obtain ⟨between, firstAnalyzed, restAnalyzed⟩ := analyzeStatements_cons_ok.mp analyzed
    have faithfulHere : Faithful tensors declared (declarationsOf statement) :=
      fun declaration member => faithful declaration (List.mem_append_left _ member)
    have faithfulRest : Faithful tensors declared (declarationsIn statements) :=
      fun declaration member => faithful declaration (List.mem_append_right _ member)
    rw [generateTopLevel_cons valid.current, bind_error] at failure
    rcases failure with here | ⟨_, middle, first, rest⟩
    · have blames := generateStatement_blames valid agrees faithfulHere only firstAnalyzed here
      exact .inr (blames.mono (List.Sublist.append_left (List.sublist_append_left _ _) _)
        (List.subset_append_left _ _) (List.subset_append_left _ _))
    · cases current : middle.currentBlockId with
      | none =>
        cases statements with
        | nil => cases rest
        | cons next statements =>
          rw [generateTopLevel_stopped current] at rest
          cases rest
          have ends : continues statement = false := by
            rw [← Bool.not_eq_true, ← generateStatement_continues valid first]
            exact not_not.mpr current
          exact .inl ⟨rfl, by simp [hasUnreachable, ends]⟩
      | some next =>
        have active : middle.currentBlockId ≠ none := by simp [current]
        have agrees' :=
          generateStatement_agrees valid agrees faithfulHere firstAnalyzed first active
        have only' : BindsOnly (seen ++ boundBy statement) middle.values :=
          only.after fun unbound => generateStatement_unbound valid first unbound active
        have valid' := (generateStatement_valid valid first).settled.valid next current
        rcases ih valid' agrees' faithfulRest only' restAnalyzed rest with
          ⟨same, unreachable⟩ | blames
        · exact .inl ⟨same, by simp [hasUnreachable, unreachable]⟩
        · rw [List.append_assoc] at blames
          exact .inr (blames.mono (List.Sublist.refl _) (List.subset_append_right _ _)
            (List.subset_append_right _ _))

/-- What an error of the generator means for the program. There are no other
errors than these: the ones that stand for a broken invariant of the compiler
have no case. -/
inductive Explains (declared : SymbolTable) (program : Program) : IRError → Prop where
  | unreachableStatement (unreachable : hasUnreachable program.statements = true) :
    Explains declared program .unreachableStatement
  | pathWithoutReturn (goes : continuesIn program.statements = true) :
    Explains declared program .pathWithoutReturn
  | statement {error : IRError}
    (blames : Blames (Faithful True declared (declarationsIn program.statements)) declared
      (boundIn program.statements) (declarationsIn program.statements)
        (callsIn program.statements) error) :
    Explains declared program error

/-- Every error on an analysed program whose tensors have dimensions is explained by the program. -/
theorem generate_explains (analyzed : analyze analysisOrder program = .ok accepted)
    (ranked : ∀ declaration ∈ declarationsIn program.statements, declaration.type.shape ≠ [])
    (failure : generate order accepted program = .error error) :
    Explains accepted.symbols program error := by
  -- The table is right about the types that are exact: no scalar is declared.
  have faithful : Faithful (Faithful True accepted.symbols (declarationsIn program.statements))
      accepted.symbols (declarationsIn program.statements) := by
    intro declaration member exact
    have whole := exact.resolve_left (ranked declaration member)
    exact whole declaration member (.inr trivial)
  have analyzed' := analyze_ok.mp analyzed
  have agrees {tensors : Prop} : Agrees tensors SymbolTable.empty started.values :=
    fun name type known => by
    simp at known
  have only : BindsOnly [] started.values := fun name known => absurd rfl known
  cases run : generateTopLevel order accepted.symbols program.statements started with
  | error other final =>
    have failed : generate order accepted program = .error other :=
      generate_error (by rw [generateUnverified_eq, bind_of_error run])
    cases failed.symm.trans failure
    rcases generateTopLevel_blames .started agrees faithful only analyzed' run with
      ⟨rfl, unreachable⟩ | blames
    · exact .unreachableStatement unreachable
    · exact .statement blames
  | ok _ final =>
    cases current : final.currentBlockId with
    | none =>
      have success := generateUnverified_ok.mpr ⟨run, current⟩
      have generated :=
        generate_ok.mpr ⟨final, success, verify_of_faithful analyzed faithful success, rfl⟩
      cases generated.symm.trans failure
    | some block =>
      have active := ((generateTopLevel_valid .started run).settled.valid block current).toActive
      have failed : generate order accepted program = .error .pathWithoutReturn :=
        generate_error (by rw [generateUnverified_eq, bind_of_ok run, requireReturn_active active])
      cases failed.symm.trans failure
      exact .pathWithoutReturn ((generateTopLevel_continues .started run).mp (by simp [current]))

end Ocelotl.IR
