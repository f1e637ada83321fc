import Ocelotl.IR.Invariant

namespace Ocelotl.IR

open Ast Semantic Library IRGenerator

variable {generator generator' final : IRGenerator} {block thenEnd elseEnd : BlockId}
  {name : String} {value : BitVec 64} {type : TensorType} {info lhs rhs input : ValueInfo}
  {condition lhsExpression rhsExpression : Expression} {location : SourceLocation}
  {order : TraversalOrder} {symbols : SymbolTable}

/-- The block that operations are appended to. -/
structure Active (generator : IRGenerator) (block : BlockId) : Prop where
  current : generator.currentBlockId = some block
  isOpen : Open generator block

/-- Bind a name that is not bound yet. -/
def IRGenerator.offer (generator : IRGenerator) (name : String) (info : ValueInfo) : IRGenerator :=
  { generator with values := (generator.values.emplace name info).2 }

def IRGenerator.rebind (generator : IRGenerator) (name : String) (info : ValueInfo) : IRGenerator :=
  { generator with values := generator.values.insert name info }

section Expressions

theorem updateCurrentBlock_apply {change : BasicBlock → BasicBlock}
    (active : Active generator block) : updateCurrentBlock change generator =
      .ok () (generator.changeBlock block change) := by
  simp only [updateCurrentBlock, bind, EStateM.bind, get_apply, active.current]
  rw [if_pos active.isOpen.lt]
  rfl

/-- Creating a value and emitting the operation that defines it. -/
theorem define_apply (make : ValueId → Operation) (type : TensorType)
    (active : Active generator block) :
    (do let result ← createValue
        emit (make result)
        return (⟨result, type⟩ : ValueInfo)) generator =
      .ok ⟨generator.nextValueId, type⟩
        (generator.appendTo block (make generator.nextValueId)) := by
  have active' : Active generator.addValue block := ⟨active.current, active.isOpen⟩
  simp only [createValue, emit, bind, EStateM.bind, modifyGet_apply,
    updateCurrentBlock_apply active', pure_apply]
  rfl

theorem generateIdentifier_ok : generateIdentifier name generator = .ok info final ↔
    generator.values.lookup name = some info ∧ generator = final := by
  simp only [generateIdentifier, bind, EStateM.bind, get_apply]
  cases found : AList.lookup name generator.values with
  | none => simp
  | some bound => simp

theorem generateInteger_apply (active : Active generator block) :
    generateInteger value generator = .ok ⟨generator.nextValueId, .scalar "i64"⟩
      (generator.appendTo block (.constantInt generator.nextValueId value (.scalar "i64"))) :=
  define_apply (.constantInt · value (.scalar "i64")) _ active

theorem generateFloat_apply {value : Double} (active : Active generator block) :
    generateFloat value generator = .ok ⟨generator.nextValueId, .scalar "f64"⟩
      (generator.appendTo block (.constantFloat generator.nextValueId value (.scalar "f64"))) :=
  define_apply (.constantFloat · value (.scalar "f64")) _ active

theorem binaryOperation_type (op : BinaryOperator) (result : ValueId) (lhs rhs : ValueInfo) :
    (binaryOperation op result lhs rhs).2 = typeOf (binaryOperation op result lhs rhs).1 := by
  cases op <;> rfl

theorem generateBinary_apply (op : BinaryOperator) (active : Active generator block)
    (same : lhs.type = rhs.type) : generateBinary op lhs rhs generator =
      .ok ⟨generator.nextValueId, (binaryOperation op generator.nextValueId lhs rhs).2⟩
        (generator.appendTo block (binaryOperation op generator.nextValueId lhs rhs).1) := by
  have active' : Active generator.addValue block := ⟨active.current, active.isOpen⟩
  simp only [generateBinary, same, ne_eq, not_true_eq_false, ↓reduceIte, createValue, emit, bind,
    EStateM.bind, modifyGet_apply, updateCurrentBlock_apply active', pure_apply]
  rfl

theorem generateBinary_ok (active : Active generator block) {op : BinaryOperator} :
    generateBinary op lhs rhs generator = .ok info final ↔ lhs.type = rhs.type ∧
      info = ⟨generator.nextValueId, (binaryOperation op generator.nextValueId lhs rhs).2⟩ ∧
      final = generator.appendTo block (binaryOperation op generator.nextValueId lhs rhs).1 := by
  by_cases same : lhs.type = rhs.type
  · rw [generateBinary_apply op active same]
    simp [same, eq_comm]
  · simp [generateBinary, same]

theorem generateRelu_apply (active : Active generator block) :
    generateRelu input generator = .ok ⟨generator.nextValueId, input.type⟩
      (generator.appendTo block (.relu generator.nextValueId input.value input.type)) :=
  define_apply (.relu · input.value input.type) _ active

theorem generateMatmul_apply (active : Active generator block)
    (rows : lhs.type.shape[0]? = some m) (columns : rhs.type.shape[1]? = some n) :
    generateMatmul lhs rhs generator =
      .ok ⟨generator.nextValueId, ⟨lhs.type.elementType, [m, n]⟩⟩
        (generator.appendTo block (.matMul generator.nextValueId lhs.value rhs.value
          ⟨lhs.type.elementType, [m, n]⟩)) := by
  rw [generateMatmul, rows, columns]
  exact define_apply (.matMul · lhs.value rhs.value ⟨lhs.type.elementType, [m, n]⟩) _ active

theorem generateMatmul_ok (active : Active generator block) :
    generateMatmul lhs rhs generator = .ok info final ↔
      ∃ m n, lhs.type.shape[0]? = some m ∧ rhs.type.shape[1]? = some n ∧
        info = ⟨generator.nextValueId, ⟨lhs.type.elementType, [m, n]⟩⟩ ∧
        final = generator.appendTo block (.matMul generator.nextValueId lhs.value rhs.value
          ⟨lhs.type.elementType, [m, n]⟩) := by
  cases rows : lhs.type.shape[0]? with
  | none => simp [generateMatmul, rows]
  | some m =>
    cases columns : rhs.type.shape[1]? with
    | none => simp [generateMatmul, columns]
    | some n =>
      rw [generateMatmul_apply active rows columns]
      simp [eq_comm]

theorem generateExpression_binary_ok {op : BinaryOperator} :
    generateExpression (.binary op lhsExpression rhsExpression location) generator =
      .ok info final ↔
      ∃ lhs middle rhs later, generateExpression lhsExpression generator = .ok lhs middle ∧
        generateExpression rhsExpression middle = .ok rhs later ∧
        generateBinary op lhs rhs later = .ok info final := by
  simp only [generateExpression, bind_ok]
  constructor
  · rintro ⟨lhs, middle, first, rhs, later, second, rest⟩
    exact ⟨lhs, middle, rhs, later, first, second, rest⟩
  · rintro ⟨lhs, middle, rhs, later, first, second, rest⟩
    exact ⟨lhs, middle, first, rhs, later, second, rest⟩

/-- The two calls there are. -/
theorem generateExpression_call_ok {callee : String} {arguments : List Expression} :
    generateExpression (.call callee arguments location) generator = .ok info final ↔
      (∃ argument input middle, callee = "relu" ∧ arguments = [argument] ∧
        generateExpression argument generator = .ok input middle ∧
        generateRelu input middle = .ok info final) ∨
      (∃ lhsExpression rhsExpression lhs middle rhs later, callee = "matmul" ∧
        arguments = [lhsExpression, rhsExpression] ∧
        generateExpression lhsExpression generator = .ok lhs middle ∧
        generateExpression rhsExpression middle = .ok rhs later ∧
        generateMatmul lhs rhs later = .ok info final) := by
  match arguments with
  | [] => simp [generateExpression]
  | [argument] =>
    by_cases named : callee = "relu"
    · simp [generateExpression, named, bind_ok]
    · simp [generateExpression, named]
  | [lhsExpression, rhsExpression] =>
    by_cases named : callee = "matmul"
    · simp only [generateExpression, named, ↓reduceIte, bind_ok]
      constructor
      · rintro ⟨lhs, middle, first, rhs, later, second, rest⟩
        exact .inr ⟨_, _, lhs, middle, rhs, later, trivial, rfl, first, second, rest⟩
      · rintro (⟨_, _, _, _, same, _⟩ | ⟨_, _, lhs, middle, rhs, later, _, same, first,
          second, rest⟩)
        · cases same
        · cases same
          exact ⟨lhs, middle, first, rhs, later, second, rest⟩
    · simp [generateExpression, named]
  | _ :: _ :: _ :: _ => simp [generateExpression]

end Expressions

section Statements

theorem generateAssignment_ok {assignment : Assignment} :
    generateAssignment assignment generator = .ok () final ↔
      ∃ info middle, generateExpression assignment.value generator = .ok info middle ∧
        final = middle.rebind assignment.target info := by
  simp only [generateAssignment, bind_ok, bindValue, modify_apply, EStateM.Result.ok.injEq]
  constructor
  · rintro ⟨info, middle, success, _, rfl⟩
    exact ⟨info, middle, success, rfl⟩
  · rintro ⟨info, middle, success, rfl⟩
    exact ⟨info, middle, success, trivial, rfl⟩

/-- A declaration looks its type up, emits and binds a name that was free. -/
theorem generateTensorDeclaration_ok {declaration : TensorDecl} (active : Active generator block) :
    generateTensorDeclaration symbols declaration generator = .ok () final ↔
      ∃ type, symbols.typeOf declaration.name = some type ∧
        declaration.name ∉ generator.values ∧
        final = (generator.appendTo block
          (.tensorDecl generator.nextValueId declaration.name type)).rebind declaration.name
            ⟨generator.nextValueId, type⟩ := by
  have active' : Active generator.addValue block := ⟨active.current, active.isOpen⟩
  simp only [generateTensorDeclaration, createValue, emit, bind, EStateM.bind, modifyGet_apply,
    lookupType, SymbolTable.typeOf]
  cases found : symbols.lookup declaration.name with
  | none => simp
  | some symbol =>
    simp only [pure_apply, updateCurrentBlock_apply active', emplaceValue, modifyGet_apply,
      Option.map_some, Option.some.injEq, exists_eq_left']
    by_cases present : declaration.name ∈ generator.values
    · have taken : UnorderedMap.emplace (generator.addValue.changeBlock block
          (·.append (.tensorDecl generator.nextValueId declaration.name symbol.type))).values
          declaration.name (⟨generator.nextValueId, symbol.type⟩ : ValueInfo) =
          (false, generator.values) := UnorderedMap.emplace_present present
      simp [taken, present]
    · have free : UnorderedMap.emplace (generator.addValue.changeBlock block
          (·.append (.tensorDecl generator.nextValueId declaration.name symbol.type))).values
          declaration.name (⟨generator.nextValueId, symbol.type⟩ : ValueInfo) =
          (true, generator.values.insert declaration.name
            ⟨generator.nextValueId, symbol.type⟩) := UnorderedMap.emplace_absent present
      simp only [free, present, if_true, pure_apply, EStateM.Result.ok.injEq, true_and,
        not_false_eq_true]
      exact eq_comm

theorem openBranches_ok : openBranches info generator = .ok branches final ↔
    ∃ block, info.type = .scalar "i1" ∧ generator.currentBlockId = some block ∧
      branches = (generator.nextBlockId, generator.nextBlockId + 1) ∧
      final = generator.fork block info.value := by
  by_cases typed : info.type = .scalar "i1"
  · simp only [openBranches, typed, ne_eq, not_true_eq_false, if_false, bind, EStateM.bind,
      get_apply]
    cases active : generator.currentBlockId with
    | none => simp
    | some block =>
      simp only [createBlock, updateBlock, EStateM.bind, modifyGet_apply, modify_apply, pure_apply,
        EStateM.Result.ok.injEq]
      constructor
      · rintro ⟨rfl, rfl⟩
        exact ⟨block, trivial, rfl, rfl, rfl⟩
      · rintro ⟨_, _, same, rfl, rfl⟩
        cases same
        exact ⟨rfl, rfl⟩
  · simp [openBranches, typed]

/-- The parts of a successful `if`, in the order in which they run. -/
theorem generateStatement_if_ok {thenStatements elseStatements : List Statement} :
    generateStatement order symbols (.ifStmt condition thenStatements elseStatements location)
        generator = .ok () final ↔
      ∃ info tested block thenGenerator elseGenerator,
        generateExpression condition generator = .ok info tested ∧
        info.type = .scalar "i1" ∧ tested.currentBlockId = some block ∧
        generateBranch order symbols thenStatements
          ((tested.fork block info.value).enter (some tested.nextBlockId) tested.values) =
            .ok () thenGenerator ∧
        generateBranch order symbols elseStatements
          (thenGenerator.enter (some (tested.nextBlockId + 1)) tested.values) =
            .ok () elseGenerator ∧
        joinBranches order tested.values thenGenerator.currentBlockId elseGenerator.currentBlockId
          thenGenerator.values elseGenerator.values elseGenerator = .ok () final := by
  simp only [generateStatement, bind_ok, openBranches_ok, get_apply, enterBlock, modify_apply,
    EStateM.Result.ok.injEq]
  constructor
  · rintro ⟨info, tested, first, _, _, ⟨block, typed, active, rfl, rfl⟩, _, _, ⟨rfl, rfl⟩, _, _,
      ⟨_, rfl⟩, _, thenGenerator, thenRun, _, _, ⟨rfl, rfl⟩, _, _, ⟨_, rfl⟩, _, elseGenerator,
      elseRun, _, _, ⟨rfl, rfl⟩, joined⟩
    exact ⟨info, tested, block, thenGenerator, elseGenerator, first, typed, active, thenRun,
      elseRun, joined⟩
  · rintro ⟨info, tested, block, thenGenerator, elseGenerator, first, typed, active, thenRun,
      elseRun, joined⟩
    exact ⟨info, tested, first, _, _, ⟨block, typed, active, rfl, rfl⟩, _, _, ⟨rfl, rfl⟩, (), _,
      ⟨trivial, rfl⟩, (), thenGenerator, thenRun, _, _, ⟨rfl, rfl⟩, (), _, ⟨trivial, rfl⟩, (),
        elseGenerator,
      elseRun, _, _, ⟨rfl, rfl⟩, joined⟩

theorem generateReturn_ok {returnStatement : ReturnStmt}
    (active : ∀ info middle, generateExpression returnStatement.value generator = .ok info middle →
      Active middle block) :
    generateReturn returnStatement generator = .ok () final ↔
      ∃ info middle, generateExpression returnStatement.value generator = .ok info middle ∧
        final = (middle.terminate block (.returnOp info.value)).enter none middle.values := by
  simp only [generateReturn, bind_ok, modify_apply, EStateM.Result.ok.injEq]
  constructor
  · rintro ⟨info, middle, success, _, _, ended, _, rfl⟩
    rw [updateCurrentBlock_apply (active _ _ success)] at ended
    cases ended
    exact ⟨info, middle, success, rfl⟩
  · rintro ⟨info, middle, success, rfl⟩
    exact ⟨info, middle, success, _, _, updateCurrentBlock_apply (active _ _ success), trivial, rfl⟩

/-- A branch stops after a return. -/
theorem generateBranch_stopped (stopped : generator.currentBlockId = none)
    (statements : List Statement) :
    generateBranch order symbols statements generator = .ok () generator := by
  cases statements with
  | nil => rfl
  | cons statement statements =>
    simp only [generateBranch, bind, EStateM.bind, get_apply, stopped]
    rfl

theorem generateBranch_cons (active : generator.currentBlockId = some block)
    (statement : Statement) (statements : List Statement) :
    generateBranch order symbols (statement :: statements) generator =
      (generateStatement order symbols statement >>= fun _ =>
        generateBranch order symbols statements) generator := by
  simp only [generateBranch, bind, EStateM.bind, get_apply, active]
  rfl

theorem generateTopLevel_stopped (stopped : generator.currentBlockId = none)
    (statement : Statement) (statements : List Statement) :
    generateTopLevel order symbols (statement :: statements) generator =
      .error .unreachableStatement generator := by
  simp only [generateTopLevel, bind, EStateM.bind, get_apply, stopped]
  rfl

theorem generateTopLevel_cons (active : generator.currentBlockId = some block)
    (statement : Statement) (statements : List Statement) :
    generateTopLevel order symbols (statement :: statements) generator =
      (generateStatement order symbols statement >>= fun _ =>
        generateTopLevel order symbols statements) generator := by
  simp only [generateTopLevel, bind, EStateM.bind, get_apply, active]
  rfl

/-- The statements run from a generator with one empty entry block. -/
theorem generateUnverified_eq (program : Program) :
    generateUnverified order symbols program {} =
      (generateTopLevel order symbols program.statements >>= fun _ => requireReturn) started := rfl

theorem requireReturn_stopped (stopped : generator.currentBlockId = none) :
    requireReturn generator = .ok () generator := by
  simp only [requireReturn, bind, EStateM.bind, get_apply, stopped]
  rfl

theorem requireReturn_active (active : Active generator block) :
    requireReturn generator = .error .pathWithoutReturn generator := by
  obtain ⟨body, found, unterminated⟩ := active.isOpen
  have found : generator.module.blocks[block]? = some body := found
  simp [requireReturn, bind, EStateM.bind, active.current, found, unterminated]

end Statements

section Joining

variable {before thenValues elseValues : Environment} {entries : List (String × ValueInfo)}
  {thenValue : ValueInfo}

theorem joinBranches_neither : joinBranches order before none none thenValues elseValues generator =
    .ok () (generator.enter none before) := rfl

theorem joinBranches_else :
    joinBranches order before none (some elseEnd) thenValues elseValues generator =
      .ok () ((generator.join [elseEnd]).enter (some generator.nextBlockId) elseValues) := rfl

theorem joinBranches_then :
    joinBranches order before (some thenEnd) none thenValues elseValues generator =
      .ok () ((generator.join [thenEnd]).enter (some generator.nextBlockId) thenValues) := rfl

theorem joinBranches_both :
    joinBranches order before (some thenEnd) (some elseEnd) thenValues elseValues generator =
      mergeValues thenEnd elseEnd elseValues (order.traverse generator.nextBlockId thenValues)
        ((generator.join [thenEnd, elseEnd]).enter (some generator.nextBlockId) ∅) := rfl

/-- The phi that joins two values of one name. -/
def joinPhi (result : ValueId) (thenEnd elseEnd : BlockId) (thenValue elseValue : ValueInfo) :
    Operation :=
  .phi result thenValue.type [⟨thenEnd, thenValue.value⟩, ⟨elseEnd, elseValue.value⟩]

/-- One entry is skipped, kept, or joined by a phi. -/
theorem mergeValues_cons_ok (active : Active generator block) :
    mergeValues thenEnd elseEnd elseValues ((name, thenValue) :: entries) generator =
        .ok () final ↔
      (elseValues.lookup name = none ∧
        mergeValues thenEnd elseEnd elseValues entries generator = .ok () final) ∨
      ∃ elseValue, elseValues.lookup name = some elseValue ∧ thenValue.type = elseValue.type ∧
        ((thenValue.value = elseValue.value ∧
          mergeValues thenEnd elseEnd elseValues entries (generator.offer name thenValue) =
            .ok () final) ∨
        (thenValue.value ≠ elseValue.value ∧
          mergeValues thenEnd elseEnd elseValues entries
            ((generator.appendTo block
              (joinPhi generator.nextValueId thenEnd elseEnd thenValue elseValue)).offer name
                ⟨generator.nextValueId, thenValue.type⟩) = .ok () final)) := by
  have active' : Active generator.addValue block := ⟨active.current, active.isOpen⟩
  rw [mergeValues]
  cases found : AList.lookup name elseValues with
  | none => simp
  | some elseValue =>
    by_cases typed : thenValue.type = elseValue.type
    · by_cases same : thenValue.value = elseValue.value
      · simp [typed, same, bind, EStateM.bind, emplaceValue, offer]
      · simp only [typed, same, ne_eq, not_true_eq_false, if_false, bind, EStateM.bind,
          createValue, modifyGet_apply, emit, updateCurrentBlock_apply active', emplaceValue]
        simp [typed, same, offer, joinPhi, appendTo]
    · simp [typed]

end Joining

end Ocelotl.IR
