import Ocelotl.Codegen.DefinitionOrder
import Ocelotl.IR.EmittedOperations

/-! Programs that only declare and copy tensors. The back end lowers them, except
where two branches bind a name to different tensors. -/

namespace Ocelotl.Codegen

open Ast IR Semantic Library LLVM IRGenerator

variable {tensors : Prop} {order analysisOrder generationOrder : TraversalOrder}
  {module : IR.Module} {value : ValueId} {type : TensorType} {operation : Operation}
  {generator : IRGenerator} {declares : TensorType → Prop}

/-- The back end can compute how much storage a tensor of this type needs. -/
def Sized (type : TensorType) : Prop := ∃ size, tensorStorageSize type = .ok size

theorem Sized.shape (sized : Sized type) : type.shape ≠ [] := by
  obtain ⟨size, computed⟩ := sized
  intro scalar
  rw [tensorStorageSize, if_pos (.inr scalar)] at computed
  cases computed

/-- Tensors are pointers. -/
def operandType (type : TensorType) : ValueType :=
  ((lowerType type).map ScalarType.valueType).getD .ptr

/-- The types of the operands that the values of a module become. -/
def operandTypes (module : IR.Module) (value : ValueId) : ValueType :=
  (((valueTypes (operationsOf module)).lookup value).map operandType).getD .ptr

private theorem operandTypes_of_defines (verified : Verified module) {definition : Definition}
    (defines : module.Defines value definition) :
    operandTypes module value = operandType definition.type := by
  rw [operandTypes, lookup_valueTypes verified defines]
  rfl

private theorem operandType_of_shape (tensor : type.shape ≠ []) : operandType type = .ptr := by
  rw [operandType, lowerType, if_pos tensor]
  rfl

/-- The operations of a verified module are typed when its arithmetic is on numbers. -/
theorem wellTyped_of_plain (verified : Verified module)
    (plain : ∀ operation ∈ operationsOf module, Plain Sized operation)
    (returns : ∀ block ∈ module.blocks, ∀ value, block.terminator = some (.returnOp value) →
      ∃ definition, module.Defines value definition ∧ definition.type = .scalar "i64") :
    WellTyped module := by
  refine ⟨operandTypes module, fun operation member => ?_, fun block member last ends => ?_⟩
  · have here := plain operation member
    obtain ⟨block, present, member⟩ := List.mem_flatMap.mp member
    obtain ⟨index, at'⟩ := List.getElem?_of_mem member
    have defines : module.Defines (resultOf operation) ⟨block.id, index, typeOf operation⟩ :=
      ⟨block, present, index, operation, at', rfl, by simp⟩
    have result : operandTypes module (resultOf operation) = operandType (typeOf operation) :=
      operandTypes_of_defines verified defines
    have operand {value type} (needed : (value, type) ∈ operation.typedOperands) :
        operandTypes module value = operandType type := by
      obtain ⟨definition, defines, rfl, _⟩ :=
        verified.typed block present index operation at' value type needed
      exact operandTypes_of_defines verified defines
    cases operation with
    | tensorDecl declared name type => exact result.trans (operandType_of_shape here.shape)
    | constantInt declared value type =>
      cases here
      exact result
    | constantFloat declared value type =>
      cases here
      exact result
    | binary declared kind lhs rhs type =>
      have left : operandTypes module lhs = operandType type :=
        operand (by simp [Operation.typedOperands])
      have right : operandTypes module rhs = operandType type :=
        operand (by simp [Operation.typedOperands])
      refine ⟨result.trans left.symm, right.trans left.symm, ?_⟩
      rw [left]
      rcases here with rfl | rfl <;> decide
    | compare declared kind lhs rhs type =>
      have left : operandTypes module lhs = operandType type :=
        operand (by simp [Operation.typedOperands])
      have right : operandTypes module rhs = operandType type :=
        operand (by simp [Operation.typedOperands])
      refine ⟨result, right.trans left.symm, ?_⟩
      rw [left]
      rcases here with rfl | rfl <;> decide
    | phi declared type incoming =>
      intro scalar lowered
      have joined : operandType type = scalar.valueType := by rw [operandType, lowered]; rfl
      refine ⟨result.trans joined, fun source listed => ?_⟩
      obtain ⟨definition, defines, same, _⟩ :=
        verified.incoming block present index _ at' source listed
      have same : definition.type = type := same
      rw [operandTypes_of_defines verified defines, same, joined]
    | matMul _ _ _ _ | relu _ _ _ => trivial
  · cases last with
    | branch target => trivial
    | condBranch condition trueTarget falseTarget =>
      obtain ⟨definition, defines, same⟩ := verified.conditions block member _ _ _ ends
      have typed := operandTypes_of_defines verified defines
      rw [same] at typed
      exact typed
    | returnOp value =>
      obtain ⟨definition, defines, same⟩ := returns block member value ends
      have typed := operandTypes_of_defines verified defines
      rw [same] at typed
      exact typed

/-- Two branches bind a name to different tensors. -/
def TensorPhi (module : IR.Module) : Prop :=
  ∃ operation ∈ operationsOf module, operation.isPhi = true ∧ (typeOf operation).shape ≠ []

theorem lowerType_of_numeric (numeric : type.Numeric) : lowerType type ≠ none := by
  rcases numeric with rfl | rfl <;> decide

/-- Every scalar type in the module is a type of LLVM. -/
theorem lowerType_of_plain (verified : Verified module) (ordered : DefinitionOrdered module)
    (plain : ∀ operation ∈ operationsOf module, Plain Sized operation) {block index : Nat}
    {body : IR.BasicBlock} (found : module.blocks[block]? = some body)
    (here : body.operations[index]? = some operation) (scalar : (typeOf operation).shape = []) :
    lowerType (typeOf operation) ≠ none := by
  induction block using Nat.strong_induction_on generalizing index body operation with
  | h block blockIH =>
    induction index using Nat.strong_induction_on generalizing operation with
    | h index ih =>
      have member := List.mem_of_getElem? found
      have kind := plain operation (List.mem_flatMap.mpr ⟨body, member, List.mem_of_getElem? here⟩)
      cases operation with
      | tensorDecl declared name type => exact absurd scalar kind.shape
      | constantInt declared value type => exact lowerType_of_numeric (.inl kind)
      | constantFloat declared value type => exact lowerType_of_numeric (.inr kind)
      | binary declared opcode lhs rhs type => exact lowerType_of_numeric kind
      | compare declared opcode lhs rhs operandType =>
        have boolean : lowerType (.scalar "i1") ≠ none := by decide
        exact boolean
      | matMul _ _ _ _ | relu _ _ _ => exact kind.elim
      | phi declared type incoming =>
        obtain ⟨source, listed⟩ : ∃ source, source ∈ incoming := by
          cases incoming with
          | nil => cases (kind : [].length = 2)
          | cons source incoming => exact ⟨source, List.mem_cons_self⟩
        obtain ⟨place, position, other, earlier, found', at', result, before⟩ :=
          ordered.operands block index body _ found here source.value
            (List.mem_append_right _ (List.mem_map_of_mem listed))
        obtain ⟨definition, defines, same, _⟩ :=
          verified.incoming body member index _ here source listed
        have defines' : module.Defines source.value ⟨other.id, position, typeOf earlier⟩ :=
          ⟨other, List.mem_of_getElem? found', position, earlier, at', result, by simp⟩
        cases verified.defines_unique defines defines'
        have same : typeOf earlier = typeOf (.phi declared type incoming) := same
        rw [← same] at scalar ⊢
        rcases before with less | ⟨rfl, less⟩
        · exact blockIH place less found' at' scalar
        · cases found.symm.trans found'
          exact ih position less at' scalar

/-- The back end lowers every plain operation but the phis of tensors. -/
theorem supported_of_plain (kind : Plain Sized operation)
    (scalar : (typeOf operation).shape = [] → lowerType (typeOf operation) ≠ none) :
    supported operation = .ok () ∨ supported operation = .error .unsupportedPhi ∧
      operation.isPhi = true ∧ (typeOf operation).shape ≠ [] := by
  cases operation with
  | tensorDecl declared name type =>
    obtain ⟨size, computed⟩ := kind
    rw [supported, computed]
    exact .inl rfl
  | constantInt | constantFloat | binary | compare => exact .inl rfl
  | matMul _ _ _ _ | relu _ _ _ => exact kind.elim
  | phi declared type incoming =>
    have short : ¬ incoming.length > maxUnsigned := by
      have two : incoming.length = 2 := kind
      rw [two]
      decide
    rw [supported]
    by_cases lowered : lowerType type = none
    · rw [if_pos lowered]
      exact .inr ⟨rfl, rfl, fun shape => scalar shape lowered⟩
    · rw [if_neg lowered, if_neg short]
      exact .inl rfl

private theorem not_supported_of_tensorPhi (isPhi : operation.isPhi = true)
    (tensor : (typeOf operation).shape ≠ []) : supported operation = .error .unsupportedPhi := by
  cases operation with
  | phi declared type incoming =>
    have unknown : lowerType type = none := if_pos tensor
    rw [supported, if_pos unknown]
    rfl
  | _ => cases isPhi

/-- What LLVM asks of a module holds for one that the generator builds. -/
theorem translatable_of_built (built : generator.WellBuilt) (entered : Entered generator)
    (single : SingleEdges generator) (emitted : EmitsOnly (Plain declares) generator)
    (typed : WellTyped generator.module) : Translatable generator.module := by
  have strict := built.strictSSA
  have found {body} (member : body ∈ generator.module.blocks) :
      generator.module.block body.id = some body := by
    rw [built.block_eq]
    exact (mem_blocks built).mp member
  have entrySource := (built.topological entered).entrySource
  refine ⟨entrySource, ?_, ?_, typed, ?_, ?_, ?_⟩
  · intro block member operation inside isPhi other member'
    refine List.nodup_iff_count_le_one.mp ?_ block.id
    cases ends : other.terminator with
    | none =>
      rw [BasicBlock.targets_of_unterminated ends]
      exact List.nodup_nil
    | some last =>
      have same : other.targets = last.targets := by rw [BasicBlock.targets, ends]; rfl
      rw [same]
      exact single other.id last ⟨other, (mem_blocks built).mp member', ends⟩
  · intro _ block member isEntry operation inside
    obtain ⟨index, here⟩ := List.getElem?_of_mem inside
    have present : OperationAt generator.blocks block.id index operation :=
      ⟨block, (mem_blocks built).mp member, here⟩
    have kind := emitted block.id index operation present
    cases operation with
    | phi declared type incoming =>
      cases incoming with
      | nil => cases (kind : [].length = 2)
      | cons source incoming =>
        -- a phi joins two branches, and none of them leads to the entry
        obtain ⟨⟨other, known, aimed⟩, _⟩ := built.incoming present List.mem_cons_self
        exact absurd (isEntry ▸ aimed)
          (entrySource other ((mem_blocks built).mpr ((built.ids known).symm ▸ known)))
    | _ => rfl
  · exact fun block member index operation here value used _ =>
      strict.operands ⟨block, found member, here⟩ used
  · exact fun block member last ends value used _ =>
      strict.terminators ⟨block, found member, ends⟩ used
  · intro block member operation inside incoming listed _
    obtain ⟨index, here⟩ := List.getElem?_of_mem inside
    exact strict.incoming ⟨block, found member, here⟩ listed

/-- An error of the lowering is what code generation throws. -/
theorem generate_of_lowering_error {verifyModule : LLVM.Function → Except String Unit}
    {error : LoweringError} (verified : Verified module) (integer : ReturnsInteger module)
    (failure : outcome (lowerModule order module) {} = .error error) :
    generate order verifyModule module = .error error := by
  rw [generate, verify_ok_iff.mpr verified]
  simp only [(firstReturnType_iff verified).mpr integer, bind, Except.bind, ne_eq,
    not_true_eq_false,
    if_false]
  cases lowered : lowerModule order module {} with
  | ok _ builder =>
    rw [outcome, lowered] at failure
    cases failure
  | error other builder =>
    rw [outcome, lowered] at failure
    cases failure
    rfl

/-- A program without tensor calls is lowered, unless two branches bind a name
to different tensors. -/
theorem generate_copiesTensors {analyzer : SemanticAnalyzer} {program : Program}
    {verifyModule : LLVM.Function → Except String Unit}
    (verifier : ∀ function, LLVM.WellFormed function → verifyModule function = .ok ())
    (analyzed : analyze analysisOrder program = .ok analyzer)
    (none : NoTensorCalls (callsIn program.statements))
    (sized : ∀ declaration ∈ declarationsIn program.statements, Sized declaration.type)
    (looked : ∀ declaration ∈ declarationsIn program.statements, ∀ type,
      analyzer.symbols.typeOf declaration.name = some type → Sized type)
    (generated : IR.generate generationOrder analyzer program = .ok module) :
    (¬ TensorPhi module → ∃ function, generate order verifyModule module = .ok function) ∧
      (TensorPhi module → generate order verifyModule module = .error .unsupportedPhi) := by
  obtain ⟨final, success, checked, rfl⟩ := IR.generate_ok.mp generated
  have verified := verify_ok_iff.mp checked
  have built := (generateUnverified_valid success).1
  have entered := generateUnverified_entered success
  have topological := built.topological entered
  have faithful : Faithful False analyzer.symbols (declarationsIn program.statements) :=
    fun declaration member exact =>
      absurd (exact.resolve_right id) (sized declaration member).shape
  have emitted := generateUnverified_emits analyzed faithful none looked success
  obtain ⟨typed, returns⟩ := generateUnverified_returns analyzed faithful success
  have plain : ∀ operation ∈ operationsOf final.module, Plain Sized operation := by
    intro operation member
    obtain ⟨block, present, inside⟩ := List.mem_flatMap.mp member
    obtain ⟨index, here⟩ := List.getElem?_of_mem inside
    exact emitted block.id index operation ⟨block, (mem_blocks built).mp present, here⟩
  have integers :
      ∀ block ∈ final.module.blocks, ∀ value, block.terminator = some (.returnOp value) →
      ∃ definition, final.module.Defines value definition ∧ definition.type = .scalar "i64" :=
    fun block member value ends =>
      (typed block.id value ⟨block, (mem_blocks built).mp member, ends⟩).defines built
  have integer : ReturnsInteger final.module := by
    obtain ⟨id, value, block, found, ends⟩ := returns
    have member := (mem_blocks built).mpr ((built.ids found).symm ▸ found)
    obtain ⟨definition, defines, same⟩ := integers block member value ends
    exact ⟨block, member, value, definition, ends, defines, same⟩
  have translatable := translatable_of_built built entered (generateUnverified_singleEdges success)
    emitted (wellTyped_of_plain verified plain integers)
  have each : ∀ operation ∈ operationsOf final.module, supported operation = .ok () ∨
      supported operation = .error .unsupportedPhi ∧ operation.isPhi = true ∧
        (typeOf operation).shape ≠ [] := by
    intro operation member
    obtain ⟨body, present, inside⟩ := List.mem_flatMap.mp member
    obtain ⟨block, found⟩ := List.getElem?_of_mem present
    obtain ⟨index, here⟩ := List.getElem?_of_mem inside
    exact supported_of_plain (plain operation member)
      (lowerType_of_plain verified topological.toDefinitionOrdered plain found here)
  constructor
  · intro scalar
    refine generate_succeeds verifier verified topological.entryFirst
      topological.toDefinitionOrdered (fun operation member => ?_) integer translatable
    rcases each operation member with here | ⟨_, isPhi, tensor⟩
    · exact here
    · exact absurd ⟨operation, member, isPhi, tensor⟩ scalar
  · intro ⟨phi, member, isPhi, tensor⟩
    apply generate_of_lowering_error verified integer
    rw [lowerModule_outcome verified topological.toDefinitionOrdered]
    cases checked : forM (operationsOf final.module) supported with
    | ok _ =>
      have impossible := forM_eq_ok.mp checked phi member
      rw [not_supported_of_tensorPhi isPhi tensor] at impossible
      cases impossible
    | error error =>
      obtain ⟨operation, inside, failing⟩ := exists_of_forM_eq_error checked
      rcases each operation inside with here | ⟨here, _⟩
      · cases here.symm.trans failing
      · cases here.symm.trans failing
        rfl

/-- A tensor that is copied in both branches, next to a number that differs. -/
def copiedTensor : Program where
  statements := [
    .tensorDecl ⟨"A", ⟨"f32", [2, 3]⟩, {}⟩,
    .ifStmt (.binary .equal (.integer 1 {}) (.integer 1 {}) {})
      [.assignment ⟨"C", .identifier "A" {}, {}⟩, .assignment ⟨"N", .integer 1 {}, {}⟩]
      [.assignment ⟨"C", .identifier "A" {}, {}⟩, .assignment ⟨"N", .integer 2 {}, {}⟩] {},
    .returnStmt ⟨.identifier "N" {}, {}⟩]

theorem generate_copiesTensors_copiedTensor : ∃ analyzer module,
    analyze .stored copiedTensor = .ok analyzer ∧
      IR.generate .stored analyzer copiedTensor = .ok module ∧
      (¬ TensorPhi module → ∃ function, generate .stored verifyFunction module = .ok function) ∧
      (TensorPhi module → generate .stored verifyFunction module = .error .unsupportedPhi) := by
  obtain ⟨analyzer, module, analyzed, generated⟩ :
      ∃ analyzer module, analyze .stored copiedTensor = .ok analyzer ∧
        IR.generate .stored analyzer copiedTensor = .ok module :=
    exists_of_compile (by decide +kernel)
  have sized : Sized ⟨"f32", [2, 3]⟩ := ⟨24, by decide⟩
  have declared : .tensorDecl ⟨"A", ⟨"f32", [2, 3]⟩, {}⟩ ∈ copiedTensor.statements :=
    List.mem_cons_self
  have known := analyzeStatements_declares (analyze_ok.mp analyzed) declared
  have only {declaration} (member : declaration ∈ declarationsIn copiedTensor.statements) :
      declaration = ⟨"A", ⟨"f32", [2, 3]⟩, {}⟩ := List.mem_singleton.mp member
  refine ⟨analyzer, module, analyzed, generated,
    generate_copiesTensors (fun function => (verifyFunction_ok function).mpr) analyzed nofun ?_ ?_
      generated⟩
  · intro declaration member
    cases only member
    exact sized
  · intro declaration member type found
    cases only member
    cases found.symm.trans known
    exact sized

/-- Two tensors that two branches bind to one name, which nothing reads. -/
def joinedTensors : Program where
  statements := [
    .tensorDecl ⟨"A", ⟨"f32", [2]⟩, {}⟩,
    .tensorDecl ⟨"B", ⟨"f32", [2]⟩, {}⟩,
    .ifStmt (.binary .equal (.integer 1 {}) (.integer 1 {}) {})
      [.assignment ⟨"C", .identifier "A" {}, {}⟩]
      [.assignment ⟨"C", .identifier "B" {}, {}⟩] {},
    .returnStmt ⟨.integer 0 {}, {}⟩]

theorem joinedTensors_not_lowered : ∃ analyzer module,
    analyze .stored joinedTensors = .ok analyzer ∧
      IR.generate .stored analyzer joinedTensors = .ok module ∧
      NoTensorCalls (callsIn joinedTensors.statements) ∧
      (∀ declaration ∈ declarationsIn joinedTensors.statements, Sized declaration.type) ∧
      ∀ verifyModule, generate .stored verifyModule module = .error .unsupportedPhi := by
  have computed : (analyze .stored joinedTensors).toOption.any (fun analyzer =>
      (IR.generate .stored analyzer joinedTensors).toOption.any fun module =>
        decide (verify module = .ok ()) &&
        decide (firstReturnType (valueTypes (operationsOf module)) module.blocks =
          .ok (some (.scalar "i64"))) &&
        decide (outcome (lowerModule .stored module) {} = .error .unsupportedPhi)) = true := by
          decide +kernel
  obtain ⟨analyzer, analyzed, computed⟩ := (Option.any_eq_true _ _).mp computed
  obtain ⟨module, generated, computed⟩ := (Option.any_eq_true _ _).mp computed
  simp only [Bool.and_eq_true, decide_eq_true_eq] at computed
  obtain ⟨⟨checked, returned⟩, failing⟩ := computed
  have verified := verify_ok_iff.mp checked
  refine ⟨analyzer, module, toOption_eq_some.mp analyzed, toOption_eq_some.mp generated, nofun, ?_,
    fun _ => generate_of_lowering_error verified ((firstReturnType_iff verified).mp returned)
      failing⟩
  intro declaration member
  have same : declaration.type = ⟨"f32", [2]⟩ := by
    rcases List.mem_cons.mp member with rfl | member
    · rfl
    · exact congrArg TensorDecl.type (List.mem_singleton.mp member)
  rw [same]
  exact ⟨8, by decide⟩

end Ocelotl.Codegen
