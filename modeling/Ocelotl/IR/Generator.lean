import Ocelotl.Semantic.Analyzer
import Ocelotl.IR.Verifier

/-! The generator of the intermediate representation. -/

namespace Ocelotl.IR

open Ast Semantic Library

inductive IRError where
  | unreachableStatement
  | pathWithoutReturn
  | nullIf | nullCall | nullBinary
  | duplicateValue (name : String)
  | conditionNotI1
  | branchTypeMismatch (name : String)
  | unresolvedIdentifier (name : String)
  | operandTypeMismatch
  | unsupportedCall (callee : String)
  | noActiveBlock
  | typeNotFound (name : String)
  | outOfRange
  | verification (error : VerificationError)
  deriving DecidableEq, Repr

/-- What the exception says. The text of `std::out_of_range` is the library's. -/
def IRError.message : IRError → String
  | .unreachableStatement => "IR generation encountered unreachable statement"
  | .pathWithoutReturn => "IR generation requires every path to return"
  | .nullIf => "IR generation encountered null if"
  | .nullCall => "IR generation encountered null call"
  | .nullBinary => "IR generation encountered null binary expression"
  | .duplicateValue name => s!"IR generation encountered duplicate value '{name}'"
  | .conditionNotI1 => "IR generation requires an i1 if condition"
  | .branchTypeMismatch name => s!"IR branch type mismatch for '{name}'"
  | .unresolvedIdentifier name => s!"IR generation could not resolve identifier '{name}'"
  | .operandTypeMismatch => "IR binary operand type mismatch"
  | .unsupportedCall callee => s!"IR generation encountered unsupported call '{callee}'"
  | .noActiveBlock => "no active IR basic block"
  | .typeNotFound name => s!"IR generation could not find type for '{name}'"
  | .outOfRange => "out of range"
  | .verification error => error.message

structure ValueInfo where
  value : ValueId
  type : TensorType
  deriving DecidableEq, Repr

abbrev Environment := UnorderedMap String ValueInfo

/-- The members of the generator. The analyser it reads types from is a
parameter of the functions below. -/
structure IRGenerator where
  module : Module := {}
  nextValueId : ValueId := 0
  nextBlockId : BlockId := 0
  currentBlockId : Option BlockId := none
  values : Environment := ∅

abbrev Generation := EStateM IRError IRGenerator

namespace IRGenerator

def addValue (generator : IRGenerator) : IRGenerator :=
  { generator with nextValueId := generator.nextValueId + 1 }

def addBlock (generator : IRGenerator) (name : String) : IRGenerator :=
  { generator with
    nextBlockId := generator.nextBlockId + 1
    module := { generator.module with
      blocks := generator.module.blocks ++ [{ id := generator.nextBlockId, name := name }] } }

def changeBlock (generator : IRGenerator) (id : BlockId) (change : BasicBlock → BasicBlock) :
    IRGenerator :=
  { generator with module := { generator.module with
      blocks := generator.module.blocks.modify id change } }

/-- Continue in another block with another environment. -/
def enter (generator : IRGenerator) (block : Option BlockId) (values : Environment) :
    IRGenerator :=
  { generator with currentBlockId := block, values := values }

end IRGenerator

def createValue : Generation ValueId :=
  modifyGet fun generator => (generator.nextValueId, generator.addValue)

def createBlock (name : String) : Generation BlockId :=
  modifyGet fun generator => (generator.nextBlockId, generator.addBlock name)

def updateBlock (id : BlockId) (change : BasicBlock → BasicBlock) : Generation Unit :=
  modify (·.changeBlock id change)

/-- A change made through the reference that `currentBlock` returns. -/
def updateCurrentBlock (change : BasicBlock → BasicBlock) : Generation Unit := do
  let generator ← get
  match generator.currentBlockId with
  | none => throw .noActiveBlock
  | some id =>
    if id < generator.module.blocks.length then updateBlock id change else throw .outOfRange

def emit (operation : Operation) : Generation Unit :=
  updateCurrentBlock (·.append operation)

def bindValue (name : String) (info : ValueInfo) : Generation Unit :=
  modify fun generator => { generator with values := generator.values.insert name info }

def emplaceValue (name : String) (info : ValueInfo) : Generation Bool :=
  modifyGet fun generator =>
    ((generator.values.emplace name info).1,
      { generator with values := (generator.values.emplace name info).2 })

/-- The condition of an `if` must be a scalar `i1`. It ends the current block
in a branch to two new blocks. -/
def openBranches (condition : ValueInfo) : Generation (BlockId × BlockId) :=
  if condition.type ≠ .scalar "i1" then throw .conditionNotI1
  else do
    let generator ← get
    match generator.currentBlockId with
    | none => throw .noActiveBlock
    | some conditionBlock => do
      let thenBlock ← createBlock "if.then"
      let elseBlock ← createBlock "if.else"
      updateBlock conditionBlock (·.terminate (.condBranch condition.value thenBlock elseBlock))
      return (thenBlock, elseBlock)

def enterBlock (block : Option BlockId) (values : Environment) : Generation Unit :=
  modify (·.enter block values)

def generateIdentifier (name : String) : Generation ValueInfo := do
  let generator ← get
  match generator.values.lookup name with
  | some info => pure info
  | none => throw (.unresolvedIdentifier name)

def generateInteger (value : BitVec 64) : Generation ValueInfo := do
  let result ← createValue
  emit (.constantInt result value (.scalar "i64"))
  return ⟨result, .scalar "i64"⟩

def generateFloat (value : Double) : Generation ValueInfo := do
  let result ← createValue
  emit (.constantFloat result value (.scalar "f64"))
  return ⟨result, .scalar "f64"⟩

/-- The operation that a binary operator becomes, and the type of its result. -/
def binaryOperation (op : BinaryOperator) (result : ValueId) (lhs rhs : ValueInfo) :
    Operation × TensorType :=
  let arithmetic (kind : BinaryKind) :=
    (Operation.binary result kind lhs.value rhs.value lhs.type, lhs.type)
  let comparison (kind : CompareKind) :=
    (Operation.compare result kind lhs.value rhs.value lhs.type, TensorType.scalar "i1")
  match op with
  | .add => arithmetic .add
  | .subtract => arithmetic .subtract
  | .multiply => arithmetic .multiply
  | .divide => arithmetic .divide
  | .equal => comparison .equal
  | .notEqual => comparison .notEqual
  | .less => comparison .less
  | .lessEqual => comparison .lessEqual
  | .greater => comparison .greater
  | .greaterEqual => comparison .greaterEqual

/-- A binary expression, once its operands are generated. -/
def generateBinary (op : BinaryOperator) (lhs rhs : ValueInfo) : Generation ValueInfo :=
  if lhs.type ≠ rhs.type then throw .operandTypeMismatch
  else do
    let result ← createValue
    emit (binaryOperation op result lhs rhs).1
    return ⟨result, (binaryOperation op result lhs rhs).2⟩

/-- A call of `relu`, once its argument is generated. -/
def generateRelu (input : ValueInfo) : Generation ValueInfo := do
  let result ← createValue
  emit (.relu result input.value input.type)
  return ⟨result, input.type⟩

/-- A call of `matmul`, once its arguments are generated. -/
def generateMatmul (lhs rhs : ValueInfo) : Generation ValueInfo :=
  match lhs.type.shape[0]?, rhs.type.shape[1]? with
  | some rows, some columns => do
    let type : TensorType := ⟨lhs.type.elementType, [rows, columns]⟩
    let result ← createValue
    emit (.matMul result lhs.value rhs.value type)
    return ⟨result, type⟩
  | _, _ => throw .outOfRange

def generateExpression : Expression → Generation ValueInfo
  | .identifier name _ => generateIdentifier name
  | .integer value _ => generateInteger value
  | .float value _ => generateFloat value
  | .nullCall => throw .nullCall
  | .nullBinary => throw .nullBinary
  | .binary op lhs rhs _ => do
    let lhsInfo ← generateExpression lhs
    let rhsInfo ← generateExpression rhs
    generateBinary op lhsInfo rhsInfo
  | .call callee [argument] _ =>
    if callee = "relu" then do
      let input ← generateExpression argument
      generateRelu input
    else throw (.unsupportedCall callee)
  | .call callee [lhs, rhs] _ =>
    if callee = "matmul" then do
      let lhsInfo ← generateExpression lhs
      let rhsInfo ← generateExpression rhs
      generateMatmul lhsInfo rhsInfo
    else throw (.unsupportedCall callee)
  | .call callee _ _ => throw (.unsupportedCall callee)

def lookupType (symbols : SymbolTable) (name : String) : Generation TensorType :=
  match symbols.lookup name with
  | some symbol => pure symbol.type
  | none => throw (.typeNotFound name)

/-- The type comes from the analyser's final table, by name. -/
def generateTensorDeclaration (symbols : SymbolTable) (declaration : TensorDecl) :
    Generation Unit := do
  let value ← createValue
  let type ← lookupType symbols declaration.name
  emit (.tensorDecl value declaration.name type)
  let inserted ← emplaceValue declaration.name ⟨value, type⟩
  if inserted then pure () else throw (.duplicateValue declaration.name)

def generateAssignment (assignment : Assignment) : Generation Unit := do
  let info ← generateExpression assignment.value
  bindValue assignment.target info

def generateReturn (returnStatement : ReturnStmt) : Generation Unit := do
  let info ← generateExpression returnStatement.value
  updateCurrentBlock (·.terminate (.returnOp info.value))
  modify fun generator => generator.enter none generator.values

/-- The loop that joins the environments of two continuing branches, over the
entries of the then-branch. -/
def mergeValues (thenEnd elseEnd : BlockId) (elseValues : Environment) :
    List (String × ValueInfo) → Generation Unit
  | [] => pure ()
  | (name, thenValue) :: entries =>
    match elseValues.lookup name with
    | none => mergeValues thenEnd elseEnd elseValues entries
    | some elseValue =>
      if thenValue.type ≠ elseValue.type then throw (.branchTypeMismatch name)
      else if thenValue.value = elseValue.value then do
        let _ ← emplaceValue name thenValue
        mergeValues thenEnd elseEnd elseValues entries
      else do
        let result ← createValue
        emit (.phi result thenValue.type
          [⟨thenEnd, thenValue.value⟩, ⟨elseEnd, elseValue.value⟩])
        let _ ← emplaceValue name ⟨result, thenValue.type⟩
        mergeValues thenEnd elseEnd elseValues entries

variable (order : TraversalOrder)

/-- The end of `generateIf`, once both branches are generated. -/
def joinBranches (before : Environment) (thenEnd elseEnd : Option BlockId)
    (thenValues elseValues : Environment) : Generation Unit :=
  match thenEnd, elseEnd with
  | none, none => enterBlock none before
  | none, some elseEnd => do
    let mergeBlock ← createBlock "if.end"
    updateBlock elseEnd (·.terminate (.branch mergeBlock))
    enterBlock mergeBlock elseValues
  | some thenEnd, none => do
    let mergeBlock ← createBlock "if.end"
    updateBlock thenEnd (·.terminate (.branch mergeBlock))
    enterBlock mergeBlock thenValues
  | some thenEnd, some elseEnd => do
    let mergeBlock ← createBlock "if.end"
    updateBlock thenEnd (·.terminate (.branch mergeBlock))
    updateBlock elseEnd (·.terminate (.branch mergeBlock))
    enterBlock mergeBlock ∅
    -- The id of the merge block names this traversal of the hash map.
    mergeValues thenEnd elseEnd elseValues (order.traverse mergeBlock thenValues)

variable (symbols : SymbolTable)

mutual

def generateStatement : Statement → Generation Unit
  | .tensorDecl declaration => generateTensorDeclaration symbols declaration
  | .assignment assignment => generateAssignment assignment
  | .returnStmt returnStatement => generateReturn returnStatement
  | .nullIf => throw .nullIf
  | .ifStmt condition thenStatements elseStatements _ => do
    let info ← generateExpression condition
    let (thenBlock, elseBlock) ← openBranches info
    let before := (← get).values
    enterBlock thenBlock before
    generateBranch thenStatements
    let thenGenerator ← get
    enterBlock elseBlock before
    generateBranch elseStatements
    let elseGenerator ← get
    joinBranches order before thenGenerator.currentBlockId elseGenerator.currentBlockId
      thenGenerator.values elseGenerator.values

/-- The loop over the statements of a branch, which stops after a return. -/
def generateBranch : List Statement → Generation Unit
  | [] => pure ()
  | statement :: statements => do
    let generator ← get
    if generator.currentBlockId = none then pure ()
    else do
      generateStatement statement
      generateBranch statements

end

/-- The loop over the statements of the program, which rejects what follows a return. -/
def generateTopLevel : List Statement → Generation Unit
  | [] => pure ()
  | statement :: statements => do
    let generator ← get
    if generator.currentBlockId = none then throw .unreachableStatement
    else do
      generateStatement order symbols statement
      generateTopLevel statements

/-- The check that the last block in use has been terminated. -/
def requireReturn : Generation Unit := do
  let generator ← get
  match generator.currentBlockId with
  | none => pure ()
  | some id =>
    match generator.module.blocks[id]? with
    | none => throw .outOfRange
    | some block => if block.terminator = none then throw .pathWithoutReturn else pure ()

/-- Everything that `generate` does before the final verification. -/
def generateUnverified (program : Program) : Generation Unit := do
  let entry ← createBlock "entry"
  modify fun generator =>
    { generator with
      module := { generator.module with entry := entry }
      currentBlockId := entry }
  generateTopLevel order symbols program.statements
  requireReturn

/-- Generation of a whole program, given the analyser that accepted it. -/
def generate (analyzer : SemanticAnalyzer) (program : Program) : Except IRError Module :=
  match generateUnverified order analyzer.symbols program {} with
  | .error error _ => .error error
  | .ok _ generator =>
    match verify generator.module with
    | .ok _ => .ok generator.module
    | .error error => .error (.verification error)

/-- The phases between the parser and the back end. A rejected program has no result. -/
def compile (analysisOrder : TraversalOrder) (program : Program) :
    Option (Except IRError Module) :=
  match analyze analysisOrder program with
  | .ok analyzer => some (generate order analyzer program)
  | .error _ => none

variable {order}

theorem compile_some {analysisOrder : TraversalOrder} {program : Program} :
    compile order analysisOrder program = some result ↔
      ∃ analyzer, analyze analysisOrder program = .ok analyzer ∧
        generate order analyzer program = result := by
  rw [compile]
  cases analyze analysisOrder program with
  | ok analyzer => simp
  | error error => simp

theorem exists_of_compile {analysisOrder : TraversalOrder} {program : Program}
    (compiled : (compile order analysisOrder program).any Except.isOk = true) :
    ∃ analyzer module, analyze analysisOrder program = .ok analyzer ∧
      generate order analyzer program = .ok module := by
  obtain ⟨result, found, ok⟩ := (Option.any_eq_true _ _).mp compiled
  obtain ⟨analyzer, accepted, generated⟩ := compile_some.mp found
  cases result with
  | ok module => exact ⟨analyzer, module, accepted, generated⟩
  | error error => cases ok

end Ocelotl.IR
