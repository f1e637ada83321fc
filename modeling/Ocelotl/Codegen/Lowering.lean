import Ocelotl.Codegen.LLVM
import Ocelotl.IR.Verifier
import Ocelotl.Library.Throwing
import Mathlib.Algebra.Ring.Nat

namespace Ocelotl.Codegen

open IR Library LLVM

inductive LoweringError where
  | verification (error : VerificationError)
  | returnNotScalarI64
  | unsupportedStorage | storageOverflow
  | unsupportedPhi | tooManyPhiOperands
  | tensorLowering
  | outOfRange
  | unterminated | runtimeNotDeclared
  | invalidLLVM (message : String)
  deriving DecidableEq, Repr

/-- What the exception says. The text of `std::out_of_range` is the library's,
and the two cases before the last are undefined behaviour without a text. -/
def LoweringError.message : LoweringError → String
  | .verification error => error.message
  | .returnNotScalarI64 => "LLVM executable lowering requires scalar i64 return values"
  | .unsupportedStorage => "unsupported tensor storage type"
  | .storageOverflow => "tensor storage size overflows runtime ABI"
  | .unsupportedPhi => "unsupported phi type"
  | .tooManyPhiOperands => "too many phi operands for LLVM"
  | .tensorLowering => "tensor LLVM lowering is not implemented yet"
  | .outOfRange => "out of range"
  | .unterminated | .runtimeNotDeclared => ""
  | .invalidLLVM message => "generated invalid LLVM IR: " ++ message

def lowerType (type : TensorType) : Option ScalarType :=
  if type.shape ≠ [] then none
  else if type.elementType = "i1" then some .i1
  else if type.elementType = "i64" then some .i64
  else if type.elementType = "f64" then some .double
  else none

/-- The loop over the dimensions. The product is a 64-bit number. -/
def multiplyDimensions (size : Nat) : List Nat → Except LoweringError Nat
  | [] => return size
  | dimension :: dimensions =>
    if dimension = 0 ∨ dimension > (2 ^ 64 - 1) / size then throw .storageOverflow
    else multiplyDimensions (size * dimension % 2 ^ 64) dimensions

def tensorStorageSize (type : TensorType) : Except LoweringError Nat :=
  let elementSize :=
    if type.elementType = "f32" then 4
    else if type.elementType = "f64" ∨ type.elementType = "i64" then 8
    else 0
  if elementSize = 0 ∨ type.shape = [] then throw .unsupportedStorage
  else multiplyDimensions elementSize type.shape

/-- The locals of `generate` that its loops change. -/
structure Builder where
  function : LLVM.Function := {}
  insertPoint : Label := 0
  nextRegister : RegisterId := 0
  nextSlot : SlotId := 0
  values : UnorderedMap ValueId Operand := ∅
  cleanupSlots : UnorderedMap ValueId SlotId := ∅

abbrev Lowering := EStateM LoweringError Builder

namespace Builder

def changeBlock (builder : Builder) (change : LLVM.BasicBlock → LLVM.BasicBlock) : Builder :=
  { builder with function := ⟨builder.function.blocks.modify builder.insertPoint change⟩ }

def emit (builder : Builder) (instruction : Instruction) : Builder :=
  builder.changeBlock fun block =>
    { block with instructions := block.instructions ++ [instruction] }

def terminate (builder : Builder) (terminator : LLVM.Terminator) : Builder :=
  builder.changeBlock fun block => { block with terminator := some terminator }

end Builder

def emit (instruction : Instruction) : Lowering Unit :=
  modify (·.emit instruction)

def terminate (terminator : LLVM.Terminator) : Lowering Unit :=
  modify (·.terminate terminator)

/-- The register of a new instruction. -/
def newRegister : Lowering RegisterId :=
  modifyGet fun builder =>
    (builder.nextRegister, { builder with nextRegister := builder.nextRegister + 1 })

def newSlot : Lowering SlotId :=
  modifyGet fun builder => (builder.nextSlot, { builder with nextSlot := builder.nextSlot + 1 })

/-- Emit an instruction that has a result. -/
def create (instruction : RegisterId → Instruction) : Lowering Operand := do
  let result ← newRegister
  emit (instruction result)
  return .register result

def emplaceValue (id : ValueId) (operand : Operand) : Lowering Unit :=
  modify fun builder => { builder with values := (builder.values.emplace id operand).2 }

def emplaceSlot (id : ValueId) (slot : SlotId) : Lowering Unit :=
  modify fun builder => { builder with cleanupSlots := (builder.cleanupSlots.emplace id slot).2 }

def valueAt (id : ValueId) : Lowering Operand := do
  let builder ← get
  match builder.values.lookup id with
  | some operand => pure operand
  | none => throw .outOfRange

def cleanupSlotAt (id : ValueId) : Lowering SlotId := do
  let builder ← get
  match builder.cleanupSlots.lookup id with
  | some slot => pure slot
  | none => throw .outOfRange

/-- Where the blocks of the module are in the function. -/
abbrev Labels := UnorderedMap BlockId Label

def labelAt (labels : Labels) (id : BlockId) : Lowering Label :=
  match labels.lookup id with
  | some label => pure label
  | none => throw .outOfRange

def setInsertPoint (label : Label) : Lowering Unit :=
  modify fun builder => { builder with insertPoint := label }

def createBlock (name : String) : Lowering Label :=
  modifyGet fun builder =>
    (builder.function.blocks.length,
      { builder with function := ⟨builder.function.blocks ++ [{ name := name }]⟩ })

/-- The calls of the runtime go through functions that are declared only for
modules with tensor declarations. -/
def requireRuntime (needsRuntime : Bool) : Lowering Unit :=
  if needsRuntime then pure () else throw .runtimeNotDeclared

def binaryOpcode (kind : BinaryKind) (floating : Bool) : Opcode :=
  match kind with
  | .add => if floating then .fadd else .add
  | .subtract => if floating then .fsub else .sub
  | .multiply => if floating then .fmul else .mul
  | .divide => if floating then .fdiv else .sdiv

def floatPredicate (kind : CompareKind) : FloatPredicate :=
  match kind with
  | .equal => .oeq
  | .notEqual => .une
  | .less => .olt
  | .lessEqual => .ole
  | .greater => .ogt
  | .greaterEqual => .oge

def integerPredicate (kind : CompareKind) : IntegerPredicate :=
  match kind with
  | .equal => .eq
  | .notEqual => .ne
  | .less => .slt
  | .lessEqual => .sle
  | .greater => .sgt
  | .greaterEqual => .sge

def compareInstruction (kind : CompareKind) (operandType : TensorType) (lhs rhs : Operand)
    (result : RegisterId) : Instruction :=
  if operandType.elementType = "f64" then .fcmp result (floatPredicate kind) lhs rhs
  else .icmp result (integerPredicate kind) lhs rhs

/-- The largest `unsigned`. -/
def maxUnsigned : Nat := 4294967295

/-- The loop that adds the incoming values of a phi. -/
def lowerIncoming (labels : Labels) : List PhiIncoming → Lowering (List (Operand × Label))
  | [] => pure []
  | source :: sources => do
    let operand ← valueAt source.value
    let label ← labelAt labels source.predecessor
    let rest ← lowerIncoming labels sources
    return (operand, label) :: rest

variable (needsRuntime : Bool) (labels : Labels)

def lowerOperation : Operation → Lowering Unit
  | .tensorDecl result _ type => do
    requireRuntime needsRuntime
    let size ← ofExcept (tensorStorageSize type)
    let storage ← create (.callAlloc · (BitVec.ofNat 64 size) 64)
    let slot ← cleanupSlotAt result
    emit (.store storage (.slot slot))
    emplaceValue result storage
  | .constantInt result value _ => emplaceValue result (.integer value)
  | .constantFloat result value _ => emplaceValue result (.float value)
  | .binary result kind lhs rhs type => do
    let lhs ← valueAt lhs
    let rhs ← valueAt rhs
    let operand ← create (.binary · (binaryOpcode kind (type.elementType = "f64")) lhs rhs)
    emplaceValue result operand
  | .compare result kind lhs rhs operandType => do
    let lhs ← valueAt lhs
    let rhs ← valueAt rhs
    let operand ← create (compareInstruction kind operandType lhs rhs)
    emplaceValue result operand
  | .phi result type incoming =>
    match lowerType type with
    | none => throw .unsupportedPhi
    | some scalar => do
      if incoming.length > maxUnsigned then throw .tooManyPhiOperands
      -- The phi is a value before its incoming values are looked up.
      let register ← newRegister
      emplaceValue result (.register register)
      let sources ← lowerIncoming labels incoming
      emit (.phi register scalar sources)
  | .matMul _ _ _ _ | .relu _ _ _ => throw .tensorLowering

def lowerOperations : List Operation → Lowering Unit
  | [] => pure ()
  | operation :: operations => do
    lowerOperation needsRuntime labels operation
    lowerOperations operations

/-- The loop over the cleanup slots at a return. -/
def releaseSlots : List (ValueId × SlotId) → Lowering Unit
  | [] => pure ()
  | (_, slot) :: slots => do
    requireRuntime needsRuntime
    let pointer ← create (.load · (.slot slot))
    emit (.callFree pointer)
    releaseSlots slots

variable (order : TraversalOrder)

/-- The id of the block names the traversal of the cleanup slots at its return. -/
def lowerTerminator (id : BlockId) : IR.Terminator → Lowering Unit
  | .branch target => do
    let label ← labelAt labels target
    terminate (.br label)
  | .condBranch condition trueTarget falseTarget => do
    let operand ← valueAt condition
    let trueLabel ← labelAt labels trueTarget
    let falseLabel ← labelAt labels falseTarget
    terminate (.condBr operand trueLabel falseLabel)
  | .returnOp value => do
    let builder ← get
    releaseSlots needsRuntime (order.traverse id builder.cleanupSlots)
    let operand ← valueAt value
    let status ← create (.trunc · operand)
    terminate (.ret status)

def lowerBlock (block : IR.BasicBlock) : Lowering Unit := do
  let label ← labelAt labels block.id
  setInsertPoint label
  lowerOperations needsRuntime labels block.operations
  match block.terminator with
  | some terminator => lowerTerminator needsRuntime labels order block.id terminator
  | none => throw .unterminated

def lowerBlocks : List IR.BasicBlock → Lowering Unit
  | [] => pure ()
  | block :: blocks => do
    lowerBlock needsRuntime labels order block
    lowerBlocks blocks

/-- The loop that creates the blocks of the function. -/
def createBlocks (labels : Labels) : List IR.BasicBlock → Lowering Labels
  | [] => pure labels
  | block :: blocks => do
    let label ← createBlock block.name
    createBlocks (labels.emplace block.id label).2 blocks

/-- A stack slot for the storage of a declared tensor, which starts as null. -/
def createCleanupSlot : Operation → Lowering Unit
  | .tensorDecl result _ _ => do
    let slot ← newSlot
    emit (.alloca slot)
    emit (.store .null (.slot slot))
    emplaceSlot result slot
  | _ => pure ()

def createCleanupSlots : List Operation → Lowering Unit
  | [] => pure ()
  | operation :: operations => do
    createCleanupSlot operation
    createCleanupSlots operations

def operationsOf (module : IR.Module) : List Operation :=
  module.blocks.flatMap fun block => block.operations

def valueTypes (operations : List Operation) : UnorderedMap ValueId TensorType :=
  operations.foldl
    (fun types operation => (types.emplace (resultOf operation) (typeOf operation)).2) ∅

def declaresTensor : Operation → Bool
  | .tensorDecl _ _ _ => true
  | _ => false

/-- The type of the first return, in the order of the blocks. -/
def firstReturnType (types : UnorderedMap ValueId TensorType) :
    List IR.BasicBlock → Except LoweringError (Option TensorType)
  | [] => return none
  | block :: blocks =>
    match block.terminator with
    | some (.returnOp value) =>
      match types.lookup value with
      | some type => return some type
      | none => throw .outOfRange
    | some _ => firstReturnType types blocks
    | none => throw .unterminated

/-- Everything `generate` does between its checks of the module and of the function. -/
def lowerModule (module : IR.Module) : Lowering Unit := do
  let needsRuntime := (operationsOf module).any declaresTensor
  let labels ← createBlocks ∅ module.blocks
  let entry ← labelAt labels module.entry
  setInsertPoint entry
  createCleanupSlots (operationsOf module)
  lowerBlocks needsRuntime labels order module.blocks

/-- Lowering of a whole module. LLVM's own verifier is a parameter: it accepts
the function, or says what is wrong with it. -/
def generate (verifyModule : LLVM.Function → Except String Unit) (module : IR.Module) :
    Except LoweringError LLVM.Function :=
  match verify module with
  | .error error => throw (.verification error)
  | .ok _ => do
    let returnType ← firstReturnType (valueTypes (operationsOf module)) module.blocks
    if returnType ≠ some (.scalar "i64") then throw .returnNotScalarI64
    else match lowerModule order module {} with
      | .error error _ => throw error
      | .ok _ builder =>
        match verifyModule builder.function with
        | .ok _ => return builder.function
        | .error message => throw (.invalidLLVM message)

end Ocelotl.Codegen
