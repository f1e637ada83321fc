import Ocelotl.IR.Module
import Ocelotl.Library.Throwing
import Ocelotl.Library.UnorderedMap
import Mathlib.Data.Finset.Insert

namespace Ocelotl.IR

open Library

inductive VerificationError where
  | noBlocks
  | duplicateBlock (id : BlockId)
  | missingTerminator (block : String)
  | phiAfterOther (block : String)
  | multipleDefinitions (value : ValueId)
  | missingEntry
  | missingTarget (id : BlockId)
  | missingValue (value : ValueId)
  | typeMismatch (value : ValueId)
  | usedBeforeDefinition (value : ValueId)
  | duplicatePredecessor
  | predecessorMismatch (block : String)
  | conditionNotI1
  | inconsistentReturns
  | noReturn
  deriving DecidableEq, Repr

def VerificationError.message (error : VerificationError) : String :=
  "IR verification failed: " ++ match error with
    | .noBlocks => "module has no basic blocks"
    | .duplicateBlock id => s!"duplicate basic block id {id}"
    | .missingTerminator block => s!"basic block '{block}' has no terminator"
    | .phiAfterOther block => s!"phi nodes must precede other operations in block '{block}'"
    | .multipleDefinitions value => s!"SSA value %{value} has multiple definitions"
    | .missingEntry => "entry block does not exist"
    | .missingTarget id => s!"branch targets nonexistent block {id}"
    | .missingValue value => s!"use of nonexistent SSA value %{value}"
    | .typeMismatch value => s!"type mismatch for SSA value %{value}"
    | .usedBeforeDefinition value => s!"SSA value %{value} is used before its definition"
    | .duplicatePredecessor => "phi has duplicate predecessor"
    | .predecessorMismatch block =>
      s!"phi predecessors do not match CFG predecessors in block '{block}'"
    | .conditionNotI1 => "conditional branch condition must have type i1"
    | .inconsistentReturns => "return terminators have inconsistent types"
    | .noReturn => "module has no return terminator"

structure Definition where
  block : BlockId
  operationIndex : Nat
  type : TensorType
  deriving DecidableEq, Repr

abbrev Verification := Except VerificationError

abbrev Definitions := UnorderedMap ValueId Definition

/-- The loop over the operations of one block in the first pass. -/
def collectOperations (block : BasicBlock) :
    Nat → Bool → List Operation → Definitions → Verification Definitions
  | _, _, [], definitions => return definitions
  | index, sawNonPhi, operation :: operations, definitions =>
    if operation.isPhi && sawNonPhi then throw (.phiAfterOther block.name)
    else
      match definitions.emplace (resultOf operation) ⟨block.id, index, typeOf operation⟩ with
      | (true, definitions) =>
        collectOperations block (index + 1) (sawNonPhi || !operation.isPhi) operations definitions
      | (false, _) => throw (.multipleDefinitions (resultOf operation))

/-- The first pass: block ids, terminators, phi positions and definitions. -/
def collectBlocks : List BasicBlock → UnorderedMap BlockId BasicBlock → Definitions →
    Verification (UnorderedMap BlockId BasicBlock × Definitions)
  | [], blocks, definitions => return (blocks, definitions)
  | block :: rest, blocks, definitions =>
    match blocks.emplace block.id block with
    | (false, _) => throw (.duplicateBlock block.id)
    | (true, blocks) =>
      if block.terminator.isNone then throw (.missingTerminator block.name)
      else do
        let definitions ← collectOperations block 0 false block.operations definitions
        collectBlocks rest blocks definitions

/-- Reading a missing key gives the empty set. -/
abbrev Predecessors := BlockId → Finset BlockId

def addPredecessor (predecessors : Predecessors) (target source : BlockId) : Predecessors :=
  fun block => if block = target then insert source (predecessors block) else predecessors block

def requireBlock (blocks : UnorderedMap BlockId BasicBlock) (id : BlockId) : Verification Unit :=
  if id ∈ blocks then return () else throw (.missingTarget id)

/-- The second pass: branch targets and predecessors. -/
def collectPredecessors (blocks : UnorderedMap BlockId BasicBlock) :
    List BasicBlock → Predecessors → Verification Predecessors
  | [], predecessors => return predecessors
  | block :: rest, predecessors =>
    match block.terminator with
    | some (.branch target) => do
      requireBlock blocks target
      collectPredecessors blocks rest (addPredecessor predecessors target block.id)
    | some (.condBranch _ trueTarget falseTarget) => do
      requireBlock blocks trueTarget
      requireBlock blocks falseTarget
      collectPredecessors blocks rest
        (addPredecessor (addPredecessor predecessors trueTarget block.id) falseTarget block.id)
    | _ => collectPredecessors blocks rest predecessors

def requireValue (definitions : Definitions) (value : ValueId) : Verification Definition :=
  match definitions.lookup value with
  | some definition => return definition
  | none => throw (.missingValue value)

def requireOperand (definitions : Definitions) (value : ValueId) (type : TensorType)
    (useBlock : BlockId) (useIndex : Nat) : Verification Unit := do
  let definition ← requireValue definitions value
  if definition.type ≠ type then throw (.typeMismatch value)
  else if definition.block = useBlock ∧ useIndex ≤ definition.operationIndex then
    throw (.usedBeforeDefinition value)
  else return ()

/-- The loop over the incoming values of a phi. -/
def verifyIncoming (definitions : Definitions) (predecessors : Predecessors) (block : BasicBlock)
    (index : Nat) (type : TensorType) : List PhiIncoming → Finset BlockId → Verification Unit
  | [], incomingBlocks =>
    if incomingBlocks ≠ predecessors block.id then throw (.predecessorMismatch block.name)
    else return ()
  | incoming :: rest, incomingBlocks => do
    requireOperand definitions incoming.value type block.id index
    if incoming.predecessor ∈ incomingBlocks then throw .duplicatePredecessor
    else
      verifyIncoming definitions predecessors block index type rest
        (insert incoming.predecessor incomingBlocks)

def verifyOperation (definitions : Definitions) (predecessors : Predecessors) (block : BasicBlock)
    (index : Nat) : Operation → Verification Unit
  | .binary _ _ lhs rhs type => do
    requireOperand definitions lhs type block.id index
    requireOperand definitions rhs type block.id index
  | .compare _ _ lhs rhs operandType => do
    requireOperand definitions lhs operandType block.id index
    requireOperand definitions rhs operandType block.id index
  | .phi _ type incoming =>
    verifyIncoming definitions predecessors block index type incoming ∅
  | .matMul _ lhs rhs _ => do
    let _ ← requireValue definitions lhs
    let _ ← requireValue definitions rhs
  | .relu _ input _ => do
    let _ ← requireValue definitions input
  | .tensorDecl .. | .constantInt .. | .constantFloat .. => return ()

def verifyOperations (definitions : Definitions) (predecessors : Predecessors)
    (block : BasicBlock) : Nat → List Operation → Verification Unit
  | _, [] => return ()
  | index, operation :: operations => do
    verifyOperation definitions predecessors block index operation
    verifyOperations definitions predecessors block (index + 1) operations

/-- Check a terminator against the return type seen so far, and give the new one. -/
def verifyTerminator (definitions : Definitions) (returnType : Option TensorType) :
    Option Terminator → Verification (Option TensorType)
  | some (.condBranch condition _ _) => do
    let definition ← requireValue definitions condition
    if definition.type ≠ .scalar "i1" then throw .conditionNotI1
    else return returnType
  | some (.returnOp value) => do
    let definition ← requireValue definitions value
    if returnType.any (· ≠ definition.type) then throw .inconsistentReturns
    else return some definition.type
  | _ => return returnType

/-- The third pass: the uses in every block. -/
def verifyBlocks (definitions : Definitions) (predecessors : Predecessors) :
    List BasicBlock → Option TensorType → Verification (Option TensorType)
  | [], returnType => return returnType
  | block :: rest, returnType => do
    verifyOperations definitions predecessors block 0 block.operations
    let returnType ← verifyTerminator definitions returnType block.terminator
    verifyBlocks definitions predecessors rest returnType

def verify (module : Module) : Verification Unit :=
  if module.blocks = [] then throw .noBlocks
  else do
    let (blocks, definitions) ← collectBlocks module.blocks ∅ ∅
    if module.entry ∉ blocks then throw .missingEntry
    else do
      let predecessors ← collectPredecessors blocks module.blocks fun _ => ∅
      let returnType ← verifyBlocks definitions predecessors module.blocks none
      if returnType.isNone then throw .noReturn else return ()

end Ocelotl.IR
