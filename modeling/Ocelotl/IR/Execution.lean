import Ocelotl.IR.ControlFlow
import Ocelotl.Evaluation.Value
import Ocelotl.Library.Machine
import Mathlib.Logic.Function.Basic

/-! Execution of modules: operations in block order, phis that read the value
listed for the block just left, and registers that keep every result. -/

namespace Ocelotl.IR

open Library Evaluation

variable {Contents : Type}

abbrev Registers (Contents : Type) := ValueId → Option (Value Contents)

/-- Why an execution cannot go on. -/
inductive Stuck where
  | missingBlock | unterminated
  | undefinedRegister (value : ValueId)
  | noIncomingValue
  | operandTypes | conditionNotI1
  | undefinedDivision
  deriving DecidableEq, Repr

def readRegister (registers : Registers Contents) (value : ValueId) :
    Except Stuck (Value Contents) :=
  match registers value with
  | some found => return found
  | none => throw (.undefinedRegister value)

def integerBinary (kind : BinaryKind) (lhs rhs : BitVec 64) : Except Stuck (Value Contents) :=
  match kind with
  | .add => return .i64 (lhs + rhs)
  | .subtract => return .i64 (lhs - rhs)
  | .multiply => return .i64 (lhs * rhs)
  | .divide =>
    match quotient lhs rhs with
    | some result => return .i64 result
    | none => throw .undefinedDivision

def floatBinary (operations : Operations Contents) (kind : BinaryKind) : Double → Double → Double :=
  match kind with
  | .add => operations.add
  | .subtract => operations.subtract
  | .multiply => operations.multiply
  | .divide => operations.divide

def integerCompare (kind : CompareKind) (lhs rhs : BitVec 64) : Bool :=
  match kind with
  | .equal => lhs == rhs
  | .notEqual => lhs != rhs
  | .less => lhs.slt rhs
  | .lessEqual => lhs.sle rhs
  | .greater => rhs.slt lhs
  | .greaterEqual => rhs.sle lhs

def floatCompare (operations : Operations Contents) (kind : CompareKind) : Double → Double → Bool :=
  match kind with
  | .equal => operations.equal
  | .notEqual => operations.notEqual
  | .less => operations.less
  | .lessEqual => operations.lessEqual
  | .greater => operations.greater
  | .greaterEqual => operations.greaterEqual

/-- The type of an operation says whether it works on floats. Its operands must
be numbers of that kind. -/
def executeBinary (operations : Operations Contents) (kind : BinaryKind) (type : TensorType)
    (lhs rhs : Value Contents) : Except Stuck (Value Contents) :=
  if type.elementType = "f64" then
    match lhs, rhs with
    | .f64 lhs, .f64 rhs => return .f64 (floatBinary operations kind lhs rhs)
    | _, _ => throw .operandTypes
  else
    match lhs, rhs with
    | .i64 lhs, .i64 rhs => integerBinary kind lhs rhs
    | _, _ => throw .operandTypes

def executeCompare (operations : Operations Contents) (kind : CompareKind)
    (operandType : TensorType) (lhs rhs : Value Contents) : Except Stuck (Value Contents) :=
  if operandType.elementType = "f64" then
    match lhs, rhs with
    | .f64 lhs, .f64 rhs => return .i1 (floatCompare operations kind lhs rhs)
    | _, _ => throw .operandTypes
  else
    match lhs, rhs with
    | .i64 lhs, .i64 rhs => return .i1 (integerCompare kind lhs rhs)
    | _, _ => throw .operandTypes

/-- The block that was left last, and what the registers held then. -/
structure Departure (Contents : Type) where
  block : BlockId
  registers : Registers Contents

/-- A phi reads the value listed for the block just left, as it was there. -/
def executePhi (previous : Option (Departure Contents)) (incoming : List PhiIncoming) :
    Except Stuck (Value Contents) :=
  match previous with
  | none => throw .noIncomingValue
  | some departure =>
    match incoming.find? fun source => source.predecessor == departure.block with
    | some source => readRegister departure.registers source.value
    | none => throw .noIncomingValue

variable (operations : Operations Contents)

/-- The value of an operation. -/
def execute (previous : Option (Departure Contents)) (registers : Registers Contents) :
    Operation → Except Stuck (Value Contents)
  | .tensorDecl _ name type => return operations.tensor name type
  | .constantInt _ value _ => return .i64 value
  | .constantFloat _ value _ => return .f64 value
  | .binary _ kind lhs rhs type => do
    let lhsValue ← readRegister registers lhs
    let rhsValue ← readRegister registers rhs
    executeBinary operations kind type lhsValue rhsValue
  | .compare _ kind lhs rhs operandType => do
    let lhsValue ← readRegister registers lhs
    let rhsValue ← readRegister registers rhs
    executeCompare operations kind operandType lhsValue rhsValue
  | .phi _ _ incoming => executePhi previous incoming
  | .matMul _ lhs rhs _ => do
    let lhsValue ← readRegister registers lhs
    let rhsValue ← readRegister registers rhs
    return operations.matmul lhsValue rhsValue
  | .relu _ input _ => do
    let inputValue ← readRegister registers input
    return operations.relu inputValue

/-- Where an execution stands: before this operation of this block. -/
structure Config (Contents : Type) where
  block : BlockId
  previous : Option (Departure Contents)
  index : Nat
  registers : Registers Contents

namespace Config

def define (config : Config Contents) (result : ValueId) (value : Value Contents) :
    Config Contents :=
  { config with
    index := config.index + 1
    registers := Function.update config.registers result (some value) }

def jump (config : Config Contents) (target : BlockId) : Config Contents :=
  { config with
    block := target
    previous := some ⟨config.block, config.registers⟩
    index := 0 }

end Config

/-- The end of a block: a jump, or the value that is returned. -/
def transfer (config : Config Contents) :
    Terminator → Config Contents ⊕ Except Stuck (Value Contents)
  | .branch target => .inl (config.jump target)
  | .condBranch condition trueTarget falseTarget =>
    match readRegister config.registers condition with
    | .ok (.i1 truth) => .inl (config.jump (if truth then trueTarget else falseTarget))
    | .ok _ => .inr (.error .conditionNotI1)
    | .error stuck => .inr (.error stuck)
  | .returnOp value => .inr (readRegister config.registers value)

/-- A module as a machine that halts with the returned value, or stuck. -/
def machine (blocks : Blocks) : Machine (Config Contents) (Except Stuck (Value Contents)) where
  step config :=
    match blocks config.block with
    | none => .inr (.error .missingBlock)
    | some body =>
      match body.operations[config.index]? with
      | some operation =>
        match execute operations config.previous config.registers operation with
        | .ok value => .inl (config.define (resultOf operation) value)
        | .error stuck => .inr (.error stuck)
      | none =>
        match body.terminator with
        | some terminator => transfer config terminator
        | none => .inr (.error .unterminated)

/-- The start of a block, with no block left and no register written. -/
def Config.initial (entry : BlockId) : Config Contents where
  block := entry
  previous := none
  index := 0
  registers _ := none

/-- The module returns this value, or gets stuck. -/
def Module.Executes (module : Module) (outcome : Except Stuck (Value Contents)) : Prop :=
  (machine operations module.block).Evaluates (.initial module.entry) outcome

variable {operations} {blocks : Blocks} {operation : Operation}

theorem machine_operation (config : Config Contents)
    (present : OperationAt blocks config.block config.index operation) :
    (machine operations blocks).step config =
      match execute operations config.previous config.registers operation with
      | .ok value => .inl (config.define (resultOf operation) value)
      | .error stuck => .inr (.error stuck) := by
  obtain ⟨body, found, here⟩ := present
  simp only [machine, found, here]

theorem machine_terminator {config : Config Contents} {body : BasicBlock} {last : Terminator}
    (found : blocks config.block = some body) (ended : body.operations.length ≤ config.index)
    (ends : body.terminator = some last) :
    (machine operations blocks).step config = transfer config last := by
  have here := List.getElem?_eq_none ended
  simp only [machine, found, here, ends]

end Ocelotl.IR
