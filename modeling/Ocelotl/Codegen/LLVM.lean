import Ocelotl.Evaluation.Value
import Ocelotl.Library.Machine
import Mathlib.Logic.Function.Basic

/-! The part of LLVM that the back end emits, and its execution: phis that take
the value of the predecessor just left, stack slots that hold one pointer, and
calls of the runtime that are recorded in order. -/

namespace Ocelotl.LLVM

open Library Evaluation

/-- Basic blocks by their place in the function. -/
abbrev Label := Nat
abbrev RegisterId := Nat
abbrev SlotId := Nat

inductive ScalarType where
  | i1 | i64 | double
  deriving DecidableEq, Repr

/-- Constants, the addresses of stack slots, and results of instructions. -/
inductive Operand where
  | integer (bits : BitVec 64)
  | float (number : Double)
  | null
  | slot (slot : SlotId)
  | register (result : RegisterId)
  deriving DecidableEq, Repr

inductive Opcode where
  | add | sub | mul | sdiv | fadd | fsub | fmul | fdiv
  deriving DecidableEq, Repr

inductive IntegerPredicate where
  | eq | ne | slt | sle | sgt | sge
  deriving DecidableEq, Repr

inductive FloatPredicate where
  | oeq | une | olt | ole | ogt | oge
  deriving DecidableEq, Repr

/-- The two calls are those of the runtime's allocation functions. -/
inductive Instruction where
  | alloca (slot : SlotId)
  | store (value slot : Operand)
  | load (result : RegisterId) (slot : Operand)
  | callAlloc (result : RegisterId) (size alignment : BitVec 64)
  | callFree (pointer : Operand)
  | binary (result : RegisterId) (opcode : Opcode) (lhs rhs : Operand)
  | icmp (result : RegisterId) (predicate : IntegerPredicate) (lhs rhs : Operand)
  | fcmp (result : RegisterId) (predicate : FloatPredicate) (lhs rhs : Operand)
  | phi (result : RegisterId) (type : ScalarType) (incoming : List (Operand × Label))
  | trunc (result : RegisterId) (value : Operand)
  deriving DecidableEq, Repr

inductive Terminator where
  | br (target : Label)
  | condBr (condition : Operand) (trueTarget falseTarget : Label)
  | ret (value : Operand)
  deriving DecidableEq, Repr

structure BasicBlock where
  name : String
  instructions : List Instruction := []
  terminator : Option Terminator := none
  deriving DecidableEq, Repr

/-- The body of `main`, whose first block is its entry. -/
structure Function where
  blocks : List BasicBlock := []
  deriving DecidableEq, Repr

/-- What the runtime's allocator returns: a block of its own for each call that
succeeds. -/
inductive Pointer where
  | null
  | allocation (call : Nat)
  deriving DecidableEq, Repr

inductive Value where
  | i1 (truth : Bool)
  | i32 (bits : BitVec 32)
  | i64 (bits : BitVec 64)
  | double (number : Double)
  | pointer (pointer : Pointer)
  | slot (slot : SlotId)
  deriving DecidableEq, Repr

inductive Event where
  | alloc (size alignment : BitVec 64) (pointer : Pointer)
  | free (pointer : Pointer)
  deriving DecidableEq, Repr

inductive Stuck where
  | missingBlock | unterminated
  | undefinedRegister (result : RegisterId)
  | noIncomingValue
  | operandTypes
  | undefinedSlot (slot : SlotId)
  | undefinedDivision
  deriving DecidableEq, Repr

abbrev Registers := RegisterId → Option Value

structure Departure where
  label : Label
  registers : Registers

/-- The memory of a stack slot. -/
inductive Cell where
  | unallocated
  | uninitialised
  | holds (pointer : Pointer)
  deriving DecidableEq, Repr

structure Config where
  label : Label
  previous : Option Departure
  index : Nat
  registers : Registers
  slots : SlotId → Cell
  calls : Nat
  events : List Event

/-- A return with its status, and the calls of the runtime up to it. -/
structure Exit where
  status : BitVec 32
  events : List Event
  deriving DecidableEq, Repr

/-- What an execution leaves open: the results of floating point operations,
and which calls of the allocator succeed. -/
structure Environment (Contents : Type) where
  operations : Operations Contents
  succeeds : Nat → Bool

def evaluate (registers : Registers) : Operand → Except Stuck Value
  | .integer bits => return .i64 bits
  | .float number => return .double number
  | .null => return .pointer .null
  | .slot slot => return .slot slot
  | .register result =>
    match registers result with
    | some value => return value
    | none => throw (.undefinedRegister result)

variable {Contents : Type}

/-- Integer arithmetic wraps, and a signed division without a quotient is undefined. -/
def executeBinary (operations : Operations Contents) (opcode : Opcode) (lhs rhs : Value) :
    Except Stuck Value :=
  match opcode, lhs, rhs with
  | .add, .i64 lhs, .i64 rhs => return .i64 (lhs + rhs)
  | .sub, .i64 lhs, .i64 rhs => return .i64 (lhs - rhs)
  | .mul, .i64 lhs, .i64 rhs => return .i64 (lhs * rhs)
  | .sdiv, .i64 lhs, .i64 rhs =>
    match quotient lhs rhs with
    | some result => return .i64 result
    | none => throw .undefinedDivision
  | .fadd, .double lhs, .double rhs => return .double (operations.add lhs rhs)
  | .fsub, .double lhs, .double rhs => return .double (operations.subtract lhs rhs)
  | .fmul, .double lhs, .double rhs => return .double (operations.multiply lhs rhs)
  | .fdiv, .double lhs, .double rhs => return .double (operations.divide lhs rhs)
  | _, _, _ => throw .operandTypes

def integerCompare (predicate : IntegerPredicate) (lhs rhs : BitVec 64) : Bool :=
  match predicate with
  | .eq => lhs == rhs
  | .ne => lhs != rhs
  | .slt => lhs.slt rhs
  | .sle => lhs.sle rhs
  | .sgt => rhs.slt lhs
  | .sge => rhs.sle lhs

def executeIcmp (predicate : IntegerPredicate) (lhs rhs : Value) : Except Stuck Value :=
  match lhs, rhs with
  | .i64 lhs, .i64 rhs => return .i1 (integerCompare predicate lhs rhs)
  | _, _ => throw .operandTypes

def floatCompare (operations : Operations Contents) (predicate : FloatPredicate) :
    Double → Double → Bool :=
  match predicate with
  | .oeq => operations.equal
  | .une => operations.notEqual
  | .olt => operations.less
  | .ole => operations.lessEqual
  | .ogt => operations.greater
  | .oge => operations.greaterEqual

def executeFcmp (operations : Operations Contents) (predicate : FloatPredicate) (lhs rhs : Value) :
    Except Stuck Value :=
  match lhs, rhs with
  | .double lhs, .double rhs => return .i1 (floatCompare operations predicate lhs rhs)
  | _, _ => throw .operandTypes

/-- A phi takes the value listed for the predecessor, as it was when that was left. -/
def executePhi (previous : Option Departure) (incoming : List (Operand × Label)) :
    Except Stuck Value :=
  match previous with
  | none => throw .noIncomingValue
  | some departure =>
    match incoming.find? fun source => source.2 == departure.label with
    | some source => evaluate departure.registers source.1
    | none => throw .noIncomingValue

def pointerOf (registers : Registers) (operand : Operand) : Except Stuck Pointer := do
  match ← evaluate registers operand with
  | .pointer pointer => return pointer
  | _ => throw .operandTypes

def slotOf (registers : Registers) (operand : Operand) : Except Stuck SlotId := do
  match ← evaluate registers operand with
  | .slot slot => return slot
  | _ => throw .operandTypes

namespace Config

def advance (config : Config) : Config := { config with index := config.index + 1 }

def define (config : Config) (result : RegisterId) (value : Value) : Config :=
  { config.advance with registers := Function.update config.registers result (some value) }

def setSlot (config : Config) (slot : SlotId) (cell : Cell) : Config :=
  { config.advance with slots := Function.update config.slots slot cell }

def record (config : Config) (event : Event) : Config :=
  { config.advance with events := config.events ++ [event] }

/-- The allocator answers its next call. -/
def alloc (config : Config) (result : RegisterId) (size alignment : BitVec 64) (success : Bool) :
    Config :=
  let pointer := if success then Pointer.allocation config.calls else Pointer.null
  { config.advance with
    registers := Function.update config.registers result (some (.pointer pointer))
    calls := config.calls + 1
    events := config.events ++ [.alloc size alignment pointer] }

def jump (config : Config) (target : Label) : Config :=
  { config with
    label := target
    previous := some ⟨config.label, config.registers⟩
    index := 0 }

def initial : Config where
  label := 0
  previous := none
  index := 0
  registers _ := none
  slots _ := .unallocated
  calls := 0
  events := []

end Config

variable (environment : Environment Contents)

def execute (config : Config) : Instruction → Except Stuck Config
  | .alloca slot => return config.setSlot slot .uninitialised
  | .store value slot => do
    let pointer ← pointerOf config.registers value
    let slot ← slotOf config.registers slot
    if config.slots slot = .unallocated then throw (.undefinedSlot slot)
    else return config.setSlot slot (.holds pointer)
  | .load result slot => do
    let slot ← slotOf config.registers slot
    match config.slots slot with
    | .holds pointer => return config.define result (.pointer pointer)
    | .unallocated | .uninitialised => throw (.undefinedSlot slot)
  | .callAlloc result size alignment =>
    return config.alloc result size alignment (environment.succeeds config.calls)
  | .callFree pointer => do
    let pointer ← pointerOf config.registers pointer
    return config.record (.free pointer)
  | .binary result opcode lhs rhs => do
    let lhs ← evaluate config.registers lhs
    let rhs ← evaluate config.registers rhs
    return config.define result (← executeBinary environment.operations opcode lhs rhs)
  | .icmp result predicate lhs rhs => do
    let lhs ← evaluate config.registers lhs
    let rhs ← evaluate config.registers rhs
    return config.define result (← executeIcmp predicate lhs rhs)
  | .fcmp result predicate lhs rhs => do
    let lhs ← evaluate config.registers lhs
    let rhs ← evaluate config.registers rhs
    return config.define result (← executeFcmp environment.operations predicate lhs rhs)
  | .phi result _ incoming =>
    -- without entries there is no value to take, and the register stays undefined
    if incoming = [] then return config.advance
    else return config.define result (← executePhi config.previous incoming)
  | .trunc result value => do
    match ← evaluate config.registers value with
    | .i64 bits => return config.define result (.i32 (bits.setWidth 32))
    | _ => throw .operandTypes

/-- The end of a block: a jump, or the status that `main` returns. -/
def transfer (config : Config) : Terminator → Config ⊕ Except Stuck Exit
  | .br target => .inl (config.jump target)
  | .condBr condition trueTarget falseTarget =>
    match evaluate config.registers condition with
    | .ok (.i1 truth) => .inl (config.jump (if truth then trueTarget else falseTarget))
    | .ok _ => .inr (.error .operandTypes)
    | .error stuck => .inr (.error stuck)
  | .ret value =>
    match evaluate config.registers value with
    | .ok (.i32 status) => .inr (.ok ⟨status, config.events⟩)
    | .ok _ => .inr (.error .operandTypes)
    | .error stuck => .inr (.error stuck)

def machine (blocks : List BasicBlock) : Machine Config (Except Stuck Exit) where
  step config :=
    match blocks[config.label]? with
    | none => .inr (.error .missingBlock)
    | some body =>
      match body.instructions[config.index]? with
      | some instruction =>
        match execute environment config instruction with
        | .ok next => .inl next
        | .error stuck => .inr (.error stuck)
      | none =>
        match body.terminator with
        | some terminator => transfer config terminator
        | none => .inr (.error .unterminated)

/-- `main` exits in this way, or gets stuck. -/
def Function.Executes (function : Function) (outcome : Except Stuck Exit) : Prop :=
  (machine environment function.blocks).Evaluates .initial outcome

end Ocelotl.LLVM
