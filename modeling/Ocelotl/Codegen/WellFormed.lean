import Ocelotl.Codegen.PhiRule
import Ocelotl.Library.Dominance

/-! The rules that LLVM's verifier checks, for the part of LLVM that the back
end emits: control flow, types, single definitions and dominance. -/

namespace Ocelotl.LLVM

open Library

inductive ValueType where
  | i1 | i32 | i64 | double | ptr
  deriving DecidableEq, Repr

def ScalarType.valueType : ScalarType → ValueType
  | .i1 => .i1
  | .i64 => .i64
  | .double => .double

def ValueType.isInteger : ValueType → Bool
  | .i1 | .i32 | .i64 => true
  | .double | .ptr => false

def Opcode.isFloat : Opcode → Bool
  | .fadd | .fsub | .fmul | .fdiv => true
  | .add | .sub | .mul | .sdiv => false

def Operand.typeIn (types : RegisterId → ValueType) : Operand → ValueType
  | .integer _ => .i64
  | .float _ => .double
  | .null | .slot _ => .ptr
  | .register result => types result

/-- Integer comparison works on pointers too. -/
def Instruction.Typed (types : RegisterId → ValueType) : Instruction → Prop
  | .alloca _ => True
  | .store _ slot => slot.typeIn types = .ptr
  | .load result slot => slot.typeIn types = .ptr ∧ types result = .ptr
  | .callAlloc result _ _ => types result = .ptr
  | .callFree pointer => pointer.typeIn types = .ptr
  | .binary result opcode lhs rhs =>
    types result = lhs.typeIn types ∧ rhs.typeIn types = lhs.typeIn types ∧
      if opcode.isFloat then lhs.typeIn types = .double else (lhs.typeIn types).isInteger = true
  | .icmp result _ lhs rhs =>
    types result = .i1 ∧ rhs.typeIn types = lhs.typeIn types ∧ lhs.typeIn types ≠ .double
  | .fcmp result _ lhs rhs =>
    types result = .i1 ∧ rhs.typeIn types = lhs.typeIn types ∧ lhs.typeIn types = .double
  | .phi result type incoming =>
    types result = type.valueType ∧ ∀ source ∈ incoming, source.1.typeIn types = type.valueType
  | .trunc result value => types result = .i32 ∧ value.typeIn types = .i64

def Terminator.Typed (types : RegisterId → ValueType) : Terminator → Prop
  | .br _ => True
  | .condBr condition _ _ => condition.typeIn types = .i1
  | .ret value => value.typeIn types = .i32

/-- The operand that stands for the result of an instruction. -/
def Instruction.result : Instruction → Option Operand
  | .alloca slot => some (.slot slot)
  | .load result _ | .callAlloc result _ _ | .binary result _ _ _ | .icmp result _ _ _
  | .fcmp result _ _ _ | .phi result _ _ | .trunc result _ => some (.register result)
  | .store _ _ | .callFree _ => none

/-- The operands that an instruction reads where it stands. -/
def Instruction.operands : Instruction → List Operand
  | .alloca _ | .callAlloc _ _ _ | .phi _ _ _ => []
  | .store value slot => [value, slot]
  | .load _ slot => [slot]
  | .callFree pointer => [pointer]
  | .binary _ _ lhs rhs | .icmp _ _ lhs rhs | .fcmp _ _ lhs rhs => [lhs, rhs]
  | .trunc _ value => [value]

def Terminator.operands : Terminator → List Operand
  | .br _ => []
  | .condBr condition _ _ => [condition]
  | .ret value => [value]

def Operand.isConstant : Operand → Bool
  | .integer _ | .float _ | .null => true
  | .slot _ | .register _ => false

namespace Function

variable (function : Function)

def InstructionAt (label : Label) (index : Nat) (instruction : Instruction) : Prop :=
  ∃ body, function.blocks[label]? = some body ∧ body.instructions[index]? = some instruction

def TerminatorAt (label : Label) (terminator : Terminator) : Prop :=
  ∃ body, function.blocks[label]? = some body ∧ body.terminator = some terminator

def Edge (source target : Label) : Prop := 0 < function.edges source target

def Defines (operand : Operand) (label : Label) (index : Nat) : Prop :=
  ∃ instruction, function.InstructionAt label index instruction ∧ instruction.result = some operand

def Reaches (label : Label) : Prop := ∃ visited, Walk function.Edge 0 visited label

/-- The operand is a constant, or defined before this index of this block.
Nothing has to be defined before code that is out of reach. -/
def DefinedBefore (operand : Operand) (label : Label) (index : Nat) : Prop :=
  operand.isConstant = true ∨ ∃ source position, function.Defines operand source position ∧
    (function.Reaches label → source = label ∧ position < index ∨
      source ≠ label ∧ Dominates function.Edge 0 source label)

def DefinedAtEnd (operand : Operand) (label : Label) : Prop :=
  operand.isConstant = true ∨ ∃ source position, function.Defines operand source position ∧
    (function.Reaches label → Dominates function.Edge 0 source label)

variable {function}

theorem DefinedBefore.atEnd (before : function.DefinedBefore operand label index) :
    function.DefinedAtEnd operand label := by
  rcases before with constant | ⟨source, position, defines, placed⟩
  · exact .inl constant
  · refine .inr ⟨source, position, defines, fun reaches => ?_⟩
    rcases placed reaches with ⟨same, _⟩ | ⟨_, dominates⟩
    · exact same ▸ .refl _
    · exact dominates

theorem DefinedBefore.mono {later : Nat} (before : function.DefinedBefore operand label index)
    (le : index ≤ later) : function.DefinedBefore operand label later := by
  rcases before with constant | ⟨source, position, defines, placed⟩
  · exact .inl constant
  · refine .inr ⟨source, position, defines, fun reaches => ?_⟩
    exact (placed reaches).imp_left fun ⟨same, less⟩ => ⟨same, Nat.lt_of_lt_of_le less le⟩

/-- A result of the block itself. -/
theorem Defines.before {position : Nat} (defines : function.Defines operand label position)
    (less : position < index) : function.DefinedBefore operand label index :=
  .inr ⟨label, position, defines, fun _ => .inl ⟨rfl, less⟩⟩

variable (function)

/-- Each result belongs to one instruction. -/
def SingleDefinitions : Prop :=
  ∀ operand label index label' index', function.Defines operand label index →
    function.Defines operand label' index' → label = label' ∧ index = index'

end Function

/-- The function passes LLVM's verifier. -/
structure WellFormed (function : Function) : Prop where
  nonempty : function.blocks ≠ []
  terminated : ∀ (label : Label) body, function.blocks[label]? = some body → body.terminator ≠ none
  targets : ∀ label terminator, function.TerminatorAt label terminator →
    ∀ target ∈ terminator.targets, target < function.blocks.length
  entry : ∀ source, ¬ function.Edge source 0
  phisFirst : ∀ label index index' instruction instruction',
    function.InstructionAt label index instruction →
      function.InstructionAt label index' instruction' →
    index' < index → instruction.isPhi = true → instruction'.isPhi = true
  phis : EntriesMatchEdges function
  agreement : ∀ label index result type incoming,
    function.InstructionAt label index (.phi result type incoming) →
    ∀ operand operand' source, (operand, source) ∈ incoming → (operand', source) ∈ incoming →
      operand = operand'
  single : function.SingleDefinitions
  typed : ∃ types, (∀ label index instruction, function.InstructionAt label index instruction →
      instruction.Typed types) ∧
    ∀ label terminator, function.TerminatorAt label terminator → terminator.Typed types
  operands : ∀ label index instruction, function.InstructionAt label index instruction →
    ∀ operand ∈ instruction.operands, function.DefinedBefore operand label index
  terminators : ∀ label terminator, function.TerminatorAt label terminator →
    ∀ operand ∈ terminator.operands, function.DefinedAtEnd operand label
  incoming : ∀ label index result type incoming,
    function.InstructionAt label index (.phi result type incoming) →
    ∀ source ∈ incoming, function.DefinedAtEnd source.1 source.2

end Ocelotl.LLVM
