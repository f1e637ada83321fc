import Ocelotl.Codegen.Simulation

/-! Two lowerings of the same blocks run in lockstep. Their registers, slots and
labels may be numbered differently, but stand for the same values. -/

namespace Ocelotl.Codegen

open IR Library LLVM Evaluation

variable {Contents : Type} {environment : Environment Contents}
  {blocks blocks' : List LLVM.BasicBlock} {labels labels' : Labels} {values values' : Operands}
  {slots slots' : CleanupSlots} {registers registers' : LLVM.Registers}
  {config config' : LLVM.Config} {value : LLVM.Value} {operand operand' : Operand} {id : ValueId}

/-- What a value is lowered to has the same value on both sides, if any. -/
def SameValues (values values' : Operands) (registers registers' : LLVM.Registers) : Prop :=
  ∀ id operand operand', values.lookup id = some operand → values'.lookup id = some operand' →
    (evaluate registers operand).toOption = (evaluate registers' operand').toOption

theorem SameValues.read (same : SameValues values values' registers registers')
    (looked : values.lookup id = some operand) (looked' : values'.lookup id = some operand')
    (evaluates : evaluate registers operand = .ok value) :
    evaluate registers' operand' = .ok value := by
  have equal := same id operand operand' looked looked'
  rw [evaluates] at equal
  exact toOption_eq_some.mp equal.symm

/-- A value is written into its own register on each side. -/
theorem SameValues.update {register register' : RegisterId}
    (same : SameValues values values' registers registers')
    (injective : ∀ {id id' register}, values.lookup id = some (.register register) →
      values.lookup id' = some (.register register) → id = id')
    (injective' : ∀ {id id' register}, values'.lookup id = some (.register register) →
      values'.lookup id' = some (.register register) → id = id')
    (looked : values.lookup id = some (.register register))
    (looked' : values'.lookup id = some (.register register')) :
    SameValues values values' (Function.update registers register (some value))
      (Function.update registers' register' (some value)) := by
  intro other operand operand' here here'
  by_cases equal : other = id
  · subst equal
    cases looked.symm.trans here
    cases looked'.symm.trans here'
    rw [evaluate_update_self, evaluate_update_self]
  · have older : operand ≠ .register register := fun same => equal (injective (same ▸ here) looked)
    have older' : operand' ≠ .register register' :=
      fun same => equal (injective' (same ▸ here') looked')
    rw [evaluate_update older, evaluate_update older']
    exact same other operand operand' here here'

/-- The two executions have left blocks that correspond. -/
inductive LeftTogether (labels labels' : Labels) (values values' : Operands) :
    Option LLVM.Departure → Option LLVM.Departure → Prop where
  | entry : LeftTogether labels labels' values values' none none
  | jump (block : BlockId) (labelled : labels.lookup block = some departure.label)
    (labelled' : labels'.lookup block = some departure'.label)
    (same : SameValues values values' departure.registers departure'.registers) :
    LeftTogether labels labels' values values' (some departure) (some departure')

/-- The two executions stand at corresponding places of a block. -/
structure Together (labels labels' : Labels) (values values' : Operands)
    (slots slots' : CleanupSlots) (config config' : LLVM.Config) : Prop where
  same : SameValues values values' config.registers config'.registers
  left : LeftTogether labels labels' values values' config.previous config'.previous
  calls : config.calls = config'.calls
  ready : ∀ id slot, slots.lookup id = some slot → ∃ pointer, config.slots slot = .holds pointer
  ready' : ∀ id slot, slots'.lookup id = some slot → ∃ pointer, config'.slots slot = .holds pointer

section Operations

variable {operation : Operation} {code code' rest rest' : List Instruction}
  {last last' : LLVM.Terminator} {exit : Exit} {instruction instruction' : Instruction}
  {register register' : RegisterId}
  (injective : ∀ {id id' register}, values.lookup id = some (.register register) →
    values.lookup id' = some (.register register) → id = id')
  (injective' : ∀ {id id' register}, values'.lookup id = some (.register register) →
    values'.lookup id' = some (.register register) → id = id')
  (unique : ∀ {id id' label}, labels.lookup id = some label → labels.lookup id' = some label →
    id = id')
  (unique' : ∀ {id id' label}, labels'.lookup id = some label → labels'.lookup id' = some label →
    id = id')
  (together : Together labels labels' values values' slots slots' config config')

/-- An execution that exits is not stuck at its next instruction. -/
theorem At.executes (here : At blocks (instruction :: rest) last config)
    (evaluates : (machine environment blocks).Evaluates config (.ok exit)) :
    ∃ next, execute environment config instruction = .ok next := by
  cases success : execute environment config instruction with
  | ok next => exact ⟨next, rfl⟩
  | error reason =>
    cases evaluates.unique (.halt (here.stuck success))

include injective injective' together

include unique unique'

end Operations

section Blocks

variable {order order' : TraversalOrder} {module module' : IR.Module}
  {function function' : LLVM.Function} {exit : Exit}

/-- The two executions stand at the start of the same block. -/
structure Starts (module : IR.Module) (labels labels' : Labels) (values values' : Operands)
    (slots slots' : CleanupSlots) (block : BlockId) (config config' : LLVM.Config) : Prop where
  label : labels.lookup block = some config.label
  label' : labels'.lookup block = some config'.label
  index : config.index = 0
  index' : config'.index = 0
  same : SameValues values values' config.registers config'.registers
  left : LeftTogether labels labels' values values' config.previous config'.previous
  calls : config.calls = config'.calls
  ready : block ≠ module.entry → ∀ id slot, slots.lookup id = some slot →
    ∃ pointer, config.slots slot = .holds pointer
  ready' : block ≠ module.entry → ∀ id slot, slots'.lookup id = some slot →
    ∃ pointer, config'.slots slot = .holds pointer

theorem Together.jump {block target : BlockId} {label label' : Label}
    (together : Together labels labels' values values' slots slots' config config')
    (here : labels.lookup block = some config.label)
    (here' : labels'.lookup block = some config'.label)
    (labelled : labels.lookup target = some label)
    (labelled' : labels'.lookup target = some label') :
    Starts module labels labels' values values' slots slots' target (config.jump label)
      (config'.jump label') where
  label := labelled
  label' := labelled'
  index := rfl
  index' := rfl
  same := together.same
  left := .jump block here here' together.same
  calls := together.calls
  ready _ := together.ready
  ready' _ := together.ready'

variable (lowered : Lowered order module labels values slots function)
  (lowered' : Lowered order' module' labels' values' slots' function')
  (sameBlocks : module'.block = module.block) (sameEntry : module'.entry = module.entry)
include lowered lowered' sameBlocks sameEntry

end Blocks

end Ocelotl.Codegen
