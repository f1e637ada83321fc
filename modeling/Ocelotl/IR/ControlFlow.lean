import Ocelotl.IR.Module
import Ocelotl.Library.Dominance
import Mathlib.Data.List.Nodup

namespace Ocelotl.IR

open Library

/-- Blocks by their id. -/
abbrev Blocks := BlockId → Option BasicBlock

def Module.block (module : Module) : Blocks :=
  fun id => module.blocks.find? fun block => block.id == id

/-- Blocks are found by their ids. -/
theorem Module.block_iff {module : Module} {id : BlockId} {block : BasicBlock}
    (ids : (module.blocks.map BasicBlock.id).Nodup) :
    module.block id = some block ↔ block ∈ module.blocks ∧ block.id = id := by
  constructor
  · intro found
    exact ⟨List.mem_of_find?_eq_some found, by simpa using List.find?_some found⟩
  · intro ⟨member, same⟩
    cases found : module.block id with
    | none =>
      have absent := List.find?_eq_none.mp found block member
      simp [same] at absent
    | some other =>
      have otherId : other.id = id := by simpa using List.find?_some found
      exact congrArg some (List.inj_on_of_nodup_map ids (List.mem_of_find?_eq_some found) member
        (otherId.trans same.symm))

/-- An operation stands at this index of this block. -/
def OperationAt (blocks : Blocks) (block : BlockId) (index : Nat) (operation : Operation) : Prop :=
  ∃ body, blocks block = some body ∧ body.operations[index]? = some operation

def TerminatorAt (blocks : Blocks) (block : BlockId) (terminator : Terminator) : Prop :=
  ∃ body, blocks block = some body ∧ body.terminator = some terminator

/-- Control can move from the end of one block to another. -/
def Edge (blocks : Blocks) (source target : BlockId) : Prop :=
  ∃ body, blocks source = some body ∧ target ∈ body.targets

/-- Every path from the entry to the block goes through the dominator. -/
abbrev BlockDominates (blocks : Blocks) (entry dominator block : BlockId) : Prop :=
  Dominates (Edge blocks) entry dominator block

/-- Some operation defines the value with this type. -/
def HasDefinition (blocks : Blocks) (value : ValueId) (type : TensorType) : Prop :=
  ∃ block index operation, OperationAt blocks block index operation ∧
    resultOf operation = value ∧ typeOf operation = type

/-- The value is defined before this index of the block: earlier in the block
itself, or in a dominating block. -/
def DefinedBefore (blocks : Blocks) (entry : BlockId) (value : ValueId) (block : BlockId)
    (index : Nat) : Prop :=
  ∃ source position operation, OperationAt blocks source position operation ∧
    resultOf operation = value ∧
    (source = block ∧ position < index ∨ source ≠ block ∧ BlockDominates blocks entry source block)

/-- The definition of the value dominates the end of the block. -/
def DefinedAtEnd (blocks : Blocks) (entry : BlockId) (value : ValueId) (block : BlockId) : Prop :=
  ∃ source position operation, OperationAt blocks source position operation ∧
    resultOf operation = value ∧ BlockDominates blocks entry source block

/-- A value of this type whose definition dominates the block and does not
stand after it in the order of block ids. -/
def Available (blocks : Blocks) (entry : BlockId) (value : ValueId) (type : TensorType)
    (block : BlockId) : Prop :=
  ∃ source position operation, OperationAt blocks source position operation ∧
    resultOf operation = value ∧ typeOf operation = type ∧ source ≤ block ∧
    BlockDominates blocks entry source block

/-- Strict SSA form: single definitions that dominate their uses. -/
structure StrictSSA (blocks : Blocks) (entry : BlockId) : Prop where
  unique : ∀ {block index operation block' index' operation'},
    OperationAt blocks block index operation → OperationAt blocks block' index' operation' →
    resultOf operation = resultOf operation' → block = block' ∧ index = index'
  operands : ∀ {block index operation value}, OperationAt blocks block index operation →
    value ∈ operation.operands → DefinedBefore blocks entry value block index
  terminators : ∀ {block terminator value}, TerminatorAt blocks block terminator →
    value ∈ terminator.operands → DefinedAtEnd blocks entry value block
  incoming : ∀ {block index operation incoming}, OperationAt blocks block index operation →
    incoming ∈ operation.incoming →
    DefinedAtEnd blocks entry incoming.value incoming.predecessor

theorem OperationAt.unique (first : OperationAt blocks block index operation)
    (second : OperationAt blocks block index operation') : operation = operation' := by
  obtain ⟨body, found, here⟩ := first
  obtain ⟨other, found', here'⟩ := second
  have same := Option.some.inj (found.symm.trans found')
  subst same
  exact Option.some.inj (here.symm.trans here')

theorem edge_iff : Edge blocks source target ↔
    ∃ terminator, TerminatorAt blocks source terminator ∧ target ∈ terminator.targets := by
  constructor
  · rintro ⟨body, found, member⟩
    cases ends : body.terminator with
    | none => simp [BasicBlock.targets_of_unterminated ends] at member
    | some terminator =>
      rw [BasicBlock.targets_of_terminator ends] at member
      exact ⟨terminator, ⟨body, found, ends⟩, member⟩
  · rintro ⟨terminator, ⟨body, found, ends⟩, member⟩
    exact ⟨body, found, by rw [BasicBlock.targets_of_terminator ends]; exact member⟩

end Ocelotl.IR
