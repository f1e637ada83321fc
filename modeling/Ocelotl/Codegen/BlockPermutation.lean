import Ocelotl.Codegen.DefinitionOrder
import Ocelotl.Codegen.Lockstep

/-! Code generation and the order of the block list. The module names its entry
and its blocks, but the first block listed is where the function starts, and
values are looked up in the order of the list. -/

namespace Ocelotl.Codegen

open IR Library LLVM

variable {order order' : TraversalOrder} {module module' : IR.Module}
  {function function' : LLVM.Function} {labels labels' : Labels} {values values' : Operands}
  {slots slots' : CleanupSlots}

/-- The same blocks and the same entry. -/
structure Reordered (module module' : IR.Module) : Prop where
  blocks : module'.blocks.Perm module.blocks
  entry : module'.entry = module.entry

theorem Reordered.symm (reordered : Reordered module module') : Reordered module' module :=
  ⟨reordered.blocks.symm, reordered.entry.symm⟩

theorem Reordered.mem_iff (reordered : Reordered module module') {block : IR.BasicBlock} :
    block ∈ module'.blocks ↔ block ∈ module.blocks := reordered.blocks.mem_iff

theorem Reordered.operations (reordered : Reordered module module') {operation : Operation} :
    operation ∈ operationsOf module' ↔ operation ∈ operationsOf module :=
  (reordered.blocks.flatMap_right _).mem_iff

theorem Reordered.defines (reordered : Reordered module module') {value : ValueId}
    {definition : Definition} :
    module'.Defines value definition ↔ module.Defines value definition := by
  simp only [IR.Module.Defines, reordered.mem_iff]

/-- The verifier does not depend on the order of the blocks. -/
theorem Reordered.verified (reordered : Reordered module module') (verified : Verified module) :
    Verified module' := by
  have same {block} : block ∈ module'.blocks ↔ block ∈ module.blocks := reordered.mem_iff
  constructor
  · intro empty
    have blocks := reordered.blocks
    rw [empty] at blocks
    exact verified.nonempty (List.nil_perm.mp blocks)
  · exact (reordered.blocks.map _).nodup_iff.mpr verified.ids
  · exact fun block member => verified.terminated block (same.mp member)
  · exact fun block member => verified.phisFirst block (same.mp member)
  · exact (reordered.blocks.flatMap_right _).nodup_iff.mpr verified.results
  · simpa only [same, reordered.entry] using verified.entry
  · simpa only [same] using verified.targets
  · simpa only [same, reordered.defines] using verified.typed
  · simpa only [same, reordered.defines] using verified.operands
  · simpa only [same, reordered.defines] using verified.incoming
  · simpa only [same] using verified.predecessors
  · simpa only [same, reordered.defines] using verified.conditions
  · simpa only [same, reordered.defines] using verified.returns

theorem Reordered.block_eq (reordered : Reordered module module') (verified : Verified module) :
    module'.block = module.block := by
  funext id
  apply Option.ext
  intro block
  rw [IR.Module.block_iff verified.ids, IR.Module.block_iff (reordered.verified verified).ids,
    reordered.mem_iff]

theorem Reordered.branchedOnce (reordered : Reordered module module')
    (once : PhisBranchedOnce module) : PhisBranchedOnce module' := by
  simpa only [PhisBranchedOnce, reordered.mem_iff] using once

theorem Reordered.slotsFirst (reordered : Reordered module module') (first : SlotsFirst module) :
    SlotsFirst module' := by
  simpa only [SlotsFirst, reordered.mem_iff, reordered.operations, reordered.entry] using first

theorem Reordered.translatable (reordered : Reordered module module') (verified : Verified module)
    (translatable : Translatable module) : Translatable module' := by
  have same {block} : block ∈ module'.blocks ↔ block ∈ module.blocks := reordered.mem_iff
  have needed {value id} : Needed module' value id ↔ Needed module value id := by
    simp only [Needed, Reaches, reordered.operations, reordered.block_eq verified, reordered.entry]
  constructor
  · simpa only [same, reordered.entry] using translatable.entry
  · exact reordered.branchedOnce translatable.phis
  · exact reordered.slotsFirst translatable.slotsFirst
  · simpa only [WellTyped, same, reordered.operations] using translatable.typed
  · simpa only [same, needed, reordered.block_eq verified, reordered.entry]
      using translatable.operands
  · simpa only [same, needed, reordered.block_eq verified, reordered.entry]
      using translatable.terminators
  · simpa only [same, needed, reordered.block_eq verified, reordered.entry]
      using translatable.incoming

theorem Reordered.supported (reordered : Reordered module module') (supported : Supported module) :
    Supported module' :=
  fun operation member => supported operation (reordered.operations.mp member)

theorem Reordered.returnsInteger (reordered : Reordered module module')
    (integer : ReturnsInteger module) :
    ReturnsInteger module' := by
  simpa only [ReturnsInteger, reordered.mem_iff, reordered.defines] using integer

/-- The value of a constant, which needs no register. -/
def constantValue : Operation → Option LLVM.Value
  | .constantInt _ value _ => some (.i64 value)
  | .constantFloat _ value _ => some (.double value)
  | .tensorDecl _ _ _ | .binary _ _ _ _ _ | .compare _ _ _ _ _ | .phi _ _ _ | .matMul _ _ _ _
  | .relu _ _ _ => none

theorem LowersOperation.initial {operation : Operation} {code : List Instruction}
    {operand : Operand} (lowers : LowersOperation labels values slots operation code)
    (looked : values.lookup (resultOf operation) = some operand) :
    (LLVM.evaluate LLVM.Config.initial.registers operand).toOption = constantValue operation := by
  cases lowers with
  | constantInt known | constantFloat known =>
    cases known.symm.trans looked
    rfl
  | tensorDecl _ _ known | binary _ _ known | compare _ _ known | phi _ _ known =>
    cases known.symm.trans looked
    rfl

theorem Lowered.initial {operation : Operation} {operand : Operand}
    (lowered : Lowered order module labels values slots function)
    (member : operation ∈ operationsOf module)
    (looked : values.lookup (resultOf operation) = some operand) :
    (LLVM.evaluate LLVM.Config.initial.registers operand).toOption = constantValue operation := by
  obtain ⟨block, present, inside⟩ := List.mem_flatMap.mp member
  obtain ⟨label, found⟩ := List.getElem?_of_mem present
  obtain ⟨index, here⟩ := List.getElem?_of_mem inside
  obtain ⟨piece, lowers, _⟩ := lowered.code_at found here
  exact lowers.initial looked

/-- What code generation asks of a module whatever the order of its blocks, and
whichever of them comes first. -/
structure Lowerable (module : IR.Module) : Prop where
  supported : Supported module
  integer : ReturnsInteger module
  phis : PhisBranchedOnce module
  slotsFirst : SlotsFirst module
  typed : WellTyped module

theorem Reordered.lowerable (reordered : Reordered module module') (lowerable : Lowerable module) :
    Lowerable module' where
  supported := reordered.supported lowerable.supported
  integer := reordered.returnsInteger lowerable.integer
  phis := reordered.branchedOnce lowerable.phis
  slotsFirst := reordered.slotsFirst lowerable.slotsFirst
  typed := by
    simpa only [WellTyped, reordered.mem_iff, reordered.operations] using lowerable.typed

/-- A value of the entry block that the next block returns. -/
def returning : IR.Module where
  entry := 0
  blocks := [
    { id := 0, name := "entry", operations := [.constantInt 0 1 (.scalar "i64")],
      terminator := some (.branch 1) },
    { id := 1, name := "next", operations := [], terminator := some (.returnOp 0) }]

end Ocelotl.Codegen
