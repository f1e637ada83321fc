import Ocelotl.IR.VerifierContract
import Ocelotl.IR.ControlFlow

namespace Ocelotl.IR

open Library

variable {module : Module} {value : ValueId} {block : BlockId} {index : Nat}

structure WellFormed (module : Module) : Prop where
  nonempty : module.blocks ≠ []
  ids : (module.blocks.map BasicBlock.id).Nodup
  entry : ∃ block ∈ module.blocks, block.id = module.entry
  terminated : ∀ block ∈ module.blocks, block.terminator ≠ none
  targets : ∀ block ∈ module.blocks, ∀ target ∈ block.targets,
    ∃ other ∈ module.blocks, other.id = target
  results : (module.blocks.flatMap BasicBlock.results).Nodup
  phisFirst : ∀ block ∈ module.blocks, PhisFirst block.operations
  operands : ∀ block ∈ module.blocks, ∀ index operation, block.operations[index]? = some operation →
    ∀ value ∈ operation.operands, DefinedBefore module.block module.entry value block.id index
  terminators : ∀ block ∈ module.blocks, ∀ last, block.terminator = some last →
    ∀ value ∈ last.operands, DefinedAtEnd module.block module.entry value block.id
  predecessors : ∀ block ∈ module.blocks, ∀ operation ∈ block.operations, operation.isPhi = true →
    (operation.incoming.map PhiIncoming.predecessor).Nodup ∧
      ∀ source, source ∈ operation.incoming.map PhiIncoming.predecessor ↔
        ∃ other ∈ module.blocks, other.id = source ∧ block.id ∈ other.targets
  incoming : ∀ block ∈ module.blocks, ∀ operation ∈ block.operations,
    ∀ incoming ∈ operation.incoming,
      DefinedAtEnd module.block module.entry incoming.value incoming.predecessor
  operandTypes : ∀ block ∈ module.blocks, ∀ operation ∈ block.operations,
    ∀ value type, (value, type) ∈ operation.typedOperands →
      ∀ definition, module.Defines value definition → definition.type = type
  incomingTypes : ∀ block ∈ module.blocks, ∀ operation ∈ block.operations,
    ∀ incoming ∈ operation.incoming, ∀ definition, module.Defines incoming.value definition →
      definition.type = typeOf operation
  conditions : ∀ block ∈ module.blocks, ∀ condition trueTarget falseTarget,
    block.terminator = some (.condBranch condition trueTarget falseTarget) →
      ∀ definition, module.Defines condition definition → definition.type = .scalar "i1"
  returns : ∃ type, (∃ block ∈ module.blocks, ∃ value, block.terminator = some (.returnOp value)) ∧
    ∀ block ∈ module.blocks, ∀ value, block.terminator = some (.returnOp value) →
      ∀ definition, module.Defines value definition → definition.type = type

/-- No phi reads a value that is defined in its own block at its position or
later, as a loop that ends in the block it starts in may do. -/
def NoLateIncoming (module : Module) : Prop :=
  ∀ block ∈ module.blocks, ∀ index operation, block.operations[index]? = some operation →
    ∀ incoming ∈ operation.incoming, ∀ definition, module.Defines incoming.value definition →
      ¬ definition.NotBefore block.id index

/-- An operation of the graph is a definition of the module. -/
theorem Module.defines_of_operationAt {operation : Operation}
    (present : OperationAt module.block block index operation)
    (result : resultOf operation = value) :
    module.Defines value ⟨block, index, typeOf operation⟩ := by
  obtain ⟨body, found, here⟩ := present
  have same : body.id = block := by simpa using List.find?_some found
  refine ⟨body, List.mem_of_find?_eq_some found, index, operation, here, result, ?_⟩
  rw [same, Nat.zero_add]

theorem DefinedBefore.defines {entry : BlockId}
    (before : DefinedBefore module.block entry value block index) :
    ∃ definition, module.Defines value definition ∧ ¬ definition.NotBefore block index := by
  obtain ⟨source, position, operation, present, result, place⟩ := before
  refine ⟨_, Module.defines_of_operationAt present result, ?_⟩
  intro ⟨same, late⟩
  rcases place with ⟨_, earlier⟩ | ⟨different, _⟩
  · exact absurd earlier (Nat.not_lt_of_le late)
  · exact different same

theorem DefinedAtEnd.defines {entry : BlockId}
    (atEnd : DefinedAtEnd module.block entry value block) :
    ∃ definition, module.Defines value definition := by
  obtain ⟨source, position, operation, present, result, _⟩ := atEnd
  exact ⟨_, Module.defines_of_operationAt present result⟩

theorem WellFormed.verified (wellFormed : WellFormed module) (early : NoLateIncoming module) :
    Verified module where
  nonempty := wellFormed.nonempty
  ids := wellFormed.ids
  terminated := wellFormed.terminated
  phisFirst := wellFormed.phisFirst
  results := wellFormed.results
  entry := wellFormed.entry
  targets := wellFormed.targets
  typed := by
    intro block member index operation here value type typed
    obtain ⟨definition, defines, before⟩ := (wellFormed.operands block member index operation here
      value (operand_of_typedOperand typed)).defines
    exact ⟨definition, defines, wellFormed.operandTypes block member operation
      (List.mem_of_getElem? here) value type typed definition defines, before⟩
  operands := by
    intro block member operation here value used
    obtain ⟨index, here⟩ := List.getElem?_of_mem here
    obtain ⟨definition, defines, _⟩ :=
      (wellFormed.operands block member index operation here value used).defines
    exact ⟨definition, defines⟩
  incoming := by
    intro block member index operation here incoming listed
    have present := List.mem_of_getElem? here
    obtain ⟨definition, defines⟩ :=
      (wellFormed.incoming block member operation present incoming listed).defines
    exact ⟨definition, defines,
      wellFormed.incomingTypes block member operation present incoming listed definition defines,
      early block member index operation here incoming listed definition defines⟩
  predecessors := wellFormed.predecessors
  conditions := by
    intro block member condition trueTarget falseTarget ends
    obtain ⟨definition, defines⟩ := (wellFormed.terminators block member _ ends condition
      (List.mem_singleton.mpr rfl)).defines
    exact ⟨definition, defines,
      wellFormed.conditions block member condition trueTarget falseTarget ends definition defines⟩
  returns := by
    obtain ⟨type, some, each⟩ := wellFormed.returns
    refine ⟨type, some, fun block member value ends => ?_⟩
    obtain ⟨definition, defines⟩ := (wellFormed.terminators block member _ ends value
      (List.mem_singleton.mpr rfl)).defines
    exact ⟨definition, defines, each block member value ends definition defines⟩

/-- A well-formed module is accepted exactly when no phi reads a value that its
own block defines at its position or later. -/
theorem verify_wellFormed_iff (wellFormed : WellFormed module) :
    verify module = .ok () ↔ NoLateIncoming module := by
  rw [verify_ok_iff]
  constructor
  · intro verified block member index operation here incoming listed definition defines
    obtain ⟨other, defines', _, before⟩ :=
      verified.incoming block member index operation here incoming listed
    exact verified.defines_unique defines' defines ▸ before
  · exact wellFormed.verified

/-- A block that is its own predecessor. Around the loop its phi takes the given value. -/
def loopOver (next : ValueId) : Module where
  entry := 0
  blocks := [
    { id := 0
      name := "entry"
      operations := [.constantInt 0 0 (.scalar "i64")]
      terminator := some (.branch 1) },
    { id := 1
      name := "loop"
      operations := [
        .phi 1 (.scalar "i64") [⟨0, 0⟩, ⟨1, next⟩],
        .binary 2 .add 1 0 (.scalar "i64"),
        .compare 3 .less 2 0 (.scalar "i64")]
      terminator := some (.condBranch 3 1 2) },
    { id := 2, name := "exit", operations := [], terminator := some (.returnOp 0) }]

/-- The value of the entry block and the sum of the loop are both available around it. -/
theorem loopOver_wellFormed {next : ValueId} (known : next = 0 ∨ next = 2) :
    WellFormed (loopOver next) := by
  have atStart : OperationAt (loopOver next).block 0 0 (.constantInt 0 0 (.scalar "i64")) :=
    ⟨_, rfl, rfl⟩
  have sum : OperationAt (loopOver next).block 1 1 (.binary 2 .add 1 0 (.scalar "i64")) :=
    ⟨_, rfl, rfl⟩
  have merged : OperationAt (loopOver next).block 1 0
      (.phi 1 (.scalar "i64") [⟨0, 0⟩, ⟨1, next⟩]) := ⟨_, rfl, rfl⟩
  have test : OperationAt (loopOver next).block 1 2 (.compare 3 .less 2 0 (.scalar "i64")) :=
    ⟨_, rfl, rfl⟩
  have scalars {value : ValueId} {definition : Definition} (different : value ≠ 3)
      (defines : (loopOver next).Defines value definition) : definition.type = .scalar "i64" := by
    obtain ⟨block, member, operation, here, rfl, same⟩ := defines.operation
    rw [← same]
    revert operation
    revert block
    simp [loopOver, resultOf, typeOf]
  refine ⟨by simp [loopOver], by simp [loopOver], by simp [loopOver], by simp [loopOver],
    by simp [loopOver, BasicBlock.targets], by simp [loopOver, BasicBlock.results, resultOf],
    by simp [loopOver, PhisFirst, Operation.isPhi], ?_, ?_, ?_, ?_, ?_, ?_, ?_, ?_⟩
  · intro block member index operation here value used
    simp only [loopOver, List.mem_cons, List.not_mem_nil, or_false] at member
    rcases member with rfl | rfl | rfl
    · rcases index with _ | index <;> cases here
      cases used
    · rcases index with _ | _ | _ | index <;> cases here
      · cases used
      · simp only [Operation.operands, List.mem_cons, List.not_mem_nil, or_false] at used
        rcases used with rfl | rfl
        · exact ⟨1, 0, _, merged, rfl, .inl ⟨rfl, by decide⟩⟩
        · exact ⟨0, 0, _, atStart, rfl, .inr ⟨Nat.zero_ne_one, Dominates.of_root 1⟩⟩
      · simp only [Operation.operands, List.mem_cons, List.not_mem_nil, or_false] at used
        rcases used with rfl | rfl
        · exact ⟨1, 1, _, sum, rfl, .inl ⟨rfl, by decide⟩⟩
        · exact ⟨0, 0, _, atStart, rfl, .inr ⟨Nat.zero_ne_one, Dominates.of_root 1⟩⟩
    · cases here
  · intro block member last ends value used
    simp only [loopOver, List.mem_cons, List.not_mem_nil, or_false] at member
    rcases member with rfl | rfl | rfl <;> cases ends
    · cases used
    · cases List.mem_singleton.mp used
      exact ⟨1, 2, _, test, rfl, Dominates.refl 1⟩
    · cases List.mem_singleton.mp used
      exact ⟨0, 0, _, atStart, rfl, Dominates.of_root 2⟩
  · simp [loopOver, Operation.isPhi, Operation.incoming, BasicBlock.targets]
  · intro block member operation here incoming listed
    simp only [loopOver, List.mem_cons, List.not_mem_nil, or_false] at member
    rcases member with rfl | rfl | rfl
    · cases List.mem_singleton.mp here
      cases listed
    · simp only [List.mem_cons, List.not_mem_nil, or_false] at here
      rcases here with rfl | rfl | rfl
      · simp only [Operation.incoming, List.mem_cons, List.not_mem_nil, or_false] at listed
        rcases listed with rfl | rfl
        · exact ⟨0, 0, _, atStart, rfl, Dominates.of_root 0⟩
        · rcases known with rfl | rfl
          · exact ⟨0, 0, _, atStart, rfl, Dominates.of_root 1⟩
          · exact ⟨1, 1, _, sum, rfl, Dominates.refl 1⟩
      · cases listed
      · cases listed
    · cases here
  · intro block member operation here value type typed definition defines
    have each : ∀ block ∈ (loopOver next).blocks, ∀ operation ∈ block.operations,
        ∀ typed ∈ operation.typedOperands, typed.1 ≠ 3 ∧ typed.2 = .scalar "i64" := by
      rcases known with rfl | rfl <;> decide
    obtain ⟨old, same⟩ := each block member operation here _ typed
    exact (scalars old defines).trans same.symm
  · intro block member operation here incoming listed definition defines
    have each : ∀ block ∈ (loopOver next).blocks, ∀ operation ∈ block.operations,
        ∀ incoming ∈ operation.incoming, incoming.value ≠ 3 ∧ typeOf operation = .scalar "i64" := by
      rcases known with rfl | rfl <;> decide
    obtain ⟨old, same⟩ := each block member operation here incoming listed
    exact (scalars old defines).trans same.symm
  · intro block member condition trueTarget falseTarget ends definition defines
    simp only [loopOver, List.mem_cons, List.not_mem_nil, or_false] at member
    rcases member with rfl | rfl | rfl <;> cases ends
    obtain ⟨block, member, operation, here, result, same⟩ := defines.operation
    rw [← same]
    revert operation
    revert block
    simp [loopOver, resultOf, typeOf]
  · refine ⟨.scalar "i64", ⟨⟨2, "exit", [], some (.returnOp 0)⟩, by simp [loopOver], 0, rfl⟩, ?_⟩
    intro block member value ends definition defines
    simp only [loopOver, List.mem_cons, List.not_mem_nil, or_false] at member
    rcases member with rfl | rfl | rfl <;> cases ends
    exact scalars (by decide) defines

theorem verify_wellFormed_iff_loopOver : verify (loopOver 0) = .ok () := by
  refine (verify_wellFormed_iff (loopOver_wellFormed (.inl rfl))).mpr ?_
  intro block member index operation here incoming listed definition defines
  have each : ∀ block ∈ (loopOver 0).blocks, ∀ operation ∈ block.operations,
      ∀ incoming ∈ operation.incoming, block.id = 1 ∧ incoming.value = 0 := by decide
  have only : ∀ block ∈ (loopOver 0).blocks, ∀ operation ∈ block.operations,
      resultOf operation = 0 → block.id = 0 := by decide
  obtain ⟨inLoop, fromEntry⟩ :=
    each block member operation (List.mem_of_getElem? here) incoming listed
  obtain ⟨source, member', position, other, here', result, rfl⟩ := defines
  have atEntry := only source member' other (List.mem_of_getElem? here') (result.trans fromEntry)
  intro ⟨same, _⟩
  have same : source.id = block.id := same
  rw [atEntry, inLoop] at same
  cases same

/-- The sum of the loop is read by the phi above it, around the loop. -/
theorem loopOver_rejected : WellFormed (loopOver 2) ∧
    verify (loopOver 2) = .error (.usedBeforeDefinition 2) :=
  ⟨loopOver_wellFormed (.inr rfl), by decide +kernel⟩

end Ocelotl.IR
