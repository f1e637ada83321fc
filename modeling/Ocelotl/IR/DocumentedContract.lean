import Ocelotl.IR.VerifierContract

/-! What the documentation says the verifier rejects, against what it accepts. -/

namespace Ocelotl.IR

open Library

variable {module : Module} {value : ValueId}

/-- The contract of the verifier: terminators, branch targets, definitions,
no use before definition in one block, phi predecessors and types, returns. -/
structure Contract (module : Module) : Prop where
  terminated : ∀ block ∈ module.blocks, ∃ last, block.terminator = some last
  targets : ∀ block ∈ module.blocks, ∀ target ∈ block.targets,
    ∃ other ∈ module.blocks, other.id = target
  defined : ∀ block ∈ module.blocks,
    (∀ operation ∈ block.operations, ∀ value ∈ operation.operands ++
      operation.incoming.map PhiIncoming.value, ∃ definition, module.Defines value definition) ∧
    ∀ last, block.terminator = some last → ∀ value ∈ last.operands,
      ∃ definition, module.Defines value definition
  ordered : ∀ block ∈ module.blocks, ∀ index operation,
    block.operations[index]? = some operation → ∀ value ∈ operation.operands,
      ∀ definition, module.Defines value definition → ¬ definition.NotBefore block.id index
  phis : ∀ block ∈ module.blocks, ∀ operation ∈ block.operations, operation.isPhi = true →
    (operation.incoming.map PhiIncoming.predecessor).Nodup ∧
    (∀ source, source ∈ operation.incoming.map PhiIncoming.predecessor ↔
      ∃ other ∈ module.blocks, other.id = source ∧ block.id ∈ other.targets) ∧
    ∀ incoming ∈ operation.incoming, ∃ definition,
      module.Defines incoming.value definition ∧ definition.type = typeOf operation
  returns : ∃ type, ∀ block ∈ module.blocks, ∀ value,
    block.terminator = some (.returnOp value) →
      ∃ definition, module.Defines value definition ∧ definition.type = type

/-- The two operations whose operands the verifier does not type. -/
def Operation.isTensorComputation : Operation → Bool
  | .matMul .. | .relu .. => true
  | _ => false

/-- No `matmul` or `relu` uses a value defined at its own position or later in its block. -/
def TensorOperandsOrdered (module : Module) : Prop :=
  ∀ block ∈ module.blocks, ∀ index operation, block.operations[index]? = some operation →
    operation.isTensorComputation = true → ∀ value ∈ operation.operands,
      ∀ definition, module.Defines value definition → ¬ definition.NotBefore block.id index

/-- Other operations have every operand typed, and so ordered. -/
theorem Operation.typed_operand {operation : Operation}
    (ordinary : operation.isTensorComputation = false) (used : value ∈ operation.operands) :
    ∃ type, (value, type) ∈ operation.typedOperands := by
  cases operation with
  | binary result kind lhs rhs type =>
    refine ⟨type, ?_⟩
    simpa [Operation.typedOperands, Operation.operands] using used
  | compare result kind lhs rhs operandType =>
    refine ⟨operandType, ?_⟩
    simpa [Operation.typedOperands, Operation.operands] using used
  | matMul | relu => cases ordinary
  | tensorDecl | constantInt | constantFloat | phi => cases used

theorem Verified.contract (verified : Verified module) (ordered : TensorOperandsOrdered module) :
    Contract module where
  terminated := fun block member => Option.ne_none_iff_exists'.mp (verified.terminated block member)
  targets := verified.targets
  defined := by
    refine fun block member => ⟨fun operation here value used => ?_, fun last ends value used => ?_⟩
    · rcases List.mem_append.mp used with operand | listed
      · exact verified.operands block member operation here value operand
      · obtain ⟨incoming, entry, rfl⟩ := List.mem_map.mp listed
        obtain ⟨index, here⟩ := List.getElem?_of_mem here
        obtain ⟨definition, defines, _⟩ :=
          verified.incoming block member index operation here incoming entry
        exact ⟨definition, defines⟩
    · cases last with
      | branch target => cases used
      | condBranch condition trueTarget falseTarget =>
        cases List.mem_singleton.mp used
        obtain ⟨definition, defines, _⟩ := verified.conditions block member _ _ _ ends
        exact ⟨definition, defines⟩
      | returnOp value =>
        cases List.mem_singleton.mp used
        obtain ⟨_, _, each⟩ := verified.returns
        obtain ⟨definition, defines, _⟩ := each block member _ ends
        exact ⟨definition, defines⟩
  ordered := by
    intro block member index operation here value used definition defines
    cases ordinary : operation.isTensorComputation with
    | true => exact ordered block member index operation here ordinary value used definition defines
    | false =>
      obtain ⟨type, typed⟩ := Operation.typed_operand ordinary used
      obtain ⟨other, defines', _, before⟩ :=
        verified.typed block member index operation here value type typed
      exact verified.defines_unique defines' defines ▸ before
  phis := by
    intro block member operation here isPhi
    obtain ⟨nodup, sources⟩ := verified.predecessors block member operation here isPhi
    refine ⟨nodup, sources, fun incoming entry => ?_⟩
    obtain ⟨index, here⟩ := List.getElem?_of_mem here
    obtain ⟨definition, defines, typed, _⟩ :=
      verified.incoming block member index operation here incoming entry
    exact ⟨definition, defines, typed⟩
  returns := by
    obtain ⟨type, _, each⟩ := verified.returns
    exact ⟨type, each⟩

/-- A module the verifier accepts meets the contract exactly when its `matmul`
and `relu` operations use no value that is defined in their block after them. -/
theorem verify_contract_iff (accepted : verify module = .ok ()) :
    Contract module ↔ TensorOperandsOrdered module := by
  have verified := verify_ok_iff.mp accepted
  constructor
  · intro contract block member index operation here _ value used definition defines
    exact contract.ordered block member index operation here value used definition defines
  · exact verified.contract

/-- A `relu` of a tensor that is declared before it. -/
def reluOfEarlier : Module where
  entry := 0
  blocks := [{
    id := 0
    name := "entry"
    operations := [.tensorDecl 0 "A" ⟨"f32", [2]⟩, .relu 1 0 ⟨"f32", [2]⟩,
      .constantInt 2 0 (.scalar "i64")]
    terminator := some (.returnOp 2) }]

theorem verify_contract_iff_reluOfEarlier :
    verify reluOfEarlier = .ok () ∧ Contract reluOfEarlier := by
  have accepted : verify reluOfEarlier = .ok () := by decide +kernel
  refine ⟨accepted, (verify_contract_iff accepted).mpr ?_⟩
  intro block member index operation here computes value used definition defines late
  cases List.mem_singleton.mp member
  have declared : reluOfEarlier.Defines 0 ⟨0, 0, ⟨"f32", [2]⟩⟩ :=
    ⟨_, member, 0, .tensorDecl 0 "A" ⟨"f32", [2]⟩, rfl, rfl, rfl⟩
  rcases index with _ | _ | _ | index
  · cases here
    cases computes
  · cases here
    cases List.mem_singleton.mp used
    cases (verify_ok_iff.mp accepted).defines_unique defines declared
    exact absurd late.2 (Nat.not_succ_le_zero 0)
  · cases here
    cases computes
  · cases here

/-- A `relu` whose input is its own result. -/
def reluOfItself : Module where
  entry := 0
  blocks := [{
    id := 0
    name := "entry"
    operations := [.constantInt 0 0 (.scalar "i64"), .relu 1 1 ⟨"f32", [2]⟩]
    terminator := some (.returnOp 0) }]

theorem reluOfItself_accepted : verify reluOfItself = .ok () ∧ ¬ Contract reluOfItself := by
  refine ⟨by decide +kernel, fun contract => ?_⟩
  refine contract.ordered _ (List.mem_singleton.mpr rfl) 1 (.relu 1 1 ⟨"f32", [2]⟩) rfl 1
    (List.mem_singleton.mpr rfl) ⟨0, 1, ⟨"f32", [2]⟩⟩ ?_ ⟨rfl, Nat.le_refl _⟩
  exact ⟨_, List.mem_singleton.mpr rfl, 1, .relu 1 1 ⟨"f32", [2]⟩, rfl, rfl, rfl⟩

end Ocelotl.IR
