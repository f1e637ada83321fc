import Ocelotl.IR.Completeness
import Ocelotl.IR.Execution

/-! Executions of well-formed modules, with loops or without. What dominates a
block was executed before it, so values are written, with their types, when they
are read. -/

namespace Ocelotl.IR

open Library Evaluation

variable {Contents : Type} {operations : Operations Contents} {module : Module}
  {registers : Registers Contents} {config following : Config Contents}
  {earlier visited : List BlockId} {block target : BlockId} {index : Nat} {operation : Operation}
  {value : ValueId} {type : TensorType}

/-- What well-formedness leaves open: the types of constants and of arithmetic,
and those that operations on tensors have by their operands. -/
def Operation.Sensible (module : Module) : Operation → Prop
  | .constantInt _ _ type => type = .scalar "i64"
  | .constantFloat _ _ type => type = .scalar "f64"
  | .binary _ _ _ _ type | .compare _ _ _ _ type => type.Numeric
  | .matMul _ lhs rhs type => ∀ left right, module.Defines lhs left → module.Defines rhs right →
    productType left.type right.type = some type
  | .relu _ input type => ∀ definition, module.Defines input definition → definition.type = type
  | .tensorDecl _ _ _ | .phi _ _ _ => True

/-- A well-formed module that can start with its entry. -/
structure Executable (module : Module) : Prop extends WellFormed module where
  sensible : ∀ block ∈ module.blocks, ∀ operation ∈ block.operations, operation.Sensible module
  entryPhis : ∀ block ∈ module.blocks, block.id = module.entry →
    ∀ operation ∈ block.operations, operation.isPhi = false

/-- What the verifier leaves to those who make a module. -/
structure Disciplined (module : Module) : Prop where
  ssa : StrictSSA module.block module.entry
  sensible : ∀ block ∈ module.blocks, ∀ operation ∈ block.operations, operation.Sensible module
  entryPhis : ∀ block ∈ module.blocks, block.id = module.entry →
    ∀ operation ∈ block.operations, operation.isPhi = false

/-- Some return of the module returns a value that is defined with this type. -/
def Module.ReturnsType (module : Module) (type : TensorType) : Prop :=
  ∃ block ∈ module.blocks, ∃ value definition, block.terminator = some (.returnOp value) ∧
    module.Defines value definition ∧ definition.type = type

private theorem executeBinary_cases {kind : BinaryKind} {lhs rhs : Value Contents} (numeric : type.Numeric)
    (left : lhs.type = type) (right : rhs.type = type) :
    (∃ value, executeBinary operations kind type lhs rhs = .ok value ∧ value.type = type) ∨
      executeBinary operations kind type lhs rhs = .error .undefinedDivision := by
  rcases numeric with rfl | rfl
  · obtain ⟨lhsBits, rfl⟩ := Value.type_eq_i64.mp left
    obtain ⟨rhsBits, rfl⟩ := Value.type_eq_i64.mp right
    cases kind with
    | add | subtract | multiply => exact .inl ⟨_, rfl, rfl⟩
    | divide =>
      cases divided : quotient lhsBits rhsBits with
      | none =>
        refine .inr ?_
        simp [executeBinary, TensorType.scalar, integerBinary, divided]
        rfl
      | some result =>
        refine .inl ⟨.i64 result, ?_, rfl⟩
        simp [executeBinary, TensorType.scalar, integerBinary, divided]
        rfl
  · obtain ⟨lhsNumber, rfl⟩ := Value.type_eq_f64.mp left
    obtain ⟨rhsNumber, rfl⟩ := Value.type_eq_f64.mp right
    exact .inl ⟨_, rfl, rfl⟩

private theorem executeCompare_typed {kind : CompareKind} {lhs rhs : Value Contents}
    (numeric : type.Numeric) (left : lhs.type = type) (right : rhs.type = type) :
    ∃ truth, executeCompare operations kind type lhs rhs = .ok (.i1 truth) := by
  rcases numeric with rfl | rfl
  · obtain ⟨lhsBits, rfl⟩ := Value.type_eq_i64.mp left
    obtain ⟨rhsBits, rfl⟩ := Value.type_eq_i64.mp right
    exact ⟨_, rfl⟩
  · obtain ⟨lhsNumber, rfl⟩ := Value.type_eq_f64.mp left
    obtain ⟨rhsNumber, rfl⟩ := Value.type_eq_f64.mp right
    exact ⟨_, rfl⟩

/-- The result of the operation holds a value of its type. -/
def Operation.Written (registers : Registers Contents) (operation : Operation) : Prop :=
  ∃ value, registers (resultOf operation) = some value ∧ value.type = typeOf operation

def BlockWritten (module : Module) (registers : Registers Contents) (block : BlockId) : Prop :=
  ∀ index operation, OperationAt module.block block index operation → operation.Written registers

/-- The value can be read, and has a type that it is defined with. -/
def Readable (module : Module) (registers : Registers Contents) (value : ValueId) : Prop :=
  ∃ found definition, readRegister registers value = .ok found ∧ module.Defines value definition ∧
    found.type = definition.type

theorem Operation.Written.readable (written : operation.Written registers)
    (present : OperationAt module.block block index operation)
    (result : resultOf operation = value) :
    Readable module registers value := by
  obtain ⟨found, holds, typed⟩ := written
  refine ⟨found, _, ?_, Module.defines_of_operationAt present result, typed⟩
  rw [readRegister, ← result, holds]
  rfl

theorem BlockWritten.readable {entry : BlockId}
    (written : ∀ block ∈ visited, BlockWritten module registers block)
    (walk : Walk (Edge module.block) entry visited block)
    (defined : DefinedAtEnd module.block entry value block) : Readable module registers value := by
  obtain ⟨source, position, operation, present, result, dominates⟩ := defined
  exact (written source (dominates visited walk) position operation present).readable present result

/-- The block that was left ends a walk through blocks that are written. -/
inductive Departed (module : Module) : Option (Departure Contents) → BlockId → Prop where
  | entry : Departed module none module.entry
  | edge {departure : Departure Contents} {visited : List BlockId} {target : BlockId}
    (walk : Walk (Edge module.block) module.entry visited departure.block)
    (written : ∀ block ∈ visited, BlockWritten module departure.registers block)
    (next : Edge module.block departure.block target) : Departed module (some departure) target

/-- The execution came here through these blocks, and has written all they
define, and what its block defines before the place where it stands. -/
structure Underway (module : Module) (earlier : List BlockId)
    (config : Config Contents) : Prop where
  walk : Walk (Edge module.block) module.entry (config.block :: earlier) config.block
  written : ∀ block ∈ earlier, BlockWritten module config.registers block
  begun : ∀ position operation, position < config.index →
    OperationAt module.block config.block position operation → operation.Written config.registers
  departed : Departed module config.previous config.block

theorem Underway.initial : Underway module [] (.initial module.entry : Config Contents) where
  walk := .start
  written := List.forall_mem_nil _
  begun _ _ less := absurd less (Nat.not_lt_zero _)
  departed := .entry

theorem Underway.readable (underway : Underway module earlier config)
    (defined : DefinedBefore module.block module.entry value config.block config.index) :
    Readable module config.registers value := by
  obtain ⟨source, position, operation, present, result, place⟩ := defined
  have written : operation.Written config.registers := by
    rcases place with ⟨same, less⟩ | ⟨different, dominates⟩
    · exact underway.begun position operation less (same ▸ present)
    · have passed := dominates _ underway.walk
      exact underway.written source (List.mem_of_ne_of_mem different passed) position
        operation present
  exact written.readable present result

/-- A value is defined once. -/
theorem WellFormed.defines_unique {definition definition' : Definition}
    (wellFormed : WellFormed module) (first : module.Defines value definition)
    (second : module.Defines value definition') :
    definition = definition' := by
  obtain ⟨⟨blocks, definitions⟩, collected⟩ :
      ∃ result, collectBlocks module.blocks ∅ ∅ = .ok result :=
    collectBlocks_ok_iff.mpr ⟨⟨wellFormed.ids, by simp⟩, wellFormed.terminated,
      wellFormed.phisFirst,
      wellFormed.results, by simp⟩
  have lookup := (collectBlocks_lookup collected).2 value
  have found := (lookup definition).mpr (.inr first)
  have found' := (lookup definition').mpr (.inr second)
  exact Option.some.inj (found.symm.trans found')

/-- The blocks that walks from the entry come to are blocks of the module. -/
theorem WellFormed.block_of_walk (wellFormed : WellFormed module)
    (walk : Walk (Edge module.block) module.entry visited block) :
    ∃ body ∈ module.blocks, body.id = block ∧ module.block block = some body := by
  have found {id : BlockId} (present : ∃ body ∈ module.blocks, body.id = id) :
      ∃ body ∈ module.blocks, body.id = id ∧ module.block id = some body := by
    obtain ⟨body, member, same⟩ := present
    exact ⟨body, member, same, (Module.block_iff wellFormed.ids).mpr ⟨member, same⟩⟩
  cases walk with
  | start => exact found wellFormed.entry
  | step _ next =>
    obtain ⟨source, known, member⟩ := next
    exact found (wellFormed.targets source (List.mem_of_find?_eq_some known) block member)

/-- What is read has the type that every definition of the value has. -/
theorem Readable.typed (readable : Readable module registers value)
    (typed : ∀ definition, module.Defines value definition → definition.type = type) :
    ∃ found, readRegister registers value = .ok found ∧ found.type = type := by
  obtain ⟨found, definition, read, defines, same⟩ := readable
  exact ⟨found, read, same.trans (typed definition defines)⟩

theorem OperationAt.member (present : OperationAt module.block block index operation) :
    ∃ body ∈ module.blocks, body.id = block ∧ body.operations[index]? = some operation ∧
      operation ∈ body.operations := by
  obtain ⟨body, found, here⟩ := present
  have same : body.id = block := by simpa using List.find?_some found
  exact ⟨body, List.mem_of_find?_eq_some found, same, here, List.mem_of_getElem? here⟩

/-- A phi has a value for the block that was left, and that value was written there. -/
theorem Underway.executesPhi {result : ValueId} {incoming : List PhiIncoming}
    (executable : Executable module) (underway : Underway module earlier config)
    (present : OperationAt module.block config.block config.index (.phi result type incoming)) :
    ∃ value, executePhi config.previous incoming = .ok value ∧ value.type = type := by
  obtain ⟨body, member, same, _, inside⟩ := present.member
  obtain ⟨_, sources⟩ := executable.predecessors body member _ inside rfl
  have departed := underway.departed
  cases previous : config.previous with
  | none =>
    -- An execution starts with the entry, which has no phis.
    rw [previous] at departed
    generalize config.block = block at departed same
    cases departed
    cases executable.entryPhis body member same _ inside
  | some departure =>
    rw [previous] at departed
    cases departed with
    | edge walk written next =>
      obtain ⟨source, known, aimed⟩ := next
      have sourceId : source.id = departure.block := by simpa using List.find?_some known
      have listed : departure.block ∈ incoming.map PhiIncoming.predecessor :=
        (sources departure.block).mpr ⟨source, List.mem_of_find?_eq_some known, sourceId,
          same.symm ▸ aimed⟩
      cases chosen : incoming.find? fun source => source.predecessor == departure.block with
      | none =>
        obtain ⟨entry, here, equal⟩ := List.mem_map.mp listed
        have other := List.find?_eq_none.mp chosen entry here
        simp [equal] at other
      | some entry =>
        have here := List.mem_of_find?_eq_some chosen
        have equal : entry.predecessor = departure.block := by simpa using List.find?_some chosen
        have defined := executable.incoming body member _ inside entry here
        have readable := BlockWritten.readable written (equal.symm ▸ walk) defined
        obtain ⟨value, read, typed⟩ :=
          readable.typed (executable.incomingTypes body member _ inside entry here)
        refine ⟨value, ?_, typed⟩
        simp only [executePhi, chosen]
        exact read

/-- An operation gives a value of its type, or divides where there is no quotient. -/
theorem Underway.executes (executable : Executable module)
    (underway : Underway module earlier config)
    (present : OperationAt module.block config.block config.index operation) :
    (∃ value, execute operations config.previous config.registers operation = .ok value ∧
        value.type = typeOf operation) ∨
      execute operations config.previous config.registers operation =
        .error .undefinedDivision := by
  obtain ⟨body, member, same, here, inside⟩ := present.member
  have sensible := executable.sensible body member operation inside
  have readable {id : ValueId} (used : id ∈ operation.operands) :
      Readable module config.registers id := by
    apply underway.readable
    rw [← same]
    exact executable.operands body member config.index operation here id used
  have operand {id : ValueId} {type : TensorType} (typed : (id, type) ∈ operation.typedOperands) :
      ∃ found, readRegister config.registers id = .ok found ∧ found.type = type :=
    (readable (operand_of_typedOperand typed)).typed
      (executable.operandTypes body member operation inside id type typed)
  cases operation with
  | tensorDecl result name type => exact .inl ⟨_, rfl, operations.tensor_type name type⟩
  | constantInt result value type => exact .inl ⟨_, rfl, sensible.symm⟩
  | constantFloat result value type => exact .inl ⟨_, rfl, sensible.symm⟩
  | binary result kind lhs rhs type =>
    obtain ⟨lhsValue, leftRead, left⟩ := operand List.mem_cons_self
    obtain ⟨rhsValue, rightRead, right⟩ := operand (List.mem_cons_of_mem _ List.mem_cons_self)
    simp only [execute, leftRead, rightRead, bind, Except.bind]
    exact executeBinary_cases sensible left right
  | compare result kind lhs rhs operandType =>
    obtain ⟨lhsValue, leftRead, left⟩ := operand List.mem_cons_self
    obtain ⟨rhsValue, rightRead, right⟩ := operand (List.mem_cons_of_mem _ List.mem_cons_self)
    obtain ⟨truth, compares⟩ :
        ∃ truth, executeCompare operations kind operandType lhsValue rhsValue = .ok (.i1 truth) :=
      executeCompare_typed sensible left right
    refine .inl ⟨.i1 truth, ?_, rfl⟩
    simp only [execute, leftRead, rightRead, bind, Except.bind]
    exact compares
  | phi result type incoming => exact .inl (underway.executesPhi executable present)
  | matMul result lhs rhs type =>
    obtain ⟨lhsValue, left, leftRead, leftDefines, leftTyped⟩ := readable List.mem_cons_self
    obtain ⟨rhsValue, right, rightRead, rightDefines, rightTyped⟩ :=
      readable (List.mem_cons_of_mem _ List.mem_cons_self)
    refine .inl ⟨operations.matmul lhsValue rhsValue, ?_, ?_⟩
    · simp only [execute, leftRead, rightRead, bind, Except.bind]
      rfl
    · apply operations.matmul_type
      rw [leftTyped, rightTyped]
      exact sensible left right leftDefines rightDefines
  | relu result input type =>
    obtain ⟨inputValue, read, typed⟩ := (readable List.mem_cons_self).typed sensible
    refine .inl ⟨operations.relu inputValue, ?_, (operations.relu_type inputValue).trans typed⟩
    simp only [execute, read, bind, Except.bind]
    rfl

/-- Everything that an execution on its way can do next. -/
inductive NextStep (operations : Operations Contents) (module : Module)
    (config : Config Contents) : Prop where
  | writes (operation : Operation) (value : Value Contents)
    (present : OperationAt module.block config.block config.index operation)
    (typed : value.type = typeOf operation)
    (steps : (machine operations module.block).step config =
      .inl (config.define (resultOf operation) value))
  | divides
    (stops : (machine operations module.block).step config = .inr (.error .undefinedDivision))
  | jumps (target : BlockId) (next : Edge module.block config.block target)
    (ended : BlockWritten module config.registers config.block)
    (steps : (machine operations module.block).step config = .inl (config.jump target))
  | returns (value : Value Contents) (typed : module.ReturnsType value.type)
    (stops : (machine operations module.block).step config = .inr (.ok value))

theorem Underway.transfers {body : BasicBlock} (executable : Executable module)
    (underway : Underway module earlier config) (member : body ∈ module.blocks)
    (same : body.id = config.block) (known : module.block config.block = some body)
    (ended : body.operations.length ≤ config.index) : NextStep operations module config := by
  have complete : BlockWritten module config.registers config.block := by
    intro index operation present
    obtain ⟨body', found, here⟩ := id present
    cases known.symm.trans found
    exact underway.begun index operation
      (Nat.lt_of_lt_of_le (List.getElem?_eq_some_iff.mp here).1 ended) present
  have written : ∀ block ∈ config.block :: earlier, BlockWritten module config.registers block :=
    List.forall_mem_cons.mpr ⟨complete, underway.written⟩
  obtain ⟨last, ends⟩ := Option.ne_none_iff_exists'.mp (executable.terminated body member)
  have readable {id : ValueId} (used : id ∈ last.operands) :
      Readable module config.registers id := by
    apply BlockWritten.readable written underway.walk
    rw [← same]
    exact executable.terminators body member last ends id used
  have edge {target : BlockId} (aimed : target ∈ last.targets) :
      Edge module.block config.block target :=
    edge_iff.mpr ⟨last, ⟨body, known, ends⟩, aimed⟩
  have step : (machine operations module.block).step config = transfer config last :=
    machine_terminator known ended ends
  cases last with
  | branch target => exact .jumps target (edge List.mem_cons_self) complete step
  | condBranch condition trueTarget falseTarget =>
    obtain ⟨found, read, typed⟩ := (readable List.mem_cons_self).typed
      (executable.conditions body member condition trueTarget falseTarget ends)
    obtain ⟨truth, rfl⟩ := Value.type_eq_i1.mp typed
    simp only [transfer, read] at step
    cases truth with
    | true => exact .jumps trueTarget (edge List.mem_cons_self) complete step
    | false =>
      exact .jumps falseTarget (edge (List.mem_cons_of_mem _ List.mem_cons_self)) complete step
  | returnOp value =>
    obtain ⟨found, definition, read, defines, typed⟩ := readable List.mem_cons_self
    refine .returns found ⟨body, member, value, definition, ends, defines, typed.symm⟩ ?_
    rw [step, transfer, read]

/-- An execution on its way is never stuck, apart from divisions. -/
theorem Underway.nextStep (executable : Executable module)
    (underway : Underway module earlier config) :
    NextStep operations module config := by
  obtain ⟨body, member, same, known⟩ := executable.block_of_walk underway.walk
  cases here : body.operations[config.index]? with
  | none =>
    exact underway.transfers executable member same known (List.getElem?_eq_none_iff.mp here)
  | some operation =>
    have present : OperationAt module.block config.block config.index operation :=
      ⟨body, known, here⟩
    rcases underway.executes executable present with ⟨value, success, typed⟩ | failure
    · refine .writes operation value present typed ?_
      rw [machine_operation config present, success]
    · refine .divides ?_
      rw [machine_operation config present, failure]

/-- Writing the result of an operation again gives it a value of the same type. -/
theorem Operation.Written.update {other : Operation} {result : Value Contents} {block' index' : Nat}
    (executable : Executable module) (present : OperationAt module.block block index operation)
    (typed : result.type = typeOf operation) (there : OperationAt module.block block' index' other)
    (written : other = operation ∨ other.Written registers) :
    other.Written (Function.update registers (resultOf operation) (some result)) := by
  by_cases same : resultOf other = resultOf operation
  · have unique := executable.defines_unique (Module.defines_of_operationAt there same)
      (Module.defines_of_operationAt present rfl)
    refine ⟨result, ?_, typed.trans ?_⟩
    · rw [same, Function.update_self]
    · injection unique with _ _ types
      exact types.symm
  · rcases written with rfl | ⟨value, holds, typed⟩
    · exact absurd rfl same
    · exact ⟨value, by rw [Function.update_of_ne same, holds], typed⟩

/-- The execution came here somehow. -/
def InProgress (module : Module) (config : Config Contents) : Prop :=
  ∃ earlier, Underway module earlier config

theorem InProgress.initial :
    InProgress module (.initial module.entry : Config Contents) := ⟨[], .initial⟩

theorem InProgress.step (executable : Executable module) (progress : InProgress module config)
    (steps : (machine operations module.block).step config = .inl following) :
    InProgress module following := by
  obtain ⟨earlier, underway⟩ := progress
  have next : NextStep operations module config := underway.nextStep executable
  cases next with
  | writes operation value present typed steps' =>
    cases steps.symm.trans steps'
    refine ⟨earlier, underway.walk, ?_, ?_, underway.departed⟩
    · intro block member index other there
      exact .update executable present typed there
        (.inr (underway.written block member index other there))
    · intro position other less there
      refine .update executable present typed there ?_
      rcases Nat.lt_succ_iff_lt_or_eq.mp less with before | rfl
      · exact .inr (underway.begun position other before there)
      · exact .inl (there.unique present)
  | jumps target next ended steps' =>
    cases steps.symm.trans steps'
    have written : ∀ block ∈ config.block :: earlier, BlockWritten module config.registers block :=
      List.forall_mem_cons.mpr ⟨ended, underway.written⟩
    exact ⟨config.block :: earlier, underway.walk.step next, written,
      fun _ _ less => absurd less (Nat.not_lt_zero _), .edge underway.walk written next⟩
  | divides stops | returns _ _ stops => cases steps.symm.trans stops

/-- An executable module gets stuck in no way but at an
integer division without a quotient, whatever loops it has. What it returns has
the type of one of its returns. -/
theorem executable_safe (executable : Executable module) {outcome : Except Stuck (Value Contents)}
    (executes : module.Executes operations outcome) :
    outcome = .error .undefinedDivision ∨ ∃ value, outcome = .ok value ∧
      module.ReturnsType value.type := by
  obtain ⟨last, ⟨earlier, underway⟩, stops⟩ :=
    executes.invariant InProgress.initial fun progress => InProgress.step executable progress
  have next : NextStep operations module last := underway.nextStep executable
  cases next with
  | writes _ _ _ _ steps | jumps _ _ _ steps => cases stops.symm.trans steps
  | divides stops' =>
    cases stops.symm.trans stops'
    exact .inl rfl
  | returns value typed stops' =>
    cases stops.symm.trans stops'
    exact .inr ⟨value, rfl, typed⟩

/-- The verifier leaves out dominance alone. -/
theorem Verified.wellFormed (verified : Verified module)
    (operands : ∀ block ∈ module.blocks, ∀ index operation, block.operations[index]? =
      some operation →
      ∀ value ∈ operation.operands, DefinedBefore module.block module.entry value block.id index)
    (terminators : ∀ block ∈ module.blocks, ∀ last, block.terminator = some last →
      ∀ value ∈ last.operands, DefinedAtEnd module.block module.entry value block.id)
    (incoming : ∀ block ∈ module.blocks, ∀ operation ∈ block.operations,
      ∀ incoming ∈ operation.incoming,
      DefinedAtEnd module.block module.entry incoming.value incoming.predecessor) :
    WellFormed module where
  nonempty := verified.nonempty
  ids := verified.ids
  entry := verified.entry
  terminated := verified.terminated
  targets := verified.targets
  results := verified.results
  phisFirst := verified.phisFirst
  operands := operands
  terminators := terminators
  predecessors := verified.predecessors
  incoming := incoming
  operandTypes block member operation here value type typed definition defines := by
    obtain ⟨index, present⟩ := List.getElem?_of_mem here
    obtain ⟨other, defines', same, _⟩ :=
      verified.typed block member index operation present value type typed
    rw [verified.defines_unique defines defines', same]
  incomingTypes block member operation here incoming listed definition defines := by
    obtain ⟨index, present⟩ := List.getElem?_of_mem here
    obtain ⟨other, defines', same, _⟩ :=
      verified.incoming block member index operation present incoming listed
    rw [verified.defines_unique defines defines', same]
  conditions block member condition trueTarget falseTarget ends definition defines := by
    obtain ⟨other, defines', same⟩ :=
      verified.conditions block member condition trueTarget falseTarget ends
    rw [verified.defines_unique defines defines', same]
  returns := by
    obtain ⟨type, some, each⟩ := verified.returns
    refine ⟨type, some, fun block member value ends definition defines => ?_⟩
    obtain ⟨other, defines', same⟩ := each block member value ends
    rw [verified.defines_unique defines defines', same]

theorem Verified.executable (verified : Verified module) (disciplined : Disciplined module) :
    Executable module := by
  have known {body : BasicBlock} (member : body ∈ module.blocks) :
      module.block body.id = some body :=
    (Module.block_iff verified.ids).mpr ⟨member, rfl⟩
  refine ⟨verified.wellFormed ?_ ?_ ?_, disciplined.sensible, disciplined.entryPhis⟩
  · intro block member index operation here value used
    exact disciplined.ssa.operands ⟨block, known member, here⟩ used
  · intro block member last ends value used
    exact disciplined.ssa.terminators ⟨block, known member, ends⟩ used
  · intro block member operation here incoming listed
    obtain ⟨index, present⟩ := List.getElem?_of_mem here
    exact disciplined.ssa.incoming ⟨block, known member, present⟩ listed

/-- Well-formed modules are in strict SSA form. -/
theorem WellFormed.strictSSA (wellFormed : WellFormed module) :
    StrictSSA module.block module.entry where
  unique first second same := by
    have unique := wellFormed.defines_unique (Module.defines_of_operationAt first same)
      (Module.defines_of_operationAt second rfl)
    injection unique with blocks indices _
    exact ⟨blocks, indices⟩
  operands present used := by
    obtain ⟨body, member, same, here, _⟩ := present.member
    exact same ▸ wellFormed.operands body member _ _ here _ used
  terminators ends used := by
    obtain ⟨body, found, last⟩ := ends
    have same := List.find?_some found
    exact (by simpa using same : body.id = _) ▸
      wellFormed.terminators body (List.mem_of_find?_eq_some found) _ last _ used
  incoming present listed := by
    obtain ⟨body, member, _, _, inside⟩ := present.member
    exact wellFormed.incoming body member _ inside _ listed

/-- All returns of a verified module have one type. -/
theorem Verified.returnsType_unique {type' : TensorType} (verified : Verified module)
    (first : module.ReturnsType type) (second : module.ReturnsType type') : type = type' := by
  obtain ⟨common, _, each⟩ := verified.returns
  have same {type : TensorType} (returns : module.ReturnsType type) : type = common := by
    obtain ⟨block, member, value, definition, ends, defines, rfl⟩ := returns
    obtain ⟨other, defines', rfl⟩ := each block member value ends
    rw [verified.defines_unique defines defines']
  rw [same first, same second]

/-- The checks of the verifier and the discipline of strict SSA form are enough:
no execution gets stuck but at an integer division without a quotient, whatever
loops there are, and all that return give a value of the type of the returns. -/
theorem verify_safe (accepted : verify module = .ok ()) (disciplined : Disciplined module)
    (operations : Operations Contents) :
    ∃ type, module.ReturnsType type ∧
      ∀ outcome : Except Stuck (Value Contents), module.Executes operations outcome →
        outcome = .error .undefinedDivision ∨ ∃ value, outcome = .ok value ∧ value.type = type := by
  have verified := verify_ok_iff.mp accepted
  obtain ⟨type, ⟨block, member, value, ends⟩, each⟩ := verified.returns
  obtain ⟨definition, defines, same⟩ := each block member value ends
  have returns : module.ReturnsType type := ⟨block, member, value, definition, ends, defines, same⟩
  refine ⟨type, returns, fun outcome executes => ?_⟩
  rcases executable_safe (verified.executable disciplined) executes with
    stuck | ⟨value, same, typed⟩
  · exact .inl stuck
  · exact .inr ⟨value, same, verified.returnsType_unique typed returns⟩

/-- Counts down from three, and returns zero. -/
def countdown : Module where
  entry := 0
  blocks := [
    { id := 0
      name := "entry"
      operations := [
        .constantInt 0 3 (.scalar "i64"),
        .constantInt 1 1 (.scalar "i64"),
        .constantInt 2 0 (.scalar "i64")]
      terminator := some (.branch 1) },
    { id := 1
      name := "loop"
      operations :=
        [.phi 3 (.scalar "i64") [⟨0, 0⟩, ⟨2, 4⟩], .compare 5 .greater 3 2 (.scalar "i64")]
      terminator := some (.condBranch 5 2 3) },
    { id := 2
      name := "body"
      operations := [.binary 4 .subtract 3 1 (.scalar "i64")]
      terminator := some (.branch 1) },
    { id := 3, name := "exit", operations := [], terminator := some (.returnOp 3) }]

private theorem countdown_edge {source : BlockId} (next : Edge countdown.block source target) :
    source = 0 ∧ target = 1 ∨ source = 1 ∧ (target = 2 ∨ target = 3) ∨ source = 2 ∧ target = 1 := by
  obtain ⟨body, known, aimed⟩ := next
  have member := List.mem_of_find?_eq_some known
  have same : body.id = source := by simpa using List.find?_some known
  subst same
  revert aimed
  revert body
  simp [countdown, BasicBlock.targets]

private theorem countdown_dominates (inside : block = 2 ∨ block = 3) :
    BlockDominates countdown.block countdown.entry 1 block := by
  apply Dominates.of_predecessors
  · rcases inside with rfl | rfl <;> decide
  · intro source next
    have loop : source = 1 := by
      rcases countdown_edge next with ⟨_, rfl⟩ | ⟨here, _⟩ | ⟨_, rfl⟩
      · rcases inside with impossible | impossible <;> cases impossible
      · exact here
      · rcases inside with impossible | impossible <;> cases impossible
    subst loop
    exact .refl 1

private theorem countdown_wellFormed : WellFormed countdown := by
  have verified : Verified countdown := verify_ok_iff.mp (by decide +kernel)
  have zero : OperationAt countdown.block 0 2 (.constantInt 2 0 (.scalar "i64")) := ⟨_, rfl, rfl⟩
  have one : OperationAt countdown.block 0 1 (.constantInt 1 1 (.scalar "i64")) := ⟨_, rfl, rfl⟩
  have three : OperationAt countdown.block 0 0 (.constantInt 0 3 (.scalar "i64")) := ⟨_, rfl, rfl⟩
  have count : OperationAt countdown.block 1 0 (.phi 3 (.scalar "i64") [⟨0, 0⟩, ⟨2, 4⟩]) :=
    ⟨_, rfl, rfl⟩
  have test : OperationAt countdown.block 1 1 (.compare 5 .greater 3 2 (.scalar "i64")) :=
    ⟨_, rfl, rfl⟩
  have next : OperationAt countdown.block 2 0 (.binary 4 .subtract 3 1 (.scalar "i64")) :=
    ⟨_, rfl, rfl⟩
  refine verified.wellFormed ?_ ?_ ?_
  · intro block member index operation here value used
    simp only [countdown, List.mem_cons, List.not_mem_nil, or_false] at member
    rcases member with rfl | rfl | rfl | rfl
    · rcases index with _ | _ | _ | index <;> cases here <;> cases used
    · rcases index with _ | _ | index <;> cases here
      · cases used
      · rcases List.mem_pair.mp used with rfl | rfl
        · exact ⟨1, 0, _, count, rfl, .inl ⟨rfl, by decide⟩⟩
        · exact ⟨0, 2, _, zero, rfl, .inr ⟨by decide, .of_root 1⟩⟩
    · rcases index with _ | index <;> cases here
      rcases List.mem_pair.mp used with rfl | rfl
      · exact ⟨1, 0, _, count, rfl, .inr ⟨by decide, countdown_dominates (.inl rfl)⟩⟩
      · exact ⟨0, 1, _, one, rfl, .inr ⟨by decide, .of_root 2⟩⟩
    · cases here
  · intro block member last ends value used
    simp only [countdown, List.mem_cons, List.not_mem_nil, or_false] at member
    rcases member with rfl | rfl | rfl | rfl <;> cases ends
    · cases used
    · cases List.mem_singleton.mp used
      exact ⟨1, 1, _, test, rfl, .refl 1⟩
    · cases used
    · cases List.mem_singleton.mp used
      exact ⟨1, 0, _, count, rfl, countdown_dominates (.inr rfl)⟩
  · intro block member operation here incoming listed
    simp only [countdown, List.mem_cons, List.not_mem_nil, or_false] at member
    rcases member with rfl | rfl | rfl | rfl
    · simp only [List.mem_cons, List.not_mem_nil, or_false] at here
      rcases here with rfl | rfl | rfl <;> cases listed
    · rcases List.mem_pair.mp here with rfl | rfl
      · rcases List.mem_pair.mp listed with rfl | rfl
        · exact ⟨0, 0, _, three, rfl, .of_root 0⟩
        · exact ⟨2, 0, _, next, rfl, .refl 2⟩
      · cases listed
    · cases List.mem_singleton.mp here
      cases listed
    · cases here

private theorem countdown_disciplined : Disciplined countdown := by
  refine ⟨countdown_wellFormed.strictSSA, ?_, by decide⟩
  intro block member operation here
  simp only [countdown, List.mem_cons, List.not_mem_nil, or_false] at member
  rcases member with rfl | rfl | rfl | rfl <;>
    simp only [List.mem_cons, List.not_mem_nil, or_false] at here
  · rcases here with rfl | rfl | rfl <;> rfl
  · rcases here with rfl | rfl
    · trivial
    · exact .inl rfl
  · cases here
    exact .inl rfl

theorem verify_safe_countdown :
    countdown.Executes (Operations.fixed : Operations Unit) (.ok (.i64 0)) ∧
    countdown.ReturnsType (.scalar "i64") := by
  have result : (machine (Operations.fixed : Operations Unit) countdown.block).run 30
    (.initial countdown.entry) =
      some (.ok (.i64 0)) := by decide +kernel
  have executes : countdown.Executes (Operations.fixed : Operations Unit) (.ok (.i64 0)) :=
    .of_run result
  have accepted : verify countdown = .ok () := by decide +kernel
  obtain ⟨type, returns, safe⟩ :=
    verify_safe accepted countdown_disciplined (Operations.fixed : Operations Unit)
  refine ⟨executes, ?_⟩
  rcases safe _ executes with stuck | ⟨value, returned, typed⟩
  · cases stuck
  · cases returned
    have typed : .scalar "i64" = type := typed
    rw [typed]
    exact returns

end Ocelotl.IR
