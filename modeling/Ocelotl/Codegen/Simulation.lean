import Ocelotl.Codegen.Fragments
import Ocelotl.IR.Execution

namespace Ocelotl.Codegen

open IR Library LLVM Evaluation

variable {Contents : Type} {operations : Operations Contents} {environment : Environment Contents}
  {blocks : List LLVM.BasicBlock} {labels : Labels} {values : Operands} {slots : CleanupSlots}
  {registers : IR.Registers Contents} {registers' : LLVM.Registers} {kind : BinaryKind}

/-- A value of the module and what stands for it. All that is known of a tensor
is that a pointer stands for it. -/
inductive Stands : Evaluation.Value Contents → LLVM.Value → Prop where
  | i1 (truth : Bool) : Stands (.i1 truth) (.i1 truth)
  | i64 (bits : BitVec 64) : Stands (.i64 bits) (.i64 bits)
  | f64 (number : Double) : Stands (.f64 number) (.double number)
  | tensor (type : TensorType) (isTensor : ¬ IsScalarType type) (contents : Contents)
    (pointer : Pointer) : Stands (.tensor type isTensor contents) (.pointer pointer)

/-- Every value that is written has an operand with a value that stands for it. -/
def Holds (values : Operands) (registers : IR.Registers Contents)
    (registers' : LLVM.Registers) : Prop :=
  ∀ id value, registers id = some value → ∃ operand value', values.lookup id = some operand ∧
    evaluate registers' operand = .ok value' ∧ Stands value value'

variable {value lhsValue rhsValue : Evaluation.Value Contents}
  {value' lhsValue' rhsValue' : LLVM.Value}

theorem Holds.read {id : ValueId} {operand : Operand} (holds : Holds values registers registers')
    (written : readRegister registers id = .ok value) (lowered : values.lookup id = some operand) :
    ∃ value', evaluate registers' operand = .ok value' ∧ Stands value value' := by
  unfold readRegister at written
  cases found : registers id with
  | none => rw [found] at written; cases written
  | some other =>
    rw [found] at written
    cases written
    obtain ⟨operand', value', lowered', evaluates, stands⟩ := holds id value found
    cases lowered.symm.trans lowered'
    exact ⟨value', evaluates, stands⟩

theorem evaluate_update {operand : Operand} {register : RegisterId}
    (other : operand ≠ .register register) :
    evaluate (Function.update registers' register (some value')) operand =
      evaluate registers' operand := by
  cases operand with
  | register result =>
    have different : result ≠ register := fun same => other (same ▸ rfl)
    simp only [LLVM.evaluate, Function.update_of_ne different]
  | integer _ | float _ | null | slot _ => rfl

theorem evaluate_update_self {register : RegisterId} :
    evaluate (Function.update registers' register (some value')) (.register register) =
      .ok value' := by
  simp only [LLVM.evaluate, Function.update_self]
  rfl

/-- Writing a value into its own register leaves the other values alone. -/
theorem Holds.update {id : ValueId} {register : RegisterId}
    (holds : Holds values registers registers')
    (injective : ∀ {id id' register}, values.lookup id = some (.register register) →
      values.lookup id' = some (.register register) → id = id')
    (lowered : values.lookup id = some (.register register)) (stands : Stands value value') :
    Holds values (Function.update registers id (some value))
      (Function.update registers' register (some value')) := by
  intro other found written
  by_cases same : other = id
  · subst same
    rw [Function.update_self] at written
    cases written
    exact ⟨_, value', lowered, evaluate_update_self, stands⟩
  · rw [Function.update_of_ne same] at written
    obtain ⟨operand, old, lowered', evaluates, stands'⟩ := holds other found written
    refine ⟨operand, old, lowered', ?_, stands'⟩
    rw [evaluate_update, evaluates]
    intro sameRegister
    exact same (injective (sameRegister ▸ lowered') lowered)

/-- A constant is there without being written. -/
theorem Holds.constant {id : ValueId} {operand : Operand}
    (holds : Holds values registers registers') (lowered : values.lookup id = some operand)
    (evaluates : evaluate registers' operand = .ok value') (stands : Stands value value') :
    Holds values (Function.update registers id (some value)) registers' := by
  intro other found written
  by_cases same : other = id
  · subst same
    rw [Function.update_self] at written
    cases written
    exact ⟨operand, value', lowered, evaluates, stands⟩
  · rw [Function.update_of_ne same] at written
    exact holds other found written

private theorem integerBinary_stands {lhs rhs : BitVec 64}
    (success : integerBinary kind lhs rhs = .ok value) :
    ∃ value', LLVM.executeBinary environment.operations (binaryOpcode kind false) (.i64 lhs)
      (.i64 rhs) =
      .ok value' ∧ Stands value value' := by
  cases kind with
  | add | subtract | multiply =>
    cases success
    exact ⟨_, rfl, .i64 _⟩
  | divide =>
    unfold integerBinary at success
    cases divided : quotient lhs rhs with
    | none => simp [divided] at success
    | some result =>
      simp only [divided] at success
      cases success
      refine ⟨.i64 result, ?_, .i64 _⟩
      simp only [binaryOpcode, LLVM.executeBinary, divided, Bool.false_eq_true, if_false]
      rfl

private theorem executeBinary_stands {type : TensorType}
    (success : IR.executeBinary environment.operations kind type lhsValue rhsValue = .ok value)
    (left : Stands lhsValue lhsValue') (right : Stands rhsValue rhsValue') :
    ∃ value', LLVM.executeBinary environment.operations
      (binaryOpcode kind (type.elementType = "f64")) lhsValue' rhsValue' = .ok value' ∧
        Stands value value' := by
  unfold IR.executeBinary at success
  by_cases floating : type.elementType = "f64"
  · rw [if_pos floating] at success
    simp only [floating, decide_true]
    cases left with
    | f64 lhs =>
      cases right with
      | f64 rhs =>
        cases success
        cases kind <;> exact ⟨_, rfl, .f64 _⟩
      | i1 _ | i64 _ | tensor _ _ _ _ => cases success
    | i1 _ | i64 _ | tensor _ _ _ _ => cases success
  · rw [if_neg floating] at success
    simp only [floating, decide_false]
    cases left with
    | i64 lhs =>
      cases right with
      | i64 rhs => exact integerBinary_stands success
      | i1 _ | f64 _ | tensor _ _ _ _ => cases success
    | i1 _ | f64 _ | tensor _ _ _ _ => cases success

/-- The instruction of a comparison computes its value. -/
theorem compareInstruction_executes {config : LLVM.Config} {kind : CompareKind}
    {operandType : TensorType} {lhs rhs : Operand} {register : RegisterId}
    (success : IR.executeCompare environment.operations kind operandType lhsValue rhsValue =
      .ok value)
    (left : evaluate config.registers lhs = .ok lhsValue') (leftStands : Stands lhsValue lhsValue')
    (right : evaluate config.registers rhs = .ok rhsValue')
    (rightStands : Stands rhsValue rhsValue') :
    ∃ value', LLVM.execute environment config
      (compareInstruction kind operandType lhs rhs register) =
      .ok (config.define register value') ∧ Stands value value' := by
  unfold IR.executeCompare at success
  unfold compareInstruction
  by_cases floating : operandType.elementType = "f64"
  · rw [if_pos floating] at success ⊢
    cases leftStands with
    | f64 leftNumber =>
      cases rightStands with
      | f64 rightNumber =>
        cases success
        simp only [LLVM.execute, left, right]
        cases kind <;> exact ⟨_, rfl, .i1 _⟩
      | i1 _ | i64 _ | tensor _ _ _ _ => cases success
    | i1 _ | i64 _ | tensor _ _ _ _ => cases success
  · rw [if_neg floating] at success ⊢
    cases leftStands with
    | i64 leftBits =>
      cases rightStands with
      | i64 rightBits =>
        cases success
        simp only [LLVM.execute, left, right]
        cases kind <;> exact ⟨_, rfl, .i1 _⟩
      | i1 _ | f64 _ | tensor _ _ _ _ => cases success
    | i1 _ | f64 _ | tensor _ _ _ _ => cases success

/-- The two executions have left blocks that correspond, with registers that do. -/
inductive Left (labels : Labels) (values : Operands) :
    Option (IR.Departure Contents) → Option LLVM.Departure → Prop where
  | entry : Left labels values none none
  | jump (labelled : labels.lookup departure.block = some departure'.label)
    (holds : Holds values departure.registers departure'.registers) :
    Left labels values (some departure) (some departure')

private theorem executePhi_stands {previous : Option (IR.Departure Contents)}
    {previous' : Option LLVM.Departure} {incoming : List PhiIncoming}
    {sources : List (Operand × Label)}
    (unique : ∀ {id id' label}, labels.lookup id = some label → labels.lookup id' = some label →
      id = id')
    (left : Left labels values previous previous')
    (each : List.Forall₂ (LowersIncoming labels values) incoming sources)
    (success : IR.executePhi previous incoming = .ok value) :
    ∃ value', LLVM.executePhi previous' sources = .ok value' ∧ Stands value value' := by
  cases left with
  | entry => cases success
  | @jump departure departure' labelled holds =>
    induction each with
    | nil => cases success
    | @cons source lowered incoming sources lowers each ih =>
      unfold IR.executePhi at success
      unfold LLVM.executePhi
      simp only [List.find?_cons] at success ⊢
      by_cases here : source.predecessor = departure.block
      · have sameLabel : lowered.2 = departure'.label := by
          have found := lowers.2
          rw [here, labelled] at found
          exact (Option.some.inj found).symm
        simp only [here, sameLabel, beq_self_eq_true] at success ⊢
        exact holds.read success lowers.1
      · have otherLabel : lowered.2 ≠ departure'.label := by
          intro same
          exact here (unique lowers.2 (same ▸ labelled))
        simp only [beq_eq_false_iff_ne.mpr here, beq_eq_false_iff_ne.mpr otherLabel] at success ⊢
        exact ih success

private theorem lowered_isTensor {type : TensorType} {size : Nat}
    (sized : tensorStorageSize type = .ok size) :
    ¬ IsScalarType type := by
  have shaped : type.shape ≠ [] := by
    intro empty
    simp [tensorStorageSize, empty] at sized
  intro scalar
  rcases scalar with same | same | same <;> exact shaped (same ▸ rfl)

private theorem stands_tensor (isTensor : ¬ IsScalarType value.type) (pointer : Pointer) :
    Stands value (.pointer pointer) := by
  cases value with
  | tensor type isTensor contents => exact .tensor type isTensor contents pointer
  | i1 _ => exact absurd (.inl rfl) isTensor
  | i64 _ => exact absurd (.inr (.inl rfl)) isTensor
  | f64 _ => exact absurd (.inr (.inr rfl)) isTensor

/-- The state of the function corresponds to that of the module. -/
structure Related (labels : Labels) (values : Operands) (slots : CleanupSlots)
    (registers : IR.Registers Contents) (previous : Option (IR.Departure Contents))
    (config : LLVM.Config) : Prop where
  holds : Holds values registers config.registers
  left : Left labels values previous config.previous
  ready : ∀ id slot, slots.lookup id = some slot → ∃ pointer, config.slots slot = .holds pointer

section Runs

variable {previous : Option (IR.Departure Contents)} {config : LLVM.Config} {operation : Operation}
  {code rest : List Instruction} {last : LLVM.Terminator}
  (injective : ∀ {id id' register}, values.lookup id = some (.register register) →
    values.lookup id' = some (.register register) → id = id')
  (unique : ∀ {id id' label}, labels.lookup id = some label → labels.lookup id' = some label →
    id = id')
  (related : Related labels values slots registers previous config)

include injective related

private theorem computed_runs {instruction : Instruction} {register : RegisterId} {id : ValueId}
    (here : At blocks ([instruction] ++ rest) last config)
    (lowered : values.lookup id = some (.register register))
    (computed : ∃ value', LLVM.execute environment config instruction =
      .ok (config.define register value') ∧ Stands value value') :
    ∃ next, (LLVM.machine environment blocks).Leads config next ∧ At blocks rest last next ∧
      next.label = config.label ∧
      Related labels values slots (Function.update registers id (some value)) previous next := by
  obtain ⟨value', success, stands⟩ := computed
  obtain ⟨steps, there⟩ := here.step success
  exact ⟨_, .one steps, there, rfl, related.holds.update injective lowered stands, related.left,
    related.ready⟩

include unique

/-- Executing the code of an operation that the module executes. -/
theorem LowersOperation.runs (lowers : LowersOperation labels values slots operation code)
    (here : At blocks (code ++ rest) last config)
    (success : IR.execute environment.operations previous registers operation = .ok value) :
    ∃ next, (LLVM.machine environment blocks).Leads config next ∧ At blocks rest last next ∧
      next.label = config.label ∧ Related labels values slots
        (Function.update registers (resultOf operation) (some value)) previous next := by
  cases lowers with
  | @tensorDecl type size result declared register name sized slotted lowered =>
    cases success
    obtain ⟨pointer, holds⟩ := related.ready _ _ slotted
    obtain ⟨next, leads, there, allocated⟩ := allocation_runs environment here
      (by simp [holds])
    refine ⟨next, leads, there, allocated.label, ?_, ?_, fun id slot found => ?_⟩
    · rw [allocated.registers]
      apply related.holds.update injective lowered
      apply stands_tensor
      rw [environment.operations.tensor_type]
      exact lowered_isTensor sized
    · rw [allocated.previous]
      exact related.left
    · rw [allocated.cells]
      by_cases same : slot = declared
      · exact ⟨_, by rw [same, Function.update_self]⟩
      · rw [Function.update_of_ne same]
        exact related.ready id slot found
  | constantInt lowered =>
    cases success
    exact ⟨config, .refl, here, rfl, related.holds.constant lowered rfl (.i64 _), related.left,
      related.ready⟩
  | constantFloat lowered =>
    cases success
    exact ⟨config, .refl, here, rfl, related.holds.constant lowered rfl (.f64 _), related.left,
      related.ready⟩
  | binary left right lowered =>
    apply computed_runs injective related here lowered
    simp only [IR.execute, except_bind_ok] at success
    obtain ⟨lhsValue, leftRead, rhsValue, rightRead, success⟩ := success
    obtain ⟨lhsValue', leftEvaluates, leftStands⟩ := related.holds.read leftRead left
    obtain ⟨rhsValue', rightEvaluates, rightStands⟩ := related.holds.read rightRead right
    obtain ⟨value', computes, stands⟩ := executeBinary_stands success leftStands rightStands
    refine ⟨value', ?_, stands⟩
    simp only [LLVM.execute, leftEvaluates, rightEvaluates, computes, bind, Except.bind]
    rfl
  | compare left right lowered =>
    apply computed_runs injective related here lowered
    simp only [IR.execute, except_bind_ok] at success
    obtain ⟨lhsValue, leftRead, rhsValue, rightRead, success⟩ := success
    obtain ⟨lhsValue', leftEvaluates, leftStands⟩ := related.holds.read leftRead left
    obtain ⟨rhsValue', rightEvaluates, rightStands⟩ := related.holds.read rightRead right
    exact compareInstruction_executes success leftEvaluates leftStands rightEvaluates rightStands
  | phi scalar each lowered =>
    apply computed_runs injective related here lowered
    obtain ⟨value', computes, stands⟩ := executePhi_stands unique related.left each success
    exact ⟨value', execute_phi computes, stands⟩

end Runs

section Module

variable {order : TraversalOrder} {module : IR.Module} {function : LLVM.Function}
  {config following : IR.Config Contents} {config' : LLVM.Config}

/-- The two executions stand before an operation and before its code. -/
structure Simulates (order : TraversalOrder) (module : IR.Module) (labels : Labels)
    (values : Operands) (slots : CleanupSlots) (blocks : List LLVM.BasicBlock)
    (config : IR.Config Contents) (config' : LLVM.Config) : Prop where
  related : Related labels values slots config.registers config.previous config'
  labelled : labels.lookup config.block = some config'.label
  code : ∃ body last terminator code, module.block config.block = some body ∧
    body.terminator = some last ∧ LowersRest order labels values slots config.block last terminator
      (body.operations.drop config.index) code ∧ At blocks code terminator config'

theorem Lowered.unique (lowered : Lowered order module labels values slots function)
    {id id' : BlockId} {label : Label} (first : labels.lookup id = some label)
    (second : labels.lookup id' = some label) : id = id' :=
  label_unique lowered.labelled first second

theorem Lowered.body (lowered : Lowered order module labels values slots function) {id : BlockId}
    {label : Label} (labelled : labels.lookup id = some label) :
    ∃ block, module.blocks[label]? = some block ∧ module.block id = some block ∧ block.id = id := by
  obtain ⟨block, found, same⟩ := (lowered.labelled id label).mp labelled
  refine ⟨block, found, ?_, same⟩
  cases first : module.block id with
  | none =>
    have absent := List.find?_eq_none.mp first block (List.mem_of_getElem? found)
    simp [same] at absent
  | some other =>
    obtain ⟨index, present⟩ := List.getElem?_of_mem (List.mem_of_find?_eq_some first)
    have sameId : other.id = id := by simpa using List.find?_some first
    have sameIndex := (lowered.labelled id index).mpr ⟨other, present, sameId⟩
    cases labelled.symm.trans sameIndex
    exact present.symm.trans found

/-- The effect of the code before the operations of a block. -/
structure Opened (slots : CleanupSlots) (config next : LLVM.Config) : Prop where
  label : next.label = config.label
  previous : next.previous = config.previous
  registers : next.registers = config.registers
  calls : next.calls = config.calls
  ready : ∀ id slot, slots.lookup id = some slot → ∃ pointer, next.slots slot = .holds pointer

/-- The start of a block, where the entry block first allocates the slots. -/
theorem Lowered.opens (environment : Environment Contents)
    (lowered : Lowered order module labels values slots function) {id : BlockId}
    (labelled : labels.lookup id = some config'.label) (start : config'.index = 0)
    (ready : id ≠ module.entry → ∀ id slot, slots.lookup id = some slot →
      ∃ pointer, config'.slots slot = .holds pointer) :
    ∃ block last terminator code next, module.block id = some block ∧ block.terminator = some last ∧
      LowersRest order labels values slots id last terminator block.operations code ∧
      (LLVM.machine environment function.blocks).Leads config' next ∧
      At function.blocks code terminator next ∧ Opened slots config' next := by
  obtain ⟨block, found, present, same⟩ := lowered.body labelled
  obtain ⟨body, found', last, terminator, code, ends, lowers, instructions, ends'⟩ :=
    lowered.filled _ block found
  rw [same] at lowers
  have here : At function.blocks (prologue module block ++ code) terminator config' :=
    ⟨body, found', by rw [start, List.drop_zero, instructions], ends'⟩
  by_cases entry : id = module.entry
  · rw [prologue, if_pos (same.trans entry)] at here
    obtain ⟨next, leads, there, prepared⟩ := prologue_runs environment here
    refine ⟨block, last, terminator, code, next, present, ends, lowers, leads, there,
      prepared.label,
      prepared.previous, prepared.registers, prepared.calls, fun id slot slotted => ⟨.null, ?_⟩⟩
    rw [prepared.cells, if_pos]
    apply List.mem_range.mpr
    exact (List.getElem?_eq_some_iff.mp ((lowered.slotted id slot).mp slotted)).1
  · rw [prologue, if_neg (same.symm ▸ entry), List.nil_append] at here
    exact ⟨block, last, terminator, code, config', present, ends, lowers, .refl, here, rfl,
      rfl, rfl, rfl,
      ready entry⟩

theorem Lowered.enters (environment : Environment Contents)
    (lowered : Lowered order module labels values slots function) {id : BlockId}
    {previous : Option (IR.Departure Contents)} (labelled : labels.lookup id = some config'.label)
    (start : config'.index = 0) (holds : Holds values registers config'.registers)
    (left : Left labels values previous config'.previous)
    (ready : id ≠ module.entry → Related labels values slots registers previous config') :
    ∃ next, (LLVM.machine environment function.blocks).Leads config' next ∧
      Simulates order module labels values slots function.blocks ⟨id, previous, 0,
        registers⟩ next := by
  obtain ⟨block, last, terminator, code, next, present, ends, lowers, leads, there, opened⟩ :=
    lowered.opens environment labelled start fun other => (ready other).ready
  refine ⟨next, leads, ⟨?_, ?_, opened.ready⟩, ?_, block, last, terminator, code, present,
    ends, lowers,
    there⟩
  · exact opened.registers.symm ▸ holds
  · exact opened.previous.symm ▸ left
  · exact opened.label.symm ▸ labelled

/-- A jump of the module is a jump of the function. -/
theorem Lowered.jump (lowered : Lowered order module labels values slots function)
    {target : BlockId} {label : Label}
    (simulates : Simulates order module labels values slots function.blocks config config')
    (labelled : labels.lookup target = some label)
    (jumps : (LLVM.machine environment function.blocks).step config' = .inl (config'.jump label)) :
    ∃ following', (LLVM.machine environment function.blocks).Leads config' following' ∧
      Simulates order module labels values slots function.blocks (config.jump target)
        following' := by
  have left : Left labels values (some ⟨config.block, config.registers⟩)
      (some ⟨config'.label, config'.registers⟩) := .jump simulates.labelled simulates.related.holds
  have labelled' : labels.lookup target = some (config'.jump label).label := labelled
  obtain ⟨next, leads, there⟩ :=
    lowered.enters environment labelled' rfl simulates.related.holds left
    fun _ => ⟨simulates.related.holds, left, simulates.related.ready⟩
  exact ⟨next, .head jumps leads, there⟩

theorem Lowered.step (lowered : Lowered order module labels values slots function)
    (simulates : Simulates order module labels values slots function.blocks config config')
    (steps : (IR.machine environment.operations module.block).step config = .inl following) :
    ∃ following', (LLVM.machine environment function.blocks).Leads config' following' ∧
      Simulates order module labels values slots function.blocks following following' := by
  obtain ⟨body, last, terminator, code, found, ends, lowers, here⟩ := simulates.code
  generalize suffix : body.operations.drop config.index = remaining at lowers
  cases lowers with
  | terminator final =>
    rw [machine_terminator found (List.drop_eq_nil_iff.mp suffix) ends] at steps
    cases final with
    | branch labelled =>
      cases steps
      exact lowered.jump simulates labelled (here.transfer environment)
    | @condBranch condition operand trueTarget trueLabel falseTarget falseLabel tested
      first second =>
      unfold IR.transfer at steps
      cases read : readRegister config.registers condition with
      | error reason => simp [read] at steps
      | ok value =>
        obtain ⟨value', evaluates, stands⟩ := simulates.related.holds.read read tested
        cases stands with
        | i1 truth =>
          simp only [read] at steps
          cases steps
          have jumps := here.transfer environment
          simp only [LLVM.transfer, evaluates] at jumps
          cases truth with
          | true => exact lowered.jump simulates first jumps
          | false => exact lowered.jump simulates second jumps
        | i64 _ | f64 _ | tensor _ _ _ _ => simp [read] at steps
    | returnOp _ _ => cases steps
  | @operation operation code operations after lowers rest =>
    have present : OperationAt module.block config.block config.index operation := by
      refine ⟨body, found, ?_⟩
      rw [← List.head?_drop, suffix]
      rfl
    have suffix' : body.operations.drop (config.index + 1) = operations := by
      rw [← List.tail_drop, suffix]
      rfl
    rw [machine_operation config present] at steps
    cases success : IR.execute environment.operations config.previous config.registers
      operation with
    | error reason => simp [success] at steps
    | ok value =>
      simp only [success] at steps
      cases steps
      obtain ⟨next, leads, there, label, related⟩ :=
        lowers.runs lowered.injective lowered.unique simulates.related here success
      exact ⟨next, leads, related, label.symm ▸ simulates.labelled,
        body, last, terminator, after, found, ends, suffix'.symm ▸ rest, there⟩

/-- Where the module returns an integer, the function returns its low bits. -/
theorem Simulates.halt {bits : BitVec 64}
    (simulates : Simulates order module labels values slots function.blocks config config')
    (stops : (IR.machine environment.operations module.block).step config =
      .inr (.ok (.i64 bits))) :
    ∃ outcome, (LLVM.machine environment function.blocks).Evaluates config' outcome ∧
      ∃ exit, outcome = .ok exit ∧ exit.status = bits.setWidth 32 := by
  obtain ⟨body, last, terminator, code, found, ends, lowers, here⟩ := simulates.code
  generalize suffix : body.operations.drop config.index = remaining at lowers
  cases lowers with
  | terminator final =>
    rw [machine_terminator found (List.drop_eq_nil_iff.mp suffix) ends] at stops
    cases final with
    | branch _ => cases stops
    | @condBranch condition operand trueTarget trueLabel falseTarget falseLabel tested
      first second =>
      unfold IR.transfer at stops
      cases read : readRegister config.registers condition with
      | error reason => simp [read] at stops
      | ok value => cases value <;> simp [read] at stops
    | @returnOp value operand register returned older =>
      have read : readRegister config.registers value = .ok (.i64 bits) := by
        simpa [IR.transfer] using stops
      obtain ⟨value', evaluates, stands⟩ := simulates.related.holds.read read returned
      cases stands
      have held (entry) (member : entry ∈ order.traverse config.block slots) :=
        simulates.related.ready entry.1 entry.2 (order.mem_traverse.mp member)
      obtain ⟨events, finishes⟩ := release_returns environment here held older evaluates
      exact ⟨_, finishes, _, rfl, rfl⟩
  | @operation operation code operations after lowers rest =>
    have present : OperationAt module.block config.block config.index operation := by
      refine ⟨body, found, ?_⟩
      rw [← List.head?_drop, suffix]
      rfl
    rw [machine_operation config present] at stops
    cases success : IR.execute environment.operations config.previous config.registers operation <;>
      simp [success] at stops

private theorem readRegister_ne_undefinedDivision {values : IR.Registers Contents} (id : ValueId) :
    readRegister values id ≠ .error .undefinedDivision := by
  unfold readRegister
  split <;> exact nofun

/-- Only a division of integers without a quotient is undefined. -/
theorem execute_undefinedDivision {operation : Operation}
    {previous : Option (IR.Departure Contents)}
    (failure : IR.execute operations previous registers operation = .error .undefinedDivision) :
    ∃ result lhs rhs type left right, operation = .binary result .divide lhs rhs type ∧
      type.elementType ≠ "f64" ∧ readRegister registers lhs = .ok (.i64 left) ∧
      readRegister registers rhs = .ok (.i64 right) ∧ quotient left right = none := by
  cases operation with
  | tensorDecl | constantInt | constantFloat => cases failure
  | binary result kind lhs rhs type =>
    simp only [IR.execute, except_bind_error, readRegister_ne_undefinedDivision,
      false_or] at failure
    obtain ⟨left, leftRead, right, rightRead, failure⟩ := failure
    unfold IR.executeBinary at failure
    split at failure
    · split at failure <;> cases failure
    · split at failure
      · rename_i integral _ _ left right
        cases kind with
        | add | subtract | multiply => cases failure
        | divide =>
          simp only [integerBinary] at failure
          split at failure
          · cases failure
          · rename_i undefined
            exact ⟨result, lhs, rhs, type, left, right, rfl, integral, leftRead,
              rightRead, undefined⟩
      · cases failure
  | compare result kind lhs rhs type =>
    simp only [IR.execute, except_bind_error, readRegister_ne_undefinedDivision,
      false_or] at failure
    obtain ⟨left, _, right, _, failure⟩ := failure
    unfold IR.executeCompare at failure
    split at failure <;> split at failure <;> cases failure
  | phi result type incoming =>
    simp only [IR.execute, IR.executePhi] at failure
    split at failure
    · cases failure
    · split at failure
      · exact absurd failure (readRegister_ne_undefinedDivision _)
      · cases failure
  | matMul result lhs rhs type =>
    simp only [IR.execute, except_bind_error, readRegister_ne_undefinedDivision,
      false_or] at failure
    obtain ⟨_, _, _, _, failure⟩ := failure
    cases failure
  | relu result input type =>
    simp only [IR.execute, except_bind_error, readRegister_ne_undefinedDivision,
      false_or] at failure
    obtain ⟨_, _, failure⟩ := failure
    cases failure

/-- Where the module is stuck in a division, the function is. -/
theorem Simulates.stuck
    (simulates : Simulates order module labels values slots function.blocks config config')
    (stops : (IR.machine environment.operations module.block).step config =
      .inr (.error .undefinedDivision)) :
    (LLVM.machine environment function.blocks).step config' = .inr (.error .undefinedDivision) := by
  obtain ⟨body, last, terminator, code, found, ends, lowers, here⟩ := simulates.code
  generalize suffix : body.operations.drop config.index = remaining at lowers
  cases lowers with
  | terminator final =>
    rw [machine_terminator found (List.drop_eq_nil_iff.mp suffix) ends] at stops
    cases final with
    | branch _ => cases stops
    | @condBranch condition operand trueTarget trueLabel falseTarget falseLabel tested
      first second =>
      unfold IR.transfer at stops
      cases read : readRegister config.registers condition with
      | error reason =>
        simp only [read, Sum.inr.injEq, Except.error.injEq] at stops
        exact absurd (stops ▸ read) (readRegister_ne_undefinedDivision _)
      | ok value => cases value <;> simp [read] at stops
    | returnOp _ _ => exact absurd (Sum.inr.inj stops) (readRegister_ne_undefinedDivision _)
  | @operation operation code operations after lowers rest =>
    have present : OperationAt module.block config.block config.index operation := by
      refine ⟨body, found, ?_⟩
      rw [← List.head?_drop, suffix]
      rfl
    rw [machine_operation config present] at stops
    cases outcome : IR.execute environment.operations config.previous config.registers
      operation with
    | ok value => simp [outcome] at stops
    | error reason =>
      simp only [outcome, Sum.inr.injEq, Except.error.injEq] at stops
      subst stops
      obtain ⟨result, lhs, rhs, type, left, right, rfl, integral, leftRead, rightRead, undefined⟩ :=
        execute_undefinedDivision outcome
      cases lowers with
      | binary leftLowered rightLowered lowered =>
        obtain ⟨left', leftEvaluates, leftStands⟩ :=
          simulates.related.holds.read leftRead leftLowered
        obtain ⟨right', rightEvaluates, rightStands⟩ :=
          simulates.related.holds.read rightRead rightLowered
        cases leftStands
        cases rightStands
        apply here.stuck
        simp only [LLVM.execute, leftEvaluates, rightEvaluates, bind, Except.bind, integral,
          decide_false,
          binaryOpcode, LLVM.executeBinary, undefined, Bool.false_eq_true, if_false]
        rfl

/-- Where the entry block comes first, the two executions start together. -/
theorem Lowered.simulatesInitial (environment : Environment Contents)
    (lowered : Lowered order module labels values slots function)
    (first : labels.lookup module.entry = some 0) :
    ∃ start, (LLVM.machine environment function.blocks).Leads .initial start ∧
      Simulates order module labels values slots function.blocks
        (.initial module.entry : IR.Config Contents) start := by
  have holds : Holds values (fun _ => none : IR.Registers Contents) LLVM.Config.initial.registers :=
    fun _ _ written => by cases written
  have first' : labels.lookup module.entry = some LLVM.Config.initial.label := first
  exact lowered.enters environment first' rfl holds .entry fun other => absurd rfl other

/-- Where the entry block comes first, running the function does what running the module does. -/
theorem Lowered.executes {bits : BitVec 64}
    (lowered : Lowered order module labels values slots function)
    (first : labels.lookup module.entry = some 0)
    (executes : module.Executes environment.operations (.ok (.i64 bits))) :
    ∃ exit, function.Executes environment (.ok exit) ∧ exit.status = bits.setWidth 32 := by
  obtain ⟨start, leads, simulates⟩ := lowered.simulatesInitial environment first
  obtain ⟨outcome, finishes, exit, same, status⟩ := executes.simulate
    (fun _ _ _ => lowered.step) (fun _ _ => Simulates.halt) simulates
  subst same
  exact ⟨exit, leads.evaluates finishes, status⟩

/-- It is stuck in a division where the module is. -/
theorem Lowered.executes_undefinedDivision
    (lowered : Lowered order module labels values slots function)
    (first : labels.lookup module.entry = some 0)
    (executes : module.Executes environment.operations (.error .undefinedDivision)) :
    function.Executes environment (.error .undefinedDivision) := by
  obtain ⟨start, leads, simulates⟩ := lowered.simulatesInitial environment first
  obtain ⟨outcome, finishes, same⟩ :
      ∃ outcome, (LLVM.machine environment function.blocks).Evaluates start outcome ∧
        outcome = .error .undefinedDivision :=
    executes.simulate (fun _ _ _ => lowered.step)
      (fun _ _ simulates stops => ⟨_, .halt (simulates.stuck stops), rfl⟩) simulates
  subst same
  exact leads.evaluates finishes

end Module

end Ocelotl.Codegen
