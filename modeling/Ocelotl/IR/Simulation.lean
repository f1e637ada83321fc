import Ocelotl.IR.Execution
import Ocelotl.IR.Agreement
import Ocelotl.Evaluation.Soundness

namespace Ocelotl.IR

open Ast Semantic Library IRGenerator Evaluation

variable {Contents : Type} {operations : Operations Contents} {blocks : Blocks}
  {generator generator' final : IRGenerator} {block target : BlockId}
  {previous : Option (Departure Contents)} {registers : Registers Contents} {operation : Operation}
  {last : Terminator}

/-- How many operations a block has so far. -/
def IRGenerator.length (generator : IRGenerator) (block : BlockId) : Nat :=
  ((generator.blocks block).map fun body => body.operations.length).getD 0

/-- An execution that stands where the generator is about to write. -/
def IRGenerator.position (generator : IRGenerator) (block : BlockId)
    (previous : Option (Departure Contents)) (registers : Registers Contents) : Config Contents :=
  ⟨block, previous, generator.length block, registers⟩

/-- The finished module holds all that the generator has written so far. -/
def Within (generator : IRGenerator) (blocks : Blocks) : Prop :=
  ∀ id body, generator.blocks id = some body →
    ∃ body', blocks id = some body' ∧ body.operations <+: body'.operations ∧
      (body.terminator ≠ none → body' = body)

theorem Within.refl (generator : IRGenerator) : Within generator generator.blocks :=
  fun _ body found => ⟨body, found, List.prefix_rfl, fun _ => rfl⟩

theorem Within.of_grows {written targeted : Set BlockId} (within : Within generator' blocks)
    (grows : Grows written targeted generator generator') : Within generator blocks := by
  intro id body found
  obtain ⟨body', found', longer, closed⟩ := grows.kept id body found
  obtain ⟨body'', found'', longer', closed'⟩ := within id body' found'
  refine ⟨body'', found'', longer.trans longer', fun ends => ?_⟩
  have same := closed ends
  subst same
  exact closed' ends

private theorem length_of_blocks {body : BasicBlock} (found : generator.blocks block = some body) :
    generator.length block = body.operations.length := by
  simp [IRGenerator.length, found]

theorem IRGenerator.Untouched.length (untouched : Untouched generator block) :
    generator.length block = 0 := by
  obtain ⟨body, found, empty, _⟩ := untouched
  rw [length_of_blocks found, empty, List.length_nil]

@[simp] theorem position_enter {values : Environment} :
    (generator.enter target values).position block previous registers =
      generator.position block previous registers := rfl

/-- The operation that is emitted next is the one that is executed next. -/
theorem Within.operationAt (isOpen : Open generator block)
    (within : Within (generator.appendTo block operation) blocks) :
    OperationAt blocks block (generator.length block) operation := by
  obtain ⟨body, found, _⟩ := isOpen
  have appended :
      (generator.appendTo block operation).blocks block = some (body.append operation) := by
    rw [blocks_appendTo, if_pos rfl, found]
    rfl
  obtain ⟨body', found', longer, _⟩ := within block _ appended
  refine ⟨body', found', ?_⟩
  rw [length_of_blocks found]
  obtain ⟨rest, same⟩ := longer
  simp [← same]

private theorem length_appendTo (isOpen : Open generator block) (operation : Operation) :
    (generator.appendTo block operation).length block = generator.length block + 1 := by
  obtain ⟨body, found, _⟩ := isOpen
  have appended :
      (generator.appendTo block operation).blocks block = some (body.append operation) := by
    rw [blocks_appendTo, if_pos rfl, found]
    rfl
  rw [length_of_blocks appended, length_of_blocks found]
  simp

/-- Executing the operation that is emitted next. -/
theorem Within.step (isOpen : Open generator block)
    (within : Within (generator.appendTo block operation) blocks)
    (success : execute operations previous registers operation = .ok value) :
    (machine operations blocks).step (generator.position block previous registers) =
      .inl ((generator.appendTo block operation).position block previous
        (Function.update registers (resultOf operation) (some value))) := by
  have present := within.operationAt isOpen
  rw [machine_operation (generator.position block previous registers) present]
  unfold IRGenerator.position
  rw [success, length_appendTo isOpen]
  rfl

/-- Getting stuck in the operation that is emitted next. -/
theorem Within.halt {reason : Stuck} (isOpen : Open generator block)
    (within : Within (generator.appendTo block operation) blocks)
    (failure : execute operations previous registers operation = .error reason) :
    (machine operations blocks).step (generator.position block previous registers) =
      .inr (.error reason) := by
  have present := within.operationAt isOpen
  rw [machine_operation (generator.position block previous registers) present]
  unfold IRGenerator.position
  rw [failure]

/-- The terminator that a block gets is the one that is executed at its end. -/
theorem Within.transfer {body : BasicBlock} (found : generator.blocks block = some body)
    (ended : final.blocks block = some (body.terminate last)) (within : Within final blocks) :
    (machine operations blocks).step (generator.position block previous registers) =
      IR.transfer (generator.position block previous registers) last := by
  obtain ⟨body', found', _, closed⟩ := within block _ ended
  have same := closed (by simp)
  subst same
  have length := length_of_blocks found
  exact machine_terminator found' (Nat.le_of_eq length.symm) rfl

theorem blocks_terminate_self {body : BasicBlock} (found : generator.blocks block = some body) :
    (generator.terminate block last).blocks block = some (body.terminate last) := by
  rw [blocks_terminate, if_pos rfl, found]
  rfl

variable {middle : IRGenerator} {symbols : SymbolTable} {type : TensorType}
  {info lhs rhs : ValueInfo} {value computed lhsValue rhsValue : Value Contents}
  {state after : State Contents} {expression : Expression}
  {result : EStateM.Result Fault (State Contents) (Value Contents)}

/-- Every bound name has a register with a value, and that of a typed scalar
holds what the store holds. -/
structure Represents (symbols : SymbolTable) (store : Store Contents) (values : Environment)
    (registers : Registers Contents) : Prop where
  defined : ∀ {name info}, values.lookup name = some info →
    ∃ value, registers info.value = some value
  scalars : ∀ {name type info}, symbols.typeOf name = some type → type.shape = [] →
    values.lookup name = some info → registers info.value = store.lookup name

/-- The registers of the values that exist already are not written again. -/
def Preserves (generator : IRGenerator) (registers registers' : Registers Contents) : Prop :=
  ∀ id, id < generator.nextValueId → registers' id = registers id

theorem Preserves.refl (generator : IRGenerator) (registers : Registers Contents) :
    Preserves generator registers registers := fun _ _ => rfl

theorem Preserves.trans {registers' registers'' : Registers Contents}
    (first : Preserves generator registers registers')
    (second : Preserves middle registers' registers'')
    (older : generator.nextValueId ≤ middle.nextValueId) :
    Preserves generator registers registers'' :=
  fun id old => (second id (old.trans_le older)).trans (first id old)

theorem Preserves.update (generator : IRGenerator) (registers : Registers Contents)
    (value : Value Contents) :
    Preserves generator registers (Function.update registers generator.nextValueId (some value)) :=
  fun _ old => Function.update_of_ne (Nat.ne_of_lt old) _ _

theorem IRGenerator.WellBuilt.value_lt {id : ValueId} (built : generator.WellBuilt)
    (available : Available generator.blocks 0 id type block) : id < generator.nextValueId := by
  obtain ⟨_, _, _, present, same, _⟩ := available
  exact same ▸ built.fresh present

theorem Represents.preserved {registers' : Registers Contents} (valid : Valid generator block)
    (represents : Represents symbols state.store generator.values registers)
    (preserves : Preserves generator registers registers') :
    Represents symbols state.store generator.values registers' where
  defined := fun found => by
    rw [preserves _ (valid.built.value_lt (valid.available found))]
    exact represents.defined found
  scalars := fun typed scalar found => by
    rw [preserves _ (valid.built.value_lt (valid.available found))]
    exact represents.scalars typed scalar found

/-- Executing what an expression became: its register gets a value, which for a
scalar is the value of the expression. -/
def Computes (operations : Operations Contents) (blocks : Blocks) (generator : IRGenerator)
    (block : BlockId) (previous : Option (Departure Contents)) (registers : Registers Contents)
    (info : ValueInfo) (final : IRGenerator) (type : TensorType) :
    EStateM.Result Fault (State Contents) (Value Contents) → Prop
  | .ok value _ => ∃ registers' computed,
      (machine operations blocks).Leads (generator.position block previous registers)
        (final.position block previous registers') ∧
      Preserves generator registers registers' ∧ registers' info.value = some computed ∧
      (type.shape = [] → computed = value)
  | .error _ _ => (machine operations blocks).Evaluates
      (generator.position block previous registers) (.error .undefinedDivision)

/-- First earlier steps, then the rest. -/
theorem Computes.prepend {registers' : Registers Contents}
    (leads : (machine operations blocks).Leads (generator.position block previous registers)
      (middle.position block previous registers'))
    (preserves : Preserves generator registers registers')
    (older : generator.nextValueId ≤ middle.nextValueId)
    (rest : Computes operations blocks middle block previous registers' info final type result) :
    Computes operations blocks generator block previous registers info final type result := by
  cases result with
  | ok value after =>
    obtain ⟨registers'', computed, further, preserves', rest⟩ := rest
    exact ⟨registers'', computed, leads.trans further, preserves.trans preserves' older, rest⟩
  | error fault after => exact leads.evaluates rest

/-- Emitting an operation that has a value. -/
theorem Computes.emit (isOpen : Open generator block)
    (within : Within (generator.appendTo block operation) blocks)
    (fresh : resultOf operation = generator.nextValueId)
    (success : execute operations previous registers operation = .ok computed)
    (same : type.shape = [] → computed = value) (resultType : TensorType) :
    Computes operations blocks generator block previous registers
      ⟨generator.nextValueId, resultType⟩ (generator.appendTo block operation) type
      (.ok value after) := by
  have step := within.step isOpen success
  rw [fresh] at step
  exact ⟨_, computed, .one step, .update generator registers computed,
    Function.update_self _ _ _, same⟩

/-- An operand is computed before the rest. -/
theorem Computes.operand {operand : ValueInfo} {operandType : TensorType}
    {first : Evaluating Contents (Value Contents)}
    {rest : Value Contents → Evaluating Contents (Value Contents)}
    (run : Computes operations blocks generator block previous registers operand middle operandType
      (first state)) (older : generator.nextValueId ≤ middle.nextValueId)
    (continues : ∀ value after registers' computed, first state = .ok value after →
      Preserves generator registers registers' → registers' operand.value = some computed →
      (operandType.shape = [] → computed = value) →
      Computes operations blocks middle block previous registers' info final type
        (rest value after)) :
    Computes operations blocks generator block previous registers info final type
      ((first >>= rest) state) := by
  cases evaluated : first state with
  | error fault after =>
    rw [evaluated] at run
    rw [bind_of_error evaluated]
    exact run
  | ok value after =>
    rw [evaluated] at run
    obtain ⟨registers', computed, leads, preserves, held, same⟩ := run
    rw [bind_of_ok evaluated]
    exact .prepend leads preserves older
      (continues value after registers' computed evaluated preserves held same)

/-- A binary operation has the value of the operator, and is stuck where that is undefined. -/
theorem execute_binaryOperation {op : BinaryOperator} {id : ValueId} (numeric : type.Numeric)
    (exact : lhs.type = type) (left : registers lhs.value = some lhsValue)
    (right : registers rhs.value = some rhsValue) (leftTyped : lhsValue.type = type)
    (rightTyped : rhsValue.type = type) :
    execute operations previous registers (binaryOperation op id lhs rhs).1 =
      (applyBinary operations op lhsValue rhsValue).mapError fun _ => .undefinedDivision := by
  rcases numeric with integer | float
  · subst integer
    obtain ⟨lhsBits, same⟩ := Value.type_eq_i64.mp leftTyped
    obtain ⟨rhsBits, same'⟩ := Value.type_eq_i64.mp rightTyped
    subst same same'
    cases op with
    | divide =>
      simp only [binaryOperation, execute, readRegister, left, right, exact, applyBinary,
        integerOperation]
      cases defined : quotient lhsBits rhsBits with
      | none => simp [executeBinary, integerBinary, defined, TensorType.scalar]; rfl
      | some result => simp [executeBinary, integerBinary, defined, TensorType.scalar]; rfl
    | add | subtract | multiply | equal | notEqual | less | lessEqual | greater | greaterEqual =>
      simp only [binaryOperation, execute, readRegister, left, right, exact]
      rfl
  · subst float
    obtain ⟨lhsNumber, same⟩ := Value.type_eq_f64.mp leftTyped
    obtain ⟨rhsNumber, same'⟩ := Value.type_eq_f64.mp rightTyped
    subst same same'
    cases op <;>
    · simp only [binaryOperation, execute, readRegister, left, right, exact]
      rfl

theorem readRegister_some {id : ValueId} (found : registers id = some value) :
    readRegister registers id = .ok value := by
  rw [readRegister, found]
  rfl

/-- Two operands are computed before the rest. -/
theorem Computes.operands {later : IRGenerator} {lhsExpression rhsExpression : Expression}
    {lhsType rhsType : TensorType}
    {rest : Value Contents → Value Contents → Evaluating Contents (Value Contents)}
    (valid : Valid generator block) (stored : StoreTyped symbols state.store)
    (represents : Represents symbols state.store generator.values registers)
    (leftTyped : analyzeExpression symbols lhsExpression = .ok lhsType)
    (rightTyped : analyzeExpression symbols rhsExpression = .ok rhsType)
    (left : Computed generator block lhs middle) (right : Computed middle block rhs later)
    (lhsRun : Computes operations blocks generator block previous registers lhs middle lhsType
      (evaluateExpression operations.always lhsExpression state))
    (rhsRun : ∀ {registers' state'}, StoreTyped symbols state'.store →
      Represents symbols state'.store middle.values registers' →
      Computes operations blocks middle block previous registers' rhs later rhsType
        (evaluateExpression operations.always rhsExpression state'))
    (continues : ∀ lhsValue rhsValue after registers' lhsComputed rhsComputed,
      lhsValue.type = lhsType → rhsValue.type = rhsType →
      registers' lhs.value = some lhsComputed → registers' rhs.value = some rhsComputed →
      (lhsType.shape = [] → lhsComputed = lhsValue) →
      (rhsType.shape = [] → rhsComputed = rhsValue) →
      Computes operations blocks later block previous registers' info final type
        (rest lhsValue rhsValue after)) :
    Computes operations blocks generator block previous registers info final type
      ((do let lhsValue ← evaluateExpression operations.always lhsExpression
           let rhsValue ← evaluateExpression operations.always rhsExpression
           rest lhsValue rhsValue) state) := by
  apply lhsRun.operand left.grows.values
  intro lhsValue after registers' lhsComputed evaluated preserves lhsHeld lhsSame
  obtain ⟨lhsTyped, sameStore⟩ := (evaluateExpression_sound stored leftTyped).store evaluated
  have stored' : StoreTyped symbols after.store := sameStore ▸ stored
  have represents' := represents.preserved valid preserves
  rw [← left.values, ← sameStore] at represents'
  apply (rhsRun stored' represents').operand right.grows.values
  intro rhsValue after' registers'' rhsComputed evaluated' preserves' rhsHeld rhsSame
  have rhsTyped := ((evaluateExpression_sound stored' rightTyped).store evaluated').1
  -- The second operand does not write the register of the first.
  rw [← preserves' _ (left.valid.built.value_lt left.available)] at lhsHeld
  exact continues lhsValue rhsValue after' registers'' lhsComputed rhsComputed lhsTyped rhsTyped
    lhsHeld rhsHeld lhsSame rhsSame

theorem Computes.relu {argument : ValueInfo} (isOpen : Open generator block)
    (within : Within (generator.appendTo block
      (.relu generator.nextValueId argument.value argument.type)) blocks)
    (held : registers argument.value = some computed) (same : type.shape = [] → computed = value) :
    Computes operations blocks generator block previous registers
      ⟨generator.nextValueId, argument.type⟩
      (generator.appendTo block (.relu generator.nextValueId argument.value argument.type)) type
      (.ok (operations.relu value) after) := by
  apply Computes.emit isOpen within rfl
  · rw [execute, readRegister_some held]
    rfl
  · intro scalar
    rw [same scalar]

theorem Computes.matmul {product : TensorType} (isOpen : Open generator block)
    (within : Within (generator.appendTo block
      (.matMul generator.nextValueId lhs.value rhs.value product)) blocks)
    (left : registers lhs.value = some lhsValue) (right : registers rhs.value = some rhsValue)
    (ranked : type.shape ≠ []) :
    Computes operations blocks generator block previous registers ⟨generator.nextValueId, product⟩
      (generator.appendTo block (.matMul generator.nextValueId lhs.value rhs.value product)) type
      (.ok value after) := by
  apply Computes.emit isOpen within rfl
  · rw [execute, readRegister_some left, readRegister_some right]
    rfl
  · intro scalar
    exact absurd scalar ranked

theorem Computes.binary {op : BinaryOperator} (numeric : type.Numeric) (exact : lhs.type = type)
    (isOpen : Open generator block)
    (within : Within (generator.appendTo block
      (binaryOperation op generator.nextValueId lhs rhs).1) blocks)
    (left : registers lhs.value = some lhsValue) (right : registers rhs.value = some rhsValue)
    (leftTyped : lhsValue.type = type) (rightTyped : rhsValue.type = type) (resultType : TensorType)
    (after : State Contents) :
    Computes operations blocks generator block previous registers
      ⟨generator.nextValueId, (binaryOperation op generator.nextValueId lhs rhs).2⟩
      (generator.appendTo block (binaryOperation op generator.nextValueId lhs rhs).1) resultType
      ((ofExcept (applyBinary operations op lhsValue rhsValue) :
        Evaluating Contents (Value Contents)) after) := by
  have executed : execute operations previous registers
      (binaryOperation op generator.nextValueId lhs rhs).1 = _ :=
    execute_binaryOperation numeric exact left right leftTyped rightTyped
  cases applied : applyBinary operations op lhsValue rhsValue with
  | ok value =>
    rw [applied] at executed
    exact .emit isOpen within (by cases op <;> rfl) executed (fun _ => rfl) _
  | error fault =>
    rw [applied] at executed
    exact .halt (within.halt isOpen executed)

/-- A generated expression computes the value that its evaluation yields. -/
theorem generateExpression_computes (valid : Valid generator block)
    (agrees : Agrees False symbols generator.values) (stored : StoreTyped symbols state.store)
    (represents : Represents symbols state.store generator.values registers)
    (analyzed : analyzeExpression symbols expression = .ok type)
    (success : generateExpression expression generator = .ok info final)
    (within : Within final blocks) :
    Computes operations blocks generator block previous registers info final type
      (evaluateExpression operations.always expression state) := by
  induction expression generalizing generator info final type state registers with
  | identifier name location =>
    obtain ⟨found, same⟩ := generateIdentifier_ok.mp success
    subst same
    rw [analyzeExpression, analyzeIdentifier_ok] at analyzed
    obtain ⟨value, bound, _⟩ := stored name type analyzed
    obtain ⟨computed, held⟩ := represents.defined found
    rw [evaluateExpression, evaluateIdentifier, bind_of_ok (get_apply state), bound]
    refine ⟨registers, computed, .refl, .refl _ _, held, fun scalar => ?_⟩
    have same := represents.scalars analyzed scalar found
    exact Option.some.inj (held.symm.trans (same.trans bound))
  | integer value location =>
    rw [generateExpression, generateInteger_apply valid.toActive] at success
    cases success
    rw [evaluateExpression]
    exact .emit valid.isOpen within rfl rfl (fun _ => rfl) _
  | float value location =>
    rw [generateExpression, generateFloat_apply valid.toActive] at success
    cases success
    rw [evaluateExpression]
    exact .emit valid.isOpen within rfl rfl (fun _ => rfl) _
  | call callee arguments location ih =>
    rcases analyzeExpression_call_ok.mp analyzed with
      ⟨argument, isRelu, only, typed⟩ |
      ⟨lhsExpression, rhsExpression, lhsType, rhsType, isMatmul, both, leftTyped,
        rightTyped, product⟩
    · subst isRelu only
      rcases generateExpression_call_ok.mp success with
        ⟨_, input, middle, _, same, first, rest⟩ | ⟨_, _, _, _, _, _, _, same, _⟩
      · cases same
        have computed := generateExpression_valid valid first
        rw [generateRelu_apply computed.valid.toActive] at rest
        cases rest
        have grows := Grows.appendTo computed.valid.isOpen
          (.relu middle.nextValueId input.value input.type)
        rw [evaluateExpression.eq_def]
        apply Computes.operand (ih argument List.mem_cons_self valid agrees stored represents typed
          first (within.of_grows grows)) computed.grows.values
        intro value after registers' inputValue _ _ held same
        exact .relu computed.valid.isOpen within held same
      · cases same
    · subst isMatmul both
      rcases generateExpression_call_ok.mp success with
        ⟨_, _, _, _, same, _⟩ | ⟨_, _, lhs, middle, rhs, later, _, same, first, second, rest⟩
      · cases same
      cases same
      have left := generateExpression_valid valid first
      have right := generateExpression_valid left.valid second
      obtain ⟨rows, columns, _, _, isInfo, isFinal⟩ :=
        (generateMatmul_ok right.valid.toActive).mp rest
      subst isInfo isFinal
      have withinLater := within.of_grows (Grows.appendTo right.valid.isOpen _)
      rw [evaluateExpression.eq_def]
      apply Computes.operands valid stored represents leftTyped rightTyped left right
      · exact ih lhsExpression List.mem_cons_self valid agrees stored represents leftTyped first
          (withinLater.of_grows right.grows)
      · intro registers' state' stored' represents'
        exact ih rhsExpression (by simp) left.valid (left.values ▸ agrees) stored' represents'
          rightTyped second withinLater
      · intro lhsValue rhsValue after registers' lhsComputed rhsComputed lhsTyped rhsTyped lhsHeld
          rhsHeld _ _
        have ranked : type.shape ≠ [] := by
          obtain ⟨_, _, _, _, _, _, same⟩ := analyzeMatmul_ok.mp product
          simp [same]
        have product := analyzeMatmul_productType.mp product
        rw [← lhsTyped, ← rhsTyped] at product
        have applied : applyMatmul operations lhsValue rhsValue = _ := applyMatmul_ok product
        show Computes _ _ _ _ _ _ _ _ _ ((ofExcept (applyMatmul operations lhsValue rhsValue) :
          Evaluating Contents (Value Contents)) after.tick)
        rw [applied]
        exact .matmul right.valid.isOpen within lhsHeld rhsHeld ranked
  | nullCall => cases analyzed
  | nullBinary => cases analyzed
  | binary op lhsExpression rhsExpression location lhsIH rhsIH =>
    obtain ⟨operand, leftTyped, rightTyped, numeric, same⟩ :=
      analyzeExpression_binary_ok.mp analyzed
    subst same
    obtain ⟨lhs, middle, rhs, later, first, second, rest⟩ := generateExpression_binary_ok.mp success
    have left := generateExpression_valid valid first
    have right := generateExpression_valid left.valid second
    have exact := generateExpression_type valid agrees leftTyped first (.inl numeric.shape)
    obtain ⟨_, isInfo, isFinal⟩ := (generateBinary_ok right.valid.toActive).mp rest
    subst isInfo isFinal
    have withinLater := within.of_grows (Grows.appendTo right.valid.isOpen _)
    rw [evaluateExpression]
    apply Computes.operands valid stored represents leftTyped rightTyped left right
    · exact lhsIH valid agrees stored represents leftTyped first (withinLater.of_grows right.grows)
    · intro registers' state' stored' represents'
      exact rhsIH left.valid (left.values ▸ agrees) stored' represents' rightTyped
        second withinLater
    · intro lhsValue rhsValue after registers' lhsComputed rhsComputed lhsTyped rhsTyped lhsHeld
        rhsHeld lhsSame rhsSame
      rw [lhsSame numeric.shape] at lhsHeld
      rw [rhsSame numeric.shape] at rhsHeld
      exact .binary numeric exact right.valid.isOpen within lhsHeld rhsHeld lhsTyped rhsTyped _
        after.tick

end Ocelotl.IR
