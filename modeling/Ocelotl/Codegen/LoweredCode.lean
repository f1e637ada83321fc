import Ocelotl.Codegen.Lowering
import Ocelotl.IR.VerifierContract

namespace Ocelotl.Codegen

open IR Library LLVM

/-- The allocation of stack slots, at the start of the entry block. -/
def slotCode (slots : List SlotId) : List Instruction :=
  slots.flatMap fun slot => [.alloca slot, .store .null (.slot slot)]

/-- The release of the stack slots, which loads each pointer into a new register. -/
def releaseCode : RegisterId → List (ValueId × SlotId) → List Instruction
  | _, [] => []
  | register, (_, slot) :: slots =>
    .load register (.slot slot) :: .callFree (.register register) ::
      releaseCode (register + 1) slots

abbrev Operands := UnorderedMap ValueId Operand
abbrev CleanupSlots := UnorderedMap ValueId SlotId

/-- The incoming value of a phi and what it is lowered to. -/
def LowersIncoming (labels : Labels) (values : Operands) (incoming : PhiIncoming)
    (source : Operand × Label) : Prop :=
  values.lookup incoming.value = some source.1 ∧ labels.lookup incoming.predecessor = some source.2

/-- The code of an operation. -/
inductive LowersOperation (labels : Labels) (values : Operands) (slots : CleanupSlots) :
    Operation → List Instruction → Prop where
  | tensorDecl (sized : tensorStorageSize type = .ok size)
    (slotted : slots.lookup result = some slot)
    (lowered : values.lookup result = some (.register register)) :
    LowersOperation labels values slots (.tensorDecl result name type)
      [.callAlloc register (BitVec.ofNat 64 size) 64, .store (.register register) (.slot slot)]
  | constantInt (lowered : values.lookup result = some (.integer value)) :
    LowersOperation labels values slots (.constantInt result value type) []
  | constantFloat (lowered : values.lookup result = some (.float value)) :
    LowersOperation labels values slots (.constantFloat result value type) []
  | binary (left : values.lookup lhs = some lhsOperand)
    (right : values.lookup rhs = some rhsOperand)
    (lowered : values.lookup result = some (.register register)) :
    LowersOperation labels values slots (.binary result kind lhs rhs type)
      [.binary register (binaryOpcode kind (type.elementType = "f64")) lhsOperand rhsOperand]
  | compare (left : values.lookup lhs = some lhsOperand)
    (right : values.lookup rhs = some rhsOperand)
    (lowered : values.lookup result = some (.register register)) :
    LowersOperation labels values slots (.compare result kind lhs rhs operandType)
      [compareInstruction kind operandType lhsOperand rhsOperand register]
  | phi (scalar : lowerType type = some scalarType)
    (each : List.Forall₂ (LowersIncoming labels values) incoming sources)
    (lowered : values.lookup result = some (.register register)) :
    LowersOperation labels values slots (.phi result type incoming)
      [.phi register scalarType sources]

/-- The code at the end of a block, and its terminator. The status is computed
after the loads of the release, which leave the returned value alone. -/
inductive LowersTerminator (order : TraversalOrder) (labels : Labels) (values : Operands)
    (slots : CleanupSlots) (id : BlockId) :
    IR.Terminator → List Instruction → LLVM.Terminator → Prop where
  | branch (found : labels.lookup target = some label) :
    LowersTerminator order labels values slots id (.branch target) [] (.br label)
  | condBranch (tested : values.lookup condition = some operand)
    (first : labels.lookup trueTarget = some trueLabel)
    (second : labels.lookup falseTarget = some falseLabel) :
    LowersTerminator order labels values slots id (.condBranch condition trueTarget falseTarget) []
      (.condBr operand trueLabel falseLabel)
  | returnOp (found : values.lookup value = some operand)
    (older : ∀ result, operand = .register result → result < register) :
    LowersTerminator order labels values slots id (.returnOp value)
      (releaseCode register (order.traverse id slots) ++
        [.trunc (register + (order.traverse id slots).length) operand])
      (.ret (.register (register + (order.traverse id slots).length)))

/-- The code from an operation to the end of its block. -/
inductive LowersRest (order : TraversalOrder) (labels : Labels) (values : Operands)
    (slots : CleanupSlots) (id : BlockId) (last : IR.Terminator) (terminator : LLVM.Terminator) :
    List Operation → List Instruction → Prop where
  | terminator (lowers : LowersTerminator order labels values slots id last tail terminator) :
    LowersRest order labels values slots id last terminator [] tail
  | operation (lowers : LowersOperation labels values slots operation code)
    (rest : LowersRest order labels values slots id last terminator operations after) :
    LowersRest order labels values slots id last terminator (operation :: operations)
      (code ++ after)

/-- The code of a block after its prologue. -/
def LowersBlock (order : TraversalOrder) (labels : Labels) (values : Operands)
    (slots : CleanupSlots) (block : IR.BasicBlock) (prologue : List Instruction)
    (body : LLVM.BasicBlock) : Prop :=
  ∃ last terminator code, block.terminator = some last ∧
    LowersRest order labels values slots block.id last terminator block.operations code ∧
    body.instructions = prologue ++ code ∧ body.terminator = some terminator

section Monotone

variable {labels : Labels} {values values' : Operands} {slots : CleanupSlots}
  {order : TraversalOrder}

/-- Later entries of the map of values change nothing. -/
def Extends (values values' : Operands) : Prop :=
  ∀ id operand, values.lookup id = some operand → values'.lookup id = some operand

theorem Extends.refl (values : Operands) : Extends values values := fun _ _ found => found

theorem Extends.trans (first : Extends values values') (second : Extends values' values'') :
    Extends values values'' := fun _ _ found => second _ _ (first _ _ found)

theorem Extends.emplace (values : Operands) (id : ValueId) (operand : Operand) :
    Extends values (values.emplace id operand).2 :=
  fun _ _ found => UnorderedMap.lookup_emplace_of_some found

theorem LowersIncoming.mono {incoming : PhiIncoming} {source : Operand × Label}
    (extends' : Extends values values') (lowers : LowersIncoming labels values incoming source) :
    LowersIncoming labels values' incoming source :=
  ⟨extends' _ _ lowers.1, lowers.2⟩

theorem LowersOperation.mono {operation : Operation} {code : List Instruction}
    (extends' : Extends values values')
    (lowers : LowersOperation labels values slots operation code) :
    LowersOperation labels values' slots operation code := by
  cases lowers with
  | tensorDecl sized slotted lowered => exact .tensorDecl sized slotted (extends' _ _ lowered)
  | constantInt lowered => exact .constantInt (extends' _ _ lowered)
  | constantFloat lowered => exact .constantFloat (extends' _ _ lowered)
  | binary left right lowered =>
    exact .binary (extends' _ _ left) (extends' _ _ right) (extends' _ _ lowered)
  | compare left right lowered =>
    exact .compare (extends' _ _ left) (extends' _ _ right) (extends' _ _ lowered)
  | phi scalar each lowered =>
    exact .phi scalar (each.imp fun _ _ => LowersIncoming.mono extends') (extends' _ _ lowered)

theorem LowersTerminator.mono {id : BlockId} {last : IR.Terminator} {tail : List Instruction}
    {terminator : LLVM.Terminator} (extends' : Extends values values')
    (lowers : LowersTerminator order labels values slots id last tail terminator) :
    LowersTerminator order labels values' slots id last tail terminator := by
  cases lowers with
  | branch found => exact .branch found
  | condBranch tested first second => exact .condBranch (extends' _ _ tested) first second
  | returnOp found older => exact .returnOp (extends' _ _ found) older

theorem LowersRest.mono {id : BlockId} {last : IR.Terminator} {terminator : LLVM.Terminator}
    {operations : List Operation} {code : List Instruction} (extends' : Extends values values')
    (lowers : LowersRest order labels values slots id last terminator operations code) :
    LowersRest order labels values' slots id last terminator operations code := by
  induction lowers with
  | terminator final => exact .terminator (final.mono extends')
  | operation lowers _ ih => exact .operation (lowers.mono extends') ih

theorem LowersRest.of_codes {id : BlockId} {last : IR.Terminator} {terminator : LLVM.Terminator}
    {operations : List Operation} {codes : List (List Instruction)} {tail : List Instruction}
    (each : List.Forall₂ (LowersOperation labels values slots) operations codes)
    (final : LowersTerminator order labels values slots id last tail terminator) :
    LowersRest order labels values slots id last terminator operations (codes.flatten ++ tail) := by
  induction each with
  | nil => exact .terminator final
  | cons lowers _ ih =>
    rw [List.flatten_cons, List.append_assoc]
    exact .operation lowers ih

theorem LowersBlock.mono {block : IR.BasicBlock} {prologue : List Instruction}
    {body : LLVM.BasicBlock} (extends' : Extends values values')
    (lowers : LowersBlock order labels values slots block prologue body) :
    LowersBlock order labels values' slots block prologue body := by
  obtain ⟨last, terminator, code, ends, rest, body⟩ := lowers
  exact ⟨last, terminator, code, ends, rest.mono extends', body⟩

end Monotone

namespace Builder

variable (builder : Builder)

def moveTo (builder : Builder) (label : Label) : Builder := { builder with insertPoint := label }

def append (builder : Builder) (code : List Instruction) : Builder :=
  builder.changeBlock fun block => { block with instructions := block.instructions ++ code }

theorem append_nil : builder.append [] = builder := by
  have same : (fun block : LLVM.BasicBlock =>
      { block with instructions := block.instructions ++ [] }) = id := by
    funext block
    simp
  simp only [append, changeBlock, same, List.modify_id]

private theorem append_append (code code' : List Instruction) :
    (builder.append code).append code' = builder.append (code ++ code') := by
  simp [append, changeBlock, List.modify_modify_eq, Function.comp_def]

private theorem emit_eq (instruction : Instruction) :
    builder.emit instruction = builder.append [instruction] :=
  rfl

end Builder

variable {builder middle final : Builder} {labels : Labels} {needsRuntime : Bool}
  {order : TraversalOrder}

theorem create_apply (instruction : RegisterId → Instruction) (builder : Builder) :
    create instruction builder = .ok (.register builder.nextRegister)
      ({ builder with nextRegister := builder.nextRegister + 1 }.append
        [instruction builder.nextRegister]) := rfl

theorem valueAt_ok {id : ValueId} : valueAt id builder = .ok operand final ↔
    builder.values.lookup id = some operand ∧ final = builder := by
  simp only [valueAt, bind_ok, get_apply]
  cases found : builder.values.lookup id with
  | none => simp [found]
  | some other => simp [found, eq_comm]

theorem cleanupSlotAt_ok {id : ValueId} : cleanupSlotAt id builder = .ok slot final ↔
    builder.cleanupSlots.lookup id = some slot ∧ final = builder := by
  simp only [cleanupSlotAt, bind_ok, get_apply]
  cases found : builder.cleanupSlots.lookup id with
  | none => simp [found]
  | some other => simp [found, eq_comm]

theorem labelAt_ok {id : BlockId} : labelAt labels id builder = .ok label final ↔
    labels.lookup id = some label ∧ final = builder := by
  unfold labelAt
  cases found : labels.lookup id with
  | none => simp
  | some other => simp [eq_comm]

theorem requireRuntime_ok {value : Unit} : requireRuntime needsRuntime builder = .ok value final ↔
    needsRuntime = true ∧ final = builder := by
  cases needsRuntime <;> simp [requireRuntime, eq_comm]

/-- Registers of values are older than the next one, and each belongs to one value. -/
structure Tidy (values : Operands) (nextRegister : RegisterId) : Prop where
  fresh : ∀ {id register}, values.lookup id = some (.register register) → register < nextRegister
  injective : ∀ {id id' register}, values.lookup id = some (.register register) →
    values.lookup id' = some (.register register) → id = id'

section Values

variable {values : Operands} {nextRegister bound : RegisterId} {id : ValueId} {operand : Operand}

theorem Tidy.mono (tidy : Tidy values nextRegister) (older : nextRegister ≤ bound) :
    Tidy values bound where
  fresh found := Nat.lt_of_lt_of_le (tidy.fresh found) older
  injective := tidy.injective

/-- A new value gets a new register, or none. -/
theorem Tidy.emplace (tidy : Tidy values nextRegister) (absent : id ∉ values)
    (new : ∀ register, operand = .register register → nextRegister ≤ register ∧ register < bound)
    (older : nextRegister ≤ bound) : Tidy (values.emplace id operand).2 bound where
  fresh {other register} found := by
    rw [UnorderedMap.lookup_emplace_absent absent] at found
    split at found
    · exact (new register (Option.some.inj found)).2
    · exact Nat.lt_of_lt_of_le (tidy.fresh found) older
  injective {first second register} found found' := by
    rw [UnorderedMap.lookup_emplace_absent absent] at found found'
    split at found
    · rename_i same
      split at found'
      · rename_i same'
        exact same.trans same'.symm
      · have old := tidy.fresh found'
        have younger := (new register (Option.some.inj found)).1
        lia
    · split at found'
      · have old := tidy.fresh found
        have younger := (new register (Option.some.inj found')).1
        lia
      · exact tidy.injective found found'

theorem Tidy.emplaceNext (tidy : Tidy values nextRegister) (absent : id ∉ values) :
    Tidy (values.emplace id (.register nextRegister)).2 (nextRegister + 1) := by
  apply tidy.emplace absent
  · intro register same
    cases same
    exact ⟨Nat.le_refl _, Nat.lt_succ_self _⟩
  · exact Nat.le_succ _

private theorem lookup_emplace_self (absent : id ∉ values) :
    (values.emplace id operand).2.lookup id = some operand := by
  rw [UnorderedMap.lookup_emplace_absent absent, if_pos rfl]

private theorem mem_emplaced {other : ValueId} (member : other ∈ (values.emplace id operand).2) :
    other ∈ values ∨ other ∈ [id] := by
  rcases UnorderedMap.mem_emplace.mp member with old | same
  · exact .inl old
  · exact .inr (List.mem_singleton.mpr same)

end Values

/-- Lowering gives these results, and nothing else, values of their own. -/
structure Defines (builder : Builder) (results : List ValueId) (final : Builder) : Prop where
  slots : final.cleanupSlots = builder.cleanupSlots
  values : Extends builder.values final.values
  keys : ∀ id ∈ final.values, id ∈ builder.values ∨ id ∈ results
  tidy : Tidy final.values final.nextRegister

theorem Defines.refl (tidy : Tidy builder.values builder.nextRegister) :
    Defines builder [] builder :=
  ⟨rfl, .refl _, fun _ member => .inl member, tidy⟩

theorem Defines.trans (first : Defines builder results middle)
    (second : Defines middle results' final) : Defines builder (results ++ results') final where
  slots := second.slots.trans first.slots
  values := first.values.trans second.values
  keys id member := by
    rcases second.keys id member with old | new
    · rcases first.keys id old with older | newer
      · exact .inl older
      · exact .inr (List.mem_append_left _ newer)
    · exact .inr (List.mem_append_right _ new)
  tidy := second.tidy

/-- The effect of lowering operations with these results to this code. -/
structure Emits (builder : Builder) (code : List Instruction) (results : List ValueId)
    (final : Builder) : Prop extends Defines builder results final where
  function : final.function = (builder.append code).function
  insertPoint : final.insertPoint = builder.insertPoint

theorem Emits.refl (tidy : Tidy builder.values builder.nextRegister) :
    Emits builder [] [] builder where
  toDefines := .refl tidy
  function := by rw [Builder.append_nil]
  insertPoint := rfl

theorem Emits.trans (first : Emits builder code results middle)
    (second : Emits middle code' results' final) :
    Emits builder (code ++ code') (results ++ results') final where
  toDefines := first.toDefines.trans second.toDefines
  function := by
    rw [second.function, ← Builder.append_append]
    unfold Builder.append Builder.changeBlock
    rw [first.insertPoint, first.function]
    rfl
  insertPoint := second.insertPoint.trans first.insertPoint

/-- An instruction with a result, which becomes a value. -/
theorem emits_create {id : ValueId} (tidy : Tidy builder.values builder.nextRegister)
    (absent : id ∉ builder.values) (instruction : RegisterId → Instruction)
    (success : (create instruction >>= emplaceValue id) builder = .ok () final) :
    Emits builder [instruction builder.nextRegister] [id] final ∧
      final.values.lookup id = some (.register builder.nextRegister) := by
  cases success
  exact ⟨⟨⟨rfl, .emplace _ _ _, fun _ => mem_emplaced, tidy.emplaceNext absent⟩, rfl, rfl⟩,
    lookup_emplace_self absent⟩

/-- A constant, which needs no instruction. -/
theorem emits_constant {id : ValueId} {operand : Operand}
    (tidy : Tidy builder.values builder.nextRegister) (absent : id ∉ builder.values)
    (constant : ∀ register, operand ≠ .register register)
    (success : emplaceValue id operand builder = .ok () final) :
    Emits builder [] [id] final ∧ final.values.lookup id = some operand := by
  cases success
  have tidy' :=
    tidy.emplace absent (fun register same => absurd same (constant register)) (Nat.le_refl _)
  refine ⟨⟨⟨rfl, .emplace _ _ _, fun _ => mem_emplaced, tidy'⟩, ?_, rfl⟩,
    lookup_emplace_self absent⟩
  rw [Builder.append_nil]

theorem lowerIncoming_ok {incoming : List PhiIncoming} {sources : List (Operand × Label)} :
    lowerIncoming labels incoming builder = .ok sources final ↔
      List.Forall₂ (LowersIncoming labels builder.values) incoming sources ∧ final = builder := by
  induction incoming generalizing sources builder final with
  | nil =>
    simp only [lowerIncoming, pure_apply]
    constructor
    · intro success
      cases success
      exact ⟨.nil, rfl⟩
    · intro ⟨each, same⟩
      cases each
      rw [same]
  | cons source incoming ih =>
    simp only [lowerIncoming, bind_ok, valueAt_ok, labelAt_ok, ih, pure_apply]
    constructor
    · intro ⟨operand, _, ⟨found, same⟩, label, _, ⟨target, same'⟩, rest, _, ⟨each, same''⟩, success⟩
      subst same same' same''
      cases success
      exact ⟨.cons ⟨found, target⟩ each, rfl⟩
    · intro ⟨each, same⟩
      cases each with
      | cons lowers each =>
        exact ⟨_, _, ⟨lowers.1, rfl⟩, _, _, ⟨lowers.2, rfl⟩, _, _, ⟨each, rfl⟩, by rw [same]⟩

/-- What a successful lowering of an operation emits. -/
theorem lowerOperation_emits {operation : Operation}
    (tidy : Tidy builder.values builder.nextRegister) (absent : resultOf operation ∉ builder.values)
    (success : lowerOperation needsRuntime labels operation builder = .ok () final) :
    ∃ code, Emits builder code [resultOf operation] final ∧
      LowersOperation labels final.values final.cleanupSlots operation code := by
  cases operation with
  | tensorDecl result name type =>
    simp only [lowerOperation, bind_ok, requireRuntime_ok, ofExcept_apply_ok,
      cleanupSlotAt_ok] at success
    obtain ⟨_, start, ⟨_, same⟩, size, _, ⟨sized, same'⟩, operand, created, creates, slot, _,
      ⟨slotted, same''⟩, _, stored, stores, success⟩ := success
    subst same same' same''
    cases creates
    cases stores
    cases success
    have joined := congrArg Builder.function (Builder.append_append start
      [.callAlloc start.nextRegister (BitVec.ofNat 64 size) 64]
      [.store (.register start.nextRegister) (.slot slot)])
    exact ⟨[_, _], ⟨⟨rfl, .emplace _ _ _, fun _ => mem_emplaced, tidy.emplaceNext absent⟩,
      joined, rfl⟩,
      .tensorDecl sized slotted (lookup_emplace_self absent)⟩
  | constantInt result value type =>
    obtain ⟨emits, lowered⟩ := emits_constant tidy absent (by simp) success
    exact ⟨[], emits, .constantInt lowered⟩
  | constantFloat result value type =>
    obtain ⟨emits, lowered⟩ := emits_constant tidy absent (by simp) success
    exact ⟨[], emits, .constantFloat lowered⟩
  | binary result kind lhs rhs type =>
    simp only [lowerOperation, bind_ok, valueAt_ok] at success
    obtain ⟨lhsOperand, _, ⟨left, same⟩, rhsOperand, _, ⟨right, same'⟩, success⟩ := success
    subst same same'
    obtain ⟨emits, lowered⟩ := emits_create tidy absent _ (bind_ok.mpr success)
    exact ⟨_, emits, .binary (emits.values _ _ left) (emits.values _ _ right) lowered⟩
  | compare result kind lhs rhs operandType =>
    simp only [lowerOperation, bind_ok, valueAt_ok] at success
    obtain ⟨lhsOperand, _, ⟨left, same⟩, rhsOperand, _, ⟨right, same'⟩, success⟩ := success
    subst same same'
    obtain ⟨emits, lowered⟩ := emits_create tidy absent _ (bind_ok.mpr success)
    exact ⟨_, emits, .compare (emits.values _ _ left) (emits.values _ _ right) lowered⟩
  | phi result type incoming =>
    rw [lowerOperation] at success
    cases scalar : lowerType type with
    | none => simp [scalar] at success
    | some scalarType =>
      simp only [scalar] at success
      split at success
      · cases success
      · simp only [bind_ok, lowerIncoming_ok] at success
        obtain ⟨register, created, creates, _, named, names, sources, _, ⟨each, same⟩, success⟩ :=
          success
        subst same
        cases creates
        cases names
        cases success
        exact ⟨[_], ⟨⟨rfl, .emplace _ _ _, fun _ => mem_emplaced, tidy.emplaceNext absent⟩, rfl,
          rfl⟩,
          .phi scalar each (lookup_emplace_self absent)⟩
  | matMul _ _ _ _ => simp [lowerOperation] at success
  | relu _ _ _ => simp [lowerOperation] at success

private theorem lowerOperations_emits {operations : List Operation}
    (tidy : Tidy builder.values builder.nextRegister)
    (absent : ∀ operation ∈ operations, resultOf operation ∉ builder.values)
    (distinct : (operations.map resultOf).Nodup)
    (success : lowerOperations needsRuntime labels operations builder = .ok () final) :
    ∃ codes, Emits builder codes.flatten (operations.map resultOf) final ∧
      List.Forall₂ (LowersOperation labels final.values final.cleanupSlots) operations codes := by
  induction operations generalizing builder with
  | nil =>
    cases success
    exact ⟨[], .refl tidy, .nil⟩
  | cons operation operations ih =>
    obtain ⟨middle, first, rest⟩ := then_ok.mp success
    obtain ⟨code, emits, lowers⟩ := lowerOperation_emits tidy (absent _ List.mem_cons_self) first
    obtain ⟨new, distinct⟩ := List.nodup_cons.mp distinct
    have absent' (later) (member : later ∈ operations) : resultOf later ∉ middle.values := by
      intro present
      rcases emits.keys _ present with old | same
      · exact absent later (List.mem_cons_of_mem _ member) old
      · rw [List.mem_singleton] at same
        exact new (same ▸ List.mem_map_of_mem member)
    obtain ⟨codes, emits', each⟩ := ih emits.tidy absent' distinct rest
    have lowers' := lowers.mono emits'.values
    rw [← emits'.slots] at lowers'
    exact ⟨code :: codes, emits.trans emits', .cons lowers' each⟩

def Builder.release (builder : Builder) (slots : List (ValueId × SlotId)) : Builder :=
  { builder.append (releaseCode builder.nextRegister slots) with
    nextRegister := builder.nextRegister + slots.length }

theorem releaseSlots_ok {slots : List (ValueId × SlotId)}
    (success : releaseSlots needsRuntime slots builder = .ok () final) :
    final = builder.release slots := by
  induction slots generalizing builder with
  | nil =>
    cases success
    simp [Builder.release, releaseCode, Builder.append_nil]
  | cons entry slots ih =>
    obtain ⟨id, slot⟩ := entry
    simp only [releaseSlots, bind_ok, requireRuntime_ok] at success
    obtain ⟨_, start, ⟨_, same⟩, pointer, loaded, loads, _, freed, frees, rest⟩ := success
    subst same
    cases loads
    cases frees
    rw [ih rest]
    simp [Builder.release, Builder.emit_eq, Builder.append, Builder.changeBlock,
      List.modify_modify_eq, Function.comp_def, releaseCode]
    lia

/-- What a successful lowering of a terminator emits before it. -/
theorem lowerTerminator_emits {id : BlockId} {last : IR.Terminator}
    (tidy : Tidy builder.values builder.nextRegister)
    (success : lowerTerminator needsRuntime labels order id last builder = .ok () final) :
    ∃ tail terminator middle, Emits builder tail [] middle ∧ final = middle.terminate terminator ∧
      LowersTerminator order labels middle.values middle.cleanupSlots id last tail terminator := by
  cases last with
  | branch target =>
    simp only [lowerTerminator, bind_ok, labelAt_ok] at success
    obtain ⟨label, _, ⟨found, same⟩, success⟩ := success
    subst same
    cases success
    exact ⟨[], _, _, .refl tidy, rfl, .branch found⟩
  | condBranch condition trueTarget falseTarget =>
    simp only [lowerTerminator, bind_ok, labelAt_ok, valueAt_ok] at success
    obtain ⟨operand, _, ⟨tested, same⟩, trueLabel, _, ⟨first, same'⟩, falseLabel, _,
      ⟨second, same''⟩,
      success⟩ := success
    subst same same' same''
    cases success
    exact ⟨[], _, _, .refl tidy, rfl, .condBranch tested first second⟩
  | returnOp value =>
    simp only [lowerTerminator, bind_ok, get_apply, valueAt_ok] at success
    obtain ⟨_, start, same, _, released, releases, operand, _, ⟨found, same'⟩, status,
      truncated, truncates,
      success⟩ := success
    cases same
    have same := releaseSlots_ok releases
    subst same same'
    cases truncates
    cases success
    have older (result) (same : operand = .register result) : result < builder.nextRegister := by
      rw [same] at found
      exact tidy.fresh found
    have joined := congrArg Builder.function (builder.append_append
      (releaseCode builder.nextRegister (order.traverse id builder.cleanupSlots))
      [.trunc (builder.nextRegister + (order.traverse id builder.cleanupSlots).length) operand])
    have tidy' := tidy.mono (Nat.le_succ_of_le (Nat.le_add_right builder.nextRegister
      (order.traverse id builder.cleanupSlots).length))
    refine ⟨_, _, _, ?_, rfl, .returnOp found older⟩
    exact ⟨⟨rfl, .refl _, fun _ member => .inl member, tidy'⟩, joined, rfl⟩

/-- A block ends up with all the code that was emitted into it. -/
theorem Emits.closed_blocks {start closed : Builder} {code : List Instruction} {label : Label}
    (emits : Emits (start.moveTo label) code results closed) (terminator : LLVM.Terminator) :
    (closed.terminate terminator).function.blocks = start.function.blocks.modify label fun body =>
      { body with instructions := body.instructions ++ code, terminator := some terminator } := by
  unfold Builder.terminate Builder.changeBlock
  rw [emits.insertPoint, emits.function]
  simp [Builder.append, Builder.changeBlock, Builder.moveTo, List.modify_modify_eq,
    Function.comp_def]

/-- The effect of lowering a block on the blocks of the function. -/
structure Fills (order : TraversalOrder) (labels : Labels) (builder : Builder)
    (block : IR.BasicBlock) (final : Builder) (label : Label) : Prop where
  labelled : labels.lookup block.id = some label
  others : ∀ other, other ≠ label → final.function.blocks[other]? = builder.function.blocks[other]?
  filled : ∀ body, builder.function.blocks[label]? = some body →
    ∃ body', final.function.blocks[label]? = some body' ∧
      LowersBlock order labels final.values final.cleanupSlots block body.instructions body'

private theorem lowerBlock_fills {block : IR.BasicBlock} (tidy : Tidy builder.values builder.nextRegister)
    (absent : ∀ value ∈ block.results, value ∉ builder.values) (distinct : block.results.Nodup)
    (success : lowerBlock needsRuntime labels order block builder = .ok () final) :
    Defines builder block.results final ∧
      ∃ label, Fills order labels builder block final label := by
  simp only [lowerBlock, bind_ok, labelAt_ok] at success
  obtain ⟨label, start, ⟨labelled, same⟩, _, moved, moves, _, middle, first, success⟩ := success
  subst same
  cases moves
  have tidy' : Tidy (start.moveTo label).values (start.moveTo label).nextRegister := tidy
  obtain ⟨codes, emits, each⟩ := lowerOperations_emits tidy'
    (fun operation member => absent _ (List.mem_map_of_mem member)) distinct first
  cases ends : block.terminator with
  | none => simp [ends] at success
  | some last =>
    simp only [ends] at success
    obtain ⟨tail, terminator, closed, emits', same, lowers⟩ :=
      lowerTerminator_emits emits.tidy success
    subst same
    have both := emits.trans emits'
    rw [List.append_nil] at both
    have blocks := both.closed_blocks terminator
    have each' := each.imp fun _ _ => LowersOperation.mono emits'.values
    rw [← emits'.slots] at each'
    refine ⟨⟨both.slots, both.values, both.keys, both.tidy⟩, label, labelled, ?_, ?_⟩
    · intro other different
      simp [blocks, Ne.symm different]
    · intro body found
      have filled := congrArg (·[label]?) blocks
      simp only [List.getElem?_modify_eq, found] at filled
      exact ⟨_, filled, last, terminator, _, ends, .of_codes each' lowers, rfl, rfl⟩

/-- Lowering one block after another fills each of them. -/
theorem lowerBlocks_fills {blocks : List IR.BasicBlock}
    (injective : ∀ {id id' label}, labels.lookup id = some label → labels.lookup id' = some label →
      id = id')
    (tidy : Tidy builder.values builder.nextRegister) (ids : (blocks.map IR.BasicBlock.id).Nodup)
    (absent : ∀ value ∈ blocks.flatMap IR.BasicBlock.results, value ∉ builder.values)
    (distinct : (blocks.flatMap IR.BasicBlock.results).Nodup)
    (success : lowerBlocks needsRuntime labels order blocks builder = .ok () final) :
    Defines builder (blocks.flatMap IR.BasicBlock.results) final ∧
      (∀ label, (∀ block ∈ blocks, labels.lookup block.id ≠ some label) →
        final.function.blocks[label]? = builder.function.blocks[label]?) ∧
      ∀ block ∈ blocks, ∃ label, labels.lookup block.id = some label ∧
        ∀ body, builder.function.blocks[label]? = some body →
          ∃ body', final.function.blocks[label]? = some body' ∧
            LowersBlock order labels final.values final.cleanupSlots block
              body.instructions body' := by
  induction blocks generalizing builder with
  | nil =>
    cases success
    exact ⟨.refl tidy, fun _ _ => rfl, by simp⟩
  | cons block blocks ih =>
    obtain ⟨middle, first, rest⟩ := then_ok.mp success
    simp only [List.flatMap_cons, List.map_cons, List.nodup_cons, List.nodup_append,
      List.mem_append] at *
    obtain ⟨new, ids⟩ := ids
    obtain ⟨distinctHere, distinct, disjoint⟩ := distinct
    obtain ⟨defines, label, fills⟩ :=
      lowerBlock_fills tidy (fun value member => absent value (.inl member))
      distinctHere first
    have absent' (value) (member : value ∈ blocks.flatMap IR.BasicBlock.results) :
        value ∉ middle.values := by
      intro present
      rcases defines.keys value present with old | here
      · exact absent value (.inr member) old
      · exact disjoint value here value member rfl
    obtain ⟨defines', others, each⟩ := ih defines.tidy ids absent' distinct rest
    have distinctLabel (later) (member : later ∈ blocks) : labels.lookup later.id ≠ some label := by
      intro same
      exact new (injective same fills.labelled ▸ List.mem_map_of_mem member)
    refine ⟨defines.trans defines', ?_, ?_⟩
    · intro other none
      rw [others other fun later member => none later (List.mem_cons_of_mem _ member)]
      apply fills.others
      intro same
      exact none block List.mem_cons_self (same ▸ fills.labelled)
    · intro other member
      rcases List.mem_cons.mp member with rfl | member
      · refine ⟨label, fills.labelled, fun body found => ?_⟩
        obtain ⟨body', found', lowers⟩ := fills.filled body found
        rw [← defines'.slots] at lowers
        exact ⟨body', (others label distinctLabel).trans found', lowers.mono defines'.values⟩
      · obtain ⟨label', labelled, filled⟩ := each other member
        refine ⟨label', labelled, fun body found => filled body ?_⟩
        rw [fills.others label' fun same => distinctLabel other member (same ▸ labelled)]
        exact found

/-- Every block of the module gets the label of its position. -/
theorem createBlocks_ok {blocks : List IR.BasicBlock} {labels' : Labels}
    (ids : (blocks.map IR.BasicBlock.id).Nodup) (absent : ∀ block ∈ blocks, block.id ∉ labels)
    (success : createBlocks labels blocks builder = .ok labels' final) :
    final = { builder with
      function := ⟨builder.function.blocks ++ blocks.map fun block => { name := block.name }⟩ } ∧
    labels'.pairs = ((blocks.map IR.BasicBlock.id).zipIdx builder.function.blocks.length).reverse ++
      labels.pairs := by
  induction blocks generalizing builder labels with
  | nil =>
    cases success
    simp
  | cons block blocks ih =>
    obtain ⟨label, middle, first, rest⟩ := bind_ok.mp success
    cases first
    obtain ⟨new, ids⟩ := List.nodup_cons.mp ids
    have absentHere := absent block List.mem_cons_self
    have absent' (later) (member : later ∈ blocks) :
        later.id ∉ (labels.emplace block.id builder.function.blocks.length).2 := by
      intro present
      rcases UnorderedMap.mem_emplace.mp present with old | same
      · exact absent later (List.mem_cons_of_mem _ member) old
      · exact new (same ▸ List.mem_map_of_mem member)
    obtain ⟨same, pairs⟩ := ih ids absent' rest
    rw [UnorderedMap.pairs_emplace_absent absentHere] at pairs
    constructor
    · rw [same]
      simp
    · rw [pairs]
      simp

/-- The results of the tensor declarations. -/
def declaredTensors (operations : List Operation) : List ValueId :=
  (operations.filter declaresTensor).map resultOf

/-- The effect of creating slots for these tensors: each gets the next slot. -/
structure AddsSlots (builder : Builder) (declared : List ValueId) (final : Builder) : Prop where
  function : final.function =
    (builder.append (slotCode (List.range' builder.nextSlot declared.length))).function
  values : final.values = builder.values
  nextRegister : final.nextRegister = builder.nextRegister
  pairs : final.cleanupSlots.pairs =
    (declared.zipIdx builder.nextSlot).reverse ++ builder.cleanupSlots.pairs

def Builder.addSlot (builder : Builder) (result : ValueId) : Builder :=
  { builder.append (slotCode [builder.nextSlot]) with
    nextSlot := builder.nextSlot + 1
    cleanupSlots := (builder.cleanupSlots.emplace result builder.nextSlot).2 }

private theorem createCleanupSlot_tensorDecl (result : ValueId) (name : String) (type : TensorType)
    (builder : Builder) :
    createCleanupSlot (.tensorDecl result name type) builder = .ok () (builder.addSlot result) := by
  have joined := builder.append_append [.alloca builder.nextSlot]
    [.store .null (.slot builder.nextSlot)]
  have added : builder.addSlot result = { (builder.append [.alloca builder.nextSlot]).append
      [.store .null (.slot builder.nextSlot)] with
    nextSlot := builder.nextSlot + 1
    cleanupSlots := (builder.cleanupSlots.emplace result builder.nextSlot).2 } := by
    rw [joined]
    rfl
  rw [added]
  rfl

theorem AddsSlots.cons {result : ValueId} {declared : List ValueId}
    (absent : result ∉ builder.cleanupSlots)
    (rest : AddsSlots (builder.addSlot result) declared final) :
    AddsSlots builder (result :: declared) final where
  function := by
    have joined := congrArg Builder.function (builder.append_append (slotCode [builder.nextSlot])
      (slotCode (List.range' (builder.nextSlot + 1) declared.length)))
    exact rest.function.trans joined
  values := rest.values
  nextRegister := rest.nextRegister
  pairs := by
    have front : (builder.addSlot result).cleanupSlots.pairs =
      (result, builder.nextSlot) :: builder.cleanupSlots.pairs :=
        UnorderedMap.pairs_emplace_absent absent
    rw [rest.pairs, front]
    simp [Builder.addSlot]

private theorem createCleanupSlots_ok {operations : List Operation}
    (distinct : (declaredTensors operations).Nodup)
    (absent : ∀ id ∈ declaredTensors operations, id ∉ builder.cleanupSlots)
    (success : createCleanupSlots operations builder = .ok () final) :
    AddsSlots builder (declaredTensors operations) final := by
  induction operations generalizing builder with
  | nil =>
    cases success
    exact ⟨congrArg Builder.function (Builder.append_nil _).symm, rfl, rfl, rfl⟩
  | cons operation operations ih =>
    obtain ⟨middle, first, rest⟩ := then_ok.mp success
    cases operation with
    | tensorDecl result name type =>
      rw [createCleanupSlot_tensorDecl] at first
      cases first
      obtain ⟨new, distinct⟩ := List.nodup_cons.mp distinct
      have absent' (id) (member : id ∈ declaredTensors operations) :
          id ∉ (builder.addSlot result).cleanupSlots := by
        intro present
        rcases UnorderedMap.mem_emplace.mp present with old | same
        · exact absent id (List.mem_cons_of_mem _ member) old
        · exact new (same ▸ member)
      exact (ih distinct absent' rest).cons (absent result List.mem_cons_self)
    | constantInt _ _ _ | constantFloat _ _ _ | binary _ _ _ _ _ | compare _ _ _ _ _ | phi _ _ _
    | matMul _ _ _ _ | relu _ _ _ =>
      cases first
      exact ih distinct absent rest

/-- The code before that of the operations of a block. -/
def prologue (module : IR.Module) (block : IR.BasicBlock) : List Instruction :=
  if block.id = module.entry then
    slotCode (List.range (declaredTensors (operationsOf module)).length)
  else []

/-- What the code generator makes of a whole module. -/
structure Lowered (order : TraversalOrder) (module : IR.Module) (labels : Labels)
    (values : Operands) (slots : CleanupSlots) (function : LLVM.Function) : Prop where
  labelled : ∀ id label, labels.lookup id = some label ↔
    ∃ block : IR.BasicBlock, module.blocks[label]? = some block ∧ block.id = id
  injective : ∀ {id id' register}, values.lookup id = some (.register register) →
    values.lookup id' = some (.register register) → id = id'
  slotted : ∀ id slot, slots.lookup id = some slot ↔
    (declaredTensors (operationsOf module))[slot]? = some id
  filled : ∀ (index : Nat) block, module.blocks[index]? = some block →
    ∃ body, function.blocks[index]? = some body ∧
      LowersBlock order labels values slots block (prologue module block) body

/-- Labels are positions, so each belongs to one block. -/
theorem label_unique {module : IR.Module} {id id' : BlockId} {label : Label}
    (labelled : ∀ id label, labels.lookup id = some label ↔
      ∃ block : IR.BasicBlock, module.blocks[label]? = some block ∧ block.id = id)
    (first : labels.lookup id = some label) (second : labels.lookup id' = some label) :
    id = id' := by
  obtain ⟨block, found, same⟩ := (labelled id label).mp first
  obtain ⟨block', found', same'⟩ := (labelled id' label).mp second
  cases found.symm.trans found'
  exact same.symm.trans same'

theorem results_operationsOf (module : IR.Module) :
    (operationsOf module).map resultOf = module.blocks.flatMap IR.BasicBlock.results := by
  rw [operationsOf, List.map_flatMap]
  rfl

private theorem nodup_declaredTensors {operations : List Operation}
    (distinct : (operations.map resultOf).Nodup) : (declaredTensors operations).Nodup :=
  distinct.sublist (List.filter_sublist.map resultOf)

/-- The function before its blocks are lowered: empty blocks, and the insert
point in the entry. -/
def Builder.created (module : IR.Module) (entry : Label) : Builder where
  function := ⟨module.blocks.map fun block => { name := block.name }⟩
  insertPoint := entry

private theorem createBlocks_total (blocks : List IR.BasicBlock) (labels : Labels) (builder : Builder) :
    ∃ labels' final, createBlocks labels blocks builder = .ok labels' final := by
  induction blocks generalizing labels builder with
  | nil => exact ⟨labels, builder, rfl⟩
  | cons block blocks ih => exact ih _ _

private theorem createCleanupSlots_total (operations : List Operation) (builder : Builder) :
    ∃ final, createCleanupSlots operations builder = .ok () final := by
  induction operations generalizing builder with
  | nil => exact ⟨builder, rfl⟩
  | cons operation operations ih =>
    rw [createCleanupSlots]
    cases operation with
    | tensorDecl result name type =>
      rw [bind_of_ok (createCleanupSlot_tensorDecl result name type builder)]
      exact ih _
    | _ => exact ih builder

/-- The lowering of a verified module, once its blocks and slots are created. -/
theorem lowerModule_eq {module : IR.Module} (order : TraversalOrder) (verified : Verified module) :
    ∃ labels entry started,
      (∀ id label, labels.lookup id = some label ↔
        ∃ block : IR.BasicBlock, module.blocks[label]? = some block ∧ block.id = id) ∧
      labels.lookup module.entry = some entry ∧
      AddsSlots (.created module entry) (declaredTensors (operationsOf module)) started ∧
      lowerModule order module {} =
        lowerBlocks ((operationsOf module).any declaresTensor) labels order module.blocks
          started := by
  obtain ⟨labels, created, creates⟩ := createBlocks_total module.blocks ∅ {}
  obtain ⟨same, numbered⟩ := createBlocks_ok verified.ids (by simp) creates
  have labelled (id : BlockId) (label : Label) : labels.lookup id = some label ↔
      ∃ block : IR.BasicBlock, module.blocks[label]? = some block ∧ block.id = id := by
    rw [UnorderedMap.lookup_of_zipIdx (by simpa [UnorderedMap.pairs] using numbered)]
    simp
  obtain ⟨block, member, entryId⟩ := verified.entry
  obtain ⟨entry, found⟩ := List.getElem?_of_mem member
  have entered : labels.lookup module.entry = some entry :=
    (labelled _ _).mpr ⟨block, found, entryId⟩
  have moved : setInsertPoint entry created = .ok () (.created module entry) := by
    rw [same]
    simp [setInsertPoint, Builder.created]
  obtain ⟨started, starts⟩ := createCleanupSlots_total (operationsOf module) (.created module entry)
  have results : ((operationsOf module).map resultOf).Nodup := by
    rw [results_operationsOf]
    exact verified.results
  refine ⟨labels, entry, started, labelled, entered, ?_, ?_⟩
  · exact createCleanupSlots_ok (nodup_declaredTensors results) (by simp [Builder.created]) starts
  · rw [lowerModule, bind_of_ok creates, bind_of_ok (labelAt_ok.mpr ⟨entered, rfl⟩),
      bind_of_ok moved,
      bind_of_ok starts]

theorem AddsSlots.tidy {module : IR.Module} {entry : Label} {declared : List ValueId}
    (slotted : AddsSlots (.created module entry) declared builder) :
    Tidy builder.values builder.nextRegister := by
  rw [slotted.values, slotted.nextRegister]
  exact ⟨by simp [Builder.created], by simp [Builder.created]⟩

/-- The function has no blocks but those of the module. -/
theorem lowerModule_bodies {module : IR.Module} (verified : Verified module)
    (success : lowerModule order module {} = .ok () final) {index : Nat} {body : LLVM.BasicBlock}
    (found : final.function.blocks[index]? = some body) :
    ∃ block, module.blocks[index]? = some block := by
  obtain ⟨labels, entry, started, labelled, _, slotted, same⟩ := lowerModule_eq order verified
  rw [same] at success
  obtain ⟨_, others, _⟩ := lowerBlocks_fills (label_unique labelled) slotted.tidy verified.ids
    (by simp [slotted.values, Builder.created]) verified.results success
  cases present : module.blocks[index]? with
  | some block => exact ⟨block, rfl⟩
  | none =>
    have unlabelled (block) (_ : block ∈ module.blocks) : labels.lookup block.id ≠ some index := by
      intro labelledHere
      obtain ⟨block, here, _⟩ := (labelled _ _).mp labelledHere
      simp [present] at here
    rw [others index unlabelled, slotted.function] at found
    simp [Builder.append, Builder.changeBlock, Builder.created, List.getElem?_modify,
      present] at found

/-- Only results of operations become operands. -/
theorem lowerModule_keys {module : IR.Module} (verified : Verified module)
    (success : lowerModule order module {} = .ok () final) {value : ValueId} {operand : Operand}
    (looked : final.values.lookup value = some operand) :
    ∃ operation ∈ operationsOf module, resultOf operation = value := by
  obtain ⟨labels, entry, started, labelled, _, slotted, same⟩ := lowerModule_eq order verified
  rw [same] at success
  obtain ⟨defines, _, _⟩ := lowerBlocks_fills (label_unique labelled) slotted.tidy verified.ids
    (by simp [slotted.values, Builder.created]) verified.results success
  have present : value ∈ final.values := AList.lookup_isSome.mp (by simp [looked])
  rcases defines.keys value present with old | new
  · simp [slotted.values, Builder.created] at old
  · rw [← results_operationsOf] at new
    exact List.mem_map.mp new

/-- The code of a verified module that is lowered. -/
theorem lowerModule_lowered {module : IR.Module} (verified : Verified module)
    (success : lowerModule order module {} = .ok () final) :
    ∃ labels, Lowered order module labels final.values final.cleanupSlots final.function := by
  obtain ⟨labels, entry, started, labelled, entered, slotted, same⟩ := lowerModule_eq order verified
  rw [same] at success
  obtain ⟨defines, _, each⟩ := lowerBlocks_fills (label_unique labelled) slotted.tidy verified.ids
    (by simp [slotted.values, Builder.created]) verified.results success
  refine ⟨labels, labelled, defines.tidy.injective, ?_, ?_⟩
  · intro id slot
    rw [defines.slots]
    apply UnorderedMap.lookup_of_zipIdx
    rw [slotted.pairs]
    simp [Builder.created, UnorderedMap.pairs]
  · intro index block found
    have here : labels.lookup block.id = some index := (labelled _ _).mpr ⟨block, found, rfl⟩
    obtain ⟨label, other, fills⟩ := each block (List.mem_of_getElem? found)
    cases here.symm.trans other
    have atEntry : block.id = module.entry ↔ entry = index := by
      constructor
      · intro sameId
        rw [sameId] at here
        exact Option.some.inj (entered.symm.trans here)
      · intro sameLabel
        exact label_unique labelled here (sameLabel ▸ entered)
    apply fills { name := block.name, instructions := prologue module block }
    rw [slotted.function]
    simp only [Builder.append, Builder.changeBlock, Builder.created, List.getElem?_modify, prologue,
      atEntry, List.range_eq_range']
    split <;> simp [found]

theorem generate_ok {verifyModule : LLVM.Function → Except String Unit} {module : IR.Module}
    {function : LLVM.Function} :
    generate order verifyModule module = .ok function ↔
      verify module = .ok () ∧
      firstReturnType (valueTypes (operationsOf module)) module.blocks =
        .ok (some (.scalar "i64")) ∧
      ∃ builder, lowerModule order module {} = .ok () builder ∧ builder.function = function ∧
        verifyModule function = .ok () := by
  rw [generate]
  cases verify module with
  | error error => simp [throw, throwThe, MonadExceptOf.throw]
  | ok _ =>
    simp only [true_and, except_bind_ok]
    constructor
    · intro ⟨type, typed, success⟩
      by_cases scalar : type = some (.scalar "i64")
      · rw [if_neg (not_not_intro scalar)] at success
        cases lowered : lowerModule order module {} with
        | error error final => simp [lowered, throw, throwThe, MonadExceptOf.throw] at success
        | ok _ builder =>
          simp only [lowered] at success
          cases accepted : verifyModule builder.function with
          | error message => simp [accepted, throw, throwThe, MonadExceptOf.throw] at success
          | ok _ =>
            simp only [accepted] at success
            cases success
            exact ⟨scalar ▸ typed, builder, rfl, rfl, accepted⟩
      · rw [if_pos scalar] at success
        cases success
    · intro ⟨typed, builder, lowered, same, accepted⟩
      refine ⟨_, typed, ?_⟩
      rw [if_neg (not_not_intro rfl), lowered]
      simp [same, accepted, pure, Except.pure]

/-- Successful code generation, by the code it gives. -/
theorem generate_lowered {verifyModule : LLVM.Function → Except String Unit} {module : IR.Module}
    {function : LLVM.Function} (success : generate order verifyModule module = .ok function) :
    Verified module ∧ ∃ labels values slots, Lowered order module labels values slots function := by
  obtain ⟨accepted, _, builder, lowered, same, _⟩ := generate_ok.mp success
  have verified := verify_ok_iff.mp accepted
  obtain ⟨labels, code⟩ := lowerModule_lowered verified lowered
  exact ⟨verified, labels, _, _, same ▸ code⟩

end Ocelotl.Codegen
