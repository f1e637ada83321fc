import Ocelotl.Codegen.WellFormed

namespace Ocelotl.Codegen

open IR Library LLVM

variable {builder middle final : Builder} {instruction : Instruction} {operand : Operand}
  {label : Label} {index : Nat} {labels : Labels} {needsRuntime : Bool} {order : TraversalOrder}
  {module : IR.Module}

/-- The builder has handed out this register or slot. -/
def Builder.Issued (builder : Builder) : Operand → Prop
  | .register result => result < builder.nextRegister
  | .slot slot => slot < builder.nextSlot
  | .integer _ | .float _ | .null => False

/-- Results are handed out by the builder, and belong to one instruction each. -/
structure Numbered (builder : Builder) : Prop where
  single : builder.function.SingleDefinitions
  issued : ∀ operand label index, builder.function.Defines operand label index →
    builder.Issued operand

theorem Builder.Issued.mono (issued : builder.Issued operand)
    (registers : builder.nextRegister ≤ final.nextRegister)
    (slots : builder.nextSlot ≤ final.nextSlot) :
    final.Issued operand := by
  cases operand with
  | register result => exact Nat.lt_of_lt_of_le issued registers
  | slot slot => exact Nat.lt_of_lt_of_le issued slots
  | integer | float | null => exact issued

private theorem defines_append (builder : Builder) (instruction : Instruction) :
    (builder.append [instruction]).function.Defines operand label index ↔
      builder.function.Defines operand label index ∨
        label = builder.insertPoint ∧ instruction.result = some operand ∧
          ∃ body, builder.function.blocks[label]? = some body ∧
            index = body.instructions.length := by
  simp only [LLVM.Function.Defines, LLVM.Function.InstructionAt, Builder.append,
    Builder.changeBlock,
    List.getElem?_modify]
  by_cases here : builder.insertPoint = label
  · subst here
    cases found : builder.function.blocks[builder.insertPoint]? with
    | none => simp
    | some body =>
      simp only [Option.map_eq_map, Option.map_some, Option.some.injEq, exists_eq_left',
        if_true, true_and]
      constructor
      · intro present
        obtain ⟨other, present, result⟩ := present
        rcases Nat.lt_trichotomy index body.instructions.length with less | same | greater
        · rw [List.getElem?_append_left less] at present
          exact .inl ⟨other, present, result⟩
        · subst same
          simp at present
          exact .inr ⟨present ▸ result, rfl⟩
        · rw [List.getElem?_eq_none (by simp; omega)] at present
          cases present
      · intro cases'
        rcases cases' with ⟨other, present, result⟩ | ⟨result, same⟩
        · exact ⟨other, List.getElem?_append_left (List.getElem?_eq_some_iff.mp present).1 ▸
            present, result⟩
        · exact ⟨instruction, by simp [same], result⟩
  · simp [here, Ne.symm here]

/-- A new instruction either has no result, or a new one. -/
theorem Numbered.append (numbered : Numbered builder)
    (fresh : ∀ operand, instruction.result = some operand → ¬ builder.Issued operand ∧
      final.Issued operand)
    (function : final.function = (builder.append [instruction]).function)
    (registers : builder.nextRegister ≤ final.nextRegister)
    (slots : builder.nextSlot ≤ final.nextSlot) :
    Numbered final where
  single operand label index label' index' first second := by
    rw [function, defines_append] at first second
    rcases first with old | ⟨rfl, result, body, found, rfl⟩
    · rcases second with old' | ⟨_, result, _⟩
      · exact numbered.single operand label index label' index' old old'
      · exact absurd (numbered.issued operand label index old) (fresh operand result).1
    · rcases second with old | ⟨rfl, _, body', found', rfl⟩
      · exact absurd (numbered.issued operand label' index' old) (fresh operand result).1
      · cases found.symm.trans found'
        exact ⟨rfl, rfl⟩
  issued operand label index defines := by
    rw [function, defines_append] at defines
    rcases defines with old | ⟨_, result, _⟩
    · exact (numbered.issued operand label index old).mono registers slots
    · exact (fresh operand result).2

/-- What leaves the instructions alone leaves the results alone. -/
theorem Numbered.same (numbered : Numbered builder)
    (defines : ∀ operand label index, final.function.Defines operand label index →
      builder.function.Defines operand label index)
    (registers : builder.nextRegister ≤ final.nextRegister)
    (slots : builder.nextSlot ≤ final.nextSlot) :
    Numbered final where
  single operand label index label' index' first second :=
    numbered.single operand label index label' index' (defines _ _ _ first) (defines _ _ _ second)
  issued operand label index present :=
    (numbered.issued operand label index (defines _ _ _ present)).mono registers slots

/-- An instruction with the next register. -/
theorem Numbered.create (numbered : Numbered builder)
    (result : instruction.result = some (.register builder.nextRegister))
    (function : final.function = (builder.append [instruction]).function)
    (registers : final.nextRegister = builder.nextRegister + 1)
    (slots : final.nextSlot = builder.nextSlot) :
    Numbered final := by
  refine numbered.append (fun operand same => ?_) function (registers ▸ Nat.le_succ _)
    (Nat.le_of_eq slots.symm)
  cases result.symm.trans same
  simp only [Builder.Issued, registers]
  exact ⟨Nat.lt_irrefl _, Nat.lt_succ_self _⟩

theorem Numbered.emit (numbered : Numbered builder) (result : instruction.result = none) :
    Numbered (builder.emit instruction) :=
  numbered.append (fun operand same => by cases result.symm.trans same) rfl (Nat.le_refl _)
    (Nat.le_refl _)

theorem result_compareInstruction (kind : CompareKind) (operandType : TensorType)
    (lhs rhs : Operand) (result : RegisterId) :
    (compareInstruction kind operandType lhs rhs result).result = some (.register result) := by
  rw [compareInstruction]
  split <;> rfl

private theorem lowerOperation_numbered {operation : Operation} (numbered : Numbered builder)
    (success : lowerOperation needsRuntime labels operation builder = .ok () final) :
    Numbered final := by
  cases operation with
  | tensorDecl result name type =>
    simp only [lowerOperation, bind_ok, requireRuntime_ok, ofExcept_apply_ok,
      cleanupSlotAt_ok] at success
    obtain ⟨_, start, ⟨_, same⟩, size, _, ⟨sized, same'⟩, operand, created, creates, slot, _,
      ⟨slotted, same''⟩, _, stored, stores, success⟩ := success
    subst same same' same''
    cases creates
    cases stores
    cases success
    have created : Numbered ({ start with nextRegister := start.nextRegister + 1 }.append
        [.callAlloc start.nextRegister (BitVec.ofNat 64 size) 64]) :=
          numbered.create rfl rfl rfl rfl
    have stored : Numbered (Builder.emit _ (.store (.register start.nextRegister) (.slot slot))) :=
      created.emit rfl
    exact stored.same (fun _ _ _ present => present) (Nat.le_refl _) (Nat.le_refl _)
  | constantInt result value type | constantFloat result value type =>
    cases success
    exact numbered.same (fun _ _ _ present => present) (Nat.le_refl _) (Nat.le_refl _)
  | binary result kind lhs rhs type =>
    simp only [lowerOperation, bind_ok, valueAt_ok] at success
    obtain ⟨lhsOperand, _, ⟨left, same⟩, rhsOperand, _, ⟨right, same'⟩, operand, created, creates,
      success⟩ := success
    subst same same'
    cases creates
    cases success
    exact numbered.create rfl rfl rfl rfl
  | compare result kind lhs rhs type =>
    simp only [lowerOperation, bind_ok, valueAt_ok] at success
    obtain ⟨lhsOperand, _, ⟨left, same⟩, rhsOperand, _, ⟨right, same'⟩, operand, created, creates,
      success⟩ := success
    subst same same'
    cases creates
    cases success
    exact numbered.create (result_compareInstruction _ _ _ _ _) rfl rfl rfl
  | phi result type incoming =>
    rw [lowerOperation] at success
    cases scalar : lowerType type with
    | none => simp [scalar] at success
    | some scalarType =>
      simp only [scalar] at success
      split at success
      · cases success
      · simp only [bind_ok, lowerIncoming_ok] at success
        obtain ⟨register, created, creates, _, named, names, sources, _, ⟨each, same⟩, success⟩ :=
          success
        subst same
        cases creates
        cases names
        cases success
        exact numbered.create rfl rfl rfl rfl
  | matMul _ _ _ _ | relu _ _ _ => simp [lowerOperation] at success

private theorem lowerOperations_numbered {operations : List Operation} (numbered : Numbered builder)
    (success : lowerOperations needsRuntime labels operations builder = .ok () final) :
    Numbered final := by
  induction operations generalizing builder with
  | nil =>
    cases success
    exact numbered
  | cons operation operations ih =>
    obtain ⟨middle, first, rest⟩ := then_ok.mp success
    exact ih (lowerOperation_numbered numbered first) rest

private theorem releaseSlots_numbered {slots : List (ValueId × SlotId)} (numbered : Numbered builder)
    (success : releaseSlots needsRuntime slots builder = .ok () final) : Numbered final := by
  induction slots generalizing builder with
  | nil =>
    cases success
    exact numbered
  | cons entry slots ih =>
    obtain ⟨id, slot⟩ := entry
    simp only [releaseSlots, bind_ok, requireRuntime_ok] at success
    obtain ⟨_, start, ⟨_, same⟩, pointer, loaded, loads, _, freed, frees, rest⟩ := success
    subst same
    cases loads
    cases frees
    have loaded : Numbered ({ start with nextRegister := start.nextRegister + 1 }.append
        [.load start.nextRegister (.slot slot)]) := numbered.create rfl rfl rfl rfl
    exact ih (loaded.emit rfl) rest

theorem Numbered.terminate (numbered : Numbered builder) (terminator : LLVM.Terminator) :
    Numbered (builder.terminate terminator) := by
  refine numbered.same ?_ (Nat.le_refl _) (Nat.le_refl _)
  intro operand label index ⟨instruction, ⟨body, found, present⟩, result⟩
  simp only [Builder.terminate, Builder.changeBlock, List.getElem?_modify] at found
  split at found
  · obtain ⟨before, same, rfl⟩ := Option.map_eq_some_iff.mp found
    exact ⟨instruction, ⟨before, same, present⟩, result⟩
  · exact ⟨instruction, ⟨body, by simpa using found, present⟩, result⟩

private theorem lowerTerminator_numbered {id : BlockId} {last : IR.Terminator} (numbered : Numbered builder)
    (success : lowerTerminator needsRuntime labels order id last builder = .ok () final) :
    Numbered final := by
  cases last with
  | branch target =>
    simp only [lowerTerminator, bind_ok, labelAt_ok] at success
    obtain ⟨label, _, ⟨found, same⟩, success⟩ := success
    subst same
    cases success
    exact numbered.terminate _
  | condBranch condition trueTarget falseTarget =>
    simp only [lowerTerminator, bind_ok, labelAt_ok, valueAt_ok] at success
    obtain ⟨operand, _, ⟨tested, same⟩, trueLabel, _, ⟨first, same'⟩, falseLabel, _,
      ⟨second, same''⟩,
      success⟩ := success
    subst same same' same''
    cases success
    exact numbered.terminate _
  | returnOp value =>
    simp only [lowerTerminator, bind_ok, get_apply, valueAt_ok] at success
    obtain ⟨_, start, same, _, released, releases, operand, looked, ⟨found, same'⟩,
      status, truncated,
      truncates, success⟩ := success
    cases same
    subst same'
    cases truncates
    cases success
    have truncated : Numbered ({ looked with nextRegister := looked.nextRegister + 1 }.append
        [.trunc looked.nextRegister operand]) :=
      (releaseSlots_numbered numbered releases).create rfl rfl rfl rfl
    exact truncated.terminate _

private theorem lowerBlocks_numbered {blocks : List IR.BasicBlock} (numbered : Numbered builder)
    (success : lowerBlocks needsRuntime labels order blocks builder = .ok () final) :
    Numbered final := by
  induction blocks generalizing builder with
  | nil =>
    cases success
    exact numbered
  | cons block blocks ih =>
    obtain ⟨middle, first, rest⟩ := then_ok.mp success
    refine ih ?_ rest
    simp only [lowerBlock, bind_ok, labelAt_ok] at first
    obtain ⟨label, start, ⟨labelled, same⟩, _, moved, moves, _, filled, operations, first⟩ := first
    subst same
    cases moves
    have moved : Numbered (Builder.moveTo _ label) :=
      numbered.same (fun _ _ _ present => present) (Nat.le_refl _) (Nat.le_refl _)
    have filled := lowerOperations_numbered moved operations
    cases ends : block.terminator with
    | none => simp [ends] at first
    | some last =>
      simp only [ends] at first
      exact lowerTerminator_numbered filled first

private theorem createCleanupSlots_numbered {operations : List Operation} (numbered : Numbered builder)
    (success : createCleanupSlots operations builder = .ok () final) : Numbered final := by
  induction operations generalizing builder with
  | nil =>
    cases success
    exact numbered
  | cons operation operations ih =>
    obtain ⟨middle, first, rest⟩ := then_ok.mp success
    refine ih ?_ rest
    cases operation with
    | tensorDecl result name type =>
      cases first
      have allocated : Numbered ({ builder with nextSlot := builder.nextSlot + 1 }.emit
          (.alloca builder.nextSlot)) := by
        refine numbered.append (fun operand same => ?_) rfl (Nat.le_refl _) (Nat.le_succ _)
        cases same
        simp [Builder.Issued, Builder.emit, Builder.changeBlock]
      have stored : Numbered (Builder.emit _ (.store .null (.slot builder.nextSlot))) :=
        allocated.emit rfl
      exact stored.same (fun _ _ _ present => present) (Nat.le_refl _) (Nat.le_refl _)
    | _ =>
      cases first
      exact numbered

/-- Every result in a lowered function belongs to one instruction. -/
theorem lowerModule_single (verified : Verified module)
    (success : lowerModule order module {} = .ok () final) : final.function.SingleDefinitions := by
  simp only [lowerModule, bind_ok, labelAt_ok] at success
  obtain ⟨labels, _, creates, entry, created, ⟨entered, same⟩, _, moved, moves, _, started, starts,
    success⟩ := success
  subst same
  cases moves
  obtain ⟨same, _⟩ := createBlocks_ok verified.ids (by simp) creates
  have empty (operand label index) : ¬ created.function.Defines operand label index := by
    intro defines
    obtain ⟨instruction, ⟨body, found, present⟩, _⟩ := defines
    rw [same] at found
    simp only [List.nil_append, List.getElem?_map] at found
    obtain ⟨block, _, rfl⟩ := Option.map_eq_some_iff.mp found
    cases present
  have numbered : Numbered (Builder.moveTo created entry) :=
    ⟨fun _ _ _ _ _ first => absurd first (empty _ _ _),
      fun _ _ _ first => absurd first (empty _ _ _)⟩
  exact (lowerBlocks_numbered (createCleanupSlots_numbered numbered starts) success).single

end Ocelotl.Codegen
