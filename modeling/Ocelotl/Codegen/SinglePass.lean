import Ocelotl.Codegen.LoweredCode
import Ocelotl.IR.BlockOrder

namespace Ocelotl.Codegen

open IR Library LLVM

/-- What the lowering of an operation checks, apart from its lookups. -/
def supported : Operation → Except LoweringError Unit
  | .tensorDecl _ _ type => do
    let _ ← tensorStorageSize type
    return ()
  | .phi _ type incoming =>
    if lowerType type = none then throw .unsupportedPhi
    else if incoming.length > maxUnsigned then throw .tooManyPhiOperands
    else return ()
  | .matMul _ _ _ _ | .relu _ _ _ => throw .tensorLowering
  | .constantInt _ _ _ | .constantFloat _ _ _ | .binary _ _ _ _ _ | .compare _ _ _ _ _ => return ()

variable {builder middle final : Builder} {labels : Labels} {needsRuntime : Bool}
  {order : TraversalOrder} {operation : Operation} {operations : List Operation}
  {module : IR.Module}

/-- Everything that the lowering of an operation looks up is there. -/
structure Ready (needsRuntime : Bool) (labels : Labels) (builder : Builder)
    (operation : Operation) :
    Prop where
  operands : ∀ value ∈ operation.operands ++ operation.incoming.map PhiIncoming.value,
    value ∈ builder.values
  blocks : ∀ incoming ∈ operation.incoming, incoming.predecessor ∈ labels
  storage : declaresTensor operation = true →
    needsRuntime = true ∧ resultOf operation ∈ builder.cleanupSlots

private theorem valueAt_of_mem {id : ValueId} (member : id ∈ builder.values) :
    ∃ operand, valueAt id builder = .ok operand builder := by
  obtain ⟨operand, found⟩ := Option.isSome_iff_exists.mp (AList.lookup_isSome.mpr member)
  exact ⟨operand, valueAt_ok.mpr ⟨found, rfl⟩⟩

private theorem labelAt_of_mem {id : BlockId} (builder : Builder) (member : id ∈ labels) :
    ∃ label, labelAt labels id builder = .ok label builder := by
  obtain ⟨label, found⟩ := Option.isSome_iff_exists.mp (AList.lookup_isSome.mpr member)
  exact ⟨label, labelAt_ok.mpr ⟨found, rfl⟩⟩

private theorem cleanupSlotAt_of_mem {id : ValueId} (member : id ∈ builder.cleanupSlots) :
    ∃ slot, cleanupSlotAt id builder = .ok slot builder := by
  obtain ⟨slot, found⟩ := Option.isSome_iff_exists.mp (AList.lookup_isSome.mpr member)
  exact ⟨slot, cleanupSlotAt_ok.mpr ⟨found, rfl⟩⟩

private theorem lowerIncoming_of_mem {incoming : List PhiIncoming}
    (values : ∀ source ∈ incoming, source.value ∈ builder.values)
    (blocks : ∀ source ∈ incoming, source.predecessor ∈ labels) :
    ∃ sources, lowerIncoming labels incoming builder = .ok sources builder := by
  induction incoming with
  | nil => exact ⟨[], rfl⟩
  | cons source incoming ih =>
    obtain ⟨operand, looked⟩ := valueAt_of_mem (values source List.mem_cons_self)
    obtain ⟨label, found⟩ := labelAt_of_mem builder (blocks source List.mem_cons_self)
    obtain ⟨sources, rest⟩ := ih (fun other member => values other (List.mem_cons_of_mem _ member))
      (fun other member => blocks other (List.mem_cons_of_mem _ member))
    refine ⟨(operand, label) :: sources, ?_⟩
    rw [lowerIncoming, bind_of_ok looked, bind_of_ok found, bind_of_ok rest]
    rfl

/-- The lowering of an operation whose lookups succeed is decided by its checks. -/
theorem lowerOperation_outcome (ready : Ready needsRuntime labels builder operation) :
    outcome (lowerOperation needsRuntime labels operation) builder = supported operation := by
  cases operation with
  | tensorDecl result name type =>
    obtain ⟨runtime, slotted⟩ := ready.storage rfl
    subst runtime
    have declared : requireRuntime true builder = .ok () builder := rfl
    rw [lowerOperation, supported, outcome_bind_of_ok declared]
    cases sized : tensorStorageSize type with
    | error error => rfl
    | ok size =>
      let created : Builder := { builder with nextRegister := builder.nextRegister + 1 }.append
        [.callAlloc builder.nextRegister (BitVec.ofNat 64 size) 64]
      obtain ⟨slot, looked⟩ : ∃ slot, cleanupSlotAt result created = .ok slot created :=
        cleanupSlotAt_of_mem slotted
      rw [outcome_bind_of_ok (ofExcept_ok size builder),
        outcome_bind_of_ok (create_apply _ builder),
        outcome_bind_of_ok looked]
      rfl
  | constantInt result value type => rfl
  | constantFloat result value type => rfl
  | binary result kind lhs rhs type =>
    obtain ⟨left, foundLeft⟩ := valueAt_of_mem (ready.operands lhs (by simp [Operation.operands]))
    obtain ⟨right, foundRight⟩ := valueAt_of_mem (ready.operands rhs (by simp [Operation.operands]))
    rw [lowerOperation, outcome_bind_of_ok foundLeft, outcome_bind_of_ok foundRight]
    rfl
  | compare result kind lhs rhs operandType =>
    obtain ⟨left, foundLeft⟩ := valueAt_of_mem (ready.operands lhs (by simp [Operation.operands]))
    obtain ⟨right, foundRight⟩ := valueAt_of_mem (ready.operands rhs (by simp [Operation.operands]))
    rw [lowerOperation, outcome_bind_of_ok foundLeft, outcome_bind_of_ok foundRight]
    rfl
  | phi result type incoming =>
    rw [lowerOperation, supported]
    cases scalar : lowerType type with
    | none => rfl
    | some scalarType =>
      by_cases long : incoming.length > maxUnsigned
      · simp only [if_pos long]
        rfl
      · simp only [if_neg long]
        have present (source) (member : source ∈ incoming) : source.value ∈
            (builder.values.emplace result (.register builder.nextRegister)).2 :=
          UnorderedMap.mem_emplace.mpr (.inl (ready.operands _ (List.mem_append_right _
            (List.mem_map_of_mem member))))
        let named : Builder := { builder with
          nextRegister := builder.nextRegister + 1
          values := (builder.values.emplace result (.register builder.nextRegister)).2 }
        obtain ⟨sources, looked⟩ :
            ∃ sources, lowerIncoming labels incoming named = .ok sources named :=
          lowerIncoming_of_mem present ready.blocks
        have created : newRegister builder =
          .ok builder.nextRegister { builder with nextRegister := builder.nextRegister + 1 } := rfl
        have names : emplaceValue result (.register builder.nextRegister)
          { builder with nextRegister := builder.nextRegister + 1 } = .ok () named := rfl
        rw [outcome_bind_of_ok created, outcome_bind_of_ok names, outcome_bind_of_ok looked]
        rfl
  | matMul _ _ _ _ => rfl
  | relu _ _ _ => rfl

/-- A lowered operation has a value, next to the older ones. -/
theorem lowerOperation_values
    (success : lowerOperation needsRuntime labels operation builder = .ok () final) :
    (∃ operand, final.values = (builder.values.emplace (resultOf operation) operand).2) ∧
      final.cleanupSlots = builder.cleanupSlots := by
  cases operation with
  | tensorDecl result name type =>
    simp only [lowerOperation, bind_ok, requireRuntime_ok, ofExcept_apply_ok,
      cleanupSlotAt_ok] at success
    obtain ⟨_, start, ⟨_, same⟩, size, _, ⟨sized, same'⟩, operand, created, creates, slot, _,
      ⟨slotted, same''⟩, _, stored, stores, success⟩ := success
    subst same same' same''
    cases creates
    cases stores
    cases success
    exact ⟨⟨_, rfl⟩, rfl⟩
  | constantInt result value type | constantFloat result value type =>
    cases success
    exact ⟨⟨_, rfl⟩, rfl⟩
  | binary result kind lhs rhs type | compare result kind lhs rhs type =>
    simp only [lowerOperation, bind_ok, valueAt_ok] at success
    obtain ⟨lhsOperand, _, ⟨left, same⟩, rhsOperand, _, ⟨right, same'⟩, operand, created, creates,
      success⟩ := success
    subst same same'
    cases creates
    cases success
    exact ⟨⟨_, rfl⟩, rfl⟩
  | phi result type incoming =>
    rw [lowerOperation] at success
    cases scalar : lowerType type with
    | none => simp [scalar] at success
    | some scalarType =>
      simp only [scalar] at success
      split at success
      · cases success
      · simp only [bind_ok, lowerIncoming_ok] at success
        obtain ⟨register, created, creates, _, named, names, sources, _, ⟨each, same⟩, success⟩ :=
          success
        subst same
        cases creates
        cases names
        cases success
        exact ⟨⟨_, rfl⟩, rfl⟩
  | matMul _ _ _ _ | relu _ _ _ => simp [lowerOperation] at success

/-- The values of a list of operations, which are in the order of their uses. -/
theorem lowerOperations_outcome (blocks : ∀ operation ∈ operations,
      ∀ incoming ∈ operation.incoming, incoming.predecessor ∈ labels)
    (storage : ∀ operation ∈ operations, declaresTensor operation = true →
      needsRuntime = true ∧ resultOf operation ∈ builder.cleanupSlots)
    (ordered : ∀ (index : Nat) operation, operations[index]? = some operation →
      ∀ value ∈ operation.operands ++ operation.incoming.map PhiIncoming.value,
        value ∈ builder.values ∨ ∃ (position : Nat) (earlier : Operation), position < index ∧
          operations[position]? = some earlier ∧ resultOf earlier = value) :
    outcome (lowerOperations needsRuntime labels operations) builder =
      forM operations supported := by
  induction operations generalizing builder with
  | nil => rfl
  | cons operation operations ih =>
    have ready : Ready needsRuntime labels builder operation := by
      refine ⟨fun value member => ?_, blocks _ List.mem_cons_self, storage _ List.mem_cons_self⟩
      rcases ordered 0 operation rfl value member with present | ⟨_, _, less, _⟩
      · exact present
      · exact absurd less (Nat.not_lt_zero _)
    have first := lowerOperation_outcome ready
    rw [lowerOperations, List.forM_cons]
    cases checked : supported operation with
    | error error =>
      rw [checked] at first
      obtain ⟨final, failure⟩ := outcome_eq_error.mp first
      rw [outcome, bind_of_error failure]
      rfl
    | ok _ =>
      rw [checked] at first
      obtain ⟨middle, success⟩ := outcome_eq_ok.mp first
      obtain ⟨⟨operand, values⟩, slots⟩ := lowerOperation_values success
      rw [outcome_bind_of_ok success]
      apply ih (fun other member => blocks other (List.mem_cons_of_mem _ member))
      · rw [slots]
        exact fun other member => storage other (List.mem_cons_of_mem _ member)
      · intro index other here value member
        rw [values]
        rcases ordered (index + 1) other here value member with
          old | ⟨position, earlier, less, at', same⟩
        · exact .inl (UnorderedMap.mem_emplace.mpr (.inl old))
        · cases position with
          | zero =>
            cases at'
            exact .inl (UnorderedMap.mem_emplace.mpr (.inr same.symm))
          | succ position => exact .inr ⟨position, earlier, Nat.lt_of_succ_lt_succ less, at', same⟩

theorem lowerOperations_values
    (success : lowerOperations needsRuntime labels operations builder = .ok () final) :
    (∀ id, id ∈ final.values ↔ id ∈ builder.values ∨ id ∈ operations.map resultOf) ∧
      final.cleanupSlots = builder.cleanupSlots := by
  induction operations generalizing builder with
  | nil =>
    cases success
    simp
  | cons operation operations ih =>
    obtain ⟨middle, first, rest⟩ := then_ok.mp success
    obtain ⟨⟨operand, values⟩, slots⟩ := lowerOperation_values first
    obtain ⟨members, slots'⟩ := ih rest
    refine ⟨fun id => ?_, slots'.trans slots⟩
    rw [members, values, UnorderedMap.mem_emplace, List.map_cons, List.mem_cons, or_assoc]

private theorem releaseSlots_total {slots : List (ValueId × SlotId)}
    (runtime : slots ≠ [] → needsRuntime = true) :
    ∃ final, releaseSlots needsRuntime slots builder = .ok () final := by
  induction slots generalizing builder with
  | nil => exact ⟨builder, rfl⟩
  | cons entry slots ih =>
    have needed := runtime (List.cons_ne_nil _ _)
    subst needed
    exact ih fun _ => rfl

private theorem lowerTerminator_outcome {id : BlockId} {last : IR.Terminator}
    (operands : ∀ value ∈ last.operands, value ∈ builder.values)
    (targets : ∀ target ∈ last.targets, target ∈ labels)
    (runtime : ∀ value, value ∈ builder.cleanupSlots → needsRuntime = true) :
    outcome (lowerTerminator needsRuntime labels order id last) builder = .ok () := by
  cases last with
  | branch target =>
    obtain ⟨label, found⟩ := labelAt_of_mem builder (targets target (by simp))
    rw [lowerTerminator, outcome_bind_of_ok found]
    rfl
  | condBranch condition trueTarget falseTarget =>
    obtain ⟨operand, looked⟩ := valueAt_of_mem (operands condition (by simp))
    obtain ⟨trueLabel, first⟩ := labelAt_of_mem builder (targets trueTarget (by simp))
    obtain ⟨falseLabel, second⟩ := labelAt_of_mem builder (targets falseTarget (by simp))
    rw [lowerTerminator, outcome_bind_of_ok looked, outcome_bind_of_ok first,
      outcome_bind_of_ok second]
    rfl
  | returnOp value =>
    have needed : order.traverse id builder.cleanupSlots ≠ [] → needsRuntime = true := by
      intro nonempty
      obtain ⟨entry, member⟩ := List.exists_mem_of_ne_nil _ nonempty
      have found := order.mem_traverse.mp (show (entry.1, entry.2) ∈ _ from member)
      exact runtime entry.1 (AList.lookup_isSome.mp (by rw [found]; rfl))
    obtain ⟨released, releases⟩ : ∃ released, releaseSlots needsRuntime
        (order.traverse id builder.cleanupSlots) builder = .ok () released :=
          releaseSlots_total needed
    have present : value ∈ released.values := releaseSlots_ok releases ▸ operands value (by simp)
    obtain ⟨operand, looked⟩ := valueAt_of_mem present
    rw [lowerTerminator, outcome_bind_of_ok (get_apply builder), outcome_bind_of_ok releases,
      outcome_bind_of_ok looked]
    rfl

private theorem lowerTerminator_values {id : BlockId} {last : IR.Terminator}
    (success : lowerTerminator needsRuntime labels order id last builder = .ok () final) :
    final.values = builder.values ∧ final.cleanupSlots = builder.cleanupSlots := by
  cases last with
  | branch target =>
    simp only [lowerTerminator, bind_ok, labelAt_ok] at success
    obtain ⟨label, _, ⟨found, same⟩, success⟩ := success
    subst same
    cases success
    exact ⟨rfl, rfl⟩
  | condBranch condition trueTarget falseTarget =>
    simp only [lowerTerminator, bind_ok, labelAt_ok, valueAt_ok] at success
    obtain ⟨operand, _, ⟨tested, same⟩, trueLabel, _, ⟨first, same'⟩, falseLabel, _,
      ⟨second, same''⟩,
      success⟩ := success
    subst same same' same''
    cases success
    exact ⟨rfl, rfl⟩
  | returnOp value =>
    simp only [lowerTerminator, bind_ok, get_apply, valueAt_ok] at success
    obtain ⟨_, start, same, _, released, releases, operand, _, ⟨found, same'⟩, status, truncated,
      truncates, success⟩ := success
    cases same
    have same := releaseSlots_ok releases
    subst same same'
    cases truncates
    cases success
    exact ⟨rfl, rfl⟩

/-- The parts of a block that are needed to lower it after these values. -/
structure BlockReady (needsRuntime : Bool) (labels : Labels) (builder : Builder)
    (block : IR.BasicBlock) : Prop where
  label : block.id ∈ labels
  terminated : block.terminator ≠ none
  targets : ∀ target ∈ block.targets, target ∈ labels
  sources : ∀ operation ∈ block.operations, ∀ incoming ∈ operation.incoming,
    incoming.predecessor ∈ labels
  storage : ∀ operation ∈ block.operations, declaresTensor operation = true →
    needsRuntime = true ∧ resultOf operation ∈ builder.cleanupSlots
  runtime : ∀ value, value ∈ builder.cleanupSlots → needsRuntime = true

private theorem lowerBlock_outcome {block : IR.BasicBlock}
    (ready : BlockReady needsRuntime labels builder block)
    (ordered : ∀ (index : Nat) operation, block.operations[index]? = some operation →
      ∀ value ∈ operation.operands ++ operation.incoming.map PhiIncoming.value,
        value ∈ builder.values ∨ ∃ (position : Nat) (earlier : Operation), position < index ∧
          block.operations[position]? = some earlier ∧ resultOf earlier = value)
    (last : ∀ last, block.terminator = some last → ∀ value ∈ last.operands,
      value ∈ builder.values ∨ value ∈ block.operations.map resultOf) :
    outcome (lowerBlock needsRuntime labels order block) builder =
      forM block.operations supported := by
  obtain ⟨label, found⟩ := labelAt_of_mem builder ready.label
  have moves : setInsertPoint label builder = .ok () (builder.moveTo label) := rfl
  rw [lowerBlock, outcome_bind_of_ok found, outcome_bind_of_ok moves]
  have first :
      outcome (lowerOperations needsRuntime labels block.operations) (builder.moveTo label) =
      forM block.operations supported :=
    lowerOperations_outcome ready.sources ready.storage ordered
  cases checked : forM block.operations supported with
  | error error =>
    rw [checked] at first
    obtain ⟨final, failure⟩ := outcome_eq_error.mp first
    rw [outcome, bind_of_error failure]
  | ok _ =>
    rw [checked] at first
    obtain ⟨middle, success⟩ := outcome_eq_ok.mp first
    obtain ⟨members, slots⟩ := lowerOperations_values success
    rw [outcome_bind_of_ok success]
    cases ends : block.terminator with
    | none => exact absurd ends ready.terminated
    | some terminator =>
      have operands (value) (member : value ∈ terminator.operands) : value ∈ middle.values :=
        (members value).mpr (last terminator ends value member)
      exact lowerTerminator_outcome operands
        (fun target member => ready.targets target (by rwa [BasicBlock.targets_of_terminator ends]))
        (slots ▸ ready.runtime)

theorem lowerBlock_values {block : IR.BasicBlock}
    (success : lowerBlock needsRuntime labels order block builder = .ok () final) :
    (∀ id, id ∈ final.values ↔ id ∈ builder.values ∨ id ∈ block.results) ∧
      final.cleanupSlots = builder.cleanupSlots := by
  simp only [lowerBlock, bind_ok, labelAt_ok] at success
  obtain ⟨label, _, ⟨_, same⟩, _, moved, moves, _, middle, first, success⟩ := success
  subst same
  cases moves
  obtain ⟨members, slots⟩ := lowerOperations_values first
  cases ends : block.terminator with
  | none => simp [ends] at success
  | some last =>
    simp only [ends] at success
    obtain ⟨values', slots'⟩ := lowerTerminator_values success
    exact ⟨values' ▸ members, slots'.trans slots⟩

/-- The blocks after those that are lowered. -/
theorem lowerBlocks_outcome {done blocks : List IR.BasicBlock}
    (split : module.blocks = done ++ blocks) (ordered : DefinitionOrdered module)
    (defined : ∀ value ∈ done.flatMap IR.BasicBlock.results, value ∈ builder.values)
    (ready : ∀ block ∈ blocks, BlockReady needsRuntime labels builder block) :
    outcome (lowerBlocks needsRuntime labels order blocks) builder =
      forM (blocks.flatMap IR.BasicBlock.operations) supported := by
  induction blocks generalizing builder done with
  | nil => rfl
  | cons block blocks ih =>
    have here : module.blocks[done.length]? = some block := by simp [split]
    -- What is defined earlier is defined in a block that is lowered, or in this one.
    have earlier {value index} (before : DefinedEarlier module value done.length index) :
        value ∈ builder.values ∨ ∃ (position : Nat) (operation : Operation), position < index ∧
          block.operations[position]? = some operation ∧ resultOf operation = value := by
      obtain ⟨source, position, body, operation, found, at', result, less | ⟨same, less⟩⟩ := before
      · left
        rw [split, List.getElem?_append_left less] at found
        exact defined value (List.mem_flatMap.mpr ⟨body, List.mem_of_getElem? found,
          List.mem_map.mpr ⟨operation, List.mem_of_getElem? at', result⟩⟩)
      · right
        cases here.symm.trans (same ▸ found)
        exact ⟨position, operation, less, at', result⟩
    have first : outcome (lowerBlock needsRuntime labels order block) builder =
        forM block.operations supported := by
      apply lowerBlock_outcome (ready block List.mem_cons_self)
      · intro index operation at' value member
        exact earlier (ordered.operands done.length index block operation here at' value member)
      · intro last ends value member
        rcases earlier (ordered.terminators done.length block last here ends value member) with
          old | ⟨position, operation, _, at', result⟩
        · exact .inl old
        · exact .inr (List.mem_map.mpr ⟨operation, List.mem_of_getElem? at', result⟩)
    rw [lowerBlocks, List.flatMap_cons, List.forM_append]
    cases checked : forM block.operations supported with
    | error error =>
      rw [checked] at first
      obtain ⟨final, failure⟩ := outcome_eq_error.mp first
      rw [outcome, bind_of_error failure]
      rfl
    | ok _ =>
      rw [checked] at first
      obtain ⟨middle, success⟩ := outcome_eq_ok.mp first
      obtain ⟨members, slots⟩ := lowerBlock_values success
      rw [outcome_bind_of_ok success]
      have split' : module.blocks = (done ++ [block]) ++ blocks := by simp [split]
      apply ih split'
      · intro value member
        rw [List.flatMap_append, List.mem_append] at member
        rcases member with old | new
        · exact (members value).mpr (.inl (defined value old))
        · exact (members value).mpr (.inr (by simpa using new))
      · intro other member
        have ready := ready other (List.mem_cons_of_mem _ member)
        exact { ready with storage := slots ▸ ready.storage, runtime := slots ▸ ready.runtime }

/-- The lowering of a verified module whose definitions come first is decided
by the checks of its operations, one after another. -/
theorem lowerModule_outcome (verified : Verified module) (ordered : DefinitionOrdered module) :
    outcome (lowerModule order module) {} = forM (operationsOf module) supported := by
  obtain ⟨labels, entry, started, labelled, _, slotted, same⟩ := lowerModule_eq order verified
  rw [outcome, same]
  have label {id} (present : ∃ block ∈ module.blocks, block.id = id) : id ∈ labels := by
    obtain ⟨block, member, same⟩ := present
    obtain ⟨index, here⟩ := List.getElem?_of_mem member
    exact AList.lookup_isSome.mp (by rw [(labelled id index).mpr ⟨block, here, same⟩]; rfl)
  have slot (value) : value ∈ started.cleanupSlots ↔
      value ∈ declaredTensors (operationsOf module) := by
    have numbered : started.cleanupSlots.pairs =
        (declaredTensors (operationsOf module)).zipIdx.reverse := by
      simpa [Builder.created, UnorderedMap.pairs] using slotted.pairs
    rw [← AList.lookup_isSome, Option.isSome_iff_exists, List.mem_iff_getElem?]
    simp only [UnorderedMap.lookup_of_zipIdx numbered]
  have declared (operation) (member : operation ∈ operationsOf module)
      (declares : declaresTensor operation = true) :
      (operationsOf module).any declaresTensor = true ∧ resultOf operation ∈ started.cleanupSlots :=
    ⟨List.any_eq_true.mpr ⟨operation, member, declares⟩,
      (slot _).mpr (List.mem_map_of_mem (List.mem_filter.mpr ⟨member, declares⟩))⟩
  apply lowerBlocks_outcome (List.nil_append _).symm ordered (by simp)
  intro block member
  refine ⟨label ⟨block, member, rfl⟩, verified.terminated block member, ?_, ?_, ?_, ?_⟩
  · exact fun target aimed => label (verified.targets block member target aimed)
  · intro operation here incoming listed
    have phi : operation.isPhi = true := by
      cases operation <;> first | rfl | cases listed
    obtain ⟨other, present, same, _⟩ := ((verified.predecessors block member operation here phi).2
      incoming.predecessor).mp (List.mem_map_of_mem listed)
    exact label ⟨other, present, same⟩
  · exact fun operation here => declared operation (List.mem_flatMap.mpr ⟨block, member, here⟩)
  · intro value present
    obtain ⟨operation, filtered, _⟩ := List.mem_map.mp ((slot value).mp present)
    obtain ⟨member, declares⟩ := List.mem_filter.mp filtered
    exact (declared operation member declares).1

private theorem lookup_valueTypes_of {types : UnorderedMap ValueId TensorType}
    (distinct : (operations.map resultOf).Nodup)
    (absent : ∀ operation ∈ operations, resultOf operation ∉ types)
    (found : types.lookup value = some type ∨
      ∃ operation ∈ operations, resultOf operation = value ∧ typeOf operation = type) :
    (operations.foldl
      (fun types operation => (types.emplace (resultOf operation) (typeOf operation)).2)
      types).lookup value = some type := by
  induction operations generalizing types with
  | nil => simpa using found
  | cons operation operations ih =>
    obtain ⟨new, distinct⟩ := List.nodup_cons.mp distinct
    have absentHere := absent operation List.mem_cons_self
    refine ih distinct (fun other member present => ?_) ?_
    · rcases UnorderedMap.mem_emplace.mp present with old | same
      · exact absent other (List.mem_cons_of_mem _ member) old
      · exact new (same ▸ List.mem_map_of_mem member)
    · rcases found with old | ⟨other, member, result, typed⟩
      · exact .inl (UnorderedMap.lookup_emplace_of_some old)
      · rcases List.mem_cons.mp member with rfl | later
        · left
          rw [UnorderedMap.lookup_emplace_absent absentHere, if_pos result.symm, typed]
        · exact .inr ⟨other, later, result, typed⟩

/-- The types of the operations are found under their results. -/
theorem lookup_valueTypes (verified : Verified module) {definition : Definition}
    (defines : module.Defines value definition) :
    (valueTypes (operationsOf module)).lookup value = some definition.type := by
  obtain ⟨block, member, operation, here, result, typed⟩ := defines.operation
  apply lookup_valueTypes_of
  · rw [results_operationsOf]
    exact verified.results
  · simp
  · exact .inr ⟨operation, List.mem_flatMap.mpr ⟨block, member, here⟩, result, typed⟩

private theorem firstReturnType_of {types : UnorderedMap ValueId TensorType} {blocks : List IR.BasicBlock}
    (terminated : ∀ block ∈ blocks, block.terminator ≠ none)
    (returns : ∃ block ∈ blocks, ∃ value, block.terminator = some (.returnOp value))
    (typed : ∀ block ∈ blocks, ∀ value, block.terminator = some (.returnOp value) →
      types.lookup value = some type) : firstReturnType types blocks = .ok (some type) := by
  induction blocks with
  | nil =>
    obtain ⟨_, member, _⟩ := returns
    cases member
  | cons block blocks ih =>
    rw [List.forall_mem_cons] at terminated typed
    have later (ordinary : ∀ value, block.terminator ≠ some (.returnOp value)) :
        firstReturnType types blocks = .ok (some type) := by
      refine ih terminated.2 ?_ typed.2
      obtain ⟨other, member, value, ends⟩ := returns
      rcases List.mem_cons.mp member with rfl | member
      · exact absurd ends (ordinary value)
      · exact ⟨other, member, value, ends⟩
    rw [firstReturnType]
    cases ends : block.terminator with
    | none => exact absurd ends terminated.1
    | some last =>
      cases last with
      | branch target => exact later (by simp [ends])
      | condBranch condition trueTarget falseTarget => exact later (by simp [ends])
      | returnOp value =>
        simp only [typed.1 value ends]
        rfl

/-- All returns of a verified module have the type that the back end looks up. -/
theorem firstReturnType_of_verified (verified : Verified module) :
    ∃ type, firstReturnType (valueTypes (operationsOf module)) module.blocks = .ok (some type) ∧
      ∀ block ∈ module.blocks, ∀ value, block.terminator = some (.returnOp value) →
        ∃ definition, module.Defines value definition ∧ definition.type = type := by
  obtain ⟨type, exists', typed⟩ := verified.returns
  refine ⟨type, firstReturnType_of verified.terminated exists' fun block member value ends => ?_,
    typed⟩
  obtain ⟨definition, defines, same⟩ := typed block member value ends
  rw [lookup_valueTypes verified defines, same]

/-- The errors that stand for a lookup without a result: a missing key, a block
without a terminator, and a runtime function that is not declared. -/
def LoweringError.isMissing : LoweringError → Bool
  | .outOfRange | .unterminated | .runtimeNotDeclared => true
  | .verification _ | .returnNotScalarI64 | .unsupportedStorage | .storageOverflow | .unsupportedPhi
  | .tooManyPhiOperands | .tensorLowering | .invalidLLVM _ => false

private theorem multiplyDimensions_error {dimensions : List Nat} {size : Nat}
    (failure : multiplyDimensions size dimensions = .error error) : error = .storageOverflow := by
  induction dimensions generalizing size with
  | nil => cases failure
  | cons dimension dimensions ih =>
    rw [multiplyDimensions] at failure
    split at failure
    · cases failure
      rfl
    · exact ih failure

private theorem tensorStorageSize_error {type : TensorType}
    (failure : tensorStorageSize type = .error error) :
    error = .unsupportedStorage ∨ error = .storageOverflow := by
  dsimp only [tensorStorageSize] at failure
  generalize (if type.elementType = "f32" then 4
    else if type.elementType = "f64" ∨ type.elementType = "i64" then 8 else 0) = size at failure
  split at failure
  · cases failure
    exact .inl rfl
  · exact .inr (multiplyDimensions_error failure)

/-- What an operation is checked for is not a lookup. -/
theorem supported_not_missing (failure : supported operation = .error error) :
    error.isMissing = false := by
  cases operation with
  | tensorDecl result name type =>
    rw [supported, except_bind_error] at failure
    rcases failure with unsized | ⟨_, _, impossible⟩
    · rcases tensorStorageSize_error unsized with rfl | rfl <;> rfl
    · cases impossible
  | phi result type incoming =>
    rw [supported] at failure
    split at failure
    · cases failure
      rfl
    · split at failure
      · cases failure
        rfl
      · cases failure
  | matMul | relu =>
    cases failure
    rfl
  | constantInt | constantFloat | binary | compare => cases failure

/-- What can stop the code generator on a verified module in this order. -/
theorem generate_error {verifyModule : LLVM.Function → Except String Unit}
    (verified : Verified module) (ordered : DefinitionOrdered module)
    (failure : generate order verifyModule module = .error error) :
    error = .returnNotScalarI64 ∨
      (∃ operation ∈ operationsOf module, supported operation = .error error) ∨
      ∃ message, error = .invalidLLVM message := by
  obtain ⟨type, typed, _⟩ := firstReturnType_of_verified verified
  rw [generate, verify_ok_iff.mpr verified] at failure
  simp only [typed, bind, Except.bind] at failure
  split at failure
  · cases failure
    exact .inl rfl
  have decided : outcome (lowerModule order module) {} = forM (operationsOf module) supported :=
    lowerModule_outcome verified ordered
  cases lowered : lowerModule order module {} with
  | error other final =>
    simp only [lowered] at failure
    cases failure
    rw [outcome, lowered] at decided
    exact .inr (.inl (exists_of_forM_eq_error decided.symm))
  | ok _ builder =>
    simp only [lowered] at failure
    cases accepted : verifyModule builder.function with
    | ok _ => simp [accepted, pure, Except.pure] at failure
    | error message =>
      simp only [accepted] at failure
      cases failure
      exact .inr (.inr ⟨message, rfl⟩)

/-- A module of the generator is in topological order, and nothing that its
lowering looks up is missing. -/
theorem generate_singlePass {analysisOrder generationOrder : TraversalOrder}
    {analyzer : Semantic.SemanticAnalyzer} {program : Ast.Program} {module : IR.Module}
    (_accepted : Semantic.analyze analysisOrder program = .ok analyzer)
    (generated : IR.generate generationOrder analyzer program = .ok module) :
    Topological module ∧ ∀ order verifyModule error,
      generate order verifyModule module = .error error → error.isMissing = false := by
  have topological := generate_topological generated
  refine ⟨topological, fun order verifyModule error failure => ?_⟩
  obtain ⟨_, _, checked, same⟩ := IR.generate_ok.mp generated
  have verified := verify_ok_iff.mp (same ▸ checked)
  rcases generate_error verified topological.toDefinitionOrdered failure with
    same | ⟨operation, _, unsupported⟩ | ⟨message, same⟩
  · exact same ▸ rfl
  · exact supported_not_missing unsupported
  · exact same ▸ rfl

theorem generate_singlePass_nestedConditional : ∃ analyzer module,
    Semantic.analyze .stored nestedConditional = .ok analyzer ∧
      IR.generate .stored analyzer nestedConditional = .ok module ∧
      Topological module ∧ ∀ order verifyModule error,
        generate order verifyModule module = .error error → error.isMissing = false := by
  obtain ⟨analyzer, module, accepted, generated⟩ :
      ∃ analyzer module, Semantic.analyze .stored nestedConditional = .ok analyzer ∧
        IR.generate .stored analyzer nestedConditional = .ok module :=
    exists_of_compile (by decide +kernel)
  exact ⟨analyzer, module, accepted, generated, generate_singlePass accepted generated⟩

end Ocelotl.Codegen
