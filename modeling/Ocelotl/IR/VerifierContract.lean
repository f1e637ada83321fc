import Ocelotl.IR.Verifier

namespace Ocelotl.IR

open Library

/-- The type that the verifier demands of each operand it types. -/
def Operation.typedOperands : Operation → List (ValueId × TensorType)
  | .binary _ _ lhs rhs type => [(lhs, type), (rhs, type)]
  | .compare _ _ lhs rhs operandType => [(lhs, operandType), (rhs, operandType)]
  | _ => []

def BasicBlock.results (block : BasicBlock) : List ValueId := block.operations.map resultOf

/-- Phis come before the other operations. -/
def PhisFirst (operations : List Operation) : Prop :=
  operations.Pairwise fun earlier later => later.isPhi = true → earlier.isPhi = true

/-- An operation of the block, at this position from the index on, defines the value. -/
def DefinedIn (block : BlockId) (index : Nat) (operations : List Operation) (value : ValueId)
    (definition : Definition) : Prop :=
  ∃ position operation, operations[position]? = some operation ∧ resultOf operation = value ∧
    definition = ⟨block, index + position, typeOf operation⟩

/-- The module defines the value there, with that type. -/
def Module.Defines (module : Module) (value : ValueId) (definition : Definition) : Prop :=
  ∃ block ∈ module.blocks, DefinedIn block.id 0 block.operations value definition

/-- The definition stands at this index of this block or later in it. -/
def Definition.NotBefore (definition : Definition) (block : BlockId) (index : Nat) : Prop :=
  definition.block = block ∧ index ≤ definition.operationIndex

/-- Everything the verifier demands of a module. -/
structure Verified (module : Module) : Prop where
  nonempty : module.blocks ≠ []
  ids : (module.blocks.map BasicBlock.id).Nodup
  terminated : ∀ block ∈ module.blocks, block.terminator ≠ none
  phisFirst : ∀ block ∈ module.blocks, PhisFirst block.operations
  results : (module.blocks.flatMap BasicBlock.results).Nodup
  entry : ∃ block ∈ module.blocks, block.id = module.entry
  targets : ∀ block ∈ module.blocks, ∀ target ∈ block.targets,
    ∃ other ∈ module.blocks, other.id = target
  typed : ∀ block ∈ module.blocks, ∀ index operation, block.operations[index]? = some operation →
    ∀ value type, (value, type) ∈ operation.typedOperands →
      ∃ definition, module.Defines value definition ∧ definition.type = type ∧
        ¬ definition.NotBefore block.id index
  operands : ∀ block ∈ module.blocks, ∀ operation ∈ block.operations,
    ∀ value ∈ operation.operands, ∃ definition, module.Defines value definition
  incoming : ∀ block ∈ module.blocks, ∀ index operation, block.operations[index]? = some operation →
    ∀ incoming ∈ operation.incoming, ∃ definition, module.Defines incoming.value definition ∧
      definition.type = typeOf operation ∧ ¬ definition.NotBefore block.id index
  predecessors : ∀ block ∈ module.blocks, ∀ operation ∈ block.operations, operation.isPhi = true →
    (operation.incoming.map PhiIncoming.predecessor).Nodup ∧
      ∀ source, source ∈ operation.incoming.map PhiIncoming.predecessor ↔
        ∃ other ∈ module.blocks, other.id = source ∧ block.id ∈ other.targets
  conditions : ∀ block ∈ module.blocks, ∀ condition trueTarget falseTarget,
    block.terminator = some (.condBranch condition trueTarget falseTarget) →
      ∃ definition, module.Defines condition definition ∧ definition.type = .scalar "i1"
  returns : ∃ type, (∃ block ∈ module.blocks, ∃ value, block.terminator = some (.returnOp value)) ∧
    ∀ block ∈ module.blocks, ∀ value, block.terminator = some (.returnOp value) →
      ∃ definition, module.Defines value definition ∧ definition.type = type

section Collecting

variable {block : BasicBlock} {blocks blocks' : UnorderedMap BlockId BasicBlock}
  {definitions definitions' : Definitions} {operation : Operation} {operations : List Operation}
  {value : ValueId} {sawNonPhi : Bool} {id : BlockId} {index : Nat}

private theorem collectOperations_cons_ok :
    collectOperations block index sawNonPhi (operation :: operations) definitions =
        .ok definitions' ↔
      ¬ (operation.isPhi = true ∧ sawNonPhi = true) ∧
      definitions.lookup (resultOf operation) = none ∧
      collectOperations block (index + 1) (sawNonPhi || !operation.isPhi) operations
        (definitions.insert (resultOf operation) ⟨block.id, index, typeOf operation⟩) =
          .ok definitions' := by
  rw [collectOperations]
  by_cases misplaced : operation.isPhi = true ∧ sawNonPhi = true
  · simp only [misplaced.1, misplaced.2, Bool.and_self, if_true, and_self, not_true_eq_false,
      false_and, iff_false]
    exact nofun
  · have placed : (operation.isPhi && sawNonPhi) = false := by
      rw [← Bool.not_eq_true, Bool.and_eq_true]
      exact misplaced
    rw [placed, if_neg Bool.false_ne_true]
    by_cases present : resultOf operation ∈ definitions
    · rw [UnorderedMap.emplace_present present]
      have found : AList.lookup (resultOf operation) definitions ≠ none := by
        rw [ne_eq, AList.lookup_eq_none]
        exact not_not_intro present
      simp only [found, false_and, and_false, iff_false]
      exact nofun
    · rw [UnorderedMap.emplace_absent present]
      simp only [misplaced, not_false_eq_true, AList.lookup_eq_none.mpr present, true_and]

/-- One block's operations are collected when its phis come first and no
result has been defined yet. -/
theorem collectOperations_ok_iff :
    (∃ definitions', collectOperations block index sawNonPhi operations definitions =
        .ok definitions') ↔
      (PhisFirst operations ∧ (sawNonPhi = true → ∀ operation ∈ operations,
        operation.isPhi = false)) ∧ (operations.map resultOf).Nodup ∧
      ∀ operation ∈ operations, definitions.lookup (resultOf operation) = none := by
  induction operations generalizing index sawNonPhi definitions with
  | nil => simp [collectOperations, PhisFirst, pure, Except.pure]
  | cons operation operations ih =>
    simp only [collectOperations_cons_ok, exists_and_left, ih]
    have order : (PhisFirst (operation :: operations) ∧ (sawNonPhi = true →
          ∀ other ∈ operation :: operations, other.isPhi = false)) ↔
        ¬ (operation.isPhi = true ∧ sawNonPhi = true) ∧ PhisFirst operations ∧
          ((sawNonPhi || !operation.isPhi) = true → ∀ other ∈ operations,
            other.isPhi = false) := by
      simp only [PhisFirst, List.pairwise_cons, List.forall_mem_cons]
      cases operation.isPhi <;> cases sawNonPhi <;> simp +contextual [and_comm]
    have fresh : ((operation :: operations).map resultOf).Nodup ∧
          (∀ other ∈ operation :: operations, definitions.lookup (resultOf other) = none) ↔
        definitions.lookup (resultOf operation) = none ∧ (operations.map resultOf).Nodup ∧
          ∀ other ∈ operations, AList.lookup (resultOf other)
            (definitions.insert (resultOf operation) ⟨block.id, index, typeOf operation⟩) =
              none := by
      simp only [List.map_cons, List.nodup_cons, List.forall_mem_cons, List.mem_map, not_exists,
        not_and, UnorderedMap.lookup_insert_eq]
      constructor
      · rintro ⟨⟨distinct, nodup⟩, absent, rest⟩
        exact ⟨absent, nodup, fun other member => by
          rw [if_neg (distinct other member)]
          exact rest other member⟩
      · rintro ⟨absent, nodup, rest⟩
        refine ⟨⟨fun other member same => ?_, nodup⟩, absent, fun other member => ?_⟩
        · simpa [same] using rest other member
        · have free := rest other member
          split at free
          · cases free
          · exact free
    rw [order, fresh]
    tauto

private theorem definedIn_cons : DefinedIn id index (operation :: operations) value definition ↔
    resultOf operation = value ∧ definition = ⟨id, index, typeOf operation⟩ ∨
      DefinedIn id (index + 1) operations value definition := by
  constructor
  · rintro ⟨position, other, here, result, same⟩
    cases position with
    | zero =>
      cases here
      exact .inl ⟨result, same⟩
    | succ position =>
      exact .inr ⟨position, other, here, result, by rw [same]; congr 1; lia⟩
  · rintro (⟨result, same⟩ | ⟨position, other, here, result, same⟩)
    · exact ⟨0, operation, rfl, result, same⟩
    · exact ⟨position + 1, other, here, result, by rw [same]; congr 1; lia⟩

/-- What collecting one block's operations adds. -/
theorem collectOperations_lookup
    (success : collectOperations block index sawNonPhi operations definitions = .ok definitions') :
    definitions'.lookup value = some definition ↔
      definitions.lookup value = some definition ∨
        DefinedIn block.id index operations value definition := by
  induction operations generalizing index sawNonPhi definitions with
  | nil =>
    cases success
    simp [DefinedIn]
  | cons operation operations ih =>
    obtain ⟨_, absent, rest⟩ := collectOperations_cons_ok.mp success
    rw [ih rest, definedIn_cons, UnorderedMap.lookup_insert_eq]
    by_cases same : value = resultOf operation
    · subst same
      simp [absent, eq_comm]
    · simp [same, Ne.symm same]

private theorem collectBlocks_cons_ok {rest : List BasicBlock} :
    collectBlocks (block :: rest) blocks definitions = .ok result ↔
      blocks.lookup block.id = none ∧ block.terminator ≠ none ∧
      ∃ definitions', collectOperations block 0 false block.operations definitions =
          .ok definitions' ∧
        collectBlocks rest (blocks.insert block.id block) definitions' = .ok result := by
  rw [collectBlocks]
  by_cases present : block.id ∈ blocks
  · rw [UnorderedMap.emplace_present present]
    have found : AList.lookup block.id blocks ≠ none := by
      rw [ne_eq, AList.lookup_eq_none]
      exact not_not_intro present
    simp only [found, false_and, iff_false]
    exact nofun
  · rw [UnorderedMap.emplace_absent present]
    cases ends : block.terminator with
    | none =>
      simp only [Option.isNone_none, if_true, ne_eq, not_true_eq_false, false_and, and_false,
        iff_false]
      exact nofun
    | some last =>
      simp only [Option.isNone_some, Bool.false_eq_true, if_false, except_bind_ok, ne_eq,
        AList.lookup_eq_none.mpr present, true_and, reduceCtorEq, not_false_eq_true]

theorem collectBlocks_lookup {list : List BasicBlock}
    (success : collectBlocks list blocks definitions = .ok (blocks', definitions')) :
    (∀ id, id ∈ blocks' ↔ id ∈ blocks ∨ ∃ block ∈ list, block.id = id) ∧
      ∀ value definition, definitions'.lookup value = some definition ↔
        definitions.lookup value = some definition ∨
          ∃ block ∈ list, DefinedIn block.id 0 block.operations value definition := by
  induction list generalizing blocks definitions with
  | nil =>
    cases success
    simp
  | cons block rest ih =>
    obtain ⟨_, _, middle, first, success⟩ := collectBlocks_cons_ok.mp success
    obtain ⟨keys, values⟩ := ih success
    refine ⟨fun id => ?_, fun value definition => ?_⟩
    · rw [keys, AList.mem_insert]
      simp only [List.exists_mem_cons_iff, @eq_comm _ id]
      tauto
    · rw [values, collectOperations_lookup first]
      simp only [List.exists_mem_cons_iff]
      tauto

/-- The first pass succeeds when ids and results are distinct, every block has
a terminator, and phis come first. -/
theorem collectBlocks_ok_iff {list : List BasicBlock} :
    (∃ result, collectBlocks list blocks definitions = .ok result) ↔
      ((list.map BasicBlock.id).Nodup ∧ ∀ block ∈ list, blocks.lookup block.id = none) ∧
      (∀ block ∈ list, block.terminator ≠ none) ∧
      (∀ block ∈ list, PhisFirst block.operations) ∧
      (list.flatMap BasicBlock.results).Nodup ∧
      ∀ value ∈ list.flatMap BasicBlock.results, definitions.lookup value = none := by
  induction list generalizing blocks definitions with
  | nil => simp [collectBlocks, pure, Except.pure]
  | cons block rest ih =>
    have distinct : ((block :: rest).map BasicBlock.id).Nodup ∧
          (∀ other ∈ block :: rest, blocks.lookup other.id = none) ↔
        blocks.lookup block.id = none ∧ (rest.map BasicBlock.id).Nodup ∧
          ∀ other ∈ rest, AList.lookup other.id (blocks.insert block.id block) = none := by
      simp only [List.map_cons, List.nodup_cons, List.forall_mem_cons, List.mem_map, not_exists,
        not_and, UnorderedMap.lookup_insert_eq]
      constructor
      · rintro ⟨⟨apart, nodup⟩, absent, others⟩
        exact ⟨absent, nodup, fun other member => by
          rw [if_neg (apart other member)]
          exact others other member⟩
      · rintro ⟨absent, nodup, others⟩
        refine ⟨⟨fun other member same => ?_, nodup⟩, absent, fun other member => ?_⟩
        · simpa [same] using others other member
        · have free := others other member
          split at free
          · cases free
          · exact free
    have collected (middle) (first : collectOperations block 0 false block.operations definitions =
        .ok middle) (value) : AList.lookup value middle = none ↔
          definitions.lookup value = none ∧ value ∉ block.results := by
      have lookup {definition} : AList.lookup value middle = some definition ↔ _ :=
        collectOperations_lookup first
      have inside : (∃ definition, DefinedIn block.id 0 block.operations value definition) ↔
          value ∈ block.results := by
        simp only [DefinedIn, BasicBlock.results, List.mem_map]
        constructor
        · rintro ⟨_, position, operation, here, result, _⟩
          exact ⟨operation, List.mem_of_getElem? here, result⟩
        · rintro ⟨operation, member, result⟩
          obtain ⟨position, here⟩ := List.getElem?_of_mem member
          exact ⟨_, position, operation, here, result, rfl⟩
      rw [← inside, Option.eq_none_iff_forall_ne_some, Option.eq_none_iff_forall_ne_some,
        not_exists, ← forall_and]
      exact forall_congr' fun definition => by rw [ne_eq, lookup, not_or]
    constructor
    · rintro ⟨result, success⟩
      obtain ⟨absent, terminated, middle, first, success⟩ := collectBlocks_cons_ok.mp success
      obtain ⟨⟨phis, _⟩, nodup, fresh⟩ := collectOperations_ok_iff.mp ⟨middle, first⟩
      obtain ⟨⟨ids, others⟩, terminators, phisFirst, results, free⟩ := ih.mp ⟨result, success⟩
      have fresh : ∀ value ∈ block.results, definitions.lookup value = none := by
        simpa [BasicBlock.results] using fresh
      refine ⟨distinct.mpr ⟨absent, ids, others⟩,
        List.forall_mem_cons.mpr ⟨terminated, terminators⟩,
        List.forall_mem_cons.mpr ⟨phis, phisFirst⟩, ?_, ?_⟩
      · rw [List.flatMap_cons, List.nodup_append']
        exact ⟨nodup, results, fun value here later =>
          (((collected middle first value).mp (free value later)).2 here).elim⟩
      · rw [List.flatMap_cons]
        intro value member
        rcases List.mem_append.mp member with here | later
        · exact fresh value here
        · exact ((collected middle first value).mp (free value later)).1
    · rintro ⟨ids, terminators, phisFirst, results, free⟩
      obtain ⟨absent, nodupIds, others⟩ := distinct.mp ids
      obtain ⟨terminated, terminators⟩ := List.forall_mem_cons.mp terminators
      obtain ⟨phis, phisFirst⟩ := List.forall_mem_cons.mp phisFirst
      rw [List.flatMap_cons] at results free
      obtain ⟨nodup, results, apart⟩ := List.nodup_append'.mp results
      obtain ⟨middle, first⟩ :
          ∃ middle, collectOperations block 0 false block.operations definitions = .ok middle :=
        collectOperations_ok_iff.mpr ⟨⟨phis, nofun⟩, nodup, fun operation member =>
          free _ (List.mem_append_left _ (List.mem_map_of_mem member))⟩
      obtain ⟨result, success⟩ := ih.mpr ⟨⟨nodupIds, others⟩, terminators, phisFirst, results,
        fun value later => (collected middle first value).mpr
          ⟨free value (List.mem_append_right _ later), fun here => apart here later⟩⟩
      exact ⟨result, collectBlocks_cons_ok.mpr ⟨absent, terminated, middle, first, success⟩⟩

end Collecting

section Predecessors

variable {block : BasicBlock} {blocks : UnorderedMap BlockId BasicBlock}
  {predecessors predecessors' : Predecessors}

private theorem requireBlock_ok {id : BlockId} : requireBlock blocks id = .ok () ↔ id ∈ blocks := by
  rw [requireBlock]
  split
  · rename_i present
    exact ⟨fun _ => present, fun _ => rfl⟩
  · rename_i absent
    exact ⟨nofun, fun present => absurd present absent⟩

/-- The block becomes a predecessor of each of its targets. -/
def addTargets (predecessors : Predecessors) (block : BasicBlock) : Predecessors :=
  fun id => if id ∈ block.targets then insert block.id (predecessors id) else predecessors id

private theorem collectPredecessors_cons_ok {rest : List BasicBlock} :
    collectPredecessors blocks (block :: rest) predecessors = .ok predecessors' ↔
      (∀ target ∈ block.targets, target ∈ blocks) ∧
        collectPredecessors blocks rest (addTargets predecessors block) = .ok predecessors' := by
  rw [collectPredecessors]
  cases ends : block.terminator with
  | none =>
    have same : addTargets predecessors block = predecessors := by
      funext id
      simp [addTargets, BasicBlock.targets_of_unterminated ends]
    simp [BasicBlock.targets_of_unterminated ends, same]
  | some last =>
    have targets := BasicBlock.targets_of_terminator ends
    cases last with
    | branch target =>
      have same : addPredecessor predecessors target block.id = addTargets predecessors block := by
        funext id
        simp [addTargets, addPredecessor, targets]
      simp [except_then_ok, requireBlock_ok, targets, same]
    | condBranch condition trueTarget falseTarget =>
      have same : addPredecessor (addPredecessor predecessors trueTarget block.id) falseTarget
          block.id = addTargets predecessors block := by
        funext id
        simp only [addTargets, addPredecessor, targets, Terminator.targets_condBranch,
          List.mem_cons, List.not_mem_nil, or_false]
        by_cases isTrue : id = trueTarget
        · simp [isTrue]
        · simp [isTrue]
      simp [except_then_ok, requireBlock_ok, targets, same, and_assoc]
    | returnOp value =>
      have same : addTargets predecessors block = predecessors := by
        funext id
        simp [addTargets, targets]
      simp [targets, same]

private theorem collectPredecessors_ok_iff {list : List BasicBlock} :
    (∃ predecessors', collectPredecessors blocks list predecessors = .ok predecessors') ↔
      ∀ block ∈ list, ∀ target ∈ block.targets, target ∈ blocks := by
  induction list generalizing predecessors with
  | nil => simp [collectPredecessors, pure, Except.pure]
  | cons block rest ih =>
    simp only [collectPredecessors_cons_ok, exists_and_left, ih, List.forall_mem_cons]

private theorem collectPredecessors_mem {list : List BasicBlock}
    (success : collectPredecessors blocks list predecessors = .ok predecessors')
    (target source : BlockId) : source ∈ predecessors' target ↔
      source ∈ predecessors target ∨
        ∃ block ∈ list, block.id = source ∧ target ∈ block.targets := by
  induction list generalizing predecessors with
  | nil =>
    cases success
    simp
  | cons block rest ih =>
    obtain ⟨_, success⟩ := collectPredecessors_cons_ok.mp success
    rw [ih success]
    simp only [addTargets, List.exists_mem_cons_iff]
    by_cases member : target ∈ block.targets
    · simp only [member, if_true, Finset.mem_insert, @eq_comm _ source, and_true]
      tauto
    · simp [member]

end Predecessors

section Uses

variable {block : BasicBlock} {definitions : Definitions} {predecessors : Predecessors}
  {value : ValueId} {type : TensorType} {index : Nat} {operation : Operation}

private theorem requireValue_ok : requireValue definitions value = .ok definition ↔
    definitions.lookup value = some definition := by
  rw [requireValue]
  cases AList.lookup value definitions with
  | none => exact ⟨nofun, nofun⟩
  | some found => simp [pure, Except.pure]

private theorem requireOperand_ok {useBlock : BlockId} {useIndex : Nat} :
    requireOperand definitions value type useBlock useIndex = .ok () ↔
      ∃ definition, definitions.lookup value = some definition ∧ definition.type = type ∧
        ¬ definition.NotBefore useBlock useIndex := by
  simp only [requireOperand, except_bind_ok, requireValue_ok]
  refine exists_congr fun definition => and_congr_right fun _ => ?_
  by_cases typed : definition.type = type
  · by_cases late : definition.block = useBlock ∧ useIndex ≤ definition.operationIndex
    · rw [if_neg (not_not_intro typed), if_pos late]
      exact ⟨nofun, fun ⟨_, before⟩ => absurd late before⟩
    · rw [if_neg (not_not_intro typed), if_neg late]
      exact ⟨fun _ => ⟨typed, late⟩, fun _ => rfl⟩
  · rw [if_pos typed]
    exact ⟨nofun, fun ⟨same, _⟩ => absurd same typed⟩

private theorem verifyIncoming_ok {incoming : List PhiIncoming} {seen : Finset BlockId} :
    verifyIncoming definitions predecessors block index type incoming seen = .ok () ↔
      (∀ entry ∈ incoming,
        requireOperand definitions entry.value type block.id index = .ok ()) ∧
      ((incoming.map PhiIncoming.predecessor).Nodup ∧
        ∀ entry ∈ incoming, entry.predecessor ∉ seen) ∧
      ∀ source, source ∈ seen ∨ source ∈ incoming.map PhiIncoming.predecessor ↔
        source ∈ predecessors block.id := by
  induction incoming generalizing seen with
  | nil =>
    rw [verifyIncoming]
    by_cases same : seen = predecessors block.id
    · simp [same, pure, Except.pure]
    · rw [if_pos same]
      simp only [List.not_mem_nil, false_implies, implies_true, List.map_nil, List.nodup_nil,
        or_false, true_and, and_true]
      exact ⟨nofun, fun all => absurd (Finset.ext all) same⟩
  | cons entry incoming ih =>
    rw [verifyIncoming]
    rw [except_then_ok, List.forall_mem_cons, List.forall_mem_cons, List.map_cons,
      List.nodup_cons]
    by_cases repeated : entry.predecessor ∈ seen
    · simp only [repeated, if_true, not_true_eq_false, false_and, and_false, iff_false]
      exact fun ⟨_, failed⟩ => nomatch failed
    · simp only [repeated, if_false, ih, not_false_eq_true, true_and, Finset.mem_insert, not_or,
        List.mem_cons, List.mem_map, not_exists, not_and]
      constructor
      · rintro ⟨first, rest, ⟨nodup, apart⟩, sources⟩
        refine ⟨⟨first, rest⟩, ⟨⟨fun other member => (apart other member).1, nodup⟩,
          fun other member => (apart other member).2⟩, fun source => ?_⟩
        rw [← sources]
        tauto
      · rintro ⟨⟨first, rest⟩, ⟨⟨distinct, nodup⟩, apart⟩, sources⟩
        refine ⟨first, rest, ⟨nodup, fun other member =>
          ⟨distinct other member, apart other member⟩⟩, fun source => ?_⟩
        rw [← sources]
        tauto

/-- One operation passes when its typed operands are of their types and
defined before it, its other operands are defined, and a phi lists exactly the
predecessors of its block. -/
theorem verifyOperation_ok :
    verifyOperation definitions predecessors block index operation = .ok () ↔
      (∀ value type, (value, type) ∈ operation.typedOperands →
        requireOperand definitions value type block.id index = .ok ()) ∧
      (∀ value ∈ operation.operands, ∃ definition,
        definitions.lookup value = some definition) ∧
      (∀ entry ∈ operation.incoming,
        requireOperand definitions entry.value (typeOf operation) block.id index = .ok ()) ∧
      (operation.isPhi = true → (operation.incoming.map PhiIncoming.predecessor).Nodup ∧
        ∀ source, source ∈ operation.incoming.map PhiIncoming.predecessor ↔
          source ∈ predecessors block.id) := by
  have defined {value type} (passed : requireOperand definitions value type block.id index =
      .ok ()) : ∃ definition, definitions.lookup value = some definition := by
    obtain ⟨definition, found, _⟩ := requireOperand_ok.mp passed
    exact ⟨definition, found⟩
  cases operation with
  | tensorDecl result name type =>
    simp [verifyOperation, Operation.typedOperands, Operation.operands, Operation.incoming,
      Operation.isPhi, pure, Except.pure]
  | constantInt result value type =>
    simp [verifyOperation, Operation.typedOperands, Operation.operands, Operation.incoming,
      Operation.isPhi, pure, Except.pure]
  | constantFloat result value type =>
    simp [verifyOperation, Operation.typedOperands, Operation.operands, Operation.incoming,
      Operation.isPhi, pure, Except.pure]
  | binary result kind lhs rhs type =>
    simp only [verifyOperation, except_then_ok, Operation.typedOperands,
      Operation.operands, Operation.incoming, Operation.isPhi, List.mem_cons, List.not_mem_nil,
      or_false, Prod.mk.injEq, forall_eq_or_imp, forall_eq, false_implies, implies_true,
      Bool.false_eq_true, and_true]
    constructor
    · rintro ⟨left, right⟩
      refine ⟨?_, defined left, defined right⟩
      rintro value other (⟨rfl, rfl⟩ | ⟨rfl, rfl⟩)
      · exact left
      · exact right
    · rintro ⟨both, _⟩
      exact ⟨both lhs type (.inl ⟨rfl, rfl⟩), both rhs type (.inr ⟨rfl, rfl⟩)⟩
  | compare result kind lhs rhs operandType =>
    simp only [verifyOperation, except_then_ok, Operation.typedOperands,
      Operation.operands, Operation.incoming, Operation.isPhi, List.mem_cons, List.not_mem_nil,
      or_false, Prod.mk.injEq, forall_eq_or_imp, forall_eq, false_implies, implies_true,
      Bool.false_eq_true, and_true]
    constructor
    · rintro ⟨left, right⟩
      refine ⟨?_, defined left, defined right⟩
      rintro value other (⟨rfl, rfl⟩ | ⟨rfl, rfl⟩)
      · exact left
      · exact right
    · rintro ⟨both, _⟩
      exact ⟨both lhs operandType (.inl ⟨rfl, rfl⟩), both rhs operandType (.inr ⟨rfl, rfl⟩)⟩
  | phi result type incoming =>
    simp [verifyOperation, verifyIncoming_ok, Operation.typedOperands, Operation.operands,
      Operation.incoming, Operation.isPhi, typeOf]
  | matMul result lhs rhs type =>
    simp [verifyOperation, except_bind_ok, requireValue_ok, Operation.typedOperands,
      Operation.operands, Operation.incoming, Operation.isPhi, pure, Except.pure]
  | relu result input type =>
    simp [verifyOperation, except_bind_ok, requireValue_ok, Operation.typedOperands,
      Operation.operands, Operation.incoming, Operation.isPhi, pure, Except.pure]

private theorem verifyOperations_ok {operations : List Operation} :
    verifyOperations definitions predecessors block index operations = .ok () ↔
      ∀ position operation, operations[position]? = some operation →
        verifyOperation definitions predecessors block (index + position) operation = .ok () := by
  induction operations generalizing index with
  | nil => simp [verifyOperations, pure, Except.pure]
  | cons operation operations ih =>
    simp only [verifyOperations, except_then_ok, ih]
    constructor
    · rintro ⟨first, rest⟩ position other here
      cases position with
      | zero =>
        cases here
        exact first
      | succ position =>
        rw [← Nat.add_assoc, Nat.add_right_comm]
        exact rest position other here
    · intro all
      refine ⟨all 0 operation rfl, fun position other here => ?_⟩
      have step := all (position + 1) other here
      rwa [← Nat.add_assoc, Nat.add_right_comm] at step

/-- A condition must be a scalar `i1`. -/
def ConditionVerified (definitions : Definitions) (block : BasicBlock) : Prop :=
  ∀ condition trueTarget falseTarget,
    block.terminator = some (.condBranch condition trueTarget falseTarget) →
      ∃ definition, definitions.lookup condition = some definition ∧
        definition.type = .scalar "i1"

/-- A returned value must have this type. -/
def ReturnVerified (definitions : Definitions) (type : TensorType) (block : BasicBlock) : Prop :=
  ∀ value, block.terminator = some (.returnOp value) →
    ∃ definition, definitions.lookup value = some definition ∧ definition.type = type

def BasicBlock.Returns (block : BasicBlock) : Prop :=
  ∃ value, block.terminator = some (.returnOp value)

/-- The return type seen so far, when it may only be this one. -/
def Admits (returnType : Option TensorType) (type : TensorType) : Prop :=
  ∀ other, returnType = some other → other = type

/-- A terminator passes when the type of the returns can still be the same. -/
theorem verifyTerminator_ok {returnType returnType' : Option TensorType} :
    verifyTerminator definitions returnType block.terminator = .ok returnType' ↔
      ConditionVerified definitions block ∧
      ((¬ block.Returns ∧ returnType' = returnType) ∨
        block.Returns ∧ ∃ type, Admits returnType type ∧ ReturnVerified definitions type block ∧
          returnType' = some type) := by
  simp only [ConditionVerified, ReturnVerified, BasicBlock.Returns]
  match block.terminator with
  | none => simp [verifyTerminator, pure, Except.pure, eq_comm]
  | some (.branch target) => simp [verifyTerminator, pure, Except.pure, eq_comm]
  | some (.condBranch condition trueTarget falseTarget) =>
    simp only [verifyTerminator, except_bind_ok, requireValue_ok]
    constructor
    · rintro ⟨definition, found, rest⟩
      split at rest
      · cases rest
      · rename_i typed
        cases rest
        refine ⟨?_, .inl ⟨nofun, rfl⟩⟩
        rintro _ _ _ ⟨⟩
        exact ⟨definition, found, not_not.mp typed⟩
    · rintro ⟨verified, ⟨_, rfl⟩ | ⟨⟨_, impossible⟩, _⟩⟩
      · obtain ⟨definition, found, typed⟩ := verified _ _ _ rfl
        exact ⟨definition, found, by rw [if_neg (not_not_intro typed)]; rfl⟩
      · cases impossible
  | some (.returnOp value) =>
    simp only [verifyTerminator, except_bind_ok, requireValue_ok, Admits]
    constructor
    · rintro ⟨definition, found, rest⟩
      split at rest
      · cases rest
      · rename_i admitted
        cases rest
        refine ⟨nofun, .inr ⟨⟨value, rfl⟩, definition.type, ?_, ?_, rfl⟩⟩
        · rintro other rfl
          simpa using admitted
        · rintro _ ⟨⟩
          exact ⟨definition, found, rfl⟩
    · rintro ⟨_, ⟨absent, _⟩ | ⟨_, type, admits, verified, rfl⟩⟩
      · exact absurd ⟨value, rfl⟩ absent
      · obtain ⟨definition, found, rfl⟩ := verified value rfl
        refine ⟨definition, found, ?_⟩
        rw [if_neg]
        · rfl
        · cases returnType with
          | none => simp
          | some other => simp [admits other rfl]

private theorem verifyBlocks_cons_ok {rest : List BasicBlock} {returnType final : Option TensorType} :
    verifyBlocks definitions predecessors (block :: rest) returnType = .ok final ↔
      verifyOperations definitions predecessors block 0 block.operations = .ok () ∧
      ∃ next, verifyTerminator definitions returnType block.terminator = .ok next ∧
        verifyBlocks definitions predecessors rest next = .ok final := by
  rw [verifyBlocks, except_then_ok, except_bind_ok]

/-- The third pass succeeds when every block passes and one type admits all returns. -/
theorem verifyBlocks_ok_iff {list : List BasicBlock} {returnType : Option TensorType} :
    (∃ returnType', verifyBlocks definitions predecessors list returnType = .ok returnType') ↔
      (∀ block ∈ list, verifyOperations definitions predecessors block 0 block.operations =
        .ok ()) ∧
      (∀ block ∈ list, ConditionVerified definitions block) ∧
      ∃ type, Admits returnType type ∧ ∀ block ∈ list, ReturnVerified definitions type block := by
  induction list generalizing returnType with
  | nil =>
    simp only [verifyBlocks, List.not_mem_nil, false_implies, implies_true, and_true, true_and]
    refine ⟨fun _ => ?_, fun _ => ⟨returnType, rfl⟩⟩
    cases returnType with
    | none => exact ⟨.scalar "i64", nofun⟩
    | some type => exact ⟨type, fun other same => (Option.some.inj same).symm⟩
  | cons block rest ih =>
    simp only [verifyBlocks_cons_ok, verifyTerminator_ok, List.forall_mem_cons]
    constructor
    · rintro ⟨final, operations, next, ⟨condition, ended⟩, success⟩
      obtain ⟨others, conditions, type, admits, returns⟩ := ih.mp ⟨final, success⟩
      refine ⟨⟨operations, others⟩, ⟨condition, conditions⟩, type, ?_⟩
      rcases ended with ⟨absent, rfl⟩ | ⟨_, other, earlier, verified, rfl⟩
      · exact ⟨admits, fun value ends => absurd ⟨value, ends⟩ absent, returns⟩
      · cases admits other rfl
        exact ⟨earlier, verified, returns⟩
    · rintro ⟨⟨operations, others⟩, ⟨condition, conditions⟩, type, admits, verified, returns⟩
      by_cases ends : block.Returns
      · obtain ⟨final, success⟩ : ∃ final, verifyBlocks definitions predecessors rest
            (some type) = .ok final :=
          ih.mpr ⟨others, conditions, type, fun other same => (Option.some.inj same).symm, returns⟩
        exact ⟨final, operations, some type,
          ⟨condition, .inr ⟨ends, type, admits, verified, rfl⟩⟩, success⟩
      · obtain ⟨final, success⟩ : ∃ final, verifyBlocks definitions predecessors rest
            returnType = .ok final := ih.mpr ⟨others, conditions, type, admits, returns⟩
        exact ⟨final, operations, returnType, ⟨condition, .inl ⟨ends, rfl⟩⟩, success⟩

/-- No return type is found when no block returns. -/
theorem verifyBlocks_none_iff {list : List BasicBlock} {returnType returnType' : Option TensorType}
    (success : verifyBlocks definitions predecessors list returnType = .ok returnType') :
    returnType' = none ↔ returnType = none ∧ ∀ block ∈ list, ¬ block.Returns := by
  induction list generalizing returnType with
  | nil =>
    cases success
    simp
  | cons block rest ih =>
    simp only [verifyBlocks_cons_ok, verifyTerminator_ok] at success
    obtain ⟨_, next, ⟨_, ended⟩, success⟩ := success
    rw [ih success, List.forall_mem_cons]
    rcases ended with ⟨absent, rfl⟩ | ⟨ends, type, _, _, rfl⟩
    · simp [absent]
    · simp [ends]

end Uses

variable {module : Module}

/-- The verifier accepts exactly the verified modules. -/
theorem verify_ok_iff : verify module = .ok () ↔ Verified module := by
  rw [verify]
  by_cases empty : module.blocks = []
  · rw [if_pos empty]
    exact ⟨nofun, fun verified => absurd empty verified.nonempty⟩
  rw [if_neg empty, except_bind_ok]
  have defines {blocks definitions} (first : collectBlocks module.blocks ∅ ∅ =
      .ok (blocks, definitions)) (value definition) :
      AList.lookup value definitions = some definition ↔ module.Defines value definition := by
    rw [(collectBlocks_lookup first).2]
    simp [Module.Defines]
  have known {blocks definitions} (first : collectBlocks module.blocks ∅ ∅ =
      .ok (blocks, definitions)) (id : BlockId) :
      id ∈ blocks ↔ ∃ block ∈ module.blocks, block.id = id := by
    rw [(collectBlocks_lookup first).1]
    simp
  constructor
  · rintro ⟨⟨blocks, definitions⟩, first, rest⟩
    have lookup := defines first
    obtain ⟨⟨ids, _⟩, terminated, phisFirst, results, _⟩ := collectBlocks_ok_iff.mp ⟨_, first⟩
    dsimp only at rest
    split at rest
    · cases rest
    rename_i entry
    obtain ⟨predecessors, second, rest⟩ := except_bind_ok.mp rest
    have mem := collectPredecessors_mem second
    obtain ⟨returnType, third, rest⟩ := except_bind_ok.mp rest
    obtain ⟨operations, conditions, type, _, returns⟩ := verifyBlocks_ok_iff.mp ⟨_, third⟩
    have someReturn : ∃ block ∈ module.blocks, block.Returns := by
      by_contra none
      have absent := (verifyBlocks_none_iff third).mpr ⟨rfl, by simpa using none⟩
      rw [absent] at rest
      cases rest
    have passes block (member : block ∈ module.blocks) index operation
        (here : block.operations[index]? = some operation) :=
      verifyOperation_ok.mp (Nat.zero_add index ▸
        verifyOperations_ok.mp (operations block member) index operation here)
    refine ⟨empty, ids, terminated, phisFirst, results, ?_, ?_, ?_, ?_, ?_, ?_, ?_, ?_⟩
    · exact (known first _).mp (not_not.mp entry)
    · exact fun block member target aimed => (known first target).mp
        (collectPredecessors_ok_iff.mp ⟨_, second⟩ block member target aimed)
    · intro block member index operation here value type typed
      obtain ⟨definition, found, rest⟩ := requireOperand_ok.mp
        ((passes block member index operation here).1 value type typed)
      exact ⟨definition, (lookup _ _).mp found, rest⟩
    · intro block member operation here value used
      obtain ⟨index, here⟩ := List.getElem?_of_mem here
      obtain ⟨definition, found⟩ := (passes block member index operation here).2.1 value used
      exact ⟨definition, (lookup _ _).mp found⟩
    · intro block member index operation here incoming listed
      obtain ⟨definition, found, rest⟩ := requireOperand_ok.mp
        ((passes block member index operation here).2.2.1 incoming listed)
      exact ⟨definition, (lookup _ _).mp found, rest⟩
    · intro block member operation here isPhi
      obtain ⟨index, here⟩ := List.getElem?_of_mem here
      obtain ⟨nodup, sources⟩ := (passes block member index operation here).2.2.2 isPhi
      refine ⟨nodup, fun source => ?_⟩
      rw [sources, mem]
      simp
    · intro block member condition trueTarget falseTarget ends
      obtain ⟨definition, found, typed⟩ := conditions block member _ _ _ ends
      exact ⟨definition, (lookup _ _).mp found, typed⟩
    · obtain ⟨block, member, value, ends⟩ := someReturn
      refine ⟨type, ⟨block, member, value, ends⟩, fun other member value ends => ?_⟩
      obtain ⟨definition, found, typed⟩ := returns other member value ends
      exact ⟨definition, (lookup _ _).mp found, typed⟩
  · intro verified
    obtain ⟨⟨blocks, definitions⟩, first⟩ :
        ∃ result, collectBlocks module.blocks ∅ ∅ = .ok result :=
      collectBlocks_ok_iff.mpr ⟨⟨verified.ids, by simp⟩, verified.terminated, verified.phisFirst,
        verified.results, by simp⟩
    have lookup := defines first
    refine ⟨_, first, ?_⟩
    dsimp only
    rw [if_neg (not_not_intro ((known first _).mpr verified.entry))]
    obtain ⟨predecessors, second⟩ :
        ∃ result, collectPredecessors blocks module.blocks (fun _ => ∅) = .ok result :=
      collectPredecessors_ok_iff.mpr fun block member target aimed =>
        (known first target).mpr (verified.targets block member target aimed)
    have mem := collectPredecessors_mem second
    obtain ⟨type, ⟨block, member, value, ends⟩, returns⟩ := verified.returns
    have third : ∃ returnType,
        verifyBlocks definitions predecessors module.blocks none = .ok returnType := by
      refine verifyBlocks_ok_iff.mpr ⟨?_, ?_, type, nofun, ?_⟩
      · intro block member
        refine verifyOperations_ok.mpr fun index operation here => ?_
        rw [Nat.zero_add]
        have present := List.mem_of_getElem? here
        refine verifyOperation_ok.mpr ⟨?_, ?_, ?_, ?_⟩
        · intro value type typed
          obtain ⟨definition, found, rest⟩ :=
            verified.typed block member index operation here value type typed
          exact requireOperand_ok.mpr ⟨definition, (lookup _ _).mpr found, rest⟩
        · intro value used
          obtain ⟨definition, found⟩ := verified.operands block member operation present value used
          exact ⟨definition, (lookup _ _).mpr found⟩
        · intro incoming listed
          obtain ⟨definition, found, rest⟩ :=
            verified.incoming block member index operation here incoming listed
          exact requireOperand_ok.mpr ⟨definition, (lookup _ _).mpr found, rest⟩
        · intro isPhi
          obtain ⟨nodup, sources⟩ := verified.predecessors block member operation present isPhi
          refine ⟨nodup, fun source => ?_⟩
          rw [sources, mem]
          simp
      · intro block member condition trueTarget falseTarget ends
        obtain ⟨definition, found, typed⟩ := verified.conditions block member _ _ _ ends
        exact ⟨definition, (lookup _ _).mpr found, typed⟩
      · intro other member value ends
        obtain ⟨definition, found, typed⟩ := returns other member value ends
        exact ⟨definition, (lookup _ _).mpr found, typed⟩
    obtain ⟨returnType, third⟩ := third
    refine except_bind_ok.mpr ⟨predecessors, second, except_bind_ok.mpr ⟨returnType, third, ?_⟩⟩
    cases returnType with
    | none => exact absurd ⟨value, ends⟩ (((verifyBlocks_none_iff third).mp rfl).2 block member)
    | some returnType => rfl

theorem operand_of_typedOperand {operation : Operation} {type : TensorType}
    (typed : (value, type) ∈ operation.typedOperands) :
    value ∈ operation.operands := by
  cases operation with
  | binary result kind lhs rhs type =>
    simp only [Operation.typedOperands, List.mem_cons, Prod.mk.injEq] at typed
    simp only [Operation.operands, List.mem_cons]
    tauto
  | compare result kind lhs rhs operandType =>
    simp only [Operation.typedOperands, List.mem_cons, Prod.mk.injEq] at typed
    simp only [Operation.operands, List.mem_cons]
    tauto
  | tensorDecl | constantInt | constantFloat | phi | matMul | relu => cases typed

/-- The definition of a value is unique in a module the verifier accepts. -/
theorem Verified.defines_unique {definition definition' : Definition} (verified : Verified module)
    (first : module.Defines value definition) (second : module.Defines value definition') :
    definition = definition' := by
  obtain ⟨⟨blocks, definitions⟩, collected⟩ :
      ∃ result, collectBlocks module.blocks ∅ ∅ = .ok result :=
    collectBlocks_ok_iff.mpr ⟨⟨verified.ids, by simp⟩, verified.terminated, verified.phisFirst,
      verified.results, by simp⟩
  have lookup := (collectBlocks_lookup collected).2 value
  have found := (lookup definition).mpr (.inr first)
  have found' := (lookup definition').mpr (.inr second)
  exact Option.some.inj (found.symm.trans found')

theorem Module.Defines.operation {definition : Definition}
    (defines : module.Defines value definition) :
    ∃ block ∈ module.blocks, ∃ operation ∈ block.operations,
      resultOf operation = value ∧ typeOf operation = definition.type := by
  obtain ⟨block, member, position, operation, here, result, rfl⟩ := defines
  exact ⟨block, member, operation, List.mem_of_getElem? here, result, rfl⟩

end Ocelotl.IR
