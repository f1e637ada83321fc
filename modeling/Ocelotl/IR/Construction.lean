import Ocelotl.IR.Generator
import Ocelotl.IR.VerifierContract
import Ocelotl.IR.ControlFlow

namespace Ocelotl.IR

open Library

theorem HasDefinition.mono
    (kept : ∀ block index operation, OperationAt blocks block index operation →
      OperationAt blocks' block index operation)
    (defined : HasDefinition blocks value type) : HasDefinition blocks' value type := by
  obtain ⟨block, index, operation, present, result⟩ := defined
  exact ⟨block, index, operation, kept _ _ _ present, result⟩

theorem Available.hasDefinition (available : Available blocks entry value type block) :
    HasDefinition blocks value type := by
  obtain ⟨source, position, operation, present, result, typed, _⟩ := available
  exact ⟨source, position, operation, present, result, typed⟩

/-- Availability survives when operations are kept and dominance of the block is. -/
theorem Available.mono (kept : ∀ block index operation, OperationAt blocks block index operation →
      OperationAt blocks' block index operation)
    (dominance : ∀ source, BlockDominates blocks entry source block →
      BlockDominates blocks' entry source block)
    (available : Available blocks entry value type block) :
    Available blocks' entry value type block := by
  obtain ⟨source, position, operation, present, result, typed, before, dominates⟩ := available
  exact ⟨source, position, operation, kept _ _ _ present, result, typed, before,
    dominance _ dominates⟩

namespace IRGenerator

/-- Blocks by position, which is also their id while a module is being built. -/
def blocks (generator : IRGenerator) : Blocks := fun id => generator.module.blocks[id]?

/-- Append an operation that defines the next value. -/
def appendTo (generator : IRGenerator) (block : BlockId) (operation : Operation) : IRGenerator :=
  generator.addValue.changeBlock block (·.append operation)

def terminate (generator : IRGenerator) (block : BlockId) (terminator : Terminator) :
    IRGenerator :=
  generator.changeBlock block (·.terminate terminator)

section Effects

variable (generator : IRGenerator) {id : BlockId} {values : Environment}

@[simp] theorem appendTo_currentBlockId : (generator.appendTo block operation).currentBlockId =
    generator.currentBlockId := rfl

@[simp] theorem appendTo_values :
    (generator.appendTo block operation).values = generator.values := rfl

@[simp] theorem appendTo_nextValueId : (generator.appendTo block operation).nextValueId =
    generator.nextValueId + 1 := rfl

@[simp] theorem appendTo_nextBlockId : (generator.appendTo block operation).nextBlockId =
    generator.nextBlockId := rfl

@[simp] theorem terminate_currentBlockId : (generator.terminate block last).currentBlockId =
    generator.currentBlockId := rfl

@[simp] theorem terminate_values : (generator.terminate block last).values = generator.values := rfl

@[simp] theorem terminate_nextValueId : (generator.terminate block last).nextValueId =
    generator.nextValueId := rfl

@[simp] theorem terminate_nextBlockId : (generator.terminate block last).nextBlockId =
    generator.nextBlockId := rfl

@[simp] theorem addBlock_currentBlockId : (generator.addBlock name).currentBlockId =
    generator.currentBlockId := rfl

@[simp] theorem addBlock_values : (generator.addBlock name).values = generator.values := rfl

@[simp] theorem addBlock_nextValueId : (generator.addBlock name).nextValueId =
    generator.nextValueId := rfl

@[simp] theorem addBlock_nextBlockId : (generator.addBlock name).nextBlockId =
    generator.nextBlockId + 1 := rfl

@[simp] theorem enter_currentBlockId : (generator.enter block values).currentBlockId = block := rfl

@[simp] theorem enter_values : (generator.enter block values).values = values := rfl

@[simp] theorem enter_nextValueId : (generator.enter block values).nextValueId =
    generator.nextValueId := rfl

@[simp] theorem enter_nextBlockId : (generator.enter block values).nextBlockId =
    generator.nextBlockId := rfl

@[simp] theorem blocks_enter : (generator.enter block values).blocks = generator.blocks := rfl

private theorem blocks_absent (sized : generator.module.blocks.length = generator.nextBlockId)
    (large : generator.nextBlockId ≤ id) : generator.blocks id = none :=
  List.getElem?_eq_none (sized ▸ large)

private theorem blocks_changeBlock (change : BasicBlock → BasicBlock) :
    (generator.changeBlock block change).blocks id =
      if id = block then (generator.blocks id).map change else generator.blocks id := by
  simp only [blocks, changeBlock, List.getElem?_modify]
  by_cases same : block = id
  · simp [same]
  · simp [same, Ne.symm same]

theorem blocks_appendTo : (generator.appendTo block operation).blocks id =
    if id = block then (generator.blocks id).map (·.append operation) else generator.blocks id :=
  blocks_changeBlock _ _

theorem blocks_terminate : (generator.terminate block last).blocks id =
    if id = block then (generator.blocks id).map (·.terminate last) else generator.blocks id :=
  blocks_changeBlock _ _

theorem blocks_addBlock (sized : generator.module.blocks.length = generator.nextBlockId) :
    (generator.addBlock name).blocks id =
      if id = generator.nextBlockId then some { id := generator.nextBlockId, name := name }
      else generator.blocks id := by
  simp only [blocks, addBlock, List.getElem?_append, sized]
  by_cases within : id < generator.nextBlockId
  · simp [within, Nat.ne_of_lt within]
  · have absent : generator.module.blocks[id]? = none :=
      generator.blocks_absent sized (Nat.le_of_not_lt within)
    by_cases same : id = generator.nextBlockId
    · simp [same]
    · have beyond : id - generator.nextBlockId ≠ 0 := by lia
      simp [within, same, absent, beyond]

end Effects

variable {id : BlockId}

theorem operationAt_appendTo {generator : IRGenerator}
    (found : generator.blocks block = some body) (added : Operation) (id : BlockId) (index : Nat)
    (operation : Operation) :
    OperationAt (generator.appendTo block added).blocks id index operation ↔
      OperationAt generator.blocks id index operation ∨
        id = block ∧ index = body.operations.length ∧ operation = added := by
  simp only [OperationAt, blocks_appendTo]
  by_cases same : id = block
  · subst same
    simp only [↓reduceIte, found, Option.map_some, Option.some.injEq, exists_eq_left',
      BasicBlock.append_operations, true_and]
    rcases Nat.lt_trichotomy index body.operations.length with less | equal | greater
    · simp [List.getElem?_append_left less, Nat.ne_of_lt less]
    · subst equal
      simp [eq_comm]
    · simp [List.getElem?_eq_none (show (body.operations ++ [added]).length ≤ index by simp; lia),
        List.getElem?_eq_none (show body.operations.length ≤ index by lia), Nat.ne_of_gt greater]
  · simp [same]

theorem terminatorAt_appendTo (generator : IRGenerator) (block : BlockId) (added : Operation) :
    TerminatorAt (generator.appendTo block added).blocks id last ↔
      TerminatorAt generator.blocks id last := by
  simp only [TerminatorAt, blocks_appendTo]
  by_cases same : id = block
  · simp [same]
  · simp [same]

theorem edge_appendTo (generator : IRGenerator) (block : BlockId) (added : Operation) :
    Edge (generator.appendTo block added).blocks = Edge generator.blocks := by
  funext source target
  simp only [edge_iff, terminatorAt_appendTo]

theorem operationAt_terminate (generator : IRGenerator) (block : BlockId) (last : Terminator)
    (id : BlockId) (index : Nat) (operation : Operation) :
    OperationAt (generator.terminate block last).blocks id index operation ↔
      OperationAt generator.blocks id index operation := by
  simp only [OperationAt, blocks_terminate]
  by_cases same : id = block
  · simp [same]
  · simp [same]

theorem terminatorAt_terminate {generator : IRGenerator}
    (found : generator.blocks block = some body) (isOpen : body.terminator = none)
    (last : Terminator) (id : BlockId) (other : Terminator) :
    TerminatorAt (generator.terminate block last).blocks id other ↔
      TerminatorAt generator.blocks id other ∨ id = block ∧ other = last := by
  simp only [TerminatorAt, blocks_terminate]
  by_cases same : id = block
  · subst same
    simp [found, isOpen, eq_comm]
  · simp [same]

theorem edge_terminate {generator : IRGenerator}
    (found : generator.blocks block = some body) (isOpen : body.terminator = none)
    (last : Terminator) (source target : BlockId) :
    Edge (generator.terminate block last).blocks source target ↔
      Edge generator.blocks source target ∨ source = block ∧ target ∈ last.targets := by
  simp only [edge_iff, terminatorAt_terminate found isOpen]
  constructor
  · rintro ⟨other, old | ⟨same, equal⟩, member⟩
    · exact .inl ⟨other, old, member⟩
    · subst equal
      exact .inr ⟨same, member⟩
  · rintro (⟨other, old, member⟩ | ⟨same, member⟩)
    · exact ⟨other, .inl old, member⟩
    · exact ⟨last, .inr ⟨same, rfl⟩, member⟩

theorem operationAt_addBlock {generator : IRGenerator}
    (sized : generator.module.blocks.length = generator.nextBlockId) (name : String)
    (id : BlockId) (index : Nat) (operation : Operation) :
    OperationAt (generator.addBlock name).blocks id index operation ↔
      OperationAt generator.blocks id index operation := by
  simp only [OperationAt, blocks_addBlock _ sized]
  by_cases same : id = generator.nextBlockId
  · simp [same, generator.blocks_absent sized (Nat.le_refl _)]
  · simp [same]

theorem terminatorAt_addBlock {generator : IRGenerator}
    (sized : generator.module.blocks.length = generator.nextBlockId) (name : String)
    (id : BlockId) (last : Terminator) :
    TerminatorAt (generator.addBlock name).blocks id last ↔
      TerminatorAt generator.blocks id last := by
  simp only [TerminatorAt, blocks_addBlock _ sized]
  by_cases same : id = generator.nextBlockId
  · simp [same, generator.blocks_absent sized (Nat.le_refl _)]
  · simp [same]

theorem edge_addBlock {generator : IRGenerator}
    (sized : generator.module.blocks.length = generator.nextBlockId) (name : String) :
    Edge (generator.addBlock name).blocks = Edge generator.blocks := by
  funext source target
  simp only [edge_iff, terminatorAt_addBlock sized name]

/-- A partly built module: single definitions that dominate their uses, edges
that lead forward, and phis that match the edges into their block. Open blocks
have no terminator yet. -/
structure WellBuilt (generator : IRGenerator) : Prop where
  sized : generator.module.blocks.length = generator.nextBlockId
  entry : generator.module.entry = 0
  rooted : 0 < generator.nextBlockId
  ids : ∀ {id body}, generator.blocks id = some body → body.id = id
  forward : ∀ {source target}, Edge generator.blocks source target →
    source < target ∧ target < generator.nextBlockId
  fresh : ∀ {block index operation}, OperationAt generator.blocks block index operation →
    resultOf operation < generator.nextValueId
  unique : ∀ {block index operation block' index' operation'},
    OperationAt generator.blocks block index operation →
    OperationAt generator.blocks block' index' operation' →
    resultOf operation = resultOf operation' → block = block' ∧ index = index'
  operands : ∀ {block index operation value}, OperationAt generator.blocks block index operation →
    value ∈ operation.operands →
    ∃ source position definition, OperationAt generator.blocks source position definition ∧
      resultOf definition = value ∧ (source = block ∧ position < index ∨
        source < block ∧ BlockDominates generator.blocks 0 source block)
  typed : ∀ {block index operation value type},
    OperationAt generator.blocks block index operation →
    (value, type) ∈ operation.typedOperands → HasDefinition generator.blocks value type
  terminators : ∀ {block last value}, TerminatorAt generator.blocks block last →
    value ∈ last.operands → ∃ type, Available generator.blocks 0 value type block
  conditions : ∀ {block condition trueTarget falseTarget},
    TerminatorAt generator.blocks block (.condBranch condition trueTarget falseTarget) →
    HasDefinition generator.blocks condition (.scalar "i1")
  phisFirst : ∀ {block index operation index' operation'},
    OperationAt generator.blocks block index operation → operation.isPhi = true →
    index' < index → OperationAt generator.blocks block index' operation' →
    operation'.isPhi = true
  incoming : ∀ {block index operation incoming},
    OperationAt generator.blocks block index operation → incoming ∈ operation.incoming →
    Edge generator.blocks incoming.predecessor block ∧
      Available generator.blocks 0 incoming.value (typeOf operation) incoming.predecessor
  predecessors : ∀ {block index operation},
    OperationAt generator.blocks block index operation → operation.isPhi = true →
    (operation.incoming.map PhiIncoming.predecessor).Nodup ∧
      ∀ source, Edge generator.blocks source block →
        source ∈ operation.incoming.map PhiIncoming.predecessor

/-- The generator before the first statement: one empty entry block. -/
def started : IRGenerator where
  module := { entry := 0, blocks := [{ id := 0, name := "entry" }] }
  nextBlockId := 1
  currentBlockId := some 0

theorem blocks_started :
    started.blocks id = if id = 0 then some { id := 0, name := "entry" } else none := by
  cases id <;> simp [started, blocks]

private theorem started_no_operation (present : OperationAt started.blocks id index operation) :
    False := by
  obtain ⟨body, found, here⟩ := present
  rw [blocks_started] at found
  split at found
  · cases found
    simp at here
  · cases found

private theorem started_no_terminator (present : TerminatorAt started.blocks id last) : False := by
  obtain ⟨body, found, ends⟩ := present
  rw [blocks_started] at found
  split at found
  · cases found
    cases ends
  · cases found

/-- A block that was created and not yet written to. -/
def Untouched (generator : IRGenerator) (id : BlockId) : Prop :=
  ∃ body, generator.blocks id = some body ∧ body.operations = [] ∧ body.terminator = none

theorem Untouched.no_operation {generator : IRGenerator} (untouched : Untouched generator id)
    (present : OperationAt generator.blocks id index operation) : False := by
  obtain ⟨body, found, empty, _⟩ := untouched
  obtain ⟨other, found', here⟩ := present
  rw [found] at found'
  cases found'
  simp [empty] at here

theorem Untouched.no_terminator {generator : IRGenerator} (untouched : Untouched generator id)
    (present : TerminatorAt generator.blocks id last) : False := by
  obtain ⟨body, found, _, isOpen⟩ := untouched
  obtain ⟨other, found', ends⟩ := present
  rw [found] at found'
  cases found'
  simp [isOpen] at ends

namespace WellBuilt

variable {generator : IRGenerator}

theorem absent {id : BlockId} (built : generator.WellBuilt) (large : generator.nextBlockId ≤ id) :
    generator.blocks id = none := generator.blocks_absent built.sized large

theorem lt_next {id : BlockId} (built : generator.WellBuilt)
    (found : generator.blocks id = some body) :
    id < generator.nextBlockId := by
  by_contra large
  rw [built.absent (Nat.le_of_not_lt large)] at found
  cases found

theorem initial : WellBuilt started where
  sized := rfl
  entry := rfl
  rooted := Nat.one_pos
  ids := by
    intro id body found
    rw [blocks_started] at found
    split at found
    · rename_i same
      cases found
      exact same.symm
    · cases found
  forward := fun edge => by
    obtain ⟨last, ends, _⟩ := edge_iff.mp edge
    exact (started_no_terminator ends).elim
  fresh := fun present => (started_no_operation present).elim
  unique := fun present => (started_no_operation present).elim
  operands := fun present => (started_no_operation present).elim
  typed := fun present => (started_no_operation present).elim
  terminators := fun ends => (started_no_terminator ends).elim
  conditions := fun ends => (started_no_terminator ends).elim
  phisFirst := fun present => (started_no_operation present).elim
  incoming := fun present => (started_no_operation present).elim
  predecessors := fun present => (started_no_operation present).elim

/-- Appending an operation whose operands are available at the end of the block. -/
theorem appendTo (built : generator.WellBuilt) (found : generator.blocks block = some body)
    (result : resultOf operation = generator.nextValueId)
    (operands : ∀ value ∈ operation.operands,
      ∃ type, Available generator.blocks 0 value type block)
    (typed : ∀ value type, (value, type) ∈ operation.typedOperands →
      HasDefinition generator.blocks value type)
    (phisFirst : operation.isPhi = true →
      ∀ index other, OperationAt generator.blocks block index other → other.isPhi = true)
    (predecessors : operation.isPhi = true →
      (operation.incoming.map PhiIncoming.predecessor).Nodup ∧
        ∀ source, Edge generator.blocks source block →
          source ∈ operation.incoming.map PhiIncoming.predecessor)
    (incoming : ∀ incoming ∈ operation.incoming,
      Edge generator.blocks incoming.predecessor block ∧
        Available generator.blocks 0 incoming.value (typeOf operation) incoming.predecessor) :
    (generator.appendTo block operation).WellBuilt := by
  have atNew {id index other} := operationAt_appendTo found operation id index other
  have edges := edge_appendTo generator block operation
  have kept (id index other) (present : OperationAt generator.blocks id index other) :
      OperationAt (generator.appendTo block operation).blocks id index other :=
    atNew.mpr (.inl present)
  have dominance (id source) (dominates : BlockDominates generator.blocks 0 source id) :
      BlockDominates (generator.appendTo block operation).blocks 0 source id := by
    simpa only [BlockDominates, edges] using dominates
  have within {index other} (present : OperationAt generator.blocks block index other) :
      index < body.operations.length := by
    obtain ⟨same, found', here⟩ := present
    rw [found] at found'
    cases found'
    exact (List.getElem?_eq_some_iff.mp here).1
  exact {
    sized := by
      simpa [IRGenerator.appendTo, changeBlock, addValue] using built.sized
    entry := built.entry
    rooted := built.rooted
    ids := by
      intro id other present
      rw [blocks_appendTo] at present
      split at present
      · obtain ⟨old, atOld, rfl⟩ := Option.map_eq_some_iff.mp present
        show old.id = id
        exact built.ids atOld
      · exact built.ids present
    forward := by
      intro source target edge
      rw [edges] at edge
      exact built.forward edge
    fresh := by
      intro id index other present
      rcases atNew.mp present with old | ⟨_, _, rfl⟩
      · exact Nat.lt_succ_of_lt (built.fresh old)
      · exact result ▸ Nat.lt_succ_self _
    unique := by
      intro id index other id' index' other' present present' same
      rcases atNew.mp present with old | ⟨rfl, rfl, rfl⟩ <;>
        rcases atNew.mp present' with old' | ⟨rfl, rfl, rfl⟩
      · exact built.unique old old' same
      · exact absurd (built.fresh old) (by rw [same, result]; exact Nat.lt_irrefl _)
      · exact absurd (built.fresh old') (by rw [← same, result]; exact Nat.lt_irrefl _)
      · exact ⟨rfl, rfl⟩
    operands := by
      intro id index other value present member
      rcases atNew.mp present with old | ⟨rfl, rfl, rfl⟩
      · obtain ⟨source, position, definition, defined, gives, place⟩ := built.operands old member
        refine ⟨source, position, definition, kept _ _ _ defined, gives, ?_⟩
        exact place.imp_right fun ⟨before, dominates⟩ => ⟨before, dominance _ _ dominates⟩
      · obtain ⟨type, source, position, definition, defined, gives, _, before, dominates⟩ :=
          operands value member
        refine ⟨source, position, definition, kept _ _ _ defined, gives, ?_⟩
        rcases Nat.lt_or_eq_of_le before with less | same
        · exact .inr ⟨less, dominance _ _ dominates⟩
        · subst same
          exact .inl ⟨rfl, within defined⟩
    typed := by
      intro id index other value type present member
      rcases atNew.mp present with old | ⟨rfl, rfl, rfl⟩
      · exact (built.typed old member).mono kept
      · exact (typed value type member).mono kept
    terminators := by
      intro id last value ends member
      obtain ⟨type, available⟩ := built.terminators ((terminatorAt_appendTo _ _ _).mp ends) member
      exact ⟨type, available.mono kept (dominance id)⟩
    conditions := by
      intro id condition trueTarget falseTarget ends
      exact (built.conditions ((terminatorAt_appendTo _ _ _).mp ends)).mono kept
    phisFirst := by
      intro id index other index' other' present isPhi before present'
      rcases atNew.mp present with old | ⟨rfl, rfl, rfl⟩ <;>
        rcases atNew.mp present' with old' | ⟨same, rfl, rfl⟩
      · exact built.phisFirst old isPhi before old'
      · exact absurd (within (same ▸ old)) (Nat.not_lt_of_lt before)
      · exact phisFirst isPhi _ _ old'
      · exact isPhi
    incoming := by
      intro id index other value present member
      rw [edges]
      rcases atNew.mp present with old | ⟨rfl, rfl, rfl⟩
      · obtain ⟨edge, available⟩ := built.incoming old member
        exact ⟨edge, available.mono kept (dominance _)⟩
      · obtain ⟨edge, available⟩ := incoming value member
        exact ⟨edge, available.mono kept (dominance _)⟩
    predecessors := by
      intro id index other present isPhi
      rw [edges]
      rcases atNew.mp present with old | ⟨rfl, rfl, rfl⟩
      · exact built.predecessors old isPhi
      · exact predecessors isPhi }

/-- Adding an empty block. -/
theorem addBlock (built : generator.WellBuilt) (name : String) :
    (generator.addBlock name).WellBuilt := by
  have atNew {id index other} := operationAt_addBlock built.sized name id index other
  have ends {id last} := terminatorAt_addBlock built.sized name id last
  have edges := edge_addBlock built.sized name
  have kept (id index other) (present : OperationAt generator.blocks id index other) :
      OperationAt (generator.addBlock name).blocks id index other := atNew.mpr present
  have dominance (id source) (dominates : BlockDominates generator.blocks 0 source id) :
      BlockDominates (generator.addBlock name).blocks 0 source id := by
    simpa only [BlockDominates, edges] using dominates
  exact {
    sized := by simp [IRGenerator.addBlock, built.sized]
    entry := built.entry
    rooted := Nat.succ_pos _
    ids := by
      intro id other present
      rw [blocks_addBlock _ built.sized] at present
      split at present
      · rename_i same
        cases present
        exact same.symm
      · exact built.ids present
    forward := by
      intro source target edge
      rw [edges] at edge
      exact (built.forward edge).imp_right Nat.lt_succ_of_lt
    fresh := fun present => built.fresh (atNew.mp present)
    unique := fun present present' => built.unique (atNew.mp present) (atNew.mp present')
    operands := by
      intro id index other value present member
      obtain ⟨source, position, definition, defined, gives, place⟩ :=
        built.operands (atNew.mp present) member
      refine ⟨source, position, definition, kept _ _ _ defined, gives, ?_⟩
      exact place.imp_right fun ⟨before, dominates⟩ => ⟨before, dominance _ _ dominates⟩
    typed := fun present member => (built.typed (atNew.mp present) member).mono kept
    terminators := by
      intro id last value present member
      obtain ⟨type, available⟩ := built.terminators (ends.mp present) member
      exact ⟨type, available.mono kept (dominance id)⟩
    conditions := fun present => (built.conditions (ends.mp present)).mono kept
    phisFirst := fun present isPhi before present' =>
      built.phisFirst (atNew.mp present) isPhi before (atNew.mp present')
    incoming := by
      intro id index other value present member
      rw [edges]
      obtain ⟨edge, available⟩ := built.incoming (atNew.mp present) member
      exact ⟨edge, available.mono kept (dominance _)⟩
    predecessors := by
      intro id index other present isPhi
      rw [edges]
      exact built.predecessors (atNew.mp present) isPhi }

/-- Terminating an open block, with edges to later blocks nothing was written to. -/
theorem terminate (built : generator.WellBuilt) (found : generator.blocks block = some body)
    (isOpen : body.terminator = none)
    (targets : ∀ target ∈ last.targets, block < target ∧ Untouched generator target)
    (operands : ∀ value ∈ last.operands, ∃ type, Available generator.blocks 0 value type block)
    (condition : ∀ condition trueTarget falseTarget,
      last = .condBranch condition trueTarget falseTarget →
        HasDefinition generator.blocks condition (.scalar "i1")) :
    (generator.terminate block last).WellBuilt := by
  have atNew {id index other} := operationAt_terminate generator block last id index other
  have ends {id other} := terminatorAt_terminate found isOpen last id other
  have edges {source target} := edge_terminate found isOpen last source target
  have kept (id index other) (present : OperationAt generator.blocks id index other) :
      OperationAt (generator.terminate block last).blocks id index other := atNew.mpr present
  -- No walk that ends outside the new targets uses a new edge: the targets are still open.
  have dominance (id source) (old : id ∉ last.targets)
      (dominates : BlockDominates generator.blocks 0 source id) :
      BlockDominates (generator.terminate block last).blocks 0 source id := by
    refine Dominates.grow (· ∉ last.targets) ?_ dominates old
    intro start target outside edge
    rcases edges.mp edge with present | ⟨_, member⟩
    · refine ⟨present, fun member => ?_⟩
      obtain ⟨other, ends', _⟩ := edge_iff.mp present
      exact (targets _ member).2.no_terminator ends'
    · exact absurd member outside
  have written {id index other} (present : OperationAt generator.blocks id index other) :
      id ∉ last.targets := fun member => (targets _ member).2.no_operation present
  have ended {id other} (present : TerminatorAt generator.blocks id other) :
      id ∉ last.targets := fun member => (targets _ member).2.no_terminator present
  have here : block ∉ last.targets := fun member => Nat.lt_irrefl _ (targets _ member).1
  exact {
    sized := by simpa [IRGenerator.terminate, changeBlock] using built.sized
    entry := built.entry
    rooted := built.rooted
    ids := by
      intro id other present
      rw [blocks_terminate] at present
      split at present
      · obtain ⟨old, atOld, rfl⟩ := Option.map_eq_some_iff.mp present
        show old.id = id
        exact built.ids atOld
      · exact built.ids present
    forward := by
      intro source target edge
      rcases edges.mp edge with old | ⟨rfl, member⟩
      · exact built.forward old
      · obtain ⟨less, other, present, _⟩ := targets _ member
        exact ⟨less, built.lt_next present⟩
    fresh := fun present => built.fresh (atNew.mp present)
    unique := fun present present' => built.unique (atNew.mp present) (atNew.mp present')
    operands := by
      intro id index other value present member
      have old := atNew.mp present
      obtain ⟨source, position, definition, defined, gives, place⟩ := built.operands old member
      refine ⟨source, position, definition, kept _ _ _ defined, gives, ?_⟩
      exact place.imp_right fun ⟨before, dominates⟩ =>
        ⟨before, dominance _ _ (written old) dominates⟩
    typed := fun present member => (built.typed (atNew.mp present) member).mono kept
    terminators := by
      intro id other value present member
      rcases ends.mp present with old | ⟨rfl, rfl⟩
      · obtain ⟨type, available⟩ := built.terminators old member
        exact ⟨type, available.mono kept (dominance id · (ended old))⟩
      · obtain ⟨type, available⟩ := operands value member
        exact ⟨type, available.mono kept (dominance id · here)⟩
    conditions := by
      intro id value trueTarget falseTarget present
      rcases ends.mp present with old | ⟨_, same⟩
      · exact (built.conditions old).mono kept
      · exact (condition _ _ _ same.symm).mono kept
    phisFirst := fun present isPhi before present' =>
      built.phisFirst (atNew.mp present) isPhi before (atNew.mp present')
    incoming := by
      intro id index other value present member
      obtain ⟨edge, available⟩ := built.incoming (atNew.mp present) member
      obtain ⟨last', ends', _⟩ := edge_iff.mp edge
      exact ⟨edges.mpr (.inl edge), available.mono kept (dominance _ · (ended ends'))⟩
    predecessors := by
      intro id index other present isPhi
      have old := atNew.mp present
      refine (built.predecessors old isPhi).imp_right fun each source edge => ?_
      rcases edges.mp edge with before | ⟨_, member⟩
      · exact each source before
      · exact absurd member (written old) }

end WellBuilt

end IRGenerator

end Ocelotl.IR
