import Ocelotl.IR.StrictSSA
import Mathlib.Logic.Relation

namespace Ocelotl.IR

open Ast Semantic Library IRGenerator

/-- The value is defined before this index of this block, in the order of the block list. -/
def DefinedEarlier (module : Module) (value : ValueId) (block index : Nat) : Prop :=
  ∃ (source position : Nat) (body : BasicBlock) (operation : Operation),
    module.blocks[source]? = some body ∧ body.operations[position]? = some operation ∧
      resultOf operation = value ∧ (source < block ∨ source = block ∧ position < index)

/-- Whatever a block reads is defined earlier in the block list, the values of
phis included. -/
structure DefinitionOrdered (module : Module) : Prop where
  operands : ∀ (block index : Nat) body operation, module.blocks[block]? = some body →
    body.operations[index]? = some operation →
    ∀ value ∈ operation.operands ++ operation.incoming.map PhiIncoming.value,
      DefinedEarlier module value block index
  terminators : ∀ (block : Nat) body last, module.blocks[block]? = some body →
    body.terminator = some last →
    ∀ value ∈ last.operands, DefinedEarlier module value block body.operations.length

/-- A block list that a single pass can follow. -/
structure Topological (module : Module) : Prop extends DefinitionOrdered module where
  entryFirst : ∃ body, module.blocks[0]? = some body ∧ body.id = module.entry
  entrySource : ∀ body ∈ module.blocks, module.entry ∉ body.targets
  ids : ∀ (block : Nat) body, module.blocks[block]? = some body → body.id = block
  reachable : ∀ body ∈ module.blocks,
    Relation.ReflTransGen (Edge module.block) module.entry body.id
  forward : ∀ body ∈ module.blocks, ∀ target ∈ body.targets, body.id < target

variable {generator middle final thenGenerator elseGenerator : IRGenerator} {block : BlockId}
  {order : TraversalOrder} {symbols : SymbolTable} {values : Environment} {statement : Statement}
  {statements : List Statement}

/-- Every block but the first has a predecessor. -/
def Entered (generator : IRGenerator) : Prop :=
  ∀ id, 0 < id → id < generator.nextBlockId → ∃ source, Edge generator.blocks source id

/-- Only the new blocks need edges into them. -/
theorem Entered.grow (entered : Entered generator) (grows : Grows written targeted generator final)
    (new : ∀ id, generator.nextBlockId ≤ id → id < final.nextBlockId →
      ∃ source, Edge final.blocks source id) : Entered final := by
  intro id positive within
  by_cases old : id < generator.nextBlockId
  · obtain ⟨source, edge⟩ := entered id positive old
    exact ⟨source, grows.edge edge⟩
  · exact new id (Nat.le_of_not_lt old) within

/-- Nothing is needed where no blocks are added. -/
theorem Entered.keep (entered : Entered generator) (grows : Grows written targeted generator final)
    (count : final.nextBlockId = generator.nextBlockId) : Entered final :=
  entered.grow grows fun _ large within => absurd large (Nat.not_le_of_lt (count ▸ within))

theorem Entered.fork {condition : ValueId} (entered : Entered generator)
    (fork : Forked generator block (generator.fork block condition)) :
    Entered (generator.fork block condition) := by
  apply entered.grow fork.grows
  intro id large within
  rw [fork_nextBlockId] at within
  exact ⟨block, (fork.edges block id).mpr (.inr ⟨rfl, by lia⟩)⟩

theorem Entered.join {ends : List BlockId} {source : BlockId} (entered : Entered generator)
    (joined : Joined generator ends (generator.join ends)) (member : source ∈ ends) :
    Entered (generator.join ends) := by
  apply entered.grow joined.grows
  intro id large within
  rw [join_nextBlockId] at within
  have same : id = generator.nextBlockId := by lia
  exact ⟨source, same ▸ (joined.edges source).mpr member⟩

theorem JoinRun.entered (entered : Entered elseGenerator)
    (run : JoinRun order values thenGenerator elseGenerator final) : Entered final := by
  cases run with
  | neither _ _ same =>
    subst same
    exact entered
  | elseOnly elseEnd _ _ joined same =>
    subst same
    exact entered.join joined List.mem_cons_self
  | thenOnly thenEnd _ _ joined same =>
    subst same
    exact entered.join joined List.mem_cons_self
  | both thenEnd elseEnd _ _ joined _ _ merged =>
    have entered' : Entered ((elseGenerator.join [thenEnd, elseEnd]).enter
        (some elseGenerator.nextBlockId) ∅) := entered.join joined List.mem_cons_self
    exact entered'.keep merged.grows merged.count

/-- What each statement keeps, the statements of a branch keep. -/
theorem generateBranch_keeps {kept : IRGenerator → Prop}
    (each : ∀ statement ∈ statements, ∀ {generator final block}, Valid generator block →
      kept generator → generateStatement order symbols statement generator = .ok () final →
        kept final)
    (valid : Valid generator block) (start : kept generator)
    (success : generateBranch order symbols statements generator = .ok () final) : kept final := by
  induction statements generalizing generator block with
  | nil =>
    cases success
    exact start
  | cons statement statements ih =>
    rw [generateBranch_cons valid.current] at success
    obtain ⟨_, middle, first, rest⟩ := bind_ok.mp success
    have advanced := generateStatement_valid valid first
    have kept' := each statement List.mem_cons_self valid start first
    cases current : middle.currentBlockId with
    | none =>
      rw [generateBranch_stopped current] at rest
      cases rest
      exact kept'
    | some next =>
      exact ih (fun other member => each other (List.mem_cons_of_mem _ member))
        (advanced.settled.valid next current) kept' rest

private theorem generateStatement_entered (valid : Valid generator block) (entered : Entered generator)
    (success : generateStatement order symbols statement generator = .ok () final) :
    Entered final := by
  induction statement generalizing generator final block with
  | tensorDecl declaration =>
    have advanced := generateStatement_valid valid success
    rw [generateStatement] at success
    obtain ⟨type, _, _, same⟩ := (generateTensorDeclaration_ok valid.toActive).mp success
    exact entered.keep advanced.grows (by rw [same]; rfl)
  | assignment assignment =>
    have advanced := generateStatement_valid valid success
    rw [generateStatement] at success
    obtain ⟨info, middle, first, same⟩ := generateAssignment_ok.mp success
    exact entered.keep advanced.grows (same ▸ (generateExpression_valid valid first).count)
  | returnStmt returnStatement =>
    have advanced := generateStatement_valid valid success
    rw [generateStatement] at success
    obtain ⟨info, middle, first, same⟩ := (generateReturn_ok fun _ _ first =>
      (generateExpression_valid valid first).valid.toActive).mp success
    exact entered.keep advanced.grows (same ▸ (generateExpression_valid valid first).count)
  | ifStmt condition thenStatements elseStatements location thenIH elseIH =>
    obtain ⟨info, tested, thenGenerator, elseGenerator, parts⟩ :=
      generateStatement_conditional valid success
    have tested := entered.keep parts.computed.grows parts.computed.count
    have thenEntered := generateBranch_keeps thenIH parts.thenValid (tested.fork parts.fork)
      parts.thenRun
    have elseEntered := generateBranch_keeps elseIH parts.elseValid thenEntered parts.elseRun
    exact parts.joined.entered elseEntered
  | nullIf =>
    rw [generateStatement] at success
    cases success

/-- What each statement keeps, a program keeps. -/
theorem generateTopLevel_keeps {kept : IRGenerator → Prop}
    (each : ∀ statement ∈ statements, ∀ {generator final block}, Valid generator block →
      kept generator → generateStatement order symbols statement generator = .ok () final →
        kept final)
    (valid : Valid generator block) (start : kept generator)
    (success : generateTopLevel order symbols statements generator = .ok () final) :
    kept final := by
  induction statements generalizing generator block with
  | nil =>
    cases success
    exact start
  | cons statement statements ih =>
    rw [generateTopLevel_cons valid.current] at success
    obtain ⟨_, middle, first, rest⟩ := bind_ok.mp success
    have advanced := generateStatement_valid valid first
    have kept' := each statement List.mem_cons_self valid start first
    cases current : middle.currentBlockId with
    | none =>
      cases statements with
      | nil =>
        cases rest
        exact kept'
      | cons next statements =>
        rw [generateTopLevel_stopped current] at rest
        cases rest
    | some next =>
      exact ih (fun other member => each other (List.mem_cons_of_mem _ member))
        (advanced.settled.valid next current) kept' rest

theorem generateUnverified_entered {program : Program}
    (success : generateUnverified order symbols program {} = .ok () final) : Entered final := by
  obtain ⟨run, _⟩ := generateUnverified_ok.mp success
  have start : Entered started := by
    intro id positive within
    have within : id < 1 := within
    lia
  exact generateTopLevel_keeps (fun _ _ => generateStatement_entered) .started start run

/-- Following edges backwards leads to the entry, since they lead forward. -/
theorem IRGenerator.WellBuilt.reachable (built : generator.WellBuilt) (entered : Entered generator)
    {id : BlockId} (within : id < generator.nextBlockId) :
    Relation.ReflTransGen (Edge generator.blocks) 0 id := by
  induction id using Nat.strong_induction_on with
  | h id ih =>
    rcases Nat.eq_zero_or_pos id with same | positive
    · rw [same]
    · obtain ⟨source, edge⟩ := entered id positive within
      have before := (built.forward edge).1
      exact (ih source before (before.trans within)).tail edge

theorem IRGenerator.WellBuilt.definedEarlier {value : ValueId} {index source position : Nat}
    {operation : Operation} (present : OperationAt generator.blocks source position operation)
    (result : resultOf operation = value)
    (before : source < block ∨ source = block ∧ position < index) :
    DefinedEarlier generator.module value block index := by
  obtain ⟨body, found, here⟩ := present
  exact ⟨source, position, body, operation, found, here, result, before⟩

/-- A well-built module without an open block is in topological order. -/
theorem IRGenerator.WellBuilt.topological (built : generator.WellBuilt)
    (entered : Entered generator) : Topological generator.module := by
  have found {body} (member : body ∈ generator.module.blocks) :
      generator.blocks body.id = some body := by
    obtain ⟨index, here⟩ := List.getElem?_of_mem member
    have here : generator.blocks index = some body := here
    rw [built.ids here]
    exact here
  refine ⟨⟨?_, ?_⟩, ?_, ?_, ?_, ?_, ?_⟩
  · intro block index body operation here at' value member
    have present : OperationAt generator.blocks block index operation := ⟨body, here, at'⟩
    rcases List.mem_append.mp member with used | listed
    · obtain ⟨source, position, definition, defined, result, place⟩ := built.operands present used
      exact definedEarlier defined result (place.symm.imp_left And.left)
    · obtain ⟨incoming, member, same⟩ := List.mem_map.mp listed
      obtain ⟨edge, source, position, definition, defined, result, _, before, _⟩ :=
        built.incoming present member
      have later := (built.forward edge).1
      exact definedEarlier defined (result.trans same) (.inl (by lia))
  · intro block body last here ends value member
    obtain ⟨_, source, position, definition, defined, result, _, before, _⟩ :=
      built.terminators ⟨body, here, ends⟩ member
    refine definedEarlier defined result ?_
    rcases Nat.lt_or_eq_of_le before with less | same
    · exact .inl less
    · subst same
      obtain ⟨other, found', at'⟩ := defined
      cases here.symm.trans found'
      exact .inr ⟨rfl, (List.getElem?_eq_some_iff.mp at').1⟩
  · have within : 0 < generator.module.blocks.length := built.sized ▸ built.rooted
    exact ⟨_, List.getElem?_eq_getElem within,
      (built.ids (List.getElem?_eq_getElem within)).trans built.entry.symm⟩
  · intro body member aimed
    rw [built.entry] at aimed
    exact Nat.not_lt_zero _ (built.forward ⟨body, found member, aimed⟩).1
  · exact fun block body here => built.ids here
  · intro body member
    rw [built.block_eq, built.entry]
    exact built.reachable entered (built.lt_next (found member))
  · exact fun body member target aimed => (built.forward ⟨body, found member, aimed⟩).1

/-- The block list of every module that the generator returns. -/
theorem generate_topological {analyzer : SemanticAnalyzer} {program : Program} {module : Module}
    (generated : generate order analyzer program = .ok module) : Topological module := by
  obtain ⟨final, success, _, rfl⟩ := generate_ok.mp generated
  exact (generateUnverified_valid success).1.topological (generateUnverified_entered success)

end Ocelotl.IR
