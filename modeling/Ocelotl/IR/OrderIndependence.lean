import Ocelotl.IR.MergeOrder
import Ocelotl.Semantic.EntryOrder

namespace Ocelotl.IR

open Ast Semantic Library IRGenerator

variable {ids : Renaming} {order order' : TraversalOrder} {symbols symbols' : SymbolTable}
  {generator generator' thenGenerator thenGenerator' elseGenerator elseGenerator' final final' :
    IRGenerator}
  {block thenEnd elseEnd : BlockId}
  {before before' thenValues elseValues thenValues' elseValues' : Environment}
  {entries entries' : List (String × ValueInfo)} {statement : Statement}
  {statements : List Statement} {program : Program}

private theorem lists_traverse (order : TraversalOrder) (traversal : Nat) (values : Environment) :
    Lists values (order.traverse traversal values) :=
  ⟨order.nodup_traverse traversal values, order.mem_traverse⟩

/-- The types that differ do not depend on the order either. -/
theorem mergeValues_corresponds (active : Active generator block)
    (same : Corresponds ids generator generator') (unbound : generator.values = ∅)
    (unbound' : generator'.values = ∅)
    (empty : ∀ body, generator.module.blocks[block]? = some body → body.operations = [])
    (lists : Lists thenValues entries) (lists' : Lists thenValues' entries')
    (fromThen : EnvironmentSent ids thenValues thenValues')
    (fromElse : EnvironmentSent ids elseValues elseValues')
    (success : mergeValues thenEnd elseEnd elseValues entries generator = .ok () final) :
    ∃ ids' final', mergeValues thenEnd elseEnd elseValues' entries' generator' = .ok () final' ∧
      ids.Extends ids' ∧ Corresponds ids' final final' := by
  have active' := same.active active
  have absent : ∀ entry ∈ entries, generator.values.lookup entry.1 = none := by
    intro entry _
    rw [unbound, AList.lookup_empty]
  have absent' : ∀ entry ∈ entries', generator'.values.lookup entry.1 = none := by
    intro entry _
    rw [unbound', AList.lookup_empty]
  cases run : mergeValues thenEnd elseEnd elseValues' entries' generator' with
  | error error final' =>
    obtain ⟨name, thenValue', elseValue', _, member, found, typed⟩ := mergeValues_error active' run
    obtain ⟨thenValue, inThen, thenSent⟩ := fromThen.of_some' (lists'.mem_iff.mp member)
    obtain ⟨elseValue, inElse, elseSent⟩ := fromElse.of_some' found
    have merged := mergeValues_values active lists.nodup absent success
    have types := (merged.joined (lists.mem_iff.mpr inThen) inElse).1
    exact absurd (thenSent.type.trans (types.trans elseSent.type.symm)) typed
  | ok _ final' =>
    obtain ⟨joints, numbers, merges⟩ := mergeValues_joins active lists.nodup absent success
    obtain ⟨joints', numbers', merges'⟩ := mergeValues_joins active' lists'.nodup absent' run
    obtain ⟨ids', longer, corresponds⟩ :=
      mergesInto_corresponds numbers numbers' lists lists' fromThen fromElse
      same unbound unbound' empty merges merges'
    exact ⟨ids', final', rfl, longer, corresponds⟩

theorem JoinRun.corresponds (run : JoinRun order before thenGenerator elseGenerator final)
    (thenCurrent' : thenGenerator'.currentBlockId = thenGenerator.currentBlockId)
    (sent : EnvironmentSent ids before before')
    (thenSent : EnvironmentSent ids thenGenerator.values thenGenerator'.values)
    (same : Corresponds ids elseGenerator elseGenerator') :
    ∃ ids' final',
      joinBranches order' before' thenGenerator'.currentBlockId elseGenerator'.currentBlockId
        thenGenerator'.values elseGenerator'.values elseGenerator' = .ok () final' ∧
      ids.Extends ids' ∧ Corresponds ids' final final' := by
  rw [thenCurrent', same.currentBlockId]
  cases run with
  | neither thenCurrent elseCurrent result =>
    subst result
    rw [thenCurrent, elseCurrent, joinBranches_neither]
    exact ⟨ids, _, rfl, .refl ids, same.enter sent none⟩
  | elseOnly elseEnd thenCurrent elseCurrent _ result =>
    subst result
    rw [thenCurrent, elseCurrent, joinBranches_else, same.nextBlockId]
    exact ⟨ids, _, rfl, .refl ids, (same.join [elseEnd]).enter same.values _⟩
  | thenOnly thenEnd thenCurrent elseCurrent _ result =>
    subst result
    rw [thenCurrent, elseCurrent, joinBranches_then, same.nextBlockId]
    exact ⟨ids, _, rfl, .refl ids, (same.join [thenEnd]).enter thenSent _⟩
  | both thenEnd elseEnd thenCurrent elseCurrent joined merging success _ =>
    have start := (same.join [thenEnd, elseEnd]).enter .empty (some elseGenerator.nextBlockId)
    have empty :
        ∀ body, (elseGenerator.join [thenEnd, elseEnd]).module.blocks[elseGenerator.nextBlockId]? =
        some body → body.operations = [] := by
      intro body found
      obtain ⟨other, found', none, _⟩ := joined.untouched
      cases found.symm.trans found'
      exact none
    rw [thenCurrent, elseCurrent, joinBranches_both, same.nextBlockId]
    exact mergeValues_corresponds merging.valid.toActive start rfl rfl empty
      (lists_traverse order _ _)
      (lists_traverse order' _ _) thenSent same.values success

/-- The other generation of these statements succeeds as well. -/
def Accompanies (ids : Renaming) (generate : Generation Unit)
    (generator' final : IRGenerator) : Prop :=
  ∃ ids' final', generate generator' = .ok () final' ∧ ids.Extends ids' ∧
    Corresponds ids' final final'

private theorem generateBranch_corresponds_of
    (each : ∀ statement ∈ statements, ∀ {ids generator generator' final block},
      Valid generator block →
      Corresponds ids generator generator' → generateStatement order symbols statement generator =
        .ok () final →
        Accompanies ids (generateStatement order' symbols' statement) generator' final)
    (valid : Valid generator block) (same : Corresponds ids generator generator')
    (success : generateBranch order symbols statements generator = .ok () final) :
    Accompanies ids (generateBranch order' symbols' statements) generator' final := by
  induction statements generalizing ids generator generator' block with
  | nil =>
    cases success
    exact ⟨ids, generator', rfl, .refl ids, same⟩
  | cons statement statements ih =>
    rw [generateBranch_cons valid.current] at success
    obtain ⟨_, middle, first, rest⟩ := bind_ok.mp success
    obtain ⟨ids', middle', first', longer, same'⟩ :=
      each statement List.mem_cons_self valid same first
    have advanced := generateStatement_valid valid first
    have whole {ids'' final'}
      (rest' : generateBranch order' symbols' statements middle' = .ok () final')
        (longer' : ids'.Extends ids'') (same'' : Corresponds ids'' final final') :
        Accompanies ids (generateBranch order' symbols' (statement :: statements))
          generator' final := by
      refine ⟨ids'', final', ?_, longer.trans longer', same''⟩
      rw [generateBranch_cons (same.currentBlockId.trans valid.current)]
      exact bind_ok.mpr ⟨(), middle', first', rest'⟩
    cases current : middle.currentBlockId with
    | none =>
      rw [generateBranch_stopped current] at rest
      cases rest
      exact whole (generateBranch_stopped (same'.currentBlockId.trans current) statements)
        (.refl ids') same'
    | some next =>
      obtain ⟨ids'', final', rest', longer', same''⟩ :=
        ih (fun other member => each other (List.mem_cons_of_mem _ member))
          (advanced.settled.valid next current) same' rest
      exact whole rest' longer' same''

private theorem started_corresponds : Corresponds Renaming.empty started started where
  nextValueId := rfl
  nextValueId' := rfl
  nextBlockId := rfl
  currentBlockId := rfl
  entry := rfl
  blocks := by
    refine .cons ⟨rfl, rfl, .none, ?_⟩ .nil
    exact .intro (List.forall_mem_nil _) .nil (.refl _) (List.forall_mem_nil _) .nil
  values := .empty

section Statements

variable (types : ∀ name, symbols'.typeOf name = symbols.typeOf name)
include types

private theorem generateStatement_corresponds (valid : Valid generator block)
    (same : Corresponds ids generator generator')
    (success : generateStatement order symbols statement generator = .ok () final) :
    Accompanies ids (generateStatement order' symbols' statement) generator' final := by
  induction statement generalizing ids generator generator' final block with
  | tensorDecl declaration =>
    rw [generateStatement] at success
    obtain ⟨type, found, free, rfl⟩ := (generateTensorDeclaration_ok valid.toActive).mp success
    have free' : declaration.name ∉ generator'.values :=
      AList.lookup_eq_none.mp (same.values.eq_none.mpr (AList.lookup_eq_none.mpr free))
    obtain ⟨same', sent⟩ :=
      @Corresponds.define _ _ _ _ _ type same (.tensorDecl same.fresh) rfl block
    refine ⟨_, _, ?_, Renaming.extends_fresh, same'.rebind sent declaration.name⟩
    rw [generateStatement]
    exact (generateTensorDeclaration_ok (same.active valid.toActive)).mpr
      ⟨type, (types declaration.name).trans found, free', rfl⟩
  | assignment assignment =>
    rw [generateStatement] at success
    obtain ⟨info, middle, first, rfl⟩ := generateAssignment_ok.mp success
    obtain ⟨ids', info', middle', first', longer, same', sent⟩ :=
      generateExpression_corresponds valid same first
    refine ⟨ids', _, ?_, longer, same'.rebind sent assignment.target⟩
    rw [generateStatement]
    exact generateAssignment_ok.mpr ⟨info', middle', first', rfl⟩
  | returnStmt returnStatement =>
    rw [generateStatement] at success
    obtain ⟨info, middle, first, rfl⟩ := (generateReturn_ok fun _ _ first =>
      (generateExpression_valid valid first).valid.toActive).mp success
    obtain ⟨ids', info', middle', first', longer, same', sent⟩ :=
      generateExpression_corresponds valid same first
    have active' := same'.active (generateExpression_valid valid first).valid.toActive
    refine ⟨ids', _, ?_, longer,
      (same'.terminate (.returnOp sent.value) block).enter same'.values none⟩
    rw [generateStatement]
    refine (generateReturn_ok fun info middle success => ?_).mpr ⟨info', middle', first', rfl⟩
    cases first'.symm.trans success
    exact active'
  | ifStmt condition thenStatements elseStatements location thenIH elseIH =>
    obtain ⟨info, tested, thenGenerator, elseGenerator, conditional⟩ :=
      generateStatement_conditional valid success
    obtain ⟨testedIds, info', tested', first', tests, testedSame, sent⟩ :=
      generateExpression_corresponds valid same conditional.first
    have forked :=
      (testedSame.fork sent.value block).enter testedSame.values (some tested.nextBlockId)
    obtain ⟨thenIds, thenGenerator', thenRun', thenLonger, thenSame⟩ :=
      generateBranch_corresponds_of thenIH conditional.thenValid forked conditional.thenRun
    have testedSent := testedSame.values.mono thenLonger
    have entered := thenSame.enter testedSent (some (tested.nextBlockId + 1))
    obtain ⟨elseIds, elseGenerator', elseRun', elseLonger, elseSame⟩ :=
      generateBranch_corresponds_of elseIH conditional.elseValid entered conditional.elseRun
    obtain ⟨finalIds, final', joined', finalLonger, finalSame⟩ := conditional.joined.corresponds
      thenSame.currentBlockId (testedSent.mono elseLonger) (thenSame.values.mono elseLonger)
        elseSame
    refine ⟨finalIds, final', generateStatement_if_ok.mpr ⟨info', tested', block, thenGenerator',
      elseGenerator',
      first', sent.type.trans conditional.typed,
        testedSame.currentBlockId.trans conditional.computed.valid.current,
      ?_, ?_, joined'⟩, ((tests.trans thenLonger).trans elseLonger).trans finalLonger, finalSame⟩
    · rw [testedSame.nextBlockId]
      exact thenRun'
    · rw [testedSame.nextBlockId]
      exact elseRun'
  | nullIf =>
    rw [generateStatement] at success
    cases success

private theorem generateTopLevel_corresponds (valid : Valid generator block)
    (same : Corresponds ids generator generator')
    (success : generateTopLevel order symbols statements generator = .ok () final) :
    Accompanies ids (generateTopLevel order' symbols' statements) generator' final := by
  induction statements generalizing ids generator generator' block with
  | nil =>
    cases success
    exact ⟨ids, generator', rfl, .refl ids, same⟩
  | cons statement statements ih =>
    rw [generateTopLevel_cons valid.current] at success
    obtain ⟨_, middle, first, rest⟩ := bind_ok.mp success
    obtain ⟨ids', middle', first', longer, same'⟩ :=
      generateStatement_corresponds types valid same first
    have advanced := generateStatement_valid valid first
    have whole {ids'' final'}
      (rest' : generateTopLevel order' symbols' statements middle' = .ok () final')
        (longer' : ids'.Extends ids'') (same'' : Corresponds ids'' final final') :
        Accompanies ids (generateTopLevel order' symbols' (statement :: statements))
          generator' final := by
      refine ⟨ids'', final', ?_, longer.trans longer', same''⟩
      rw [generateTopLevel_cons (same.currentBlockId.trans valid.current)]
      exact bind_ok.mpr ⟨(), middle', first', rest'⟩
    cases current : middle.currentBlockId with
    | none =>
      cases statements with
      | nil =>
        cases rest
        exact whole rfl (.refl ids') same'
      | cons next statements =>
        rw [generateTopLevel_stopped current] at rest
        cases rest
    | some next =>
      obtain ⟨ids'', final', rest', longer', same''⟩ :=
        ih (advanced.settled.valid next current) same' rest
      exact whole rest' longer' same''

private theorem generateUnverified_corresponds
    (success : generateUnverified order symbols program {} = .ok () final) :
    ∃ ids final', generateUnverified order' symbols' program {} = .ok () final' ∧
      Corresponds ids final final' := by
  obtain ⟨run, stopped⟩ := generateUnverified_ok.mp success
  obtain ⟨ids, final', run', _, same⟩ :=
    generateTopLevel_corresponds types .started started_corresponds run
  exact ⟨ids, final', generateUnverified_ok.mpr ⟨run', same.currentBlockId.trans stopped⟩, same⟩

end Statements

section Verification

variable {value value' : ValueId} {definition : Definition} {operation : Operation}
  {operations operations' : List Operation} {body : BasicBlock}

theorem OperationsSent.exists_of_mem (sent : OperationsSent ids operations operations')
    (member : operation ∈ operations) :
    ∃ operation' ∈ operations', OperationSent ids operation operation' := by
  cases sent with
  | intro _ phisSent shuffled _ restSent =>
    rcases List.mem_append.mp member with isPhi | ordinary
    · obtain ⟨operation', member', sent⟩ := exists_mem_of_forall₂ phisSent isPhi
      exact ⟨operation', List.mem_append_left _ (shuffled.mem_iff.mp member'), sent⟩
    · obtain ⟨operation', member', sent⟩ := exists_mem_of_forall₂ restSent ordinary
      exact ⟨operation', List.mem_append_right _ member', sent⟩

/-- The value that corresponds to a defined one is defined with the same type. -/
theorem Corresponds.defines (same : Corresponds ids generator generator')
    (sends : ids.Sends value value') (defines : generator.module.Defines value definition) :
    ∃ definition', generator'.module.Defines value' definition' ∧
      definition'.type = definition.type := by
  obtain ⟨body, member, position, operation, here, result, rfl⟩ := defines
  obtain ⟨body', member', bodySent⟩ := exists_mem_of_forall₂ same.blocks member
  obtain ⟨operation', present, sent⟩ :=
    bodySent.operations.exists_of_mem (List.mem_of_getElem? here)
  obtain ⟨position', here'⟩ := List.getElem?_of_mem present
  have result' : resultOf operation' = value' := sent.result.unique (result.symm ▸ sends)
  exact ⟨_, ⟨body', member', position', operation', here', result', rfl⟩, sent.type⟩

theorem Corresponds.returnsOneType (same : Corresponds ids generator generator')
    (returns : ReturnsOneType generator.module) : ReturnsOneType generator'.module := by
  obtain ⟨type, ⟨body, member, value, ends⟩, typed⟩ := returns
  refine ⟨type, ?_, ?_⟩
  · obtain ⟨body', member', sent⟩ := exists_mem_of_forall₂ same.blocks member
    have last := sent.terminator
    rw [ends] at last
    generalize sent' : body'.terminator = terminator at last
    cases last with
    | some last =>
      cases last
      exact ⟨body', member', _, sent'⟩
  · intro body' member' value' ends'
    obtain ⟨body, member, sent⟩ := exists_mem_of_forall₂ same.blocks.flip member'
    have last := sent.terminator
    rw [ends'] at last
    generalize ends : body.terminator = terminator at last
    cases last with
    | some last =>
      cases last with
      | returnOp sends =>
        obtain ⟨definition, defines, rfl⟩ := typed body member _ ends
        exact same.defines sends defines

theorem Corresponds.renamed (same : Corresponds ids generator generator') :
    generator.module.Renamed ids.apply generator'.module where
  bijective := ids.apply_bijective
  entry := same.entry
  blocks := same.blocks.imp fun _ _ sent => sent.renamed

/-- The other order gives the same module with other ids. -/
theorem generate_renamed {analyzer analyzer' : SemanticAnalyzer} {module : Module}
    (types : ∀ name, analyzer'.symbols.typeOf name = analyzer.symbols.typeOf name)
    (generated : generate order analyzer program = .ok module) :
    ∃ module' rename, generate order' analyzer' program = .ok module' ∧
      module.Renamed rename module' := by
  obtain ⟨final, success, verified, rfl⟩ := generate_ok.mp generated
  obtain ⟨ids, final', success', same⟩ := generateUnverified_corresponds types success
  obtain ⟨built', _, closed'⟩ := generateUnverified_valid success'
  have returns := same.returnsOneType (verify_ok_iff.mp verified).returns
  exact ⟨final'.module, ids.apply, generate_ok.mpr ⟨final', success',
    verify_ok_iff.mpr (built'.verified_of_returns closed' returns), rfl⟩, same.renamed⟩

end Verification

/-- The order in which the entries of hash maps are visited decides neither
whether a program is accepted, nor its symbols, nor its module up to the ids of
values and the order of phis. -/
theorem compile_order_independent (program : Program)
    (analysisOrder analysisOrder' order order' : TraversalOrder) :
    ((∃ analyzer, analyze analysisOrder program = .ok analyzer) ↔
      ∃ analyzer', analyze analysisOrder' program = .ok analyzer') ∧
    ∀ analyzer analyzer', analyze analysisOrder program = .ok analyzer →
      analyze analysisOrder' program = .ok analyzer' →
        (∀ name, analyzer'.symbols.lookup name = analyzer.symbols.lookup name) ∧
        ((∃ module, generate order analyzer program = .ok module) ↔
          ∃ module', generate order' analyzer' program = .ok module') ∧
        ∀ module module', generate order analyzer program = .ok module →
          generate order' analyzer' program = .ok module' →
            ∃ rename, module.Renamed rename module' := by
  have analyzed {first second : TraversalOrder} {accepted : SemanticAnalyzer}
      (success : analyze first program = .ok accepted) : ∃ other, analyze second program =
        .ok other := by
    obtain ⟨other, success', _⟩ := analyze_agrees success
    exact ⟨other, success'⟩
  refine ⟨⟨fun ⟨_, success⟩ => analyzed success, fun ⟨_, success⟩ => analyzed success⟩, ?_⟩
  intro analyzer analyzer' accepted accepted'
  obtain ⟨other, success, same⟩ := analyze_agrees accepted
  cases accepted'.symm.trans success
  refine ⟨same.lookup, ⟨?_, ?_⟩, ?_⟩
  · intro ⟨module, generated⟩
    obtain ⟨module', _, generated', _⟩ := generate_renamed same.typeOf generated
    exact ⟨module', generated'⟩
  · intro ⟨module', generated⟩
    obtain ⟨module, _, generated', _⟩ := generate_renamed same.symm.typeOf generated
    exact ⟨module, generated'⟩
  · intro module module' generated generated'
    obtain ⟨other, rename, success', renamed⟩ := generate_renamed same.typeOf generated
    cases generated'.symm.trans success'
    exact ⟨rename, renamed⟩

end Ocelotl.IR
