import Ocelotl.IR.Renamed
import Ocelotl.IR.StrictSSA

namespace Ocelotl.IR

open Ast Semantic Library IRGenerator

variable {ids ids' : Renaming} {generator generator' middle final : IRGenerator}
  {block target : BlockId} {operation operation' : Operation} {terminator terminator' : Terminator}
  {values values' : Environment} {info info' lhs rhs : ValueInfo} {name : String}
  {expression : Expression}

section Lists

variable {α β : Type} {related related' : α → β → Prop} {left : List α} {right : List β}
  {index : Nat}

theorem exists_of_forall₂ {a : α} (all : List.Forall₂ related left right)
    (found : left[index]? = some a) :
    ∃ b, right[index]? = some b ∧ related a b := by
  induction all generalizing index with
  | nil => cases found
  | cons here _ ih =>
    cases index with
    | zero =>
      cases found
      exact ⟨_, rfl, here⟩
    | succ index => exact ih found

theorem exists_mem_of_forall₂ {a : α} (all : List.Forall₂ related left right) (member : a ∈ left) :
    ∃ b ∈ right, related a b := by
  obtain ⟨index, found⟩ := List.getElem?_of_mem member
  obtain ⟨b, found', here⟩ := exists_of_forall₂ all found
  exact ⟨b, List.mem_of_getElem? found', here⟩

/-- Both lists are changed at one place. -/
theorem forall₂_modify {change : α → α} {change' : β → β} (all : List.Forall₂ related left right)
    (kept : ∀ a b, related a b → related' a b)
    (changed : ∀ a b, left[index]? = some a → right[index]? = some b → related a b →
      related' (change a) (change' b)) :
    List.Forall₂ related' (left.modify index change) (right.modify index change') := by
  induction all generalizing index with
  | nil => cases index <;> exact .nil
  | cons here later ih =>
    cases index with
    | zero => exact .cons (changed _ _ rfl rfl here) (later.imp kept)
    | succ index => exact .cons (kept _ _ here) (ih changed)

end Lists

structure InfoSent (ids : Renaming) (info info' : ValueInfo) : Prop where
  value : ids.Sends info.value info'.value
  type : info'.type = info.type

/-- The same names are bound, to values that correspond. -/
def EnvironmentSent (ids : Renaming) (values values' : Environment) : Prop :=
  ∀ name, Option.Rel (InfoSent ids) (values.lookup name) (values'.lookup name)

structure Corresponds (ids : Renaming) (generator generator' : IRGenerator) : Prop where
  nextValueId : generator.nextValueId = ids.size
  nextValueId' : generator'.nextValueId = ids.size
  nextBlockId : generator'.nextBlockId = generator.nextBlockId
  currentBlockId : generator'.currentBlockId = generator.currentBlockId
  entry : generator'.module.entry = generator.module.entry
  blocks : List.Forall₂ (BlockSent ids) generator.module.blocks generator'.module.blocks
  values : EnvironmentSent ids generator.values generator'.values

theorem InfoSent.mono (sent : InfoSent ids info info') (longer : ids.Extends ids') :
    InfoSent ids' info info' :=
  ⟨sent.value.mono longer, sent.type⟩

theorem EnvironmentSent.mono (sent : EnvironmentSent ids values values')
    (longer : ids.Extends ids') :
    EnvironmentSent ids' values values' := by
  intro name
  have related := sent name
  generalize values.lookup name = left, values'.lookup name = right at related ⊢
  cases related with
  | some same => exact .some (same.mono longer)
  | none => exact .none

theorem EnvironmentSent.of_some (sent : EnvironmentSent ids values values')
    (found : values.lookup name = some info) :
    ∃ info', values'.lookup name = some info' ∧ InfoSent ids info info' := by
  have related := sent name
  rw [found] at related
  generalize values'.lookup name = result at related ⊢
  cases related with
  | some same => exact ⟨_, rfl, same⟩

theorem EnvironmentSent.eq_none (sent : EnvironmentSent ids values values') :
    values'.lookup name = none ↔ values.lookup name = none := by
  have related := sent name
  generalize values.lookup name = left, values'.lookup name = right at related ⊢
  cases related with
  | some _ => exact iff_of_false (Option.some_ne_none _) (Option.some_ne_none _)
  | none => exact Iff.rfl

theorem EnvironmentSent.empty : EnvironmentSent ids ∅ ∅ := by
  intro name
  exact .none

theorem EnvironmentSent.insert (sent : EnvironmentSent ids values values')
    (same : InfoSent ids info info') (name : String) :
    EnvironmentSent ids (values.insert name info) (values'.insert name info') := by
  intro other
  rw [UnorderedMap.lookup_insert_eq, UnorderedMap.lookup_insert_eq]
  split
  · exact .some same
  · exact sent other

theorem OperationsSent.append {operations operations' : List Operation}
    (sent : OperationsSent ids operations operations')
    (same : OperationSent ids operation operation') (ordinary : operation.isPhi = false) :
    OperationsSent ids (operations ++ [operation]) (operations' ++ [operation']) := by
  cases sent with
  | intro isPhi phisSent shuffled others restSent =>
    rw [List.append_assoc, List.append_assoc]
    refine .intro isPhi phisSent shuffled ?_ (List.rel_append restSent (.cons same .nil))
    exact List.forall_mem_append.mpr ⟨others, List.forall_mem_singleton.mpr ordinary⟩

namespace Corresponds

theorem isOpen (same : Corresponds ids generator generator') (opened : Open generator block) :
    Open generator' block := by
  obtain ⟨body, found, unterminated⟩ := opened
  obtain ⟨body', found', sent⟩ := exists_of_forall₂ same.blocks found
  refine ⟨body', found', ?_⟩
  have last := sent.terminator
  rw [unterminated] at last
  generalize body'.terminator = terminator at last ⊢
  cases last
  rfl

theorem active (same : Corresponds ids generator generator') (active : Active generator block) :
    Active generator' block := ⟨same.currentBlockId.trans active.current, same.isOpen active.isOpen⟩

/-- The result of the operation is the next value of both. -/
theorem appendTo (same : Corresponds ids generator generator')
    (sent : OperationSent ids.fresh operation operation') (ordinary : operation.isPhi = false)
    (block : BlockId) :
    Corresponds ids.fresh (generator.appendTo block operation)
      (generator'.appendTo block operation') where
  nextValueId := (congrArg (· + 1) same.nextValueId).trans Renaming.size_fresh.symm
  nextValueId' := (congrArg (· + 1) same.nextValueId').trans Renaming.size_fresh.symm
  nextBlockId := same.nextBlockId
  currentBlockId := same.currentBlockId
  entry := same.entry
  blocks := by
    refine forall₂_modify same.blocks (fun _ _ before => before.mono Renaming.extends_fresh) ?_
    intro body body' _ _ before
    have before := before.mono Renaming.extends_fresh
    exact ⟨before.id, before.name, before.terminator, before.operations.append sent ordinary⟩
  values := same.values.mono Renaming.extends_fresh

theorem terminate (same : Corresponds ids generator generator')
    (sent : TerminatorSent ids terminator terminator') (block : BlockId) :
    Corresponds ids (generator.terminate block terminator)
      (generator'.terminate block terminator') where
  nextValueId := same.nextValueId
  nextValueId' := same.nextValueId'
  nextBlockId := same.nextBlockId
  currentBlockId := same.currentBlockId
  entry := same.entry
  blocks := by
    refine forall₂_modify same.blocks (fun _ _ before => before) ?_
    intro body body' _ _ before
    exact ⟨before.id, before.name, .some sent, before.operations⟩
  values := same.values

theorem addBlock (same : Corresponds ids generator generator') (name : String) :
    Corresponds ids (generator.addBlock name) (generator'.addBlock name) where
  nextValueId := same.nextValueId
  nextValueId' := same.nextValueId'
  nextBlockId := congrArg (· + 1) same.nextBlockId
  currentBlockId := same.currentBlockId
  entry := same.entry
  blocks := by
    refine List.rel_append same.blocks (.cons ⟨same.nextBlockId, rfl, .none, ?_⟩ .nil)
    exact .intro (List.forall_mem_nil _) .nil (.refl _) (List.forall_mem_nil _) .nil
  values := same.values

theorem enter (same : Corresponds ids generator generator')
    (sent : EnvironmentSent ids values values') (block : Option BlockId) :
    Corresponds ids (generator.enter block values) (generator'.enter block values') where
  nextValueId := same.nextValueId
  nextValueId' := same.nextValueId'
  nextBlockId := same.nextBlockId
  currentBlockId := rfl
  entry := same.entry
  blocks := same.blocks
  values := sent

theorem rebind (same : Corresponds ids generator generator') (sent : InfoSent ids info info')
    (name : String) :
    Corresponds ids (generator.rebind name info) (generator'.rebind name info') where
  nextValueId := same.nextValueId
  nextValueId' := same.nextValueId'
  nextBlockId := same.nextBlockId
  currentBlockId := same.currentBlockId
  entry := same.entry
  blocks := same.blocks
  values := same.values.insert sent name

theorem fork {condition condition' : ValueId} (same : Corresponds ids generator generator')
    (sends : ids.Sends condition condition') (block : BlockId) :
    Corresponds ids (generator.fork block condition) (generator'.fork block condition') := by
  have added := (same.addBlock "if.then").addBlock "if.else"
  unfold IRGenerator.fork
  rw [same.nextBlockId]
  exact added.terminate (.condBranch sends) block

theorem closeInto {ends : List BlockId} (same : Corresponds ids generator generator') :
    Corresponds ids (IRGenerator.closeInto target ends generator)
      (IRGenerator.closeInto target ends generator') := by
  induction ends generalizing generator generator' with
  | nil => exact same
  | cons block ends ih => exact ih (same.terminate .branch block)

theorem join (same : Corresponds ids generator generator') (ends : List BlockId) :
    Corresponds ids (generator.join ends) (generator'.join ends) := by
  unfold IRGenerator.join
  rw [same.nextBlockId]
  exact (same.addBlock "if.end").closeInto

/-- Both generators have the same next value. -/
theorem fresh (same : Corresponds ids generator generator') :
    ids.fresh.Sends generator.nextValueId generator'.nextValueId := by
  rw [same.nextValueId, same.nextValueId']
  exact Renaming.sends_fresh

end Corresponds

/-- An operation defines the next value of both generators. -/
theorem Corresponds.define {type : TensorType} (same : Corresponds ids generator generator')
    (sent : OperationSent ids.fresh operation operation') (ordinary : operation.isPhi = false)
    (block : BlockId) :
    Corresponds ids.fresh (generator.appendTo block operation)
      (generator'.appendTo block operation') ∧
      InfoSent ids.fresh ⟨generator.nextValueId, type⟩ ⟨generator'.nextValueId, type⟩ :=
  ⟨same.appendTo sent ordinary block, same.fresh, rfl⟩

private theorem binaryOperation_sent (op : BinaryOperator) {result result' : ValueId}
    {lhs' rhs' : ValueInfo} (sends : ids.Sends result result') (left : InfoSent ids lhs lhs')
    (right : InfoSent ids rhs rhs') :
    OperationSent ids (binaryOperation op result lhs rhs).1
      (binaryOperation op result' lhs' rhs').1 ∧
      (binaryOperation op result lhs rhs).1.isPhi = false ∧
      (binaryOperation op result' lhs' rhs').2 = (binaryOperation op result lhs rhs).2 := by
  cases op <;> rw [binaryOperation, binaryOperation, left.type] <;> first
    | exact ⟨.binary sends left.value right.value, rfl, rfl⟩
    | exact ⟨.compare sends left.value right.value, rfl, rfl⟩

/-- An expression is generated from both, or from none. -/
theorem generateExpression_corresponds (valid : Valid generator block)
    (same : Corresponds ids generator generator')
    (success : generateExpression expression generator = .ok info final) :
    ∃ ids' info' final', generateExpression expression generator' = .ok info' final' ∧
      ids.Extends ids' ∧
      Corresponds ids' final final' ∧ InfoSent ids' info info' := by
  induction expression generalizing ids generator generator' info final with
  | identifier name location =>
    obtain ⟨found, rfl⟩ := generateIdentifier_ok.mp success
    obtain ⟨info', found', sent⟩ := same.values.of_some found
    exact ⟨ids, info', generator', generateIdentifier_ok.mpr ⟨found', rfl⟩, .refl ids, same, sent⟩
  | integer value location =>
    rw [generateExpression, generateInteger_apply valid.toActive] at success
    cases success
    exact ⟨_, _, _, generateInteger_apply (same.active valid.toActive), Renaming.extends_fresh,
      same.define (.constantInt same.fresh) rfl block⟩
  | float value location =>
    rw [generateExpression, generateFloat_apply valid.toActive] at success
    cases success
    exact ⟨_, _, _, generateFloat_apply (same.active valid.toActive), Renaming.extends_fresh,
      same.define (.constantFloat same.fresh) rfl block⟩
  | call callee arguments location ih =>
    rcases generateExpression_call_ok.mp success with
      ⟨argument, input, middle, named, rfl, first, rest⟩ |
      ⟨lhsExpression, rhsExpression, lhs, middle, rhs, later, named, rfl, first, second, rest⟩
    · have computed := generateExpression_valid valid first
      obtain ⟨ids', input', middle', first', longer, same', sent⟩ :=
        ih argument (by simp) valid same first
      rw [generateRelu_apply computed.valid.toActive] at rest
      cases rest
      have older := sent.mono Renaming.extends_fresh
      refine ⟨_, _, _,
        generateExpression_call_ok.mpr (.inl ⟨argument, input', middle', named, rfl, first', ?_⟩),
        longer.trans Renaming.extends_fresh, same'.define (.relu same'.fresh older.value) rfl block⟩
      rw [generateRelu_apply (same'.active computed.valid.toActive), sent.type]
    · have left := generateExpression_valid valid first
      have right := generateExpression_valid left.valid second
      obtain ⟨ids', lhs', middle', first', longer, same', leftSent⟩ :=
        ih lhsExpression (by simp) valid same first
      obtain ⟨ids'', rhs', later', second', longer', same'', rightSent⟩ :=
        ih rhsExpression (by simp) left.valid same' second
      obtain ⟨m, n, rows, columns, rfl, rfl⟩ := (generateMatmul_ok right.valid.toActive).mp rest
      have leftSent := leftSent.mono longer'
      have leftOlder := leftSent.mono Renaming.extends_fresh
      have rightOlder := rightSent.mono Renaming.extends_fresh
      refine ⟨_, _, _,
        generateExpression_call_ok.mpr (.inr ⟨lhsExpression, rhsExpression, lhs', middle', rhs',
        later', named, rfl, first', second',
          (generateMatmul_ok (same''.active right.valid.toActive)).mpr
          ⟨m, n, leftSent.type ▸ rows, rightSent.type ▸ columns, rfl, rfl⟩⟩),
        (longer.trans longer').trans Renaming.extends_fresh, ?_⟩
      rw [leftSent.type]
      exact same''.define (.matMul same''.fresh leftOlder.value rightOlder.value) rfl block
  | nullCall => cases success
  | nullBinary => cases success
  | binary op lhsExpression rhsExpression location lhsIH rhsIH =>
    obtain ⟨lhs, middle, rhs, later, first, second, rest⟩ := generateExpression_binary_ok.mp success
    have left := generateExpression_valid valid first
    have right := generateExpression_valid left.valid second
    obtain ⟨ids', lhs', middle', first', longer, same', leftSent⟩ := lhsIH valid same first
    obtain ⟨ids'', rhs', later', second', longer', same'', rightSent⟩ :=
      rhsIH left.valid same' second
    obtain ⟨types, rfl, rfl⟩ := (generateBinary_ok right.valid.toActive).mp rest
    have leftSent := leftSent.mono longer'
    obtain ⟨sent, ordinary, type⟩ := binaryOperation_sent op same''.fresh
      (leftSent.mono Renaming.extends_fresh) (rightSent.mono Renaming.extends_fresh)
    refine ⟨_, _, _, generateExpression_binary_ok.mpr ⟨lhs', middle', rhs', later', first', second',
      (generateBinary_ok (same''.active right.valid.toActive)).mpr
        ⟨leftSent.type.trans (types.trans rightSent.type.symm), rfl, rfl⟩⟩,
      (longer.trans longer').trans Renaming.extends_fresh, ?_⟩
    rw [type]
    exact same''.define sent ordinary block

end Ocelotl.IR
