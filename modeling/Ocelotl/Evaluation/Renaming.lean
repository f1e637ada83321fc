import Ocelotl.Evaluation.Interpreter
import Ocelotl.Frontend.Renaming
import Ocelotl.IR.Agreement
import Ocelotl.Library.Relating

namespace Ocelotl.Evaluation

open Ast Library IR

variable {Contents : Type} {operations : Operations Contents} {choices : Choices Contents}
  {map : NameMap} {value value' lhs lhs' rhs rhs' : Value Contents} {state state' : State Contents}
  {expression : Expression} {statement : Statement} {statements : List Statement}
  {program : Program}

/-- The same number, or a tensor of the renamed type. -/
structure Alike (map : NameMap) (value value' : Value Contents) : Prop where
  type : value'.type = renameType map value.type
  number : value.type.shape = [] → value' = value

private theorem alike_of_scalar (scalar : value.type.shape = []) : Alike map value value where
  type := (renameType_of_scalar scalar).symm
  number := fun _ => rfl

private theorem alike_of_tensor (tensor : value.type.shape ≠ [])
    (type : value'.type = renameType map value.type) :
    Alike map value value' where
  type := type
  number := fun scalar => absurd scalar tensor

theorem Alike.shape (alike : Alike map value value') : value'.type.shape = value.type.shape :=
  (congrArg TensorType.shape alike.type).trans renameType_shape

/-- A value that is not the same is a tensor, and the other is a tensor too. -/
theorem Alike.eq_or_tensor (alike : Alike map value value') : value' = value ∨
    (∃ type isTensor contents, value = .tensor type isTensor contents) ∧
      ∃ type isTensor contents, value' = .tensor type isTensor contents := by
  by_cases scalar : value.type.shape = []
  · exact .inl (alike.number scalar)
  · have scalar' : value'.type.shape ≠ [] := alike.shape ▸ scalar
    have isTensor {value : Value Contents} (tensor : value.type.shape ≠ []) :
        ∃ type isTensor contents, value = .tensor type isTensor contents := by
      cases value with
      | tensor type isTensor contents => exact ⟨type, isTensor, contents, rfl⟩
      | i1 | i64 | f64 => exact absurd rfl tensor
    exact .inr ⟨isTensor scalar, isTensor scalar'⟩

def renameFault (map : NameMap) : Fault → Fault
  | .unbound name => .unbound (map name)
  | fault => fault

/-- The new names are bound to what the old ones are bound to. -/
structure Corresponds (map : NameMap) (state state' : State Contents) : Prop where
  moment : state'.moment = state.moment
  store : ∀ name, Option.Rel (Alike map) (state.store.lookup name) (state'.store.lookup (map name))

/-- The second evaluation does what the first does, with the new names. -/
abbrev Follows {Result : Type} (map : NameMap) (onValue : Result → Result → Prop)
    (run run' : Evaluating Contents Result) : Prop :=
  Relates (Corresponds map) (fun fault fault' => fault' = renameFault map fault) onValue run run'

theorem Corresponds.tick (corresponds : Corresponds map state state') :
    Corresponds map state.tick state'.tick where
  moment := congrArg (· + 1) corresponds.moment
  store := corresponds.store

theorem Corresponds.bind (corresponds : Corresponds map state state')
    (alike : Alike map value value') (name : String) :
    Corresponds map (state.bind name value) (state'.bind (map name) value') where
  moment := corresponds.moment
  store := by
    intro other
    rw [State.bind_store, State.bind_store, UnorderedMap.lookup_insert_eq,
      UnorderedMap.lookup_insert_eq]
    by_cases same : other = name
    · rw [if_pos same, if_pos (congrArg map same)]
      exact .some alike
    · rw [if_neg same, if_neg (NameMap.apply_eq_iff.not.mpr same)]
      exact corresponds.store other

private theorem nextMoment_follows : Follows map Eq (nextMoment : Evaluating Contents Nat) nextMoment :=
  .modifyGet (fun corresponds => corresponds.moment.symm) (fun corresponds => corresponds.tick)

private theorem bindName_follows (alike : Alike map value value') (name : String) :
    Follows map Eq (bindName name value) (bindName (map name) value') :=
  .modify fun corresponds => corresponds.bind alike name

private theorem evaluateIdentifier_follows (name : String) :
    Follows map (Alike map) (evaluateIdentifier name : Evaluating Contents (Value Contents))
      (evaluateIdentifier (map name)) := by
  refine Relates.get.bind fun state state' corresponds => ?_
  have related := corresponds.store name
  cases found : state.store.lookup name with
  | some value =>
    cases found' : state'.store.lookup (map name) with
    | some value' =>
      rw [found, found'] at related
      cases related with
      | some alike => exact .pure alike
    | none =>
      rw [found, found'] at related
      cases related
  | none =>
    cases found' : state'.store.lookup (map name) with
    | some value' =>
      rw [found, found'] at related
      cases related
    | none => exact .throw rfl

/-- An operation and the one on the values with other names do the same. -/
abbrev Answers (map : NameMap) (check check' : Except Fault (Value Contents)) : Prop :=
  Follows map (Alike map) (ofExcept check : Evaluating Contents (Value Contents)) (ofExcept check')

private theorem integerOperation_answers (op : BinaryOperator) (lhs rhs : BitVec 64) :
    Answers map (integerOperation op lhs rhs : Except Fault (Value Contents))
      (integerOperation op lhs rhs) := by
  cases op with
  | divide =>
    rw [integerOperation]
    split
    · exact .pure (alike_of_scalar rfl)
    · exact .throw rfl
  | add | subtract | multiply => exact .pure (alike_of_scalar rfl)
  | equal | notEqual | less | lessEqual | greater | greaterEqual =>
    exact .pure (alike_of_scalar rfl)

private theorem floatOperation_scalar (op : BinaryOperator) (lhs rhs : Double) :
    (floatOperation operations op lhs rhs).type.shape = [] := by
  cases op <;> rfl

/-- The operators do the same with numbers, and have no result for tensors. -/
theorem applyBinary_answers (op : BinaryOperator) (left : Alike map lhs lhs')
    (right : Alike map rhs rhs') :
    Answers map (applyBinary operations op lhs rhs) (applyBinary operations op lhs' rhs') := by
  have refuses :
      Answers map (.error .operandTypes : Except Fault (Value Contents)) (.error .operandTypes) :=
    .throw rfl
  rcases left.eq_or_tensor with rfl | ⟨⟨_, _, _, rfl⟩, ⟨_, _, _, rfl⟩⟩
  · rcases right.eq_or_tensor with rfl | ⟨⟨_, _, _, rfl⟩, ⟨_, _, _, rfl⟩⟩
    · cases lhs' with
      | i64 lhs =>
        cases rhs' with
        | i64 rhs => exact integerOperation_answers op lhs rhs
        | i1 | f64 | tensor => exact refuses
      | f64 lhs =>
        cases rhs' with
        | f64 rhs => exact .pure (alike_of_scalar (floatOperation_scalar op lhs rhs))
        | i1 | i64 | tensor => exact refuses
      | i1 | tensor => exact refuses
    · cases lhs' <;> exact refuses
  · exact refuses

private theorem relu_alike (alike : Alike map value value') :
    Alike map (operations.relu value) (operations.relu value') where
  type := by rw [operations.relu_type, operations.relu_type, alike.type]
  number := by
    intro scalar
    rw [operations.relu_type] at scalar
    rw [alike.number scalar]

private theorem elementType_eq_iff (left : Alike map lhs lhs') (right : Alike map rhs rhs')
    (tensor : lhs.type.shape ≠ []) (tensor' : rhs.type.shape ≠ []) :
    lhs'.type.elementType = rhs'.type.elementType ↔
      lhs.type.elementType = rhs.type.elementType := by
  rw [left.type, right.type, renameType_of_tensor tensor, renameType_of_tensor tensor']
  exact NameMap.apply_eq_iff

private theorem matmul_alike {rows inner columns : Nat} (left : Alike map lhs lhs')
    (right : Alike map rhs rhs') (matrix : lhs.type.shape = [rows, inner])
    (matrix' : rhs.type.shape = [inner, columns])
    (same : lhs.type.elementType = rhs.type.elementType) :
    Alike map (operations.matmul lhs rhs) (operations.matmul lhs' rhs') := by
  have product : productType lhs.type rhs.type = some ⟨lhs.type.elementType, [rows, columns]⟩ := by
    simp [productType, matrix, matrix', same]
  have product' :
      productType lhs'.type rhs'.type = some ⟨lhs'.type.elementType, [rows, columns]⟩ := by
    have same' := (elementType_eq_iff left right (by simp [matrix]) (by simp [matrix'])).mpr same
    simp [productType, left.shape, right.shape, matrix, matrix', same']
  have type := operations.matmul_type lhs rhs _ product
  have type' := operations.matmul_type lhs' rhs' _ product'
  apply alike_of_tensor
  · simp [type]
  · rw [type, type', left.type, renameType_of_tensor (by simp [matrix]),
      renameType_of_tensor (by simp)]

private theorem applyMatmul_answers (left : Alike map lhs lhs') (right : Alike map rhs rhs') :
    Answers map (applyMatmul operations lhs rhs) (applyMatmul operations lhs' rhs') := by
  unfold applyMatmul
  rw [left.shape, right.shape]
  split
  · rename_i inner otherInner _ matrix matrix'
    have same := elementType_eq_iff left right (by simp [matrix]) (by simp [matrix'])
    by_cases element : lhs.type.elementType = rhs.type.elementType
    · rw [if_neg (not_not.mpr element), if_neg (not_not.mpr (same.mpr element))]
      by_cases dimension : inner = otherInner
      · subst dimension
        rw [if_neg (not_not.mpr rfl), if_neg (not_not.mpr rfl)]
        exact .pure (matmul_alike left right matrix matrix' element)
      · rw [if_pos dimension, if_pos dimension]
        exact .throw rfl
    · rw [if_pos element, if_pos (same.not.mpr element)]
      exact .throw rfl
  · exact .throw rfl

private theorem evaluateExpression_follows :
    Follows map (Alike map) (evaluateExpression choices expression)
      (evaluateExpression choices (renameExpression map expression)) := by
  induction expression with
  | identifier name location => exact evaluateIdentifier_follows name
  | integer | float => exact .pure (alike_of_scalar rfl)
  | nullCall | nullBinary => exact .throw rfl
  | binary op lhs rhs location lhsIH rhsIH =>
    rw [renameExpression, evaluateExpression, evaluateExpression]
    refine lhsIH.bind fun lhs lhs' left => rhsIH.bind fun rhs rhs' right =>
      nextMoment_follows.bind ?_
    rintro moment _ rfl
    exact applyBinary_answers op left right
  | call callee arguments location ih =>
    have isRelu : map callee = "relu" ↔ callee = "relu" := NameMap.apply_eq_reserved (by decide)
    have isMatmul : map callee = "matmul" ↔ callee = "matmul" :=
      NameMap.apply_eq_reserved (by decide)
    rw [renameExpression, evaluateExpression.eq_def,
      evaluateExpression.eq_def choices (.call _ _ _)]
    simp only [isRelu, isMatmul]
    split
    · rcases arguments with _ | ⟨argument, _ | ⟨_, _⟩⟩
      · exact .throw rfl
      · refine (ih argument List.mem_cons_self).bind fun input input' alike =>
          nextMoment_follows.bind ?_
        rintro moment _ rfl
        exact .pure (relu_alike alike)
      · exact .throw rfl
    · split
      · rcases arguments with _ | ⟨lhs, _ | ⟨rhs, _ | ⟨_, _⟩⟩⟩
        · exact .throw rfl
        · exact .throw rfl
        · refine (ih lhs List.mem_cons_self).bind fun _ _ left =>
            (ih rhs (by simp)).bind fun _ _ right =>
            nextMoment_follows.bind ?_
          rintro moment _ rfl
          exact applyMatmul_answers left right
        · exact .throw rfl
      · exact .throw rfl

/-- Both go on, or both return. -/
inductive EndsAlike (map : NameMap) : Completion Contents → Completion Contents → Prop where
  | continues : EndsAlike map .continues .continues
  | returned {value value' : Value Contents} (alike : Alike map value value') :
    EndsAlike map (.returned value) (.returned value')

private theorem chooseBranch_follows (alike : Alike map value value') :
    Follows map Eq (chooseBranch choices value) (chooseBranch choices value') := by
  rcases alike.eq_or_tensor with rfl | ⟨⟨_, _, _, rfl⟩, ⟨_, _, _, rfl⟩⟩
  · cases value' with
    | i1 truth =>
      refine nextMoment_follows.bind ?_
      rintro moment _ rfl
      exact .pure rfl
    | i64 | f64 | tensor => exact .throw rfl
  · exact .throw rfl

private theorem evaluateStatements_follows_of (each : ∀ statement ∈ statements,
      Follows map (EndsAlike map) (evaluateStatement choices statement)
        (evaluateStatement choices (renameStatement map statement))) :
    Follows map (EndsAlike map) (evaluateStatements choices statements)
      (evaluateStatements choices (renameStatements map statements)) := by
  induction statements with
  | nil => exact .pure .continues
  | cons statement statements ih =>
    rw [renameStatements, evaluateStatements, evaluateStatements]
    refine (each statement List.mem_cons_self).bind fun completion completion' ends => ?_
    cases ends with
    | continues => exact ih fun other member => each other (List.mem_cons_of_mem _ member)
    | returned alike => exact .pure (.returned alike)

private theorem evaluateStatement_follows
    (ranked : ∀ declaration ∈ declarationsOf statement, declaration.type.shape ≠ []) :
    Follows map (EndsAlike map) (evaluateStatement choices statement)
      (evaluateStatement choices (renameStatement map statement)) := by
  induction statement with
  | tensorDecl declaration =>
    rw [renameStatement, evaluateStatement, evaluateStatement]
    refine nextMoment_follows.bind ?_
    rintro moment _ rfl
    have tensor := ranked declaration (by simp [declarationsOf])
    refine (bindName_follows (alike_of_tensor ?_ ?_) declaration.name).bind fun _ _ _ =>
      .pure .continues
    · rwa [(choices.operations moment).tensor_type]
    · rw [(choices.operations moment).tensor_type, (choices.operations moment).tensor_type]
  | assignment assignment =>
    rw [renameStatement, evaluateStatement, evaluateStatement]
    refine evaluateExpression_follows.bind fun value value' alike => ?_
    exact (bindName_follows alike assignment.target).bind fun _ _ _ => .pure .continues
  | returnStmt returnStatement =>
    rw [renameStatement, evaluateStatement, evaluateStatement]
    exact evaluateExpression_follows.bind fun value value' alike => .pure (.returned alike)
  | ifStmt condition thenStatements elseStatements location thenIH elseIH =>
    rw [declarationsOf, List.forall_mem_append] at ranked
    rw [renameStatement, evaluateStatement, evaluateStatement]
    refine evaluateExpression_follows.bind fun value value' alike =>
      (chooseBranch_follows alike).bind ?_
    rintro truth _ rfl
    cases truth with
    | true =>
      exact evaluateStatements_follows_of fun other member =>
        thenIH other member fun declaration declared =>
        ranked.1 declaration (mem_declarationsIn.mpr ⟨other, member, declared⟩)
    | false =>
      exact evaluateStatements_follows_of fun other member =>
        elseIH other member fun declaration declared =>
        ranked.2 declaration (mem_declarationsIn.mpr ⟨other, member, declared⟩)
  | nullIf => exact .throw rfl

variable (ranked : ∀ declaration ∈ declarationsIn program.statements, declaration.type.shape ≠ [])
include ranked

private theorem evaluate_follows :
    RelatesResult (Corresponds map) (fun fault fault' => fault' = renameFault map fault) (EndsAlike
      map) (evaluate choices program) (evaluate choices (renameProgram map program)) := by
  have start : Corresponds map ({} : State Contents) {} := ⟨rfl, fun _ => .none⟩
  have follows := evaluateStatements_follows_of fun statement member =>
    @evaluateStatement_follows _ choices map statement fun declaration declared =>
      ranked declaration (mem_declarationsIn.mpr ⟨statement, member, declared⟩)
  exact follows {} {} start

/-- Programs with other names return the same numbers. -/
theorem Returns.rename {value : Value Contents} (returns : Returns choices program value)
    (number : value.type.shape = []) : Returns choices (renameProgram map program) value := by
  obtain ⟨final, success⟩ := returns
  have follows := @evaluate_follows _ choices map program ranked
  rw [success] at follows
  cases success' : evaluate choices (renameProgram map program) with
  | ok completion final' =>
    rw [success'] at follows
    cases follows with | ok ends _ =>
    cases ends with | returned alike =>
    rw [alike.number number] at success'
    exact ⟨final', success'⟩
  | error fault final' =>
    rw [success'] at follows
    cases follows

theorem Fails.rename {fault : Fault} (fails : Fails choices program fault) :
    Fails choices (renameProgram map program) (renameFault map fault) := by
  obtain ⟨final, failure⟩ := fails
  have follows := @evaluate_follows _ choices map program ranked
  rw [failure] at follows
  cases failure' : evaluate choices (renameProgram map program) with
  | ok completion final' =>
    rw [failure'] at follows
    cases follows
  | error fault' final' =>
    rw [failure'] at follows
    cases follows with | error same =>
    exact ⟨final', same ▸ failure'⟩

end Ocelotl.Evaluation
