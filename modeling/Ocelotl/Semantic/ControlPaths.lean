import Ocelotl.Semantic.Scoping
import Ocelotl.Library.CommonBindings

namespace Ocelotl.Semantic

open Ast Library

mutual

/-- Some control path through the statement reaches what follows it. -/
def continues : Statement → Bool
  | .tensorDecl _ | .assignment _ => true
  | .returnStmt _ | .nullIf => false
  | .ifStmt _ thenStatements elseStatements _ =>
    continuesIn thenStatements || continuesIn elseStatements

def continuesIn : List Statement → Bool
  | [] => true
  | statement :: statements => continues statement && continuesIn statements

end

/-- A statement of the list follows one that no path continues after. -/
def hasUnreachable : List Statement → Bool
  | [] => false
  | statement :: statements =>
    !continues statement && !statements.isEmpty || hasUnreachable statements

/-- Every control path ends in a return, and no statement of the program itself
follows one that returns on all of its paths. -/
def Complete (statements : List Statement) : Prop :=
  continuesIn statements = false ∧ hasUnreachable statements = false

instance : DecidablePred Complete := fun statements =>
  inferInstanceAs (Decidable (continuesIn statements = false ∧ hasUnreachable statements = false))

/-- The types of the names that a path has bound. -/
abbrev TypeStore := Store String TensorType

/-- The type of the value that an expression has on a path. -/
def valueType (store : TypeStore) : Expression → Option TensorType
  | .identifier name _ => store name
  | .integer _ _ => some (.scalar "i64")
  | .float _ _ => some (.scalar "f64")
  | .nullCall | .nullBinary => none
  | .binary op lhs _ _ => (valueType store lhs).map (binaryType op)
  | .call callee [argument] _ => if callee = "relu" then valueType store argument else none
  | .call callee [lhs, rhs] _ =>
    if callee = "matmul" then do
      let lhsType ← valueType store lhs
      let rhsType ← valueType store rhs
      (analyzeMatmul lhsType rhsType).toOption
    else none
  | .call _ _ _ => none

mutual

/-- The stores with which paths leave the statement, of those that enter it. -/
def storesAfter : Statement → Set TypeStore → Set TypeStore
  | .tensorDecl declaration, stores =>
    bindAll declaration.name (fun _ => some declaration.type) stores
  | .assignment assignment, stores =>
    bindAll assignment.target (fun store => valueType store assignment.value) stores
  | .returnStmt _, _ | .nullIf, _ => ∅
  | .ifStmt _ thenStatements elseStatements _, stores =>
    storesAfterAll thenStatements stores ∪ storesAfterAll elseStatements stores

def storesAfterAll : List Statement → Set TypeStore → Set TypeStore
  | [], stores => stores
  | statement :: statements, stores => storesAfterAll statements (storesAfter statement stores)

end

mutual

/-- No conditional that a path reaches leaves a name with one type on all paths
through the one branch, and with another type on all paths through the other. -/
def MergesAgree : Statement → Set TypeStore → Prop
  | .tensorDecl _, _ | .assignment _, _ | .returnStmt _, _ | .nullIf, _ => True
  | .ifStmt _ thenStatements elseStatements _, stores =>
    MergesAgreeIn thenStatements stores ∧ MergesAgreeIn elseStatements stores ∧
      Compatible (storesAfterAll thenStatements stores) (storesAfterAll elseStatements stores)

def MergesAgreeIn : List Statement → Set TypeStore → Prop
  | [], _ => True
  | statement :: statements, stores =>
    MergesAgree statement stores ∧ MergesAgreeIn statements (storesAfter statement stores)

end

variable {symbols : SymbolTable} {stores : Set TypeStore} {expression : Expression}
  {type : TensorType} {statement : Statement} {statements : List Statement}

private theorem nonempty_storesAfterAll_of
    (each : ∀ statement ∈ statements, ∀ {stores : Set TypeStore},
      (storesAfter statement stores).Nonempty ↔ stores.Nonempty ∧ continues statement = true) :
    (storesAfterAll statements stores).Nonempty ↔
      stores.Nonempty ∧ continuesIn statements = true := by
  induction statements generalizing stores with
  | nil => simp [storesAfterAll, continuesIn]
  | cons statement statements ih =>
    rw [storesAfterAll, ih fun other member => each other (List.mem_cons_of_mem _ member),
      each statement List.mem_cons_self, continuesIn, Bool.and_eq_true, and_assoc]

/-- Paths leave a statement when some enter it and some continue. -/
theorem nonempty_storesAfter :
    (storesAfter statement stores).Nonempty ↔ stores.Nonempty ∧ continues statement = true := by
  induction statement generalizing stores with
  | tensorDecl declaration => simp [storesAfter, continues, nonempty_bindAll]
  | assignment assignment => simp [storesAfter, continues, nonempty_bindAll]
  | returnStmt returnStatement => simp [storesAfter, continues]
  | ifStmt condition thenStatements elseStatements location thenIH elseIH =>
    rw [storesAfter, Set.union_nonempty, nonempty_storesAfterAll_of thenIH,
      nonempty_storesAfterAll_of elseIH, continues, Bool.or_eq_true, ← and_or_left]
  | nullIf => simp [storesAfter, continues]

theorem nonempty_storesAfterAll : (storesAfterAll statements stores).Nonempty ↔
    stores.Nonempty ∧ continuesIn statements = true :=
  nonempty_storesAfterAll_of fun _ _ => nonempty_storesAfter

private theorem storesAfter_empty : storesAfter statement ∅ = ∅ :=
  Set.not_nonempty_iff_eq_empty.mp fun inhabited =>
    Set.not_nonempty_empty (nonempty_storesAfter.mp inhabited).1

theorem storesAfterAll_empty : storesAfterAll statements ∅ = ∅ :=
  Set.not_nonempty_iff_eq_empty.mp fun inhabited =>
    Set.not_nonempty_empty (nonempty_storesAfterAll.mp inhabited).1

private theorem mergesAgreeIn_empty_of (each : ∀ statement ∈ statements, MergesAgree statement ∅) :
    MergesAgreeIn statements ∅ := by
  induction statements with
  | nil => rw [MergesAgreeIn]; trivial
  | cons statement statements ih =>
    rw [MergesAgreeIn, storesAfter_empty]
    exact ⟨each statement List.mem_cons_self,
      ih fun other member => each other (List.mem_cons_of_mem _ member)⟩

/-- Where no path arrives, nothing disagrees. -/
theorem mergesAgree_empty : MergesAgree statement ∅ := by
  induction statement with
  | tensorDecl _ | assignment _ | returnStmt _ | nullIf => rw [MergesAgree]; trivial
  | ifStmt condition thenStatements elseStatements location thenIH elseIH =>
    rw [MergesAgree, storesAfterAll_empty, storesAfterAll_empty]
    exact ⟨mergesAgreeIn_empty_of thenIH, mergesAgreeIn_empty_of elseIH, compatible_empty_left⟩

theorem mergesAgreeIn_empty : MergesAgreeIn statements ∅ :=
  mergesAgreeIn_empty_of fun _ _ => mergesAgree_empty

/-- On every path that knows the names of the table, an expression has the type
it is analysed with. -/
theorem valueType_of_analyzed {store : TypeStore}
    (knows : ∀ name type, symbols.typeOf name = some type → store name = some type)
    (analyzed : analyzeExpression symbols expression = .ok type) :
    valueType store expression = some type := by
  induction expression generalizing type with
  | identifier name location =>
    rw [analyzeExpression, analyzeIdentifier_ok] at analyzed
    exact knows name type analyzed
  | integer value location => exact congrArg some (Except.ok.inj analyzed)
  | float value location => exact congrArg some (Except.ok.inj analyzed)
  | call callee arguments location ih =>
    rcases analyzeExpression_call_ok.mp analyzed with
      ⟨argument, rfl, rfl, typed⟩ | ⟨lhs, rhs, lhsType, rhsType, rfl, rfl, left, right, typed⟩
    · rw [valueType, if_pos rfl]
      exact ih argument (by simp) typed
    · rw [valueType, if_pos rfl, ih lhs (by simp) left, ih rhs (by simp) right]
      simp [typed, Except.toOption]
  | nullCall => cases analyzed
  | nullBinary => cases analyzed
  | binary op lhs rhs location lhsIH rhsIH =>
    obtain ⟨operand, left, _, _, rfl⟩ := analyzeExpression_binary_ok.mp analyzed
    rw [valueType, lhsIH left]
    rfl

end Ocelotl.Semantic
