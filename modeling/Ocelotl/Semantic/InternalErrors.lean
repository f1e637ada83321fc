import Ocelotl.Semantic.Rejection
import Ocelotl.Frontend.Grammar

namespace Ocelotl.Semantic

open Ast Library Frontend

/-- The errors about null pointers, and the one about a name that is free and
cannot be introduced. -/
def SemanticError.isInternal : SemanticError → Bool
  | .nullIf | .nullCall | .nullBinary | .notIntroduced _ => true
  | _ => false

mutual

def Expression.nullFree : Expression → Bool
  | .identifier _ _ | .integer _ _ | .float _ _ => true
  | .nullCall | .nullBinary => false
  | .binary _ lhs rhs _ => nullFree lhs && nullFree rhs
  | .call _ arguments _ => nullFreeAll arguments

def Expression.nullFreeAll : List Expression → Bool
  | [] => true
  | expression :: expressions => nullFree expression && nullFreeAll expressions

end

mutual

def Statement.nullFree : Statement → Bool
  | .tensorDecl _ => true
  | .assignment assignment => Expression.nullFree assignment.value
  | .returnStmt returnStatement => Expression.nullFree returnStatement.value
  | .nullIf => false
  | .ifStmt condition thenStatements elseStatements _ =>
    Expression.nullFree condition && (nullFreeAll thenStatements && nullFreeAll elseStatements)

def Statement.nullFreeAll : List Statement → Bool
  | [] => true
  | statement :: statements => nullFree statement && nullFreeAll statements

end

private theorem nullFree_of_mem {expressions : List Expression} {expression : Expression}
    (all : Expression.nullFreeAll expressions = true) (member : expression ∈ expressions) :
    Expression.nullFree expression = true := by
  induction expressions with
  | nil => cases member
  | cons first expressions ih =>
    rw [Expression.nullFreeAll, Bool.and_eq_true] at all
    rcases List.mem_cons.mp member with rfl | later
    · exact all.1
    · exact ih all.2 later

section Parsed

variable {stod : String → Option Double}

mutual

private theorem nullFree_of_expression : ∀ {level reads expression}, Derives stod level reads expression →
    Expression.nullFree expression = true
  | _, _, _, .identifier _ | _, _, _, .integer _ _ | _, _, _, .float _ _ =>
    by rw [Expression.nullFree]
  | _, _, _, .call _ _ arguments _ => by
    rw [Expression.nullFree]
    exact nullFree_of_arguments arguments
  | _, _, _, .parentheses _ inner _ => nullFree_of_expression inner
  | _, _, _, .binary _ operand operators =>
    nullFree_of_operators operators (nullFree_of_expression operand)

private theorem nullFree_of_operators :
    ∀ {level lhs reads expression}, Operators stod level lhs reads expression →
    Expression.nullFree lhs = true → Expression.nullFree expression = true
  | _, _, _, _, .none, free => free
  | _, _, _, _, .operator _ _ operand later, free => by
    refine nullFree_of_operators later ?_
    rw [Expression.nullFree, free, nullFree_of_expression operand]
    rfl

private theorem nullFree_of_arguments : ∀ {reads values}, Arguments stod reads values →
    Expression.nullFreeAll values = true
  | _, _, .none => by rw [Expression.nullFreeAll]
  | _, _, .some argument later => by
    rw [Expression.nullFreeAll, nullFree_of_expression argument, nullFree_of_moreArguments later]
    rfl

private theorem nullFree_of_moreArguments : ∀ {reads values}, MoreArguments stod reads values →
    Expression.nullFreeAll values = true
  | _, _, .none => by rw [Expression.nullFreeAll]
  | _, _, .comma _ argument later => by
    rw [Expression.nullFreeAll, nullFree_of_expression argument, nullFree_of_moreArguments later]
    rfl

end

mutual

/-- The parser builds no null pointers. -/
theorem nullFree_of_statement : ∀ {reads statement}, DerivesStatement stod reads statement →
    Statement.nullFree statement = true
  | _, _, .tensorDeclaration _ _ _ _ => by rw [Statement.nullFree]
  | _, _, .assignment _ _ derives | _, _, .returnStmt _ derives => by
    rw [Statement.nullFree]
    exact nullFree_of_expression derives
  | _, _, .ifStmt _ derives thenBlock _ elseBlock => by
    rw [Statement.nullFree, nullFree_of_expression derives, nullFree_of_block thenBlock,
      nullFree_of_block elseBlock]
    rfl

private theorem nullFree_of_block : ∀ {reads statements}, DerivesBlock stod reads statements →
    Statement.nullFreeAll statements = true
  | _, _, .block _ inner _ => nullFree_of_statements inner

theorem nullFree_of_statements : ∀ {reads statements}, DerivesStatements stod reads statements →
    Statement.nullFreeAll statements = true
  | _, _, .none => by rw [Statement.nullFreeAll]
  | _, _, .statement derives later => by
    rw [Statement.nullFreeAll, nullFree_of_statement derives, nullFree_of_statements later]
    rfl

end

end Parsed

variable {order : TraversalOrder} {symbols : SymbolTable} {expression : Expression}
  {statement : Statement} {statements : List Statement} {analyzer final : SemanticAnalyzer}
  {error : SemanticError}

private theorem analyzeBinary_error {op : BinaryOperator} {lhs rhs : TensorType}
    (failure : analyzeBinary op lhs rhs = .error error) : error.isInternal = false := by
  unfold analyzeBinary at failure
  split at failure
  · cases failure
    rfl
  · split at failure
    · cases failure
      rfl
    · split at failure
      · cases failure
        rfl
      · split at failure <;> cases failure

private theorem analyzeMatmul_error {lhs rhs : TensorType}
    (failure : analyzeMatmul lhs rhs = .error error) :
    error.isInternal = false := by
  unfold analyzeMatmul at failure
  split at failure
  · split at failure
    · cases failure
      rfl
    · split at failure <;> cases failure
      rfl
  · cases failure
    rfl

/-- A call fails in one of its arguments, or in what is checked about it. -/
theorem analyzeExpression_call_error {callee : String} {arguments : List Expression}
    {location : SourceLocation}
    (failure : analyzeExpression symbols (.call callee arguments location) = .error error) :
    error.isInternal = false ∨ ∃ argument ∈ arguments, analyzeExpression symbols argument =
      .error error := by
  unfold analyzeExpression at failure
  split at failure
  · split at failure
    · exact .inr ⟨_, List.mem_cons_self, failure⟩
    · cases failure
      exact .inl rfl
  · split at failure
    · split at failure
      · rcases except_bind_error.mp failure with here | ⟨_, _, failure⟩
        · exact .inr ⟨_, List.mem_cons_self, here⟩
        · rcases except_bind_error.mp failure with here | ⟨_, _, failure⟩
          · exact .inr ⟨_, List.mem_cons_of_mem _ List.mem_cons_self, here⟩
          · exact .inl (analyzeMatmul_error failure)
      · cases failure
        exact .inl rfl
    · cases failure
      exact .inl rfl

private theorem analyzeExpression_external (free : Expression.nullFree expression = true)
    (failure : analyzeExpression symbols expression = .error error) : error.isInternal = false := by
  induction expression generalizing error with
  | identifier name location =>
    rw [analyzeExpression, analyzeIdentifier] at failure
    split at failure <;> cases failure
    rfl
  | integer value location => cases failure
  | float value location => cases failure
  | call callee arguments location ih =>
    rw [Expression.nullFree] at free
    rcases analyzeExpression_call_error failure with external | ⟨argument, member, failure⟩
    · exact external
    · exact ih argument member (nullFree_of_mem free member) failure
  | nullCall => cases free
  | nullBinary => cases free
  | binary op lhs rhs location lhsIH rhsIH =>
    rw [Expression.nullFree, Bool.and_eq_true] at free
    rw [analyzeExpression] at failure
    rcases except_bind_error.mp failure with here | ⟨_, _, failure⟩
    · exact lhsIH free.1 here
    · rcases except_bind_error.mp failure with here | ⟨_, _, failure⟩
      · exact rhsIH free.2 here
      · exact analyzeBinary_error failure

private theorem mergeBranches_external {before elseSymbols : SymbolTable} {entries : List (String × Symbol)}
    (failure : mergeBranches before elseSymbols entries analyzer = .error error final) :
    error.isInternal = false := by
  induction entries generalizing analyzer with
  | nil => cases failure
  | cons entry entries ih =>
    obtain ⟨name, thenSymbol⟩ := entry
    rw [mergeBranches] at failure
    split at failure
    · exact ih failure
    · cases found : elseSymbols.lookup name with
      | none =>
        rw [found] at failure
        exact ih failure
      | some elseSymbol =>
        rw [found] at failure
        dsimp only at failure
        split at failure
        · cases failure
          rfl
        · rcases bind_error.mp failure with declared | ⟨_, _, _, later⟩
          · cases declared
          · exact ih later

theorem analyzeStatements_external_of
    (each : ∀ statement ∈ statements, ∀ {analyzer final error},
      Statement.nullFree statement = true →
      analyzeStatement order statement analyzer = .error error final → error.isInternal = false)
    (free : Statement.nullFreeAll statements = true)
    (failure : analyzeStatements order statements analyzer = .error error final) :
    error.isInternal = false := by
  induction statements generalizing analyzer with
  | nil => cases failure
  | cons statement statements ih =>
    rw [Statement.nullFreeAll, Bool.and_eq_true] at free
    rw [analyzeStatements, bind_error] at failure
    rcases failure with here | ⟨_, _, _, later⟩
    · exact each statement List.mem_cons_self free.1 here
    · exact ih (fun other member => each other (List.mem_cons_of_mem _ member)) free.2 later

/-- The errors on a tree without null pointers are about the program. -/
theorem analyzeStatement_external (free : Statement.nullFree statement = true)
    (failure : analyzeStatement order statement analyzer = .error error final) :
    error.isInternal = false := by
  induction statement generalizing analyzer final error with
  | tensorDecl declaration =>
    rw [analyzeStatement, analyzeTensorDeclaration] at failure
    rcases bind_error.mp failure with declared | ⟨inserted, _, _, failure⟩
    · cases declared
    · cases inserted <;> cases failure
      rfl
  | assignment assignment =>
    rw [Statement.nullFree] at free
    rw [analyzeStatement, analyzeAssignment, bind_of_ok (get_apply analyzer)] at failure
    rcases bind_error.mp failure with here | ⟨type, middle, success, failure⟩
    · exact analyzeExpression_external free (ofExcept_apply_error.mp here).1
    · obtain ⟨_, rfl⟩ := ofExcept_apply_ok.mp success
      cases found : analyzer.symbols.lookup assignment.target with
      | some existing =>
        rw [found] at failure
        dsimp only at failure
        split at failure
        · cases failure
          rfl
        · split at failure <;> cases failure
          rfl
      | none =>
        rw [found] at failure
        dsimp only at failure
        rw [bind_of_ok (declareSymbol_absent (by exact found))] at failure
        cases failure
  | returnStmt returnStatement =>
    rw [Statement.nullFree] at free
    rw [analyzeStatement, analyzeReturn, bind_of_ok (get_apply analyzer)] at failure
    rcases bind_error.mp failure with here | ⟨type, middle, success, failure⟩
    · exact analyzeExpression_external free (ofExcept_apply_error.mp here).1
    · obtain ⟨_, rfl⟩ := ofExcept_apply_ok.mp success
      split at failure
      · cases failure
        rfl
      · split at failure <;> cases failure
        rfl
  | ifStmt condition thenStatements elseStatements location thenIH elseIH =>
    rw [Statement.nullFree, Bool.and_eq_true, Bool.and_eq_true] at free
    obtain ⟨freeCondition, freeThen, freeElse⟩ := free
    rw [analyzeStatement, bind_of_ok (get_apply analyzer)] at failure
    rcases bind_error.mp failure with here | ⟨type, middle, success, failure⟩
    · exact analyzeExpression_external freeCondition (ofExcept_apply_error.mp here).1
    · obtain ⟨_, rfl⟩ := ofExcept_apply_ok.mp success
      split at failure
      · cases failure
        rfl
      · rcases bind_error.mp failure with inThen | ⟨_, thenAnalyzer, _, failure⟩
        · exact analyzeStatements_external_of thenIH freeThen inThen
        · have failure : (analyzeStatements order elseStatements >>= fun _ => do
              let elseSymbols := (← get).symbols
              setSymbols analyzer.symbols
              let traversal ← nextTraversal
              mergeBranches analyzer.symbols elseSymbols
                (order.traverse traversal thenAnalyzer.symbols.entries))
              { thenAnalyzer with symbols := analyzer.symbols } = .error error final := failure
          rcases bind_error.mp failure with inElse | ⟨_, elseAnalyzer, _, merging⟩
          · exact analyzeStatements_external_of elseIH freeElse inElse
          · have merging : mergeBranches analyzer.symbols elseAnalyzer.symbols
                (order.traverse elseAnalyzer.merges thenAnalyzer.symbols.entries)
                { elseAnalyzer with symbols := analyzer.symbols, merges := elseAnalyzer.merges + 1 } =
              .error error final := merging
            exact mergeBranches_external merging
  | nullIf => cases free

end Ocelotl.Semantic
