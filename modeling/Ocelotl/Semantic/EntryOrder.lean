import Ocelotl.Semantic.Introduction

namespace Ocelotl.Semantic

open Ast Library

variable {order order' : TraversalOrder} {analyzer analyzer' final : SemanticAnalyzer}
  {name : String} {statement : Statement} {statements : List Statement}

/-- The tables are the same as maps, wherever their entries are stored. -/
structure Agrees (analyzer analyzer' : SemanticAnalyzer) : Prop where
  lookup : ∀ name, analyzer'.symbols.lookup name = analyzer.symbols.lookup name
  returnType : analyzer'.returnType = analyzer.returnType

theorem Agrees.typeOf (same : Agrees analyzer analyzer') (name : String) :
    analyzer'.symbols.typeOf name = analyzer.symbols.typeOf name :=
  congrArg (Option.map Symbol.type) (same.lookup name)

theorem Agrees.symm (same : Agrees analyzer analyzer') : Agrees analyzer' analyzer :=
  ⟨fun name => (same.lookup name).symm, same.returnType.symm⟩

theorem Agrees.introduce {symbol : Symbol} (same : Agrees analyzer analyzer')
    (absent : analyzer.symbols.typeOf symbol.name = none) :
    Agrees (analyzer.introduce symbol) (analyzer'.introduce symbol) where
  lookup := by
    intro name
    have free := SymbolTable.typeOf_eq_none.mp absent
    have free' : analyzer'.symbols.lookup symbol.name = none := (same.lookup _).trans free
    have added : (analyzer.introduce symbol).symbols.lookup name =
        if name = symbol.name then some symbol else analyzer.symbols.lookup name :=
      SymbolTable.lookup_declare free name
    have added' : (analyzer'.introduce symbol).symbols.lookup name =
        if name = symbol.name then some symbol else analyzer'.symbols.lookup name :=
      SymbolTable.lookup_declare free' name
    rw [added, added', same.lookup]
  returnType := same.returnType

/-- An expression sees the table through its lookups only. -/
theorem analyzeExpression_eq_of_lookup {symbols symbols' : SymbolTable}
    (same : ∀ name, symbols'.lookup name = symbols.lookup name) (expression : Expression) :
    analyzeExpression symbols' expression = analyzeExpression symbols expression := by
  induction expression with
  | identifier name location =>
    rw [analyzeExpression, analyzeExpression, analyzeIdentifier, analyzeIdentifier, same]
  | integer value location => rfl
  | float value location => rfl
  | nullCall => rfl
  | nullBinary => rfl
  | binary op lhs rhs location lhsIH rhsIH =>
    rw [analyzeExpression, analyzeExpression, lhsIH, rhsIH]
  | call callee arguments location ih =>
    rw [analyzeExpression.eq_def, analyzeExpression.eq_def]
    rcases arguments with _ | ⟨lhs, _ | ⟨rhs, _ | ⟨_, _⟩⟩⟩
    · rfl
    · simp only [ih lhs (by simp)]
    · simp only [ih lhs (by simp), ih rhs (by simp)]
    · rfl

section Merging

variable {before elseSymbols : SymbolTable} {entries : List (String × Symbol)}

/-- The names that both branches introduce have one type. -/
def OneType (before elseSymbols : SymbolTable) (entries : List (String × Symbol)) : Prop :=
  ∀ name symbol, (name, symbol) ∈ entries → before.typeOf name = none →
    elseSymbols.typeOf name = none ∨ elseSymbols.typeOf name = some symbol.type

/-- That is all that the merge asks for, whatever the order of the entries. -/
theorem mergeBranches_accepts_iff :
    (∃ final, mergeBranches before elseSymbols entries analyzer = .ok () final) ↔
      OneType before elseSymbols entries := by
  constructor
  · intro ⟨final, success⟩ name symbol member new
    cases inElse : elseSymbols.typeOf name with
    | none => exact .inl rfl
    | some type => exact .inr (congrArg some (mergeBranches_types success member new inElse).symm)
  · intro oneType
    induction entries generalizing analyzer with
    | nil => exact ⟨analyzer, rfl⟩
    | cons entry entries ih =>
      obtain ⟨key, thenSymbol⟩ := entry
      have rest {middle : SemanticAnalyzer} :
          ∃ final, mergeBranches before elseSymbols entries middle = .ok () final :=
        ih fun name symbol member => oneType name symbol (List.mem_cons_of_mem _ member)
      by_cases new : before.typeOf key = none
      · rcases oneType key thenSymbol List.mem_cons_self new with oneSided | both
        · obtain ⟨final, success⟩ := rest
          exact ⟨final, mergeBranches_cons_ok.mpr (.inl ⟨.inr oneSided, success⟩)⟩
        · obtain ⟨final, success⟩ := rest
          exact ⟨final, mergeBranches_cons_ok.mpr (.inr ⟨new, both, success⟩)⟩
      · obtain ⟨final, success⟩ := rest
        exact ⟨final, mergeBranches_cons_ok.mpr (.inl ⟨.inl new, success⟩)⟩

theorem mergeBranches_returnType
    (success : mergeBranches before elseSymbols entries analyzer = .ok () final) :
    final.returnType = analyzer.returnType := by
  induction entries generalizing analyzer with
  | nil =>
    cases success
    rfl
  | cons entry entries ih =>
    obtain ⟨key, thenSymbol⟩ := entry
    rcases mergeBranches_cons_ok.mp success with ⟨_, success⟩ | ⟨_, _, success⟩
    · exact ih success
    · have same : final.returnType = (analyzer.introduce thenSymbol).returnType := ih success
      exact same

end Merging

/-- The other analysis accepts the statements as well, with the same symbols. -/
def Accompanies (analysis : Analysis Unit) (analyzer' final : SemanticAnalyzer) : Prop :=
  ∃ final', analysis analyzer' = .ok () final' ∧ Agrees final final'

private theorem analyzeStatements_agrees_of
    (each : ∀ statement ∈ statements, ∀ {analyzer analyzer' final : SemanticAnalyzer},
      Agrees analyzer analyzer' → analyzeStatement order statement analyzer = .ok () final →
        Accompanies (analyzeStatement order' statement) analyzer' final)
    (same : Agrees analyzer analyzer')
    (success : analyzeStatements order statements analyzer = .ok () final) :
    Accompanies (analyzeStatements order' statements) analyzer' final := by
  induction statements generalizing analyzer analyzer' with
  | nil =>
    cases success
    exact ⟨analyzer', rfl, same⟩
  | cons statement statements ih =>
    obtain ⟨middle, first, rest⟩ := analyzeStatements_cons_ok.mp success
    obtain ⟨middle', first', same'⟩ := each statement List.mem_cons_self same first
    obtain ⟨final', rest', agrees⟩ :=
      ih (fun other member => each other (List.mem_cons_of_mem _ member)) same' rest
    exact ⟨final', analyzeStatements_cons_ok.mpr ⟨middle', first', rest'⟩, agrees⟩

/-- The merge of two branches finds the same symbols in any order. -/
theorem analyzeIf_merge_agrees
    {thenAnalyzer thenAnalyzer' elseAnalyzer elseAnalyzer' : SemanticAnalyzer}
    (same : Agrees analyzer analyzer') (thenSame : Agrees thenAnalyzer thenAnalyzer')
    (elseSame : Agrees elseAnalyzer elseAnalyzer')
    (merged : mergeBranches analyzer.symbols elseAnalyzer.symbols
        (order.traverse elseAnalyzer.merges thenAnalyzer.symbols.entries)
        { elseAnalyzer with symbols := analyzer.symbols, merges := elseAnalyzer.merges + 1 } =
      .ok () final) :
    Accompanies (mergeBranches analyzer'.symbols elseAnalyzer'.symbols
        (order'.traverse elseAnalyzer'.merges thenAnalyzer'.symbols.entries))
      { elseAnalyzer' with symbols := analyzer'.symbols, merges := elseAnalyzer'.merges + 1 } final := by
  have oneType : OneType analyzer'.symbols elseAnalyzer'.symbols
      (order'.traverse elseAnalyzer'.merges thenAnalyzer'.symbols.entries) := by
    intro name symbol member new
    have inThen : thenAnalyzer.symbols.lookup name = some symbol :=
      (thenSame.lookup name).symm.trans (order'.mem_traverse.mp member)
    rw [elseSame.typeOf]
    exact mergeBranches_accepts_iff.mp ⟨final, merged⟩ name symbol (order.mem_traverse.mpr inThen)
      ((same.typeOf name).symm.trans new)
  obtain ⟨final', merged'⟩ := mergeBranches_accepts_iff.mpr oneType
  refine ⟨final', merged', fun name => Option.ext fun symbol => ?_, ?_⟩
  · rw [analyzeStatement_if_lookup merged, analyzeStatement_if_lookup merged', same.lookup,
      same.typeOf,
      elseSame.typeOf, thenSame.lookup]
  · rw [mergeBranches_returnType merged, mergeBranches_returnType merged']
    exact elseSame.returnType

private theorem analyzeStatement_agrees (same : Agrees analyzer analyzer')
    (success : analyzeStatement order statement analyzer = .ok () final) :
    Accompanies (analyzeStatement order' statement) analyzer' final := by
  induction statement generalizing analyzer analyzer' final with
  | tensorDecl declaration =>
    rw [analyzeStatement] at success
    obtain ⟨absent, rfl⟩ := analyzeTensorDeclaration_ok.mp success
    refine ⟨_, ?_, same.introduce absent⟩
    rw [analyzeStatement]
    exact analyzeTensorDeclaration_ok.mpr ⟨(same.typeOf _).trans absent, rfl⟩
  | assignment assignment =>
    rw [analyzeStatement] at success
    obtain ⟨type, typed, known⟩ := analyzeAssignment_ok.mp success
    have typed' := (analyzeExpression_eq_of_lookup same.lookup assignment.value).trans typed
    rcases known with ⟨known, rfl⟩ | ⟨absent, rfl⟩
    · refine ⟨_, ?_, same⟩
      rw [analyzeStatement]
      exact analyzeAssignment_ok.mpr ⟨type, typed', .inl ⟨(same.typeOf _).trans known, rfl⟩⟩
    · refine ⟨_, ?_, same.introduce absent⟩
      rw [analyzeStatement]
      exact analyzeAssignment_ok.mpr ⟨type, typed', .inr ⟨(same.typeOf _).trans absent, rfl⟩⟩
  | returnStmt returnStatement =>
    rw [analyzeStatement] at success
    obtain ⟨typed, consistent, rfl⟩ := analyzeReturn_ok.mp success
    refine ⟨{ analyzer' with returnType := some (.scalar "i64") }, ?_, same.lookup, rfl⟩
    rw [analyzeStatement]
    exact analyzeReturn_ok.mpr ⟨(analyzeExpression_eq_of_lookup same.lookup _).trans typed,
      fun type earlier => consistent type (same.returnType.symm.trans earlier), rfl⟩
  | ifStmt condition thenStatements elseStatements location thenIH elseIH =>
    obtain ⟨thenAnalyzer, elseAnalyzer, typed, thenRun, elseRun, merged⟩ :=
      analyzeStatement_if_ok.mp success
    obtain ⟨thenAnalyzer', thenRun', thenSame⟩ := analyzeStatements_agrees_of thenIH same thenRun
    have start : Agrees { thenAnalyzer with symbols := analyzer.symbols }
        { thenAnalyzer' with symbols := analyzer'.symbols } := ⟨same.lookup, thenSame.returnType⟩
    obtain ⟨elseAnalyzer', elseRun', elseSame⟩ := analyzeStatements_agrees_of elseIH start elseRun
    obtain ⟨final', merged', agrees⟩ := analyzeIf_merge_agrees same thenSame elseSame merged
    exact ⟨final', analyzeStatement_if_ok.mpr ⟨thenAnalyzer', elseAnalyzer',
      (analyzeExpression_eq_of_lookup same.lookup _).trans typed, thenRun', elseRun',
        merged'⟩, agrees⟩
  | nullIf =>
    rw [analyzeStatement] at success
    cases success

/-- A program that is accepted in one order is accepted in every other, with the same symbols. -/
theorem analyze_agrees {program : Program} (accepted : analyze order program = .ok analyzer) :
    ∃ analyzer', analyze order' program = .ok analyzer' ∧ Agrees analyzer analyzer' := by
  have start : Agrees {} {} := ⟨fun _ => rfl, rfl⟩
  obtain ⟨analyzer', success, agrees⟩ := analyzeStatements_agrees_of
    (fun _ _ => analyzeStatement_agrees) start (analyze_ok.mp accepted)
  exact ⟨analyzer', analyze_ok.mpr success, agrees⟩

end Ocelotl.Semantic
