import Ocelotl.Semantic.Analyzer

namespace Ocelotl.Semantic

open Ast Library

variable {order : TraversalOrder} {analyzer analyzer' final : SemanticAnalyzer} {type : TensorType}
  {name : String} {statement : Statement} {statements : List Statement}

/-- The analyser with a symbol added under a free name. -/
def SemanticAnalyzer.introduce (analyzer : SemanticAnalyzer) (symbol : Symbol) : SemanticAnalyzer :=
  { analyzer with symbols := (analyzer.symbols.declare symbol).2 }

theorem SemanticAnalyzer.typeOf_introduce {symbol : Symbol}
    (absent : analyzer.symbols.typeOf symbol.name = none) (name : String) :
    (analyzer.introduce symbol).symbols.typeOf name =
      if name = symbol.name then some symbol.type else analyzer.symbols.typeOf name :=
  SymbolTable.typeOf_declare (SymbolTable.typeOf_eq_none.mp absent) name

/-- A free name is taken. -/
theorem declareSymbol_absent {symbol : Symbol}
    (absent : analyzer.symbols.lookup symbol.name = none) :
    declareSymbol symbol analyzer = .ok true (analyzer.introduce symbol) := by
  rw [declareSymbol, modifyGet_apply, SymbolTable.declare_absent absent]
  rfl

section Expressions

variable {symbols : SymbolTable} {op : BinaryOperator} {location : SourceLocation}
  {lhs rhs : Expression} {lhsType rhsType : TensorType}

/-- The type of a binary expression over operands of this type. -/
def binaryType (op : BinaryOperator) (operand : TensorType) : TensorType :=
  match op with
  | .add | .subtract | .multiply | .divide => operand
  | .equal | .notEqual | .less | .lessEqual | .greater | .greaterEqual => .scalar "i1"

private theorem analyzeBinary_ok : analyzeBinary op lhsType rhsType = .ok type ↔
    lhsType = rhsType ∧ lhsType.Numeric ∧ type = binaryType op lhsType := by
  rw [analyzeBinary.eq_def]
  constructor
  · intro success
    split at success
    · cases success
    rename_i scalars
    obtain ⟨left, right⟩ := not_or.mp scalars
    split at success
    · cases success
    rename_i elements
    split at success
    · cases success
    rename_i numeric
    have same : lhsType = rhsType := TensorType.ext_iff.mpr
      ⟨not_not.mp elements, (not_not.mp left).trans (not_not.mp right).symm⟩
    refine ⟨same, ?_, ?_⟩
    · simp only [TensorType.Numeric, TensorType.ext_iff, TensorType.scalar, not_not.mp left,
        and_true]
      by_contra neither
      exact numeric (not_or.mp neither)
    · cases op <;> exact (Except.ok.inj success).symm
  · rintro ⟨rfl, rfl | rfl, rfl⟩ <;> cases op <;> rfl

theorem analyzeMatmul_ok : analyzeMatmul lhsType rhsType = .ok type ↔
    ∃ element rows inner columns, lhsType = ⟨element, [rows, inner]⟩ ∧
      rhsType = ⟨element, [inner, columns]⟩ ∧ type = ⟨element, [rows, columns]⟩ := by
  constructor
  · intro success
    obtain ⟨element, shape⟩ := lhsType
    obtain ⟨element', shape'⟩ := rhsType
    rw [analyzeMatmul] at success
    split at success
    · rename_i rows inner other columns left right
      cases left
      cases right
      split at success
      · cases success
      rename_i elements
      split at success
      · cases success
      rename_i dimensions
      cases not_not.mp elements
      cases not_not.mp dimensions
      exact ⟨element, rows, inner, columns, rfl, rfl, (Except.ok.inj success).symm⟩
    · cases success
  · rintro ⟨element, rows, inner, columns, rfl, rfl, rfl⟩
    simp [analyzeMatmul]
    rfl

theorem analyzeIdentifier_ok : analyzeIdentifier symbols name = .ok type ↔
    symbols.typeOf name = some type := by
  rw [analyzeIdentifier, SymbolTable.typeOf]
  cases symbols.lookup name with
  | none => simp
  | some symbol => simp [pure, Except.pure]

theorem analyzeExpression_binary_ok :
    analyzeExpression symbols (.binary op lhs rhs location) = .ok type ↔
      ∃ operand, analyzeExpression symbols lhs = .ok operand ∧
        analyzeExpression symbols rhs = .ok operand ∧ operand.Numeric ∧
        type = binaryType op operand := by
  simp only [analyzeExpression, except_bind_ok, analyzeBinary_ok]
  constructor
  · rintro ⟨operand, left, _, right, rfl, numeric, rfl⟩
    exact ⟨operand, left, right, numeric, rfl⟩
  · rintro ⟨operand, left, right, numeric, rfl⟩
    exact ⟨operand, left, operand, right, rfl, numeric, rfl⟩

theorem analyzeExpression_call_ok {callee : String} {arguments : List Expression} :
    analyzeExpression symbols (.call callee arguments location) = .ok type ↔
      (∃ argument, callee = "relu" ∧ arguments = [argument] ∧
        analyzeExpression symbols argument = .ok type) ∨
      ∃ lhs rhs lhsType rhsType, callee = "matmul" ∧ arguments = [lhs, rhs] ∧
        analyzeExpression symbols lhs = .ok lhsType ∧
        analyzeExpression symbols rhs = .ok rhsType ∧
        analyzeMatmul lhsType rhsType = .ok type := by
  rw [analyzeExpression.eq_def]
  by_cases isRelu : callee = "relu"
  · subst isRelu
    match arguments with
    | [] => simp
    | [argument] => simp
    | _ :: _ :: _ => simp
  · by_cases isMatmul : callee = "matmul"
    · subst isMatmul
      match arguments with
      | [] => simp
      | [_] => simp
      | [lhs, rhs] =>
        simp only [isRelu, if_false, if_true, except_bind_ok, false_and]
        constructor
        · rintro ⟨lhsType, left, rhsType, right, typed⟩
          exact .inr ⟨lhs, rhs, lhsType, rhsType, trivial, rfl, left, right, typed⟩
        · rintro (⟨_, impossible⟩ | ⟨_, _, lhsType, rhsType, _, same, left, right, typed⟩)
          · exact impossible.elim
          cases same
          exact ⟨lhsType, left, rhsType, right, typed⟩
      | _ :: _ :: _ :: _ => simp
    · simp [isRelu, isMatmul]

end Expressions

theorem analyzeTensorDeclaration_ok {declaration : TensorDecl} :
    analyzeTensorDeclaration declaration analyzer = .ok () final ↔
      analyzer.symbols.typeOf declaration.name = none ∧ final = analyzer.introduce
        ⟨declaration.name, declaration.type, declaration.location⟩ := by
  by_cases absent : analyzer.symbols.lookup declaration.name = none
  · simp only [analyzeTensorDeclaration, bind, EStateM.bind]
    rw [declareSymbol_absent (by exact absent)]
    simp [SymbolTable.typeOf_eq_none.mpr absent, eq_comm]
  · simp only [analyzeTensorDeclaration, declareSymbol, bind, EStateM.bind, modifyGet_apply]
    rw [SymbolTable.declare_present absent]
    simp [SymbolTable.typeOf_eq_none, absent]

/-- An assignment keeps the type of a known target, or introduces a new one. -/
theorem analyzeAssignment_ok {assignment : Assignment} :
    analyzeAssignment assignment analyzer = .ok () final ↔
      ∃ type, analyzeExpression analyzer.symbols assignment.value = .ok type ∧
        (analyzer.symbols.typeOf assignment.target = some type ∧ final = analyzer ∨
        analyzer.symbols.typeOf assignment.target = none ∧
          final = analyzer.introduce ⟨assignment.target, type, {}⟩) := by
  simp only [analyzeAssignment, bind_ok, get_apply, EStateM.Result.ok.injEq, ofExcept_apply_ok]
  constructor
  · rintro ⟨_, _, ⟨rfl, rfl⟩, type, _, ⟨typed, rfl⟩, rest⟩
    refine ⟨type, typed, ?_⟩
    cases found : analyzer.symbols.lookup assignment.target with
    | some existing =>
      rw [found] at rest
      dsimp only at rest
      split at rest
      · cases rest
      · split at rest
        · cases rest
        · rename_i elements shapes
          cases rest
          have same : existing.type = type :=
            TensorType.ext_iff.mpr ⟨not_not.mp elements, not_not.mp shapes⟩
          exact .inl ⟨same ▸ SymbolTable.typeOf_of_lookup found, rfl⟩
    | none =>
      rw [found] at rest
      obtain ⟨_, _, declared, success⟩ := bind_ok.mp rest
      rw [declareSymbol_absent (by exact found)] at declared
      cases declared
      cases success
      exact .inr ⟨SymbolTable.typeOf_eq_none.mpr found, rfl⟩
  · rintro ⟨type, typed, rest⟩
    refine ⟨analyzer, analyzer, ⟨rfl, rfl⟩, type, analyzer, ⟨typed, rfl⟩, ?_⟩
    rcases rest with ⟨known, rfl⟩ | ⟨absent, rfl⟩
    · obtain ⟨existing, found, rfl⟩ := SymbolTable.lookup_of_typeOf known
      simp [found]
    · have found := SymbolTable.typeOf_eq_none.mp absent
      rw [found]
      exact bind_ok.mpr ⟨true, _, declareSymbol_absent found, rfl⟩

/-- After a declaration, a typed name is the declared one or an earlier one. -/
theorem analyzeTensorDeclaration_known {declaration : TensorDecl} {other : String}
    (success : analyzeTensorDeclaration declaration analyzer = .ok () final)
    (known : final.symbols.typeOf other = some type) :
    other = declaration.name ∧ type = declaration.type ∨
      other ≠ declaration.name ∧ analyzer.symbols.typeOf other = some type := by
  obtain ⟨absent, same⟩ := analyzeTensorDeclaration_ok.mp success
  subst same
  rw [SemanticAnalyzer.typeOf_introduce absent] at known
  split at known
  · rename_i here
    exact .inl ⟨here, (Option.some.inj known).symm⟩
  · rename_i different
    exact .inr ⟨different, known⟩

/-- After an assignment, a typed name is the target, with the type of the
value, or an earlier one. -/
theorem analyzeAssignment_known {assignment : Assignment}
    (success : analyzeAssignment assignment analyzer = .ok () final) :
    ∃ type, analyzeExpression analyzer.symbols assignment.value = .ok type ∧
      ∀ {other otherType}, final.symbols.typeOf other = some otherType →
        other = assignment.target ∧ otherType = type ∨
          other ≠ assignment.target ∧ analyzer.symbols.typeOf other = some otherType := by
  obtain ⟨type, typed, target⟩ := analyzeAssignment_ok.mp success
  refine ⟨type, typed, fun {other otherType} known => ?_⟩
  rcases target with ⟨old, same⟩ | ⟨absent, same⟩
  · subst same
    by_cases here : other = assignment.target
    · subst here
      exact .inl ⟨rfl, Option.some.inj (known.symm.trans old)⟩
    · exact .inr ⟨here, known⟩
  · subst same
    rw [SemanticAnalyzer.typeOf_introduce absent] at known
    split at known
    · rename_i here
      exact .inl ⟨here, (Option.some.inj known).symm⟩
    · rename_i different
      exact .inr ⟨different, known⟩

theorem analyzeReturn_ok {returnStatement : ReturnStmt} :
    analyzeReturn returnStatement analyzer = .ok () final ↔
      analyzeExpression analyzer.symbols returnStatement.value = .ok (.scalar "i64") ∧
      (∀ type, analyzer.returnType = some type → type = .scalar "i64") ∧
      final = { analyzer with returnType := some (.scalar "i64") } := by
  simp only [analyzeReturn, bind_ok, get_apply, EStateM.Result.ok.injEq, ofExcept_apply_ok]
  constructor
  · rintro ⟨_, _, ⟨rfl, rfl⟩, type, _, ⟨typed, rfl⟩, rest⟩
    split at rest
    · cases rest
    · rename_i consistent
      split at rest
      · cases rest
      · rename_i scalar
        obtain ⟨element, shape⟩ := not_or.mp scalar
        have same : type = .scalar "i64" :=
          TensorType.ext_iff.mpr ⟨not_not.mp element, not_not.mp shape⟩
        subst same
        cases rest
        refine ⟨typed, fun type earlier => ?_, rfl⟩
        rw [earlier] at consistent
        simpa [TensorType.ext_iff] using consistent
  · rintro ⟨typed, consistent, rfl⟩
    refine ⟨analyzer, analyzer, ⟨rfl, rfl⟩, .scalar "i64", analyzer, ⟨typed, rfl⟩, ?_⟩
    cases earlier : analyzer.returnType with
    | none => simp [TensorType.scalar]
    | some type =>
      cases consistent type earlier
      simp [TensorType.scalar]

theorem analyzeStatements_cons_ok :
    analyzeStatements order (statement :: statements) analyzer = .ok () final ↔
      ∃ middle, analyzeStatement order statement analyzer = .ok () middle ∧
        analyzeStatements order statements middle = .ok () final := by
  rw [analyzeStatements, then_ok]

/-- The parts of an accepted `if`, in the order in which they are analysed. -/
theorem analyzeStatement_if_ok {condition : Expression}
    {thenStatements elseStatements : List Statement} {location : SourceLocation} :
    analyzeStatement order (.ifStmt condition thenStatements elseStatements location) analyzer =
        .ok () final ↔
      ∃ thenAnalyzer elseAnalyzer,
        analyzeExpression analyzer.symbols condition = .ok (.scalar "i1") ∧
        analyzeStatements order thenStatements analyzer = .ok () thenAnalyzer ∧
        analyzeStatements order elseStatements { thenAnalyzer with symbols := analyzer.symbols } =
          .ok () elseAnalyzer ∧
        mergeBranches analyzer.symbols elseAnalyzer.symbols
            (order.traverse elseAnalyzer.merges thenAnalyzer.symbols.entries)
            { elseAnalyzer with symbols := analyzer.symbols, merges := elseAnalyzer.merges + 1 } =
          .ok () final := by
  simp only [analyzeStatement, bind_ok, get_apply, EStateM.Result.ok.injEq, ofExcept_apply_ok]
  constructor
  · rintro ⟨_, _, ⟨rfl, rfl⟩, type, _, ⟨typed, rfl⟩, rest⟩
    split at rest
    · cases rest
    · rename_i condition
      obtain ⟨element, shape⟩ := not_or.mp condition
      have same : type = .scalar "i1" :=
        TensorType.ext_iff.mpr ⟨not_not.mp element, not_not.mp shape⟩
      subst same
      simp only [bind_ok, get_apply, setSymbols, modify_apply, nextTraversal, modifyGet_apply,
        EStateM.Result.ok.injEq] at rest
      obtain ⟨_, thenAnalyzer, thenRun, _, _, ⟨rfl, rfl⟩, _, _, ⟨_, rfl⟩, _, elseAnalyzer, elseRun,
        _, _, ⟨rfl, rfl⟩, _, _, ⟨_, rfl⟩, _, _, ⟨rfl, rfl⟩, merged⟩ := rest
      exact ⟨thenAnalyzer, elseAnalyzer, typed, thenRun, elseRun, merged⟩
  · rintro ⟨thenAnalyzer, elseAnalyzer, typed, thenRun, elseRun, merged⟩
    refine ⟨analyzer, analyzer, ⟨rfl, rfl⟩, .scalar "i1", analyzer, ⟨typed, rfl⟩, ?_⟩
    rw [if_neg (by simp [TensorType.scalar])]
    simp only [bind_ok, get_apply, setSymbols, modify_apply, nextTraversal, modifyGet_apply,
      EStateM.Result.ok.injEq]
    exact ⟨(), thenAnalyzer, thenRun, _, _, ⟨rfl, rfl⟩, (), _, ⟨trivial, rfl⟩, (), elseAnalyzer,
      elseRun, _, _, ⟨rfl, rfl⟩, (), _, ⟨trivial, rfl⟩, _, _, ⟨rfl, rfl⟩, merged⟩

section Merging

variable {before elseSymbols : SymbolTable} {entries : List (String × Symbol)} {thenSymbol : Symbol}

/-- One entry of the then-branch is old, one-sided, or introduced by both branches. -/
theorem mergeBranches_cons_ok :
    mergeBranches before elseSymbols ((name, thenSymbol) :: entries) analyzer = .ok () final ↔
      ((before.typeOf name ≠ none ∨ elseSymbols.typeOf name = none) ∧
        mergeBranches before elseSymbols entries analyzer = .ok () final) ∨
      (before.typeOf name = none ∧ elseSymbols.typeOf name = some thenSymbol.type ∧
        mergeBranches before elseSymbols entries (analyzer.introduce thenSymbol) =
          .ok () final) := by
  rw [mergeBranches]
  cases old : before.contains name with
  | true =>
    obtain ⟨type, known⟩ := SymbolTable.contains_iff.mp old
    simp [known]
  | false =>
    have new := SymbolTable.typeOf_eq_none.mpr (SymbolTable.contains_eq_false.mp old)
    cases found : elseSymbols.lookup name with
    | none => simp [new, SymbolTable.typeOf_eq_none.mpr found]
    | some elseSymbol =>
      have known := SymbolTable.typeOf_of_lookup found
      by_cases same : elseSymbol.type = thenSymbol.type
      · rw [same] at known
        simp [new, known, same, declareSymbol, bind, EStateM.bind, SemanticAnalyzer.introduce]
      · have differ : thenSymbol.type.elementType ≠ elseSymbol.type.elementType ∨
            thenSymbol.type.shape ≠ elseSymbol.type.shape := by
          by_contra equal
          obtain ⟨element, shape⟩ := not_or.mp equal
          exact same (TensorType.ext_iff.mpr ⟨(not_not.mp element).symm, (not_not.mp shape).symm⟩)
        simp [new, known, same, differ]

/-- The merge adds the symbols of the then-branch that are new and of one type in both branches. -/
theorem mergeBranches_lookup (named : ∀ entry ∈ entries, entry.2.name = entry.1)
    (nodup : (entries.map Prod.fst).Nodup)
    (fresh : ∀ entry ∈ entries, before.typeOf entry.1 = none →
      analyzer.symbols.lookup entry.1 = none)
    (success : mergeBranches before elseSymbols entries analyzer = .ok () final) (name : String)
    (symbol : Symbol) :
    final.symbols.lookup name = some symbol ↔ analyzer.symbols.lookup name = some symbol ∨
      before.typeOf name = none ∧ elseSymbols.typeOf name = some symbol.type ∧
        (name, symbol) ∈ entries := by
  induction entries generalizing analyzer with
  | nil =>
    cases success
    simp
  | cons entry entries ih =>
    obtain ⟨key, thenSymbol⟩ := entry
    obtain ⟨absent, nodup⟩ := List.nodup_cons.mp nodup
    obtain ⟨same, named⟩ := List.forall_mem_cons.mp named
    obtain ⟨here, fresh⟩ := List.forall_mem_cons.mp fresh
    have same : thenSymbol.name = key := same
    rcases mergeBranches_cons_ok.mp success with ⟨skipped, success⟩ | ⟨new, known, success⟩
    · rw [ih named nodup fresh success]
      refine or_congr_right (and_congr_right fun new => and_congr_right fun known => ?_)
      rw [List.mem_cons, Prod.mk.injEq, or_iff_right]
      rintro ⟨rfl, _⟩
      rcases skipped with old | oneSided
      · exact old new
      · rw [oneSided] at known
        cases known
    · have free : analyzer.symbols.lookup thenSymbol.name = none := same ▸ here new
      have added (other : String) : (analyzer.introduce thenSymbol).symbols.lookup other =
          if other = key then some thenSymbol else analyzer.symbols.lookup other :=
        same ▸ SymbolTable.lookup_declare free other
      rw [ih named nodup ?_ success, added]
      · by_cases hit : name = key
        · subst hit
          have missing : (name, symbol) ∉ entries := fun member =>
            absent (List.mem_map.mpr ⟨_, member, rfl⟩)
          have typed : symbol = thenSymbol → thenSymbol.type = symbol.type :=
            fun equal => equal ▸ rfl
          simp [new, known, here new, missing, eq_comm]
          simpa [eq_comm] using typed
        · simp [hit]
      · intro entry member unknown
        rw [added, if_neg]
        · exact fresh entry member unknown
        · intro equal
          exact absent (List.mem_map.mpr ⟨entry, member, equal⟩)

end Merging

/-- After an `if`, a name has the symbol it had before, or the one of the then-branch
when both branches introduced it with one type. -/
theorem analyzeStatement_if_lookup {thenAnalyzer elseAnalyzer : SemanticAnalyzer}
    (merged : mergeBranches analyzer.symbols elseAnalyzer.symbols
        (order.traverse elseAnalyzer.merges thenAnalyzer.symbols.entries)
        { elseAnalyzer with symbols := analyzer.symbols, merges := elseAnalyzer.merges + 1 } =
      .ok () final) (name : String) (symbol : Symbol) :
    final.symbols.lookup name = some symbol ↔ analyzer.symbols.lookup name = some symbol ∨
      analyzer.symbols.typeOf name = none ∧ elseAnalyzer.symbols.typeOf name = some symbol.type ∧
        thenAnalyzer.symbols.lookup name = some symbol := by
  have named : ∀ entry ∈ order.traverse elseAnalyzer.merges thenAnalyzer.symbols.entries,
      entry.2.name = entry.1 :=
    fun entry member => thenAnalyzer.symbols.named (order.mem_traverse.mp member)
  rw [mergeBranches_lookup named (order.nodup_traverse _ _) ?_ merged, order.mem_traverse]
  · exact Iff.rfl
  · exact fun _ _ new => SymbolTable.typeOf_eq_none.mp new

/-- After an `if`, a name is typed when it was before, or when both branches
introduced it with that type. -/
theorem analyzeStatement_if_typeOf {thenAnalyzer elseAnalyzer : SemanticAnalyzer}
    (merged : mergeBranches analyzer.symbols elseAnalyzer.symbols
        (order.traverse elseAnalyzer.merges thenAnalyzer.symbols.entries)
        { elseAnalyzer with symbols := analyzer.symbols, merges := elseAnalyzer.merges + 1 } =
      .ok () final) (name : String) (type : TensorType) :
    final.symbols.typeOf name = some type ↔ analyzer.symbols.typeOf name = some type ∨
      analyzer.symbols.typeOf name = none ∧ thenAnalyzer.symbols.typeOf name = some type ∧
        elseAnalyzer.symbols.typeOf name = some type := by
  constructor
  · intro known
    obtain ⟨symbol, found, rfl⟩ := SymbolTable.lookup_of_typeOf known
    rcases (analyzeStatement_if_lookup merged name symbol).mp found with old | ⟨new, inElse, inThen⟩
    · exact .inl (SymbolTable.typeOf_of_lookup old)
    · exact .inr ⟨new, SymbolTable.typeOf_of_lookup inThen, inElse⟩
  · intro known
    rcases known with old | ⟨new, inThen, inElse⟩
    · obtain ⟨symbol, found, rfl⟩ := SymbolTable.lookup_of_typeOf old
      exact SymbolTable.typeOf_of_lookup
        ((analyzeStatement_if_lookup merged name symbol).mpr (.inl found))
    · obtain ⟨symbol, found, rfl⟩ := SymbolTable.lookup_of_typeOf inThen
      exact SymbolTable.typeOf_of_lookup
        ((analyzeStatement_if_lookup merged name symbol).mpr (.inr ⟨new, inElse, found⟩))

/-- An accepted statement keeps every symbol. -/
theorem analyzeStatement_within
    (success : analyzeStatement order statement analyzer = .ok () final) :
    analyzer.symbols.Within final.symbols := by
  cases statement with
  | tensorDecl declaration =>
    rw [analyzeStatement] at success
    obtain ⟨_, rfl⟩ := analyzeTensorDeclaration_ok.mp success
    exact analyzer.symbols.within_declare _
  | assignment assignment =>
    rw [analyzeStatement] at success
    obtain ⟨_, _, ⟨_, rfl⟩ | ⟨_, rfl⟩⟩ := analyzeAssignment_ok.mp success
    · exact .refl _
    · exact analyzer.symbols.within_declare _
  | returnStmt returnStatement =>
    rw [analyzeStatement] at success
    obtain ⟨_, _, rfl⟩ := analyzeReturn_ok.mp success
    exact .refl _
  | ifStmt condition thenStatements elseStatements location =>
    obtain ⟨_, _, _, _, _, merged⟩ := analyzeStatement_if_ok.mp success
    exact fun name symbol found => (analyzeStatement_if_lookup merged name symbol).mpr (.inl found)
  | nullIf =>
    rw [analyzeStatement] at success
    cases success

/-- The expression that an accepted statement starts with has a type. -/
theorem analyzeStatement_starts {expression : Expression}
    (success : analyzeStatement order statement analyzer = .ok () final)
    (starts : startingExpression statement = some expression) :
    ∃ type, analyzeExpression analyzer.symbols expression = .ok type := by
  cases statement with
  | assignment assignment =>
    cases starts
    rw [analyzeStatement] at success
    obtain ⟨type, typed, _⟩ := analyzeAssignment_ok.mp success
    exact ⟨type, typed⟩
  | returnStmt returnStatement =>
    cases starts
    rw [analyzeStatement] at success
    exact ⟨_, (analyzeReturn_ok.mp success).1⟩
  | ifStmt condition thenStatements elseStatements location =>
    cases starts
    obtain ⟨_, _, typed, _⟩ := analyzeStatement_if_ok.mp success
    exact ⟨_, typed⟩
  | tensorDecl _ | nullIf => cases starts

private theorem analyzeStatements_within
    (success : analyzeStatements order statements analyzer = .ok () final) :
    analyzer.symbols.Within final.symbols := by
  induction statements generalizing analyzer with
  | nil =>
    cases success
    exact .refl _
  | cons statement statements ih =>
    obtain ⟨middle, first, rest⟩ := analyzeStatements_cons_ok.mp success
    exact (analyzeStatement_within first).trans (ih rest)

/-- A typed name keeps its type. -/
theorem analyzeStatements_typeOf
    (success : analyzeStatements order statements analyzer = .ok () final)
    (known : analyzer.symbols.typeOf name = some type) : final.symbols.typeOf name = some type :=
  (analyzeStatements_within success).typeOf known

theorem analyze_ok {program : Program} : analyze order program = .ok final ↔
    analyzeStatements order program.statements {} = .ok () final := by
  rw [analyze]
  cases analyzeStatements order program.statements {} with
  | ok value analyzer => simp
  | error error analyzer => simp

/-- A declaration at the top of a list of statements is in the final table. -/
theorem analyzeStatements_declares {declaration : TensorDecl}
    (success : analyzeStatements order statements analyzer = .ok () final)
    (member : .tensorDecl declaration ∈ statements) :
    final.symbols.typeOf declaration.name = some declaration.type := by
  induction statements generalizing analyzer with
  | nil => cases member
  | cons statement statements ih =>
    obtain ⟨middle, first, rest⟩ := analyzeStatements_cons_ok.mp success
    rcases List.mem_cons.mp member with here | later
    · subst here
      rw [analyzeStatement] at first
      obtain ⟨absent, rfl⟩ := analyzeTensorDeclaration_ok.mp first
      refine analyzeStatements_typeOf rest ?_
      rw [SemanticAnalyzer.typeOf_introduce absent, if_pos rfl]
    · exact ih rest later

/-- What is typed after an `if` is typed so at the end of both branches. -/
theorem analyzeStatement_if_branches {thenStatements elseStatements : List Statement}
    {thenAnalyzer elseAnalyzer : SemanticAnalyzer}
    (thenRun : analyzeStatements order thenStatements analyzer = .ok () thenAnalyzer)
    (elseRun : analyzeStatements order elseStatements
      { thenAnalyzer with symbols := analyzer.symbols } = .ok () elseAnalyzer)
    (merged : mergeBranches analyzer.symbols elseAnalyzer.symbols
        (order.traverse elseAnalyzer.merges thenAnalyzer.symbols.entries)
        { elseAnalyzer with symbols := analyzer.symbols, merges := elseAnalyzer.merges + 1 } =
      .ok () final) (known : final.symbols.typeOf name = some type) :
    thenAnalyzer.symbols.typeOf name = some type ∧
      elseAnalyzer.symbols.typeOf name = some type := by
  rcases (analyzeStatement_if_typeOf merged name type).mp known with old | ⟨_, both⟩
  · exact ⟨analyzeStatements_typeOf thenRun old, analyzeStatements_typeOf elseRun old⟩
  · exact both

end Ocelotl.Semantic
