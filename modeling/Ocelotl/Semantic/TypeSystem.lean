import Ocelotl.Semantic.EntryOrder

/-! The typing rules of the language, without symbol tables, return types that are
remembered, or an order in which names are merged. The analyser decides them. -/

namespace Ocelotl.Semantic

open Ast Library

/-- The types of the names that are known at a point of a program. -/
abbrev Context := String → Option TensorType

/-- After a conditional, a name has the type that it had before, or the one that
both branches give it. -/
def Context.join (before thenContext elseContext : Context) : Context := fun name =>
  match before name with
  | some type => some type
  | none => if thenContext name = elseContext name then thenContext name else none

variable {context context' : Context} {expression : Expression} {type : TensorType}

inductive HasType (context : Context) : Expression → TensorType → Prop where
  | identifier {name : String} {location : SourceLocation} {type : TensorType}
    (known : context name = some type) :
    HasType context (.identifier name location) type
  | integer {value : BitVec 64} {location : SourceLocation} :
    HasType context (.integer value location) (.scalar "i64")
  | float {value : Double} {location : SourceLocation} :
    HasType context (.float value location) (.scalar "f64")
  | binary {op : BinaryOperator} {lhs rhs : Expression} {location : SourceLocation}
    {operand : TensorType}
    (left : HasType context lhs operand) (right : HasType context rhs operand)
    (numeric : operand.Numeric) :
    HasType context (.binary op lhs rhs location) (binaryType op operand)
  | relu {argument : Expression} {location : SourceLocation} {type : TensorType}
    (typed : HasType context argument type) :
    HasType context (.call "relu" [argument] location) type
  | matmul {lhs rhs : Expression} {location : SourceLocation} {element : String}
    {rows inner columns : Nat}
    (left : HasType context lhs ⟨element, [rows, inner]⟩)
    (right : HasType context rhs ⟨element, [inner, columns]⟩) :
    HasType context (.call "matmul" [lhs, rhs] location) ⟨element, [rows, columns]⟩

mutual

/-- The statement is well typed, and changes the context to another. -/
inductive Types : Context → Statement → Context → Prop where
  | tensorDecl {context : Context} {declaration : TensorDecl}
    (new : context declaration.name = none) :
    Types context (.tensorDecl declaration)
      (Function.update context declaration.name (some declaration.type))
  | introduction {context : Context} {assignment : Assignment} {type : TensorType}
    (typed : HasType context assignment.value type) (new : context assignment.target = none) :
    Types context (.assignment assignment) (Function.update context assignment.target (some type))
  | overwriting {context : Context} {assignment : Assignment} {type : TensorType}
    (typed : HasType context assignment.value type)
    (known : context assignment.target = some type) :
    Types context (.assignment assignment) context
  | returnStmt {context : Context} {returnStatement : ReturnStmt}
    (typed : HasType context returnStatement.value (.scalar "i64")) :
    Types context (.returnStmt returnStatement) context
  | ifStmt {context thenContext elseContext : Context} {condition : Expression}
    {thenStatements elseStatements : List Statement} {location : SourceLocation}
    (typed : HasType context condition (.scalar "i1"))
    (thenTyped : TypesAll context thenStatements thenContext)
    (elseTyped : TypesAll context elseStatements elseContext)
    (oneType : ∀ {name type type'}, context name = none → thenContext name = some type →
      elseContext name = some type' → type = type') :
    Types context (.ifStmt condition thenStatements elseStatements location)
      (context.join thenContext elseContext)

inductive TypesAll : Context → List Statement → Context → Prop where
  | nil {context : Context} : TypesAll context [] context
  | cons {context middle final : Context} {statement : Statement} {statements : List Statement}
    (first : Types context statement middle) (rest : TypesAll middle statements final) :
    TypesAll context (statement :: statements) final

end

/-- The program is well typed, and these are the types of its names in the end. -/
def TypesProgram (program : Program) (context : Context) : Prop :=
  TypesAll (fun _ => none) program.statements context

theorem Context.join_eq_some {before thenContext elseContext : Context} {name : String} :
    before.join thenContext elseContext name = some type ↔ before name = some type ∨
      before name = none ∧ thenContext name = some type ∧ elseContext name = some type := by
  unfold Context.join
  cases before name with
  | some known => simp
  | none =>
    by_cases same : thenContext name = elseContext name
    · simp [same]
    · simp only [if_neg same, reduceCtorEq, true_and, false_or, false_iff, not_and]
      intro inThen inElse
      exact same (inThen.trans inElse.symm)

variable {symbols : SymbolTable}

private theorem analyzeExpression_iff :
    analyzeExpression symbols expression = .ok type ↔ HasType symbols.typeOf expression type := by
  induction expression generalizing type with
  | identifier name location =>
    rw [analyzeExpression, analyzeIdentifier_ok]
    constructor
    · exact .identifier
    · intro typed
      cases typed with
      | identifier known => exact known
  | integer value location =>
    rw [analyzeExpression]
    constructor
    · intro typed
      cases typed
      exact .integer
    · intro typed
      cases typed
      rfl
  | float value location =>
    rw [analyzeExpression]
    constructor
    · intro typed
      cases typed
      exact .float
    · intro typed
      cases typed
      rfl
  | nullCall | nullBinary =>
    rw [analyzeExpression]
    constructor
    · intro typed
      cases typed
    · intro typed
      cases typed
  | binary op lhs rhs location lhsIH rhsIH =>
    rw [analyzeExpression_binary_ok]
    constructor
    · rintro ⟨operand, left, right, numeric, rfl⟩
      exact .binary (lhsIH.mp left) (rhsIH.mp right) numeric
    · intro typed
      cases typed with
      | binary left right numeric => exact ⟨_, lhsIH.mpr left, rhsIH.mpr right, numeric, rfl⟩
  | call callee arguments location ih =>
    rw [analyzeExpression_call_ok]
    constructor
    · rintro (⟨argument, rfl, rfl, typed⟩ | ⟨lhs, rhs, lhsType, rhsType, rfl, rfl, left,
        right, product⟩)
      · exact .relu ((ih argument List.mem_cons_self).mp typed)
      · obtain ⟨element, rows, inner, columns, rfl, rfl, rfl⟩ := analyzeMatmul_ok.mp product
        apply HasType.matmul
        · exact (ih lhs (by simp)).mp left
        · exact (ih rhs (by simp)).mp right
    · intro typed
      cases typed with
      | @relu argument _ _ typed =>
        exact .inl ⟨argument, rfl, rfl, (ih argument List.mem_cons_self).mpr typed⟩
      | @matmul lhs rhs _ element rows inner columns left right =>
        refine .inr ⟨lhs, rhs, _, _, rfl, rfl, (ih lhs (by simp)).mpr left,
          (ih rhs (by simp)).mpr right, ?_⟩
        exact analyzeMatmul_ok.mpr ⟨element, rows, inner, columns, rfl, rfl, rfl⟩

variable {order : TraversalOrder} {analyzer final : SemanticAnalyzer} {statement : Statement}
  {statements : List Statement}

/-- All returns so far were of the one type that there is. -/
def ReturnsScalar (analyzer : SemanticAnalyzer) : Prop :=
  ∀ type, analyzer.returnType = some type → type = .scalar "i64"

private theorem typeOf_introduce_eq {symbol : Symbol}
    (absent : analyzer.symbols.typeOf symbol.name = none) :
    (analyzer.introduce symbol).symbols.typeOf =
      Function.update analyzer.symbols.typeOf symbol.name (some symbol.type) := by
  funext name
  rw [SemanticAnalyzer.typeOf_introduce absent, Function.update_apply]

/-- The analyser succeeds where the rule allows it, and changes the types of names
as the rule says. -/
def ObeysRule (run : Analysis Unit) (rule : Context → Context → Prop) : Prop :=
  ∀ analyzer, ReturnsScalar analyzer →
    (∀ final, run analyzer = .ok () final → ReturnsScalar final ∧
      rule analyzer.symbols.typeOf final.symbols.typeOf) ∧
    ∀ context, rule analyzer.symbols.typeOf context → ∃ final, run analyzer = .ok () final ∧
      final.symbols.typeOf = context

private theorem analyzeStatements_obeys
    (each : ∀ statement ∈ statements,
      ObeysRule (analyzeStatement order statement) (Types · statement)) :
    ObeysRule (analyzeStatements order statements) (TypesAll · statements) := by
  induction statements with
  | nil =>
    intro analyzer returning
    refine ⟨fun final success => ?_, fun context typed => ?_⟩
    · cases success
      exact ⟨returning, .nil⟩
    · cases typed
      exact ⟨analyzer, rfl, rfl⟩
  | cons statement statements ih =>
    intro analyzer returning
    have rest := ih fun other member => each other (List.mem_cons_of_mem _ member)
    refine ⟨fun final success => ?_, fun context typed => ?_⟩
    · obtain ⟨middle, first, later⟩ := analyzeStatements_cons_ok.mp success
      obtain ⟨returning', firstTyped⟩ :=
        (each statement List.mem_cons_self analyzer returning).1 middle first
      obtain ⟨returning'', laterTyped⟩ := (rest middle returning').1 final later
      exact ⟨returning'', .cons firstTyped laterTyped⟩
    · cases typed with
      | cons firstTyped laterTyped =>
        obtain ⟨middle, first, rfl⟩ :=
          (each statement List.mem_cons_self analyzer returning).2 _ firstTyped
        obtain ⟨returning', _⟩ :=
          (each statement List.mem_cons_self analyzer returning).1 middle first
        obtain ⟨final, later, same⟩ := (rest middle returning').2 context laterTyped
        exact ⟨final, analyzeStatements_cons_ok.mpr ⟨middle, first, later⟩, same⟩

private theorem analyzeStatement_obeys :
    ObeysRule (analyzeStatement order statement) (Types · statement) := by
  induction statement with
  | tensorDecl declaration =>
    intro analyzer returning
    rw [analyzeStatement]
    refine ⟨fun final success => ?_, fun context typed => ?_⟩
    · obtain ⟨new, rfl⟩ := analyzeTensorDeclaration_ok.mp success
      refine ⟨returning, ?_⟩
      rw [typeOf_introduce_eq new]
      exact .tensorDecl new
    · cases typed with
      | tensorDecl new =>
        exact ⟨_, analyzeTensorDeclaration_ok.mpr ⟨new, rfl⟩, typeOf_introduce_eq new⟩
  | assignment assignment =>
    intro analyzer returning
    rw [analyzeStatement]
    refine ⟨fun final success => ?_, fun context typed => ?_⟩
    · obtain ⟨type, typed, ⟨known, rfl⟩ | ⟨new, rfl⟩⟩ := analyzeAssignment_ok.mp success
      · exact ⟨returning, .overwriting (analyzeExpression_iff.mp typed) known⟩
      · refine ⟨returning, ?_⟩
        rw [typeOf_introduce_eq new]
        exact .introduction (analyzeExpression_iff.mp typed) new
    · cases typed with
      | introduction typed new =>
        refine ⟨_, analyzeAssignment_ok.mpr ⟨_, analyzeExpression_iff.mpr typed, .inr ⟨new, rfl⟩⟩,
          ?_⟩
        exact typeOf_introduce_eq new
      | overwriting typed known =>
        exact ⟨_, analyzeAssignment_ok.mpr ⟨_, analyzeExpression_iff.mpr typed, .inl ⟨known, rfl⟩⟩,
          rfl⟩
  | returnStmt returnStatement =>
    intro analyzer returning
    rw [analyzeStatement]
    refine ⟨fun final success => ?_, fun context typed => ?_⟩
    · obtain ⟨typed, _, rfl⟩ := analyzeReturn_ok.mp success
      refine ⟨fun type same => (Option.some.inj same).symm, ?_⟩
      exact .returnStmt (analyzeExpression_iff.mp typed)
    · cases typed with
      | returnStmt typed =>
        exact ⟨_, analyzeReturn_ok.mpr ⟨analyzeExpression_iff.mpr typed, returning, rfl⟩, rfl⟩
  | ifStmt condition thenStatements elseStatements location thenIH elseIH =>
    intro analyzer returning
    have thenObeys := analyzeStatements_obeys thenIH
    have elseObeys := analyzeStatements_obeys elseIH
    refine ⟨fun final success => ?_, fun context typed => ?_⟩
    · obtain ⟨thenAnalyzer, elseAnalyzer, typed, thenRun, elseRun, merged⟩ :=
        analyzeStatement_if_ok.mp success
      obtain ⟨returning', thenTyped⟩ := (thenObeys analyzer returning).1 _ thenRun
      obtain ⟨returning'', elseTyped⟩ :=
        (elseObeys { thenAnalyzer with symbols := analyzer.symbols } returning').1 _ elseRun
      have joined : final.symbols.typeOf =
          Context.join analyzer.symbols.typeOf thenAnalyzer.symbols.typeOf
            elseAnalyzer.symbols.typeOf := by
        funext name
        apply Option.ext
        intro type
        exact (analyzeStatement_if_typeOf merged name type).trans Context.join_eq_some.symm
      refine ⟨?_, ?_⟩
      · intro type earlier
        exact returning'' type ((mergeBranches_returnType merged).symm.trans earlier)
      · rw [joined]
        refine .ifStmt (analyzeExpression_iff.mp typed) thenTyped elseTyped
          fun {name type type'} new inThen inElse => ?_
        obtain ⟨symbol, found, rfl⟩ := SymbolTable.lookup_of_typeOf inThen
        exact mergeBranches_types merged (order.mem_traverse.mpr found) new inElse
    · cases typed with
      | @ifStmt _ thenContext elseContext _ _ _ _ typed thenTyped elseTyped oneType =>
        obtain ⟨thenAnalyzer, thenRun, rfl⟩ := (thenObeys analyzer returning).2 _ thenTyped
        obtain ⟨returning', _⟩ := (thenObeys analyzer returning).1 _ thenRun
        obtain ⟨elseAnalyzer, elseRun, rfl⟩ :=
          (elseObeys { thenAnalyzer with symbols := analyzer.symbols } returning').2 _ elseTyped
        have mergeable : OneType analyzer.symbols elseAnalyzer.symbols
            (order.traverse elseAnalyzer.merges thenAnalyzer.symbols.entries) := by
          intro name symbol member new
          have inThen := SymbolTable.typeOf_of_lookup (order.mem_traverse.mp member)
          cases inElse : elseAnalyzer.symbols.typeOf name with
          | none => exact .inl rfl
          | some type => exact .inr (congrArg some (oneType new inThen inElse).symm)
        obtain ⟨final, merged⟩ := mergeBranches_accepts_iff.mpr mergeable
        refine ⟨final, analyzeStatement_if_ok.mpr
          ⟨thenAnalyzer, elseAnalyzer, analyzeExpression_iff.mpr typed, thenRun, elseRun, merged⟩,
            ?_⟩
        funext name
        apply Option.ext
        intro type
        exact (analyzeStatement_if_typeOf merged name type).trans Context.join_eq_some.symm
  | nullIf =>
    intro analyzer returning
    refine ⟨fun final success => ?_, fun context typed => ?_⟩
    · rw [analyzeStatement] at success
      cases success
    · cases typed

variable {program : Program} {context : Context}

private theorem returnsScalar_start : ReturnsScalar {} := by
  intro type same
  cases same

private theorem typeOf_start : ({} : SemanticAnalyzer).symbols.typeOf = fun _ => none := by
  funext name
  exact SymbolTable.typeOf_empty name

theorem types_of_analyze (accepted : analyze order program = .ok analyzer) :
    TypesProgram program analyzer.symbols.typeOf := by
  have obeys := @analyzeStatements_obeys order program.statements fun _ _ => analyzeStatement_obeys
  obtain ⟨_, typed⟩ := (obeys {} returnsScalar_start).1 analyzer (analyze_ok.mp accepted)
  rwa [typeOf_start] at typed

theorem analyze_of_types (order : TraversalOrder) (typed : TypesProgram program context) :
    ∃ analyzer, analyze order program = .ok analyzer ∧ analyzer.symbols.typeOf = context := by
  have obeys := @analyzeStatements_obeys order program.statements fun _ _ => analyzeStatement_obeys
  obtain ⟨analyzer, success, same⟩ :=
    (obeys {} returnsScalar_start).2 context (by rwa [typeOf_start])
  exact ⟨analyzer, analyze_ok.mpr success, same⟩

/-- The analyser accepts the well-typed programs, and finds the types of their names. -/
theorem analyze_iff_types (order : TraversalOrder) (program : Program) (context : Context) :
    (∃ analyzer, analyze order program = .ok analyzer ∧ analyzer.symbols.typeOf = context) ↔
      TypesProgram program context := by
  constructor
  · rintro ⟨analyzer, accepted, rfl⟩
    exact types_of_analyze accepted
  · exact analyze_of_types order

end Ocelotl.Semantic
