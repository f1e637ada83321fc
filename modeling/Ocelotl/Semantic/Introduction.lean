import Ocelotl.Semantic.Scoping

namespace Ocelotl.Semantic

open Ast Library

mutual

/-- The statement leaves the name bound, when it is accepted. -/
def binds (name : String) : Statement → Bool
  | .tensorDecl declaration => declaration.name = name
  | .assignment assignment => assignment.target = name
  | .ifStmt _ thenStatements elseStatements _ =>
    bindsIn name thenStatements && bindsIn name elseStatements
  | .returnStmt _ | .nullIf => false

def bindsIn (name : String) : List Statement → Bool
  | [] => false
  | statement :: statements => binds name statement || bindsIn name statements

end

variable (order : TraversalOrder)

mutual

/-- The statement gives a free name this type: as a tensor declared with it, as
the target of a value that has it, or in both branches of a conditional. -/
def Introduces (name : String) (type : TensorType) : Statement → SemanticAnalyzer → Prop
  | .tensorDecl declaration, _ => declaration.name = name ∧ declaration.type = type
  | .assignment assignment, analyzer =>
    assignment.target = name ∧ analyzeExpression analyzer.symbols assignment.value = .ok type
  | .ifStmt _ thenStatements elseStatements _, analyzer =>
    IntroducesFirst name type thenStatements analyzer ∧
      ∃ thenAnalyzer, analyzeStatements order thenStatements analyzer = .ok () thenAnalyzer ∧
        IntroducesFirst name type elseStatements { thenAnalyzer with symbols := analyzer.symbols }
  | .returnStmt _, _ | .nullIf, _ => False

/-- The first statement of the list that binds the name gives it this type. -/
def IntroducesFirst (name : String) (type : TensorType) :
    List Statement → SemanticAnalyzer → Prop
  | [], _ => False
  | statement :: statements, analyzer =>
    Introduces name type statement analyzer ∨
      binds name statement = false ∧
        ∃ analyzer', analyzeStatement order statement analyzer = .ok () analyzer' ∧
          IntroducesFirst name type statements analyzer'

end

variable {order} {analyzer analyzer' final : SemanticAnalyzer} {type : TensorType} {name : String}
  {statement : Statement} {statements : List Statement}

/-- What a statement does to a free name: it stays free unless the statement
binds it, and otherwise has the type that the statement introduces it with. -/
structure Resolves (order : TraversalOrder) (name : String) (statement : Statement)
    (analyzer final : SemanticAnalyzer) : Prop where
  free : final.symbols.typeOf name = none ↔ binds name statement = false
  typed : ∀ type, final.symbols.typeOf name = some type ↔
    Introduces order name type statement analyzer

structure ResolvesFirst (order : TraversalOrder) (name : String) (statements : List Statement)
    (analyzer final : SemanticAnalyzer) : Prop where
  free : final.symbols.typeOf name = none ↔ bindsIn name statements = false
  typed : ∀ type, final.symbols.typeOf name = some type ↔
    IntroducesFirst order name type statements analyzer

/-- Introducing a symbol resolves the name exactly when the symbol bears it. -/
theorem typeOf_introduce_of_free (symbol : Symbol)
    (absent : analyzer.symbols.typeOf symbol.name = none)
    (free : analyzer.symbols.typeOf name = none) :
    (analyzer.introduce symbol).symbols.typeOf name =
      if symbol.name = name then some symbol.type else none := by
  rw [SemanticAnalyzer.typeOf_introduce absent, free]
  simp only [eq_comm]

private theorem analyzeTensorDeclaration_resolves {declaration : TensorDecl}
    (success : analyzeTensorDeclaration declaration analyzer = .ok () final)
    (free : analyzer.symbols.typeOf name = none) :
    Resolves order name (.tensorDecl declaration) analyzer final := by
  obtain ⟨absent, same⟩ := analyzeTensorDeclaration_ok.mp success
  subst same
  have known := typeOf_introduce_of_free
    ⟨declaration.name, declaration.type, declaration.location⟩ absent free
  dsimp only at known
  by_cases named : declaration.name = name
  · simp only [named, ↓reduceIte] at known
    exact ⟨by simp [known, binds, named], fun type => by simp [known, Introduces, named]⟩
  · rw [if_neg named] at known
    exact ⟨by simp [known, binds, named], fun type => by simp [known, Introduces, named]⟩

private theorem analyzeAssignment_resolves {assignment : Assignment}
    (success : analyzeAssignment assignment analyzer = .ok () final)
    (free : analyzer.symbols.typeOf name = none) :
    Resolves order name (.assignment assignment) analyzer final := by
  obtain ⟨type, typed, ⟨known, same⟩ | ⟨absent, same⟩⟩ := analyzeAssignment_ok.mp success
  · have named : assignment.target ≠ name := by
      intro here
      rw [here, free] at known
      cases known
    subst same
    exact ⟨by simp [free, binds, named], fun type => by simp [free, Introduces, named]⟩
  · subst same
    have known := typeOf_introduce_of_free ⟨assignment.target, type, {}⟩ absent free
    dsimp only at known
    by_cases named : assignment.target = name
    · rw [if_pos named] at known
      refine ⟨?_, fun other => ?_⟩
      · rw [known]
        simp [binds, named]
      · rw [known, Introduces, typed]
        simp [named]
    · rw [if_neg named] at known
      exact ⟨by simp [known, binds, named], fun type => by simp [known, Introduces, named]⟩

private theorem analyzeStatements_resolves_of
    (each : ∀ statement ∈ statements, ∀ {analyzer final : SemanticAnalyzer},
      analyzeStatement order statement analyzer = .ok () final →
      analyzer.symbols.typeOf name = none → Resolves order name statement analyzer final)
    (success : analyzeStatements order statements analyzer = .ok () final)
    (free : analyzer.symbols.typeOf name = none) :
    ResolvesFirst order name statements analyzer final := by
  induction statements generalizing analyzer with
  | nil =>
    cases success
    exact ⟨by simp [free, bindsIn], fun type => by simp [free, IntroducesFirst]⟩
  | cons statement statements ih =>
    obtain ⟨middle, first, rest⟩ := analyzeStatements_cons_ok.mp success
    have here := each statement List.mem_cons_self first free
    cases silent : binds name statement with
    | true =>
      obtain ⟨type, known⟩ : ∃ type, middle.symbols.typeOf name = some type := by
        refine Option.ne_none_iff_exists'.mp fun unknown => ?_
        rw [here.free.mp unknown] at silent
        cases silent
      have kept := analyzeStatements_typeOf rest known
      refine ⟨by simp [kept, bindsIn, silent], fun other => ?_⟩
      rw [IntroducesFirst, ← here.typed, kept, known]
      simp [silent]
    | false =>
      have unknown := here.free.mpr silent
      have later := ih (fun other member => each other (List.mem_cons_of_mem _ member)) rest unknown
      refine ⟨by simp [later.free, bindsIn, silent], fun type => ?_⟩
      rw [IntroducesFirst, ← here.typed, unknown, later.typed]
      simp [silent, first]

/-- The branches of an accepted conditional introduce a name with one type. -/
theorem mergeBranches_types {before elseSymbols : SymbolTable} {entries : List (String × Symbol)}
    {symbol : Symbol} (success : mergeBranches before elseSymbols entries analyzer = .ok () final)
    (member : (name, symbol) ∈ entries) (new : before.typeOf name = none)
    (known : elseSymbols.typeOf name = some type) : symbol.type = type := by
  induction entries generalizing analyzer with
  | nil => cases member
  | cons entry entries ih =>
    obtain ⟨key, thenSymbol⟩ := entry
    rcases mergeBranches_cons_ok.mp success with ⟨skipped, success⟩ | ⟨_, same, success⟩
    · refine (List.mem_cons.mp member).elim (fun here => ?_) (ih success)
      cases here
      rcases skipped with old | missing
      · exact absurd new old
      · rw [missing] at known
        cases known
    · refine (List.mem_cons.mp member).elim (fun here => ?_) (ih success)
      cases here
      exact Option.some.inj (same.symm.trans known)

/-- After a conditional, a name that was free has the type that both branches
introduce it with. -/
theorem analyzeIf_resolves {condition : Expression} {thenStatements elseStatements : List Statement}
    {location : SourceLocation} {thenAnalyzer elseAnalyzer : SemanticAnalyzer}
    (thenRun : analyzeStatements order thenStatements analyzer = .ok () thenAnalyzer)
    (merged : mergeBranches analyzer.symbols elseAnalyzer.symbols
        (order.traverse elseAnalyzer.merges thenAnalyzer.symbols.entries)
        { elseAnalyzer with symbols := analyzer.symbols, merges := elseAnalyzer.merges + 1 } =
      .ok () final)
    (free : analyzer.symbols.typeOf name = none)
    (fromThen : ResolvesFirst order name thenStatements analyzer thenAnalyzer)
    (fromElse : ResolvesFirst order name elseStatements
      { thenAnalyzer with symbols := analyzer.symbols } elseAnalyzer) :
    Resolves order name (.ifStmt condition thenStatements elseStatements location) analyzer
      final := by
  have joined := analyzeStatement_if_typeOf merged name
  simp only [free, reduceCtorEq, true_and, false_or] at joined
  refine ⟨?_, fun type => ?_⟩
  · rw [binds, Bool.and_eq_false_iff, ← fromThen.free, ← fromElse.free]
    constructor
    · intro unknown
      by_contra both
      obtain ⟨inThen, inElse⟩ := not_or.mp both
      obtain ⟨thenType, thenKnown⟩ := Option.ne_none_iff_exists'.mp inThen
      obtain ⟨elseType, elseKnown⟩ := Option.ne_none_iff_exists'.mp inElse
      obtain ⟨symbol, found, typed⟩ := SymbolTable.lookup_of_typeOf thenKnown
      have same := mergeBranches_types merged (order.mem_traverse.mpr found) free elseKnown
      have known := (joined elseType).mpr ⟨by rw [thenKnown, ← typed, same], elseKnown⟩
      rw [unknown] at known
      cases known
    · intro oneSided
      by_contra known
      obtain ⟨type, known⟩ := Option.ne_none_iff_exists'.mp known
      obtain ⟨inThen, inElse⟩ := (joined type).mp known
      rcases oneSided with unknown | unknown
      · rw [unknown] at inThen
        cases inThen
      · rw [unknown] at inElse
        cases inElse
  · rw [joined, fromThen.typed, fromElse.typed, Introduces]
    simp [thenRun]

/-- A statement resolves every name that is free before it. -/
theorem analyzeStatement_resolves
    (success : analyzeStatement order statement analyzer = .ok () final)
    (free : analyzer.symbols.typeOf name = none) :
    Resolves order name statement analyzer final := by
  induction statement generalizing analyzer final with
  | tensorDecl declaration =>
    rw [analyzeStatement] at success
    exact analyzeTensorDeclaration_resolves success free
  | assignment assignment =>
    rw [analyzeStatement] at success
    exact analyzeAssignment_resolves success free
  | returnStmt returnStatement =>
    rw [analyzeStatement] at success
    obtain ⟨_, _, rfl⟩ := analyzeReturn_ok.mp success
    exact ⟨by simp [free, binds], fun type => by simp [free, Introduces]⟩
  | ifStmt condition thenStatements elseStatements location thenIH elseIH =>
    obtain ⟨thenAnalyzer, elseAnalyzer, _, thenRun, elseRun, merged⟩ :=
      analyzeStatement_if_ok.mp success
    exact analyzeIf_resolves thenRun merged free (analyzeStatements_resolves_of thenIH thenRun free)
      (analyzeStatements_resolves_of elseIH elseRun free)
  | nullIf =>
    rw [analyzeStatement] at success
    cases success

theorem analyzeStatements_resolves
    (success : analyzeStatements order statements analyzer = .ok () final)
    (free : analyzer.symbols.typeOf name = none) :
    ResolvesFirst order name statements analyzer final :=
  analyzeStatements_resolves_of (fun _ _ => analyzeStatement_resolves) success free

/-- The final table gives a name the type that its first top-level statement
introduces it with, and no other names. -/
theorem analyze_typeOf {program : Program} (analyzed : analyze order program = .ok final)
    (name : String) (type : TensorType) :
    final.symbols.typeOf name = some type ↔
      IntroducesFirst order name type program.statements {} :=
  (analyzeStatements_resolves (analyze_ok.mp analyzed) (SymbolTable.typeOf_empty name)).typed type

end Ocelotl.Semantic
