import Ocelotl.Semantic.Introduction

/-! What a rejected statement leaves in the symbol table. The exception passes
through `analyzeIf`, which does not put the table back, so the names that a
branch had introduced before the error stay. -/

namespace Ocelotl.Semantic

open Ast Library

/-- The first name that both branches introduce has two types. -/
def FirstMergeFails (before elseSymbols : SymbolTable) (entries : List (String × Symbol)) : Prop :=
  ∀ entry, entries.find? (fun entry => !before.contains entry.1 && elseSymbols.contains entry.1) =
    some entry →
    elseSymbols.typeOf entry.1 ≠ some entry.2.type

/-- The statement, when it is accepted, introduces nothing. -/
def BindsKnown (symbols : SymbolTable) (statement : Statement) : Prop :=
  ∀ name, symbols.lookup name = none → binds name statement = false

variable (order : TraversalOrder)

mutual

/-- The statement is rejected before anything in it has been introduced. -/
def RejectedFirst : Statement → SemanticAnalyzer → Prop
  | .ifStmt condition thenStatements elseStatements _, analyzer =>
    analyzeExpression analyzer.symbols condition = .ok (.scalar "i1") →
      match analyzeStatements order thenStatements analyzer with
      | .error _ _ => RejectedFirstIn thenStatements analyzer
      | .ok _ thenAnalyzer =>
        match analyzeStatements order elseStatements
          { thenAnalyzer with symbols := analyzer.symbols } with
        | .error _ _ =>
          RejectedFirstIn elseStatements { thenAnalyzer with symbols := analyzer.symbols }
        | .ok _ elseAnalyzer => FirstMergeFails analyzer.symbols elseAnalyzer.symbols
          (order.traverse elseAnalyzer.merges thenAnalyzer.symbols.entries)
  | .tensorDecl _, _ | .assignment _, _ | .returnStmt _, _ | .nullIf, _ => True

/-- The accepted statements of the list introduce nothing, and the rejected one
is rejected before anything in it has been introduced. -/
def RejectedFirstIn : List Statement → SemanticAnalyzer → Prop
  | [], _ => True
  | statement :: statements, analyzer =>
    match analyzeStatement order statement analyzer with
    | .error _ _ => RejectedFirst statement analyzer
    | .ok _ middle => BindsKnown analyzer.symbols statement ∧ RejectedFirstIn statements middle

end

variable {order} {analyzer middle final : SemanticAnalyzer} {error : SemanticError}
  {early early' : Prop} {statement : Statement} {statements : List Statement}

/-- Nothing is lost, and nothing is added exactly under this condition. -/
structure Leaves (analyzer final : SemanticAnalyzer) (early : Prop) : Prop where
  within : analyzer.symbols.Within final.symbols
  untouched : (∀ name, final.symbols.lookup name = analyzer.symbols.lookup name) ↔ early

theorem Leaves.same (holds : early) : Leaves analyzer analyzer early :=
  ⟨.refl _, iff_of_true (fun _ => rfl) holds⟩

/-- Two parts add nothing together when neither does. -/
theorem Leaves.trans (first : Leaves analyzer middle early) (second : Leaves middle final early') :
    Leaves analyzer final (early ∧ early') where
  within := first.within.trans second.within
  untouched := by
    rw [← first.untouched, ← second.untouched]
    constructor
    · intro same
      have kept (name : String) : middle.symbols.lookup name = analyzer.symbols.lookup name := by
        cases found : middle.symbols.lookup name with
        | some symbol => exact (second.within name symbol found).symm.trans (same name)
        | none =>
          cases old : analyzer.symbols.lookup name with
          | none => rfl
          | some symbol => exact found.symm.trans (first.within name symbol old)
      exact ⟨kept, fun name => (same name).trans (kept name).symm⟩
    · intro ⟨same, same'⟩ name
      exact (same' name).trans (same name)

private theorem analyzeTensorDeclaration_error {declaration : TensorDecl}
    (failure : analyzeTensorDeclaration declaration analyzer = .error error final) :
    final = analyzer := by
  by_cases absent : analyzer.symbols.lookup declaration.name = none
  · have accepted := analyzeTensorDeclaration_ok.mpr ⟨SymbolTable.typeOf_eq_none.mpr absent, rfl⟩
    rw [accepted] at failure
    cases failure
  · simp only [analyzeTensorDeclaration, declareSymbol, bind, EStateM.bind,
      modifyGet_apply] at failure
    rw [SymbolTable.declare_present absent] at failure
    cases failure
    rfl

private theorem analyzeAssignment_error {assignment : Assignment}
    (failure : analyzeAssignment assignment analyzer = .error error final) : final = analyzer := by
  rw [analyzeAssignment, bind_of_ok (get_apply analyzer)] at failure
  rcases bind_error.mp failure with failure | ⟨type, middle, success, failure⟩
  · exact (ofExcept_apply_error.mp failure).2.symm
  · obtain ⟨_, rfl⟩ := ofExcept_apply_ok.mp success
    cases found : analyzer.symbols.lookup assignment.target with
    | some existing =>
      rw [found] at failure
      dsimp only at failure
      split at failure
      · cases failure
        rfl
      · split at failure <;> cases failure
        rfl
    | none =>
      rw [found] at failure
      dsimp only at failure
      rw [bind_of_ok (declareSymbol_absent (by exact found))] at failure
      cases failure

private theorem analyzeReturn_error {returnStatement : ReturnStmt}
    (failure : analyzeReturn returnStatement analyzer = .error error final) : final = analyzer := by
  rw [analyzeReturn, bind_of_ok (get_apply analyzer)] at failure
  rcases bind_error.mp failure with failure | ⟨type, middle, success, failure⟩
  · exact (ofExcept_apply_error.mp failure).2.symm
  · obtain ⟨_, rfl⟩ := ofExcept_apply_ok.mp success
    split at failure
    · cases failure
      rfl
    · split at failure <;> cases failure
      rfl

/-- An accepted statement introduces nothing exactly when it binds known names only. -/
theorem analyzeStatement_leaves
    (success : analyzeStatement order statement analyzer = .ok () final) :
    Leaves analyzer final (BindsKnown analyzer.symbols statement) where
  within := analyzeStatement_within success
  untouched := by
    constructor
    · intro same name free
      have unknown := SymbolTable.typeOf_eq_none.mpr free
      refine (analyzeStatement_resolves success unknown).free.mp ?_
      exact SymbolTable.typeOf_eq_none.mpr ((same name).trans free)
    · intro known name
      cases found : analyzer.symbols.lookup name with
      | some symbol => exact analyzeStatement_within success name symbol found
      | none =>
        have unknown := SymbolTable.typeOf_eq_none.mpr found
        have silent := (analyzeStatement_resolves success unknown).free.mpr (known name found)
        exact SymbolTable.typeOf_eq_none.mp silent

section Merging

variable {before elseSymbols : SymbolTable} {entries : List (String × Symbol)} {name : String}
  {thenSymbol : Symbol}

/-- The merge fails at a name that both branches introduce with two types. -/
theorem mergeBranches_cons_error
    (failure : mergeBranches before elseSymbols ((name, thenSymbol) :: entries) analyzer =
      .error error final) :
    ((before.contains name = true ∨ elseSymbols.contains name = false) ∧
      mergeBranches before elseSymbols entries analyzer = .error error final) ∨
    (before.contains name = false ∧ elseSymbols.typeOf name = some thenSymbol.type ∧
      ∃ inserted middle, declareSymbol thenSymbol analyzer = .ok inserted middle ∧
        mergeBranches before elseSymbols entries middle = .error error final) ∨
    (before.contains name = false ∧ elseSymbols.contains name = true ∧
      elseSymbols.typeOf name ≠ some thenSymbol.type ∧ final = analyzer) := by
  rw [mergeBranches] at failure
  cases old : before.contains name with
  | true =>
    rw [old, if_pos rfl] at failure
    exact .inl ⟨.inl rfl, failure⟩
  | false =>
    rw [old, if_neg Bool.false_ne_true] at failure
    cases found : elseSymbols.lookup name with
    | none =>
      rw [found] at failure
      exact .inl ⟨.inr (SymbolTable.contains_eq_false.mpr found), failure⟩
    | some elseSymbol =>
      rw [found] at failure
      have inElse := SymbolTable.typeOf_of_lookup found
      dsimp only at failure
      split at failure
      · rename_i differ
        cases failure
        refine .inr (.inr ⟨rfl, SymbolTable.contains_iff.mpr ⟨_, inElse⟩, ?_, rfl⟩)
        intro same
        rw [Option.some.inj (inElse.symm.trans same)] at differ
        exact differ.elim (absurd rfl) (absurd rfl)
      · rename_i equal
        obtain ⟨element, shape⟩ := not_or.mp equal
        have same : thenSymbol.type = elseSymbol.type :=
          TensorType.ext_iff.mpr ⟨not_not.mp element, not_not.mp shape⟩
        rcases bind_error.mp failure with failure | ⟨inserted, middle, declared, failure⟩
        · cases failure
        · exact .inr (.inl ⟨rfl, same ▸ inElse, inserted, middle, declared, failure⟩)

/-- A merge that fails adds nothing exactly when the first name it could add has two types. -/
theorem mergeBranches_leaves (named : ∀ entry ∈ entries, entry.2.name = entry.1)
    (nodup : (entries.map Prod.fst).Nodup)
    (fresh : ∀ entry ∈ entries, before.contains entry.1 = false →
      analyzer.symbols.lookup entry.1 = none)
    (failure : mergeBranches before elseSymbols entries analyzer = .error error final) :
    Leaves analyzer final (FirstMergeFails before elseSymbols entries) := by
  induction entries generalizing analyzer with
  | nil => cases failure
  | cons entry entries ih =>
    obtain ⟨name, thenSymbol⟩ := entry
    obtain ⟨absent, nodup⟩ := List.nodup_cons.mp nodup
    obtain ⟨same, named⟩ := List.forall_mem_cons.mp named
    obtain ⟨here, fresh⟩ := List.forall_mem_cons.mp fresh
    rcases mergeBranches_cons_error failure with
      ⟨skipped, failure⟩ | ⟨new, inElse, inserted, middle, declared, failure⟩ | ⟨new, inElse,
        differ, rfl⟩
    · have next : FirstMergeFails before elseSymbols ((name, thenSymbol) :: entries) ↔
          FirstMergeFails before elseSymbols entries := by
        rcases skipped with old | oneSided
        · simp [FirstMergeFails, old]
        · simp [FirstMergeFails, oneSided]
      rw [next]
      exact ih named nodup fresh failure
    · have same : thenSymbol.name = name := same
      have free : analyzer.symbols.lookup thenSymbol.name = none := same ▸ here new
      rw [declareSymbol_absent free] at declared
      cases declared
      have added (other : String) : (analyzer.introduce thenSymbol).symbols.lookup other =
          if other = name then some thenSymbol else analyzer.symbols.lookup other :=
        same ▸ SymbolTable.lookup_declare free other
      have later := ih named nodup (fun entry member unknown => by
        rw [added, if_neg]
        · exact fresh entry member unknown
        · exact fun equal => absent (List.mem_map.mpr ⟨entry, member, equal⟩)) failure
      refine ⟨(analyzer.symbols.within_declare thenSymbol).trans later.within, iff_of_false ?_ ?_⟩
      · intro untouched
        have kept := later.within name thenSymbol (by rw [added, if_pos rfl])
        rw [untouched, here new] at kept
        cases kept
      · intro fails
        have inElse' : elseSymbols.contains name = true := SymbolTable.contains_iff.mpr ⟨_, inElse⟩
        refine fails (name, thenSymbol) ?_ inElse
        exact List.find?_cons_of_pos (by simp [new, inElse'])
    · refine .same fun entry found => ?_
      rw [List.find?_cons_of_pos (by simp [new, inElse])] at found
      cases found
      exact differ

end Merging

private theorem analyzeStatements_leaves_of
    (each : ∀ statement ∈ statements, ∀ {analyzer final : SemanticAnalyzer},
      analyzeStatement order statement analyzer = .error error final →
        Leaves analyzer final (RejectedFirst order statement analyzer))
    (failure : analyzeStatements order statements analyzer = .error error final) :
    Leaves analyzer final (RejectedFirstIn order statements analyzer) := by
  induction statements generalizing analyzer with
  | nil => cases failure
  | cons statement statements ih =>
    rw [analyzeStatements] at failure
    rw [RejectedFirstIn]
    rcases bind_error.mp failure with first | ⟨_, middle, first, rest⟩
    · rw [first]
      exact each statement List.mem_cons_self first
    · rw [first]
      exact (analyzeStatement_leaves first).trans
        (ih (fun other member => each other (List.mem_cons_of_mem _ member)) rest)

/-- The state of a branch is the one of the conditional, but for the count of merges
and the returns. -/
theorem Leaves.branch (leaves : Leaves middle final early)
    (same : middle.symbols = analyzer.symbols) :
    Leaves analyzer final early := by
  obtain ⟨within, untouched⟩ := leaves
  rw [same] at within untouched
  exact ⟨within, untouched⟩

/-- Where the exception leaves a conditional. -/
theorem analyzeStatement_if_error {condition : Expression}
    {thenStatements elseStatements : List Statement} {location : SourceLocation}
    (failure : analyzeStatement order (.ifStmt condition thenStatements elseStatements location)
      analyzer =
      .error error final) :
    (analyzeExpression analyzer.symbols condition ≠ .ok (.scalar "i1") ∧ final = analyzer) ∨
    analyzeExpression analyzer.symbols condition = .ok (.scalar "i1") ∧
      (analyzeStatements order thenStatements analyzer = .error error final ∨
      (∃ thenAnalyzer, analyzeStatements order thenStatements analyzer = .ok () thenAnalyzer ∧
        analyzeStatements order elseStatements { thenAnalyzer with symbols := analyzer.symbols } =
          .error error final) ∨
      ∃ thenAnalyzer elseAnalyzer, analyzeStatements order thenStatements analyzer =
        .ok () thenAnalyzer ∧
        analyzeStatements order elseStatements { thenAnalyzer with symbols := analyzer.symbols } =
          .ok () elseAnalyzer ∧
        mergeBranches analyzer.symbols elseAnalyzer.symbols
            (order.traverse elseAnalyzer.merges thenAnalyzer.symbols.entries)
            { elseAnalyzer with symbols := analyzer.symbols, merges := elseAnalyzer.merges + 1 } =
          .error error final) := by
  rw [analyzeStatement, bind_of_ok (get_apply analyzer)] at failure
  rcases bind_error.mp failure with failure | ⟨type, middle, success, failure⟩
  · obtain ⟨failed, rfl⟩ := ofExcept_apply_error.mp failure
    refine .inl ⟨fun accepted => ?_, rfl⟩
    cases failed.symm.trans accepted
  obtain ⟨typed, rfl⟩ := ofExcept_apply_ok.mp success
  split at failure
  · rename_i differs
    cases failure
    refine .inl ⟨fun same => ?_, rfl⟩
    cases typed.symm.trans same
    simp [TensorType.scalar] at differs
  rename_i scalar
  obtain ⟨element, shape⟩ := not_or.mp scalar
  have same : type = .scalar "i1" := TensorType.ext_iff.mpr ⟨not_not.mp element, not_not.mp shape⟩
  rw [same] at typed
  rcases bind_error.mp failure with failure | ⟨_, thenAnalyzer, thenRun, failure⟩
  · exact .inr ⟨typed, .inl failure⟩
  rw [bind_of_ok (get_apply _), setSymbols, bind_of_ok (modify_apply _ _)] at failure
  rcases bind_error.mp failure with failure | ⟨_, elseAnalyzer, elseRun, failure⟩
  · exact .inr ⟨typed, .inr (.inl ⟨thenAnalyzer, thenRun, failure⟩)⟩
  rw [bind_of_ok (get_apply _), bind_of_ok (modify_apply _ _), nextTraversal,
    bind_of_ok (modifyGet_apply _ _)] at failure
  exact .inr ⟨typed, .inr (.inr ⟨thenAnalyzer, elseAnalyzer, thenRun, elseRun, failure⟩)⟩

/-- A rejected statement loses no symbol, and adds none exactly when it is
rejected before anything in it has been introduced. -/
theorem analyzeStatement_rejected
    (failure : analyzeStatement order statement analyzer = .error error final) :
    Leaves analyzer final (RejectedFirst order statement analyzer) := by
  induction statement generalizing analyzer final with
  | tensorDecl declaration =>
    rw [analyzeStatement] at failure
    rw [RejectedFirst, analyzeTensorDeclaration_error failure]
    exact .same trivial
  | assignment assignment =>
    rw [analyzeStatement] at failure
    rw [RejectedFirst, analyzeAssignment_error failure]
    exact .same trivial
  | returnStmt returnStatement =>
    rw [analyzeStatement] at failure
    rw [RejectedFirst, analyzeReturn_error failure]
    exact .same trivial
  | nullIf =>
    rw [analyzeStatement] at failure
    rw [RejectedFirst]
    cases failure
    exact .same trivial
  | ifStmt condition thenStatements elseStatements location thenIH elseIH =>
    rw [RejectedFirst]
    rcases analyzeStatement_if_error failure with ⟨ill, rfl⟩ | ⟨typed, failure⟩
    · exact .same (absurd · ill)
    rw [imp_iff_right typed]
    rcases failure with failure | ⟨thenAnalyzer, thenRun, failure⟩ | ⟨thenAnalyzer, elseAnalyzer,
      thenRun, elseRun, failure⟩
    · rw [failure]
      exact analyzeStatements_leaves_of (fun other member => thenIH other member) failure
    · rw [thenRun]
      dsimp only
      rw [failure]
      exact (analyzeStatements_leaves_of (fun other member => elseIH other member) failure).branch
        rfl
    · rw [thenRun]
      dsimp only
      rw [elseRun]
      refine (mergeBranches_leaves ?_ (order.nodup_traverse _ _) ?_ failure).branch rfl
      · exact fun entry member => thenAnalyzer.symbols.named (order.mem_traverse.mp member)
      · exact fun entry member new => SymbolTable.contains_eq_false.mp new

/-- The branch introduces `X` before its return is rejected. -/
def rejectedInside : Statement :=
  .ifStmt (.binary .equal (.integer 1 {}) (.integer 1 {}) {})
    [.assignment ⟨"X", .integer 1 {}, {}⟩, .returnStmt ⟨.identifier "Y" {}, {}⟩] [] {}

theorem analyzeStatement_rejected_rejectedInside : ∃ error final,
    analyzeStatement .stored rejectedInside {} = .error error final ∧
      Leaves {} final (RejectedFirst .stored rejectedInside {}) := by
  have failure : outcome (analyzeStatement .stored rejectedInside) {} =
      .error (.undeclaredIdentifier "Y") := by
    decide +kernel
  obtain ⟨final, failure⟩ := outcome_eq_error.mp failure
  exact ⟨_, final, failure, analyzeStatement_rejected failure⟩

/-- It is still in the table afterwards. -/
theorem rejectedInside_introduces : ∃ error final,
    analyzeStatement .stored rejectedInside {} = .error error final ∧
      ¬ ∀ name, final.symbols.lookup name = ({} : SemanticAnalyzer).symbols.lookup name := by
  have failure : outcome (analyzeStatement .stored rejectedInside) {} =
      .error (.undeclaredIdentifier "Y") := by
    decide +kernel
  have introduced :
      (stateAfter (analyzeStatement .stored rejectedInside) {}).symbols.contains "X" = true := by
    decide +kernel
  obtain ⟨final, failure⟩ := outcome_eq_error.mp failure
  rw [stateAfter, failure] at introduced
  refine ⟨_, final, failure, fun same => ?_⟩
  have absent : final.symbols.contains "X" = false := SymbolTable.contains_eq_false.mpr (same "X")
  exact Bool.false_ne_true (absent.symm.trans introduced)

end Ocelotl.Semantic
