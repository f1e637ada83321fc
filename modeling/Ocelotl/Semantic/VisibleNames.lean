import Ocelotl.Semantic.Introduction
import Ocelotl.Semantic.ControlPaths

/-! The names that are visible after a conditional, by the rule of the language:
what every branch that continues introduces with one type. -/

namespace Ocelotl.Semantic

open Ast Library

variable {order : TraversalOrder} {analyzer thenAnalyzer elseAnalyzer final : SemanticAnalyzer}
  {name : String} {type : TensorType} {condition : Expression} {location : SourceLocation}
  {thenStatements elseStatements : List Statement}

/-- A name is visible after the conditional when it was before, with the same
type, or when all branches that continue end with one type for it. A branch that
returns on all of its paths has no say. -/
def VisibleByRule (order : TraversalOrder) (thenStatements elseStatements : List Statement)
    (analyzer final : SemanticAnalyzer) : Prop :=
  ∃ thenAnalyzer elseAnalyzer,
    analyzeStatements order thenStatements analyzer = .ok () thenAnalyzer ∧
    analyzeStatements order elseStatements { thenAnalyzer with symbols := analyzer.symbols } =
      .ok () elseAnalyzer ∧
    ∀ name type, final.symbols.typeOf name = some type ↔
      analyzer.symbols.typeOf name = some type ∨
        analyzer.symbols.typeOf name = none ∧
          (continuesIn thenStatements = true → thenAnalyzer.symbols.typeOf name = some type) ∧
          (continuesIn elseStatements = true → elseAnalyzer.symbols.typeOf name = some type)

/-- The free names that the one branch binds are bound by the other as well. -/
def BoundAlsoBy (analyzer : SemanticAnalyzer) (branch other : List Statement) : Prop :=
  ∀ name, analyzer.symbols.typeOf name = none → bindsIn name branch = true →
    bindsIn name other = true

/-- Names that a branch ends with are bound by it, with the type of the other
branch where that binds them too. -/
structure BranchNames (analyzer : SemanticAnalyzer) (thenStatements elseStatements : List Statement)
    (thenAnalyzer elseAnalyzer : SemanticAnalyzer) : Prop where
  fromThen : ∀ {name}, analyzer.symbols.typeOf name = none →
    (thenAnalyzer.symbols.typeOf name = none ↔ bindsIn name thenStatements = false)
  fromElse : ∀ {name}, analyzer.symbols.typeOf name = none →
    (elseAnalyzer.symbols.typeOf name = none ↔ bindsIn name elseStatements = false)
  agree : ∀ {name thenType elseType}, analyzer.symbols.typeOf name = none →
    thenAnalyzer.symbols.typeOf name = some thenType →
      elseAnalyzer.symbols.typeOf name = some elseType → thenType = elseType

theorem BranchNames.symm
    (names : BranchNames analyzer thenStatements elseStatements thenAnalyzer elseAnalyzer) :
    BranchNames analyzer elseStatements thenStatements elseAnalyzer thenAnalyzer :=
  ⟨names.fromElse, names.fromThen, fun free left right => (names.agree free right left).symm⟩

/-- When only the first branch continues, the rule and the analyser agree on a
name as long as the second branch binds what the first one does. -/
theorem BranchNames.oneSided
    (names : BranchNames analyzer thenStatements elseStatements thenAnalyzer elseAnalyzer) :
    (∀ name type, analyzer.symbols.typeOf name = none →
      (thenAnalyzer.symbols.typeOf name = some type ∧
        elseAnalyzer.symbols.typeOf name = some type ↔
          thenAnalyzer.symbols.typeOf name = some type)) ↔
      BoundAlsoBy analyzer thenStatements elseStatements := by
  constructor
  · intro rule name free bound
    have known : thenAnalyzer.symbols.typeOf name ≠ none := by
      intro unknown
      rw [(names.fromThen free).mp unknown] at bound
      cases bound
    obtain ⟨type, known⟩ := Option.ne_none_iff_exists'.mp known
    have inElse := ((rule name type free).mpr known).2
    rw [← Bool.not_eq_false, ← names.fromElse free, inElse]
    exact Option.some_ne_none type
  · intro also name type free
    refine ⟨And.left, fun known => ⟨known, ?_⟩⟩
    have bound : bindsIn name thenStatements = true := by
      rw [← Bool.not_eq_false, ← names.fromThen free, known]
      exact Option.some_ne_none type
    have inElse : elseAnalyzer.symbols.typeOf name ≠ none := by
      intro unknown
      have missing := (names.fromElse free).mp unknown
      rw [also name free bound] at missing
      cases missing
    obtain ⟨other, inElse⟩ := Option.ne_none_iff_exists'.mp inElse
    rw [inElse, names.agree free known inElse]

/-- After an accepted conditional with a branch that continues, the documented
names are visible exactly when both branches continue, or the one that returns
binds what the one that continues does. -/
theorem analyzeIf_visibleByRule
    (success : analyzeStatement order (.ifStmt condition thenStatements elseStatements location)
      analyzer = .ok () final)
    (continuing : continuesIn thenStatements = true ∨ continuesIn elseStatements = true) :
    VisibleByRule order thenStatements elseStatements analyzer final ↔
      (continuesIn elseStatements = false → BoundAlsoBy analyzer thenStatements elseStatements) ∧
      (continuesIn thenStatements = false →
        BoundAlsoBy analyzer elseStatements thenStatements) := by
  obtain ⟨thenAnalyzer, elseAnalyzer, _, thenRun, elseRun, merged⟩ :=
    analyzeStatement_if_ok.mp success
  have joined := analyzeStatement_if_typeOf merged
  have names : BranchNames analyzer thenStatements elseStatements thenAnalyzer elseAnalyzer := by
    refine ⟨fun free => (analyzeStatements_resolves thenRun free).free,
      fun free => (analyzeStatements_resolves elseRun free).free, ?_⟩
    intro name thenType elseType free inThen inElse
    obtain ⟨symbol, found, rfl⟩ := SymbolTable.lookup_of_typeOf inThen
    exact mergeBranches_types merged (order.mem_traverse.mpr found) free inElse
  have onFree : VisibleByRule order thenStatements elseStatements analyzer final ↔
      ∀ name type, analyzer.symbols.typeOf name = none →
        (thenAnalyzer.symbols.typeOf name = some type ∧
          elseAnalyzer.symbols.typeOf name = some type ↔
            (continuesIn thenStatements = true → thenAnalyzer.symbols.typeOf name = some type) ∧
            (continuesIn elseStatements = true →
              elseAnalyzer.symbols.typeOf name = some type)) := by
    constructor
    · intro ⟨_, _, thenRun', elseRun', rule⟩ name type free
      cases thenRun.symm.trans thenRun'
      cases elseRun.symm.trans elseRun'
      simpa [joined, free] using rule name type
    · intro rule
      refine ⟨thenAnalyzer, elseAnalyzer, thenRun, elseRun, fun name type => ?_⟩
      rw [joined]
      exact or_congr_right (and_congr_right (rule name type))
  rw [onFree]
  cases thenGoes : continuesIn thenStatements with
  | true =>
    cases elseGoes : continuesIn elseStatements with
    | true => simp
    | false => simpa using names.oneSided
  | false =>
    cases elseGoes : continuesIn elseStatements with
    | true => simpa [and_comm] using names.symm.oneSided
    | false => simp [thenGoes, elseGoes] at continuing

/-- Both branches bind the name, and one of them returns. -/
def boundInBoth : Statement :=
  .ifStmt (.binary .equal (.integer 1 {}) (.integer 1 {}) {})
    [.assignment ⟨"Y", .integer 1 {}, {}⟩, .returnStmt ⟨.identifier "Y" {}, {}⟩]
    [.assignment ⟨"Y", .integer 2 {}, {}⟩] {}

theorem analyzeIf_visibleByRule_boundInBoth : ∃ final,
    analyzeStatement .stored boundInBoth {} = .ok () final ∧
      VisibleByRule .stored
        [.assignment ⟨"Y", .integer 1 {}, {}⟩, .returnStmt ⟨.identifier "Y" {}, {}⟩]
        [.assignment ⟨"Y", .integer 2 {}, {}⟩] {} final := by
  have accepted : (reached (analyzeStatement .stored boundInBoth) {}).isSome = true := by
    decide +kernel
  obtain ⟨final, run⟩ := Option.isSome_iff_exists.mp accepted
  have success := reached_eq_some.mp run
  refine ⟨final, success, (analyzeIf_visibleByRule success (.inr rfl)).mpr ⟨nofun, fun _ => ?_⟩⟩
  intro name _ bound
  simpa [bindsIn, binds] using bound

/-- Only the branch that continues binds the name. -/
def boundWhereContinuing : Statement :=
  .ifStmt (.binary .equal (.integer 1 {}) (.integer 1 {}) {})
    [.returnStmt ⟨.integer 0 {}, {}⟩] [.assignment ⟨"Y", .integer 1 {}, {}⟩] {}

/-- The name is forgotten, against the rule. -/
theorem boundWhereContinuing_not_visibleByRule : ∃ final,
    analyzeStatement .stored boundWhereContinuing {} = .ok () final ∧
      continuesIn [.assignment ⟨"Y", .integer 1 {}, {}⟩] = true ∧
      ¬ VisibleByRule .stored [.returnStmt ⟨.integer 0 {}, {}⟩]
        [.assignment ⟨"Y", .integer 1 {}, {}⟩] {} final := by
  have accepted : (reached (analyzeStatement .stored boundWhereContinuing) {}).isSome = true := by
    decide +kernel
  obtain ⟨final, run⟩ := Option.isSome_iff_exists.mp accepted
  have success := reached_eq_some.mp run
  have fresh : ({} : SemanticAnalyzer).symbols.typeOf "Y" = none := SymbolTable.typeOf_empty "Y"
  refine ⟨final, success, rfl, ?_⟩
  intro ⟨thenAnalyzer, elseAnalyzer, thenRun, elseRun, rule⟩
  have forgotten : final.symbols.typeOf "Y" = none :=
    (analyzeStatement_resolves success fresh).free.mpr (by decide)
  have inElse : elseAnalyzer.symbols.typeOf "Y" = some (.scalar "i64") :=
    ((analyzeStatements_resolves elseRun fresh).typed _).mpr (.inl ⟨rfl, rfl⟩)
  have visible := (rule "Y" (.scalar "i64")).mpr (.inr ⟨fresh, nofun, fun _ => inElse⟩)
  rw [forgotten] at visible
  cases visible

end Ocelotl.Semantic
