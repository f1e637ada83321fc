import Ocelotl.Driver.Compile
import Ocelotl.Frontend.Formatting
import Ocelotl.Semantic.TypeSystem

namespace Ocelotl.Semantic

open Ast Frontend

variable {context context' : Context} {expression : Expression} {type : TensorType}
  {statement : Statement} {statements : List Statement} {program : Program}

theorem HasType.erase (typed : HasType context expression type) :
    HasType context (eraseExpression expression) type := by
  induction typed with
  | identifier known => exact .identifier known
  | integer => exact .integer
  | float => exact .float
  | binary _ _ numeric leftIH rightIH => exact .binary leftIH rightIH numeric
  | relu _ ih => exact .relu ih
  | matmul _ _ leftIH rightIH => exact .matmul leftIH rightIH

theorem HasType.of_erase (typed : HasType context (eraseExpression expression) type) :
    HasType context expression type := by
  induction expression generalizing type with
  | identifier name location =>
    cases typed with
    | identifier known => exact .identifier known
  | integer value location =>
    cases typed
    exact .integer
  | float value location =>
    cases typed
    exact .float
  | nullCall | nullBinary => cases typed
  | binary op lhs rhs location lhsIH rhsIH =>
    cases typed with
    | binary left right numeric => exact .binary (lhsIH left) (rhsIH right) numeric
  | call callee arguments location ih =>
    rw [eraseExpression, eraseArguments_eq_map] at typed
    generalize erased : arguments.map eraseExpression = values at typed
    cases typed with
    | relu typed =>
      obtain ⟨argument, rfl, rfl⟩ := List.map_eq_singleton_iff.mp erased
      exact .relu (ih argument List.mem_cons_self typed)
    | matmul left right =>
      obtain ⟨lhs, rest, rfl, rfl, others⟩ := List.map_eq_cons_iff.mp erased
      obtain ⟨rhs, rfl, rfl⟩ := List.map_eq_singleton_iff.mp others
      exact .matmul (ih lhs (by simp) left) (ih rhs (by simp) right)

private theorem typesAll_erase (each : ∀ statement ∈ statements, ∀ context context',
      Types context (eraseStatement statement) context' ↔ Types context statement context') :
    TypesAll context (eraseStatements statements) context' ↔
      TypesAll context statements context' := by
  induction statements generalizing context with
  | nil => rfl
  | cons statement statements ih =>
    have here := each statement List.mem_cons_self
    have later {middle : Context} :=
      @ih middle fun other member => each other (List.mem_cons_of_mem _ member)
    constructor
    · intro typed
      cases typed with
      | cons first rest => exact .cons ((here _ _).mp first) (later.mp rest)
    · intro typed
      cases typed with
      | cons first rest => exact .cons ((here _ _).mpr first) (later.mpr rest)

private theorem types_erase :
    Types context (eraseStatement statement) context' ↔ Types context statement context' := by
  induction statement generalizing context context' with
  | tensorDecl declaration =>
    constructor
    · intro typed
      cases typed with
      | tensorDecl new => exact .tensorDecl new
    · intro typed
      cases typed with
      | tensorDecl new => exact .tensorDecl new
  | assignment assignment =>
    constructor
    · intro typed
      cases typed with
      | introduction typed new => exact .introduction typed.of_erase new
      | overwriting typed known => exact .overwriting typed.of_erase known
    · intro typed
      cases typed with
      | introduction typed new => exact .introduction typed.erase new
      | overwriting typed known => exact .overwriting typed.erase known
  | returnStmt returnStatement =>
    constructor
    · intro typed
      cases typed with
      | returnStmt typed => exact .returnStmt typed.of_erase
    · intro typed
      cases typed with
      | returnStmt typed => exact .returnStmt typed.erase
  | ifStmt condition thenStatements elseStatements location thenIH elseIH =>
    have thenSame {context'} :=
      @typesAll_erase context context' _ fun other member _ _ => thenIH other member
    have elseSame {context'} :=
      @typesAll_erase context context' _ fun other member _ _ => elseIH other member
    constructor
    · intro typed
      cases typed with
      | ifStmt typed thenTyped elseTyped oneType =>
        exact .ifStmt typed.of_erase (thenSame.mp thenTyped) (elseSame.mp elseTyped) oneType
    · intro typed
      cases typed with
      | ifStmt typed thenTyped elseTyped oneType =>
        exact .ifStmt typed.erase (thenSame.mpr thenTyped) (elseSame.mpr elseTyped) oneType
  | nullIf => rfl

private theorem typesProgram_erase :
    TypesProgram (eraseLocations program) context ↔ TypesProgram program context :=
  typesAll_erase fun _ _ _ _ => types_erase

end Ocelotl.Semantic

namespace Ocelotl.IR

open Ast Frontend Semantic Library

variable {expression : Expression} {statement : Statement} {statements : List Statement}
  {program : Program} {order : TraversalOrder} {symbols symbols' : SymbolTable}

private theorem generateExpression_erase :
    generateExpression (eraseExpression expression) = generateExpression expression := by
  induction expression with
  | identifier | integer | float | nullCall | nullBinary => rfl
  | binary op lhs rhs location lhsIH rhsIH =>
    rw [eraseExpression, generateExpression, generateExpression, lhsIH, rhsIH]
  | call callee arguments location ih =>
    rw [eraseExpression, eraseArguments_eq_map]
    cases arguments with
    | nil => rfl
    | cons first rest =>
      have firstIH := ih first List.mem_cons_self
      cases rest with
      | nil =>
        rw [List.map_cons, List.map_nil, generateExpression, generateExpression, firstIH]
      | cons second rest =>
        cases rest with
        | nil =>
          have secondIH := ih second (by simp)
          rw [List.map_cons, List.map_cons, List.map_nil, generateExpression, generateExpression,
            firstIH, secondIH]
        | cons third rest => rfl

/-- The generator takes nothing but types from the analyser. -/
theorem lookupType_congr (types : symbols.typeOf = symbols'.typeOf) (name : String) :
    lookupType symbols name = lookupType symbols' name := by
  have same : symbols.typeOf name = symbols'.typeOf name := congrFun types name
  unfold SymbolTable.typeOf at same
  unfold lookupType
  cases found : symbols.lookup name with
  | none =>
    rw [found] at same
    rw [Option.map_eq_none_iff.mp same.symm]
  | some symbol =>
    rw [found] at same
    obtain ⟨symbol', found', type⟩ := Option.map_eq_some_iff.mp same.symm
    rw [found']
    exact congrArg pure type.symm

private theorem generateBranch_erase (each : ∀ statement ∈ statements,
      generateStatement order symbols (eraseStatement statement) =
        generateStatement order symbols' statement) :
    generateBranch order symbols (eraseStatements statements) =
      generateBranch order symbols' statements := by
  induction statements with
  | nil => rfl
  | cons statement statements ih =>
    rw [eraseStatements, generateBranch, generateBranch, each statement List.mem_cons_self,
      ih fun other member => each other (List.mem_cons_of_mem _ member)]

private theorem generateStatement_erase (types : symbols.typeOf = symbols'.typeOf) :
    generateStatement order symbols (eraseStatement statement) =
      generateStatement order symbols' statement := by
  induction statement with
  | tensorDecl declaration =>
    rw [eraseStatement, generateStatement, generateStatement, generateTensorDeclaration,
      generateTensorDeclaration,
      lookupType_congr types]
  | assignment assignment =>
    rw [eraseStatement, generateStatement, generateStatement, generateAssignment,
      generateAssignment,
      generateExpression_erase]
  | returnStmt returnStatement =>
    rw [eraseStatement, generateStatement, generateStatement, generateReturn, generateReturn,
      generateExpression_erase]
  | ifStmt condition thenStatements elseStatements location thenIH elseIH =>
    rw [eraseStatement, generateStatement, generateStatement, generateExpression_erase,
      generateBranch_erase thenIH,
      generateBranch_erase elseIH]
  | nullIf => rfl

private theorem generateTopLevel_erase (types : symbols.typeOf = symbols'.typeOf) :
    generateTopLevel order symbols (eraseStatements statements) =
      generateTopLevel order symbols' statements := by
  induction statements with
  | nil => rfl
  | cons statement statements ih =>
    rw [eraseStatements, generateTopLevel, generateTopLevel, generateStatement_erase types, ih]

private theorem generate_erase {analyzer analyzer' : SemanticAnalyzer}
    (types : analyzer.symbols.typeOf = analyzer'.symbols.typeOf) :
    generate order analyzer (eraseLocations program) = generate order analyzer' program := by
  have run : generateUnverified order analyzer.symbols (eraseLocations program) =
      generateUnverified order analyzer'.symbols program := by
    rw [generateUnverified, generateUnverified, eraseLocations, generateTopLevel_erase types]
  rw [generate, generate, run]

end Ocelotl.IR

namespace Ocelotl.Driver

open Ast Frontend Semantic Library

variable {host : Host} {program program' : Program}

/-- An exception, as far as it does not tell where something stands. -/
inductive Failure where
  | parse (message : String)
  | semantic
  | generation (error : IR.IRError)
  | lowering (error : Codegen.LoweringError)
  deriving DecidableEq, Repr

def CompileError.failure : CompileError → Failure
  | .parse (.parse _ message) => .parse message
  | .parse .bound => .parse ""
  | .semantic _ => .semantic
  | .generation error => .generation error
  | .lowering error => .lowering error

/-- The function, or how far the compiler came. -/
def result (compiled : Except CompileError LLVM.Function) : Except Failure LLVM.Function :=
  compiled.mapError CompileError.failure

private theorem compileProgram_erase :
    result (compileProgram host (eraseLocations program)) =
      result (compileProgram host program) := by
  cases analyzed : analyze host.analysisOrder program with
  | ok analyzer =>
    have typed := typesProgram_erase.mpr (types_of_analyze analyzed)
    obtain ⟨analyzer', accepted, types⟩ := analyze_of_types host.analysisOrder typed
    rw [compileProgram_of_accepted analyzed, compileProgram_of_accepted accepted,
      IR.generate_erase types]
  | error error =>
    cases analyzed' : analyze host.analysisOrder (eraseLocations program) with
    | ok analyzer =>
      obtain ⟨analyzer', accepted, _⟩ :=
        analyze_of_types host.analysisOrder (typesProgram_erase.mp (types_of_analyze analyzed'))
      cases analyzed.symm.trans accepted
    | error error' =>
      rw [compileProgram_of_rejected analyzed, compileProgram_of_rejected analyzed']
      rfl

theorem compileProgram_congr (same : eraseLocations program = eraseLocations program') :
    result (compileProgram host program) = result (compileProgram host program') := by
  rw [← compileProgram_erase, same, compileProgram_erase]

/-- Sources of the same lexemes are compiled to the same function, or fail in the
same phase, and with the same error outside the analyser. -/
theorem compileToLLVM_layout (host : Host) {source source' : List Char}
    (same : (tokenize source).all.map Token.form = (tokenize source').all.map Token.form) :
    result (compileToLLVM host source) = result (compileToLLVM host source') := by
  have forgotten := @parse_forgets host.stod source source' same
  cases parsed : parse host.stod source with
  | ok program =>
    cases parsed' : parse host.stod source' with
    | ok program' =>
      rw [parsed, parsed'] at forgotten
      rw [compileToLLVM_of_parse parsed, compileToLLVM_of_parse parsed']
      exact compileProgram_congr (Except.ok.inj forgotten)
    | error error' =>
      rw [parsed, parsed'] at forgotten
      cases forgotten
  | error error =>
    cases parsed' : parse host.stod source' with
    | ok program' =>
      rw [parsed, parsed'] at forgotten
      cases forgotten
    | error error' =>
      rw [parsed, parsed'] at forgotten
      have message : error.forget = error'.forget := Except.error.inj forgotten
      rw [compileToLLVM_of_parseError parsed, compileToLLVM_of_parseError parsed']
      cases error <;> cases error' <;> cases message <;> rfl

theorem compileToLLVM_layout_lines :
    result (compileToLLVM Host.fixed "A=1+2*3return(A)".toList) =
      result (compileToLLVM Host.fixed "A = 1 + 2 * 3\n\treturn ( A )\r\n".toList) := by
  apply compileToLLVM_layout
  decide +kernel

/-- The printed form of a source is compiled to the same function. It is printed as
itself, and no source of the program has fewer tokens. -/
theorem compileToLLVM_formatted (host : Host) {source text : List Char} {program : Program}
    (parsed : parse host.stod source = .ok program)
    (noFloat : ∀ token ∈ (tokenize source).tokens, token.kind ≠ .floatLiteral)
    (spells : Spells (printProgram program) text) :
    result (compileToLLVM host text) = result (compileToLLVM host source) ∧
      (tokenize text).tokens.length ≤ (tokenize source).tokens.length ∧
      ∃ formatted, parse host.stod text = .ok formatted ∧
        printProgram formatted = printProgram program := by
  have printable := printable_of_parse parsed noFloat
  obtain ⟨formatted, parsed', same⟩ := @parse_of_spells host.stod _ _ printable spells
  refine ⟨?_, ?_, formatted, parsed', printProgram_congr same⟩
  · rw [compileToLLVM_of_parse parsed, compileToLLVM_of_parse parsed']
    exact compileProgram_congr same
  · have shortest : (printProgram program).length ≤ (tokenize source).tokens.length :=
      (parseProgram_sound parsed).length_ge
    have lexemes := congrArg List.length (tokenize_spells (readable_printProgram printable) spells)
    rw [List.length_map] at lexemes
    omega

theorem compileToLLVM_formatted_parentheses : ∃ program,
    parse Host.fixed.stod "A=((1+(2*3)))return(A)".toList = .ok program ∧
      result (compileToLLVM Host.fixed (spaced (printProgram program))) =
        result (compileToLLVM Host.fixed "A=((1+(2*3)))return(A)".toList) := by
  have computed : (parse Host.fixed.stod "A=((1+(2*3)))return(A)".toList).toOption.isSome =
      true := by decide +kernel
  obtain ⟨program, parsed⟩ := Option.isSome_iff_exists.mp computed
  refine ⟨program, toOption_eq_some.mp parsed, ?_⟩
  have noFloat : ∀ token ∈ (tokenize "A=((1+(2*3)))return(A)".toList).tokens,
      token.kind ≠ .floatLiteral := by
    have all : (tokenize "A=((1+(2*3)))return(A)".toList).tokens.all
        (fun token => decide (token.kind ≠ .floatLiteral)) = true := by
      decide +kernel
    exact fun token member => of_decide_eq_true (List.all_eq_true.mp all token member)
  exact (compileToLLVM_formatted Host.fixed (toOption_eq_some.mp parsed) noFloat
    (spells_spaced _)).1

end Ocelotl.Driver
