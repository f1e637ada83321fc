import Ocelotl.Codegen.Refinement
import Ocelotl.Evaluation.Soundness
import Ocelotl.Frontend.ParserSoundness
import Ocelotl.IR.Preservation

namespace Ocelotl.Codegen

open Ast Frontend Semantic IR Library LLVM Evaluation

variable {Contents : Type} {environment : Environment Contents} {choices : Choices Contents}
  {analysisOrder irOrder order : TraversalOrder} {verifyModule : LLVM.Function → Except String Unit}
  {stod : String → Option Double} {source : List Char} {program : Program}
  {analyzer : SemanticAnalyzer} {module : IR.Module} {function : LLVM.Function} {reads : List Token}

private theorem shape_of_parsed {type : TensorType} (derives : DerivesType reads type) :
    type.shape ≠ [] := by
  cases derives with
  | type _ _ _ _ _ => exact List.cons_ne_nil _ _

mutual

/-- The parser knows no tensors without dimensions. -/
theorem shapes_of_statement : ∀ {reads statement}, DerivesStatement stod reads statement →
    ∀ declaration ∈ declarationsOf statement, declaration.type.shape ≠ []
  | _, _, .tensorDeclaration _ _ _ type => by
    rw [declarationsOf]
    exact List.forall_mem_singleton.mpr (shape_of_parsed type)
  | _, _, .assignment _ _ _ | _, _, .returnStmt _ _ => by
    rw [declarationsOf]
    exact List.forall_mem_nil _
  | _, _, .ifStmt _ _ thenBlock _ elseBlock => by
    rw [declarationsOf]
    exact List.forall_mem_append.mpr ⟨shapes_of_block thenBlock, shapes_of_block elseBlock⟩

private theorem shapes_of_block : ∀ {reads statements}, DerivesBlock stod reads statements →
    ∀ declaration ∈ declarationsIn statements, declaration.type.shape ≠ []
  | _, _, .block _ inner _ => shapes_of_statements inner

theorem shapes_of_statements : ∀ {reads statements}, DerivesStatements stod reads statements →
    ∀ declaration ∈ declarationsIn statements, declaration.type.shape ≠ []
  | _, _, .none => by
    rw [declarationsIn]
    exact List.forall_mem_nil _
  | _, _, .statement derives later => by
    rw [declarationsIn]
    exact List.forall_mem_append.mpr ⟨shapes_of_statement derives, shapes_of_statements later⟩

end

/-- Accepted programs return an `i64`. -/
theorem integer_of_returns {value : Evaluation.Value Contents}
    (analyzed : analyze analysisOrder program = .ok analyzer)
    (returns : Returns choices program value) : ∃ bits, value = .i64 bits := by
  have sound : Sound analyzer.symbols (evaluate choices program) :=
    evaluateStatements_sound (fun name type known => by simp at known) (analyze_ok.mp analyzed)
  obtain ⟨final, success⟩ := returns
  rw [success] at sound
  exact Value.type_eq_i64.mp sound

/-- The program returns a number of which `main` returns the low bits, or both
divide where there is no quotient. -/
def SameResult (environment : Environment Contents) (program : Program)
    (function : LLVM.Function) : Prop :=
  (∃ bits exit, Returns environment.operations.always program (.i64 bits) ∧
    function.Executes environment (.ok exit) ∧ exit.status = bits.setWidth 32) ∨
  Fails environment.operations.always program .undefinedDivision ∧
    function.Executes environment (.error .undefinedDivision)

theorem sameResult_of_ranked
    (ranked : ∀ declaration ∈ declarationsIn program.statements, declaration.type.shape ≠ [])
    (analyzed : analyze analysisOrder program = .ok analyzer)
    (generated : IR.generate irOrder analyzer program = .ok module)
    (lowers : Codegen.generate order verifyModule module = .ok function)
    (environment : Environment Contents) :
    SameResult environment program function := by
  have scalarsKept : ∀ declaration ∈ declarationsIn program.statements,
    declaration.type.shape = [] →
      analyzer.symbols.typeOf declaration.name = some declaration.type :=
    fun declaration member scalar => absurd scalar (ranked declaration member)
  obtain ⟨_, labels, values, slots, lowered⟩ := generate_lowered lowers
  have first := lowered.entry_first generated
  rcases generate_sameOutcome analyzed scalarsKept generated with
    ⟨value, returns, executes⟩ | ⟨fails, executes⟩
  · obtain ⟨bits, rfl⟩ := integer_of_returns analyzed returns
    obtain ⟨exit, exits, status⟩ := lowered.executes first executes
    exact .inl ⟨bits, exit, returns, exits, status⟩
  · exact .inr ⟨fails, lowered.executes_undefinedDivision first executes⟩

theorem compile_sameResult (parsed : parse stod source = .ok program)
    (analyzed : analyze analysisOrder program = .ok analyzer)
    (generated : IR.generate irOrder analyzer program = .ok module)
    (lowers : Codegen.generate order verifyModule module = .ok function)
    (environment : Environment Contents) :
    SameResult environment program function :=
  sameResult_of_ranked (shapes_of_statements (parseProgram_sound parsed)) analyzed generated
    lowers environment

/-- A program does not both return and fail. -/
theorem SameResult.undefinedDivision_iff (same : SameResult environment program function) :
    function.Executes environment (.error .undefinedDivision) ↔
      Fails environment.operations.always program .undefinedDivision := by
  rcases same with ⟨bits, exit, ⟨final, returns⟩, executes, _⟩ | ⟨fails, executes⟩
  · constructor
    · intro other
      cases executes.unique other
    · intro ⟨_, fails⟩
      cases returns.symm.trans fails
  · exact ⟨fun _ => fails, fun _ => executes⟩

theorem SameResult.exits {bits : BitVec 64} (same : SameResult environment program function)
    (returns : Returns environment.operations.always program (.i64 bits)) :
    ∃ exit, function.Executes environment (.ok exit) ∧ exit.status = bits.setWidth 32 := by
  obtain ⟨_, success⟩ := returns
  rcases same with ⟨bits', exit, ⟨_, success'⟩, exits, status⟩ | ⟨⟨_, failure⟩, _⟩
  · cases success.symm.trans success'
    exact ⟨exit, exits, status⟩
  · cases success.symm.trans failure

/-- Sums, differences and products wrap, since they are built without flags. -/
theorem executeBinary_undefinedDivision_iff {operations : Operations Contents} {opcode : Opcode}
    {lhs rhs : LLVM.Value} :
    LLVM.executeBinary operations opcode lhs rhs = .error .undefinedDivision ↔
      opcode = .sdiv ∧ ∃ dividend divisor : BitVec 64, lhs = .i64 dividend ∧ rhs = .i64 divisor ∧
        (divisor = 0 ∨ dividend = BitVec.intMin 64 ∧ divisor = -1) := by
  constructor
  · intro divides
    cases opcode <;> cases lhs <;> cases rhs <;> try cases divides
    rename_i dividend divisor
    refine ⟨rfl, dividend, divisor, rfl, rfl, ?_⟩
    by_contra defined
    rw [LLVM.executeBinary, quotient, if_neg defined] at divides
    cases divides
  · rintro ⟨rfl, dividend, divisor, rfl, rfl, undefined⟩
    rw [LLVM.executeBinary, quotient, if_pos undefined]
    rfl

/-- What passes are trusted with: they keep the exit of a function, unless it
gets stuck before. -/
def KeepsExits (environment : Environment Contents)
    (pipeline : LLVM.Function → LLVM.Function) : Prop :=
  ∀ function exit, function.Executes environment (.ok exit) →
    (pipeline function).Executes environment (.ok exit)

/-- The only undefined behaviour of an executable is an integer division that
its program reaches. Without one, every pipeline keeps the only result. -/
theorem compile_undefined_iff (parsed : parse stod source = .ok program)
    (analyzed : analyze analysisOrder program = .ok analyzer)
    (generated : IR.generate irOrder analyzer program = .ok module)
    (lowers : Codegen.generate order verifyModule module = .ok function)
    (environment : Environment Contents) :
    (function.Executes environment (.error .undefinedDivision) ↔
      Fails environment.operations.always program .undefinedDivision) ∧
    (∀ stuck, function.Executes environment (.error stuck) → stuck = .undefinedDivision) ∧
    (¬ Fails environment.operations.always program .undefinedDivision →
      ∃ bits exit, Returns environment.operations.always program (.i64 bits) ∧
        exit.status = bits.setWidth 32 ∧
        ∀ pipeline, KeepsExits environment pipeline →
          (pipeline function).Executes environment (.ok exit)) := by
  have same : SameResult environment program function :=
    compile_sameResult parsed analyzed generated lowers environment
  refine ⟨same.undefinedDivision_iff, fun stuck executes => ?_, fun defined => ?_⟩
  · rcases same with ⟨bits, exit, _, exits, _⟩ | ⟨_, divides⟩
    · cases exits.unique executes
    · exact Except.error.inj (executes.unique divides)
  · rcases same with ⟨bits, exit, returns, exits, status⟩ | ⟨fails, _⟩
    · exact ⟨bits, exit, returns, status, fun pipeline keeps => keeps function exit exits⟩
    · exact absurd fails defined

/-- `X = 7 if X > 3 { Y = 21 / X } else { Y = 0 - 1 } return (X - 8) * Y`. -/
def guardedSource : List Char :=
  "X = 7 if X > 3 \x7b Y = 21 / X \x7d else \x7b Y = 0 - 1 \x7d return (X - 8) * Y".toList

theorem compile_undefined_iff_guarded : ∃ program analyzer module function,
    parse (fun _ => none) guardedSource = .ok program ∧
      analyze .stored program = .ok analyzer ∧ IR.generate .stored analyzer program = .ok module ∧
      Codegen.generate .stored (fun _ => .ok ()) module = .ok function ∧
      ∃ exit, exit.status = (-3 : BitVec 64).setWidth 32 ∧
        ∀ pipeline, KeepsExits Environment.fixed pipeline →
          (pipeline function).Executes Environment.fixed (.ok exit) := by
  have computed : (parse (fun _ => none) guardedSource).toOption.any (fun program =>
      (analyze .stored program).toOption.any fun analyzer =>
        (IR.generate .stored analyzer program).toOption.any fun module =>
          (Codegen.generate .stored (fun _ => .ok ()) module).toOption.any fun _ =>
            decide (returnedValue Environment.fixed.operations.always program = some (.i64 (-3)))) =
              true := by
    decide +kernel
  obtain ⟨program, parsed, computed⟩ := (Option.any_eq_true _ _).mp computed
  obtain ⟨analyzer, accepted, computed⟩ := (Option.any_eq_true _ _).mp computed
  obtain ⟨module, generated, computed⟩ := (Option.any_eq_true _ _).mp computed
  obtain ⟨function, lowers, result⟩ := (Option.any_eq_true _ _).mp computed
  obtain ⟨final, returns⟩ := returnedValue_eq_some.mp (of_decide_eq_true result)
  obtain ⟨_, _, defined⟩ :=
    compile_undefined_iff (toOption_eq_some.mp parsed) (toOption_eq_some.mp accepted)
    (toOption_eq_some.mp generated) (toOption_eq_some.mp lowers) Environment.fixed
  have succeeds : ¬ Fails Environment.fixed.operations.always program .undefinedDivision := by
    intro ⟨_, fails⟩
    cases returns.symm.trans fails
  obtain ⟨bits, exit, ⟨final', returns'⟩, status, kept⟩ := defined succeeds
  cases returns.symm.trans returns'
  exact ⟨program, analyzer, module, function, toOption_eq_some.mp parsed,
    toOption_eq_some.mp accepted,
    toOption_eq_some.mp generated, toOption_eq_some.mp lowers, exit, status, kept⟩

/-- `if 1 == 1 { X = 0 } else { X = 1 } return 1 / X`, whose divisor is a phi. -/
def dividingSource : List Char :=
  "if 1 == 1 \x7b X = 0 \x7d else \x7b X = 1 \x7d return 1 / X".toList

theorem compile_dividesByZero : ∃ program analyzer module function,
    parse (fun _ => none) dividingSource = .ok program ∧
      analyze .stored program = .ok analyzer ∧ IR.generate .stored analyzer program = .ok module ∧
      Codegen.generate .stored (fun _ => .ok ()) module = .ok function ∧
      function.Executes Environment.fixed (.error .undefinedDivision) := by
  have computed : (parse (fun _ => none) dividingSource).toOption.any (fun program =>
      (analyze .stored program).toOption.any fun analyzer =>
        (IR.generate .stored analyzer program).toOption.any fun module =>
          (Codegen.generate .stored (fun _ => .ok ()) module).toOption.any fun function =>
            decide ((LLVM.machine Environment.fixed function.blocks).run 30 .initial =
              some (.error .undefinedDivision))) = true := by decide +kernel
  obtain ⟨program, parsed, computed⟩ := (Option.any_eq_true _ _).mp computed
  obtain ⟨analyzer, accepted, computed⟩ := (Option.any_eq_true _ _).mp computed
  obtain ⟨module, generated, computed⟩ := (Option.any_eq_true _ _).mp computed
  obtain ⟨function, lowers, result⟩ := (Option.any_eq_true _ _).mp computed
  exact ⟨program, analyzer, module, function, toOption_eq_some.mp parsed,
    toOption_eq_some.mp accepted,
    toOption_eq_some.mp generated, toOption_eq_some.mp lowers, .of_run (of_decide_eq_true result)⟩

end Ocelotl.Codegen
