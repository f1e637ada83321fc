import Ocelotl.Codegen.Diagnostics
import Ocelotl.Codegen.Division
import Ocelotl.Driver.Compile
import Ocelotl.IR.Diagnostics
import Ocelotl.Semantic.InternalErrors

namespace Ocelotl.Driver

open Ast Frontend Semantic Library IR

/-- The error comes from the first phase that rejects the source. It is about
the source, and never about a state that the compiler itself cannot get into. -/
inductive Diagnosed (host : Host) (source : List Char) : CompileError → Prop where
  | parse {error : ParseError} (failed : Frontend.parse host.stod source = .error error) :
    Diagnosed host source (.parse error)
  | semantic {program : Program} {error : SemanticError}
    (parsed : Frontend.parse host.stod source = .ok program)
    (rejected : analyze host.analysisOrder program = .error error)
    (external : error.isInternal = false) :
    Diagnosed host source (.semantic error)
  | generation {program : Program} {analyzer : SemanticAnalyzer} {error : IRError}
    (parsed : Frontend.parse host.stod source = .ok program)
    (accepted : analyze host.analysisOrder program = .ok analyzer)
    (explained : IR.Explains analyzer.symbols program error) :
      Diagnosed host source (.generation error)
  | lowering {program : Program} {analyzer : SemanticAnalyzer} {module : IR.Module}
    {error : Codegen.LoweringError}
    (parsed : Frontend.parse host.stod source = .ok program)
    (accepted : analyze host.analysisOrder program = .ok analyzer)
    (generated : IR.generate host.irOrder analyzer program = .ok module)
    (explained : Codegen.Explains host.cleanupOrder host.verifyModule analyzer.symbols program
      module error) : Diagnosed host source (.lowering error)

variable {host : Host} {source : List Char} {program : Program} {error : CompileError}

private theorem mapError_error {Error Error' Value : Type} {outcome : Except Error Value}
    {wrap : Error → Error'} {error : Error'} :
    outcome.mapError wrap = .error error ↔ ∃ inner, outcome = .error inner ∧
      wrap inner = error := by
  cases outcome <;> simp [Except.mapError]

private theorem analyze_external {analysisOrder : TraversalOrder} {error : SemanticError}
    (parsed : Frontend.parse host.stod source = .ok program)
    (rejected : analyze analysisOrder program = .error error) : error.isInternal = false := by
  have free := nullFree_of_statements (parseProgram_sound parsed)
  rw [analyze] at rejected
  cases run : analyzeStatements analysisOrder program.statements {} with
  | ok _ analyzer =>
    rw [run] at rejected
    cases rejected
  | error other final =>
    rw [run] at rejected
    cases rejected
    exact analyzeStatements_external_of (fun _ _ => analyzeStatement_external) free run

/-- No source makes the compiler fail for a reason of its own. -/
theorem compileToLLVM_diagnosed (failure : compileToLLVM host source = .error error) :
    Diagnosed host source error := by
  rw [compileToLLVM, except_bind_error] at failure
  rcases failure with failure | ⟨program, parsed, failure⟩
  · obtain ⟨inner, failed, rfl⟩ := mapError_error.mp failure
    exact .parse failed
  have parsed := mapError_ok.mp parsed
  have ranked := Codegen.shapes_of_statements (parseProgram_sound parsed)
  rcases except_bind_error.mp failure with failure | ⟨analyzer, accepted, failure⟩
  · obtain ⟨inner, rejected, rfl⟩ := mapError_error.mp failure
    exact .semantic parsed rejected (analyze_external parsed rejected)
  have accepted := mapError_ok.mp accepted
  rcases except_bind_error.mp failure with failure | ⟨module, generated, failure⟩
  · obtain ⟨inner, rejected, rfl⟩ := mapError_error.mp failure
    exact .generation parsed accepted (generate_explains accepted ranked rejected)
  have generated := mapError_ok.mp generated
  obtain ⟨inner, rejected, rfl⟩ := mapError_error.mp failure
  obtain ⟨final, rfl, built⟩ := Codegen.generated_of_ok accepted ranked generated
  exact .lowering parsed accepted generated (built.explains rejected)

/-- A matrix is declared in a branch, and its name again after the conditional, as a vector. -/
def reshapedSource : List Char :=
  "if 1 == 1 { tensor A: f64[2, 2] B = matmul(A, A) } else { Z = 1 } tensor A: f64[3] return 0".toList

/-- The product looks for the second dimension of the vector. -/
theorem compileToLLVM_diagnosed_reshaped :
    compileToLLVM Host.fixed reshapedSource = .error (.generation .outOfRange) ∧
      Diagnosed Host.fixed reshapedSource (.generation .outOfRange) := by
  have rejected : compileToLLVM Host.fixed reshapedSource = .error (.generation .outOfRange) := by
    decide +kernel
  exact ⟨rejected, compileToLLVM_diagnosed rejected⟩

end Ocelotl.Driver
