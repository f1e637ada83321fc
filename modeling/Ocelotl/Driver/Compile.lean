import Ocelotl.Frontend.Parser
import Ocelotl.IR.Generator
import Ocelotl.Codegen.Lowering

/-! `compileToLLVM` of the driver: every phase of the compiler, one after the other,
from a source text to the function that LLVM gets. -/

namespace Ocelotl.Driver

open Ast Frontend Semantic Library

/-- What the phases take from libraries: the conversion of numbers, the orders of
hash maps, and the check that LLVM makes. -/
structure Host where
  stod : String → Option Double
  analysisOrder : TraversalOrder
  irOrder : TraversalOrder
  cleanupOrder : TraversalOrder
  verifyModule : LLVM.Function → Except String Unit

/-- Maps in the order of their entries, no floats, and a check that accepts everything. -/
def Host.fixed : Host where
  stod _ := none
  analysisOrder := .stored
  irOrder := .stored
  cleanupOrder := .stored
  verifyModule _ := .ok ()

/-- The exceptions of the phases. -/
inductive CompileError where
  | parse (error : ParseError)
  | semantic (error : SemanticError)
  | generation (error : IR.IRError)
  | lowering (error : Codegen.LoweringError)
  deriving DecidableEq, Repr

def CompileError.what : CompileError → String
  | .parse error => error.text
  | .semantic error => error.message
  | .generation error => error.message
  | .lowering error => error.message

variable (host : Host)

def compileToLLVM (source : List Char) : Except CompileError LLVM.Function := do
  let program ← (parse host.stod source).mapError .parse
  let analyzer ← (analyze host.analysisOrder program).mapError .semantic
  let module ← (IR.generate host.irOrder analyzer program).mapError .generation
  (Codegen.generate host.cleanupOrder host.verifyModule module).mapError .lowering

/-- The phases after the parser. -/
def compileProgram (program : Program) : Except CompileError LLVM.Function := do
  let analyzer ← (analyze host.analysisOrder program).mapError .semantic
  let module ← (IR.generate host.irOrder analyzer program).mapError .generation
  (Codegen.generate host.cleanupOrder host.verifyModule module).mapError .lowering

variable {host} {source : List Char} {program : Program} {function : LLVM.Function}

theorem compileToLLVM_of_parse (parsed : parse host.stod source = .ok program) :
    compileToLLVM host source = compileProgram host program := by
  unfold compileToLLVM
  rw [parsed]
  rfl

theorem compileToLLVM_of_parseError {error : ParseError}
    (failed : parse host.stod source = .error error) :
    compileToLLVM host source = .error (.parse error) := by
  unfold compileToLLVM
  rw [failed]
  rfl

theorem compileProgram_of_rejected {error : SemanticError}
    (rejected : analyze host.analysisOrder program = .error error) :
    compileProgram host program = .error (.semantic error) := by
  unfold compileProgram
  rw [rejected]
  rfl

theorem compileProgram_of_accepted {analyzer : SemanticAnalyzer}
    (accepted : analyze host.analysisOrder program = .ok analyzer) :
    compileProgram host program = (do
      let module ← (IR.generate host.irOrder analyzer program).mapError .generation
      (Codegen.generate host.cleanupOrder host.verifyModule module).mapError .lowering) := by
  unfold compileProgram
  rw [accepted]
  rfl

theorem mapError_ok {Error Error' Value : Type} {outcome : Except Error Value}
    {wrap : Error → Error'} {value : Value} :
    outcome.mapError wrap = .ok value ↔ outcome = .ok value := by
  cases outcome <;> simp [Except.mapError]

/-- A source is compiled when every phase succeeds. -/
theorem compileToLLVM_ok : compileToLLVM host source = .ok function ↔
    ∃ program analyzer module, parse host.stod source = .ok program ∧
      analyze host.analysisOrder program = .ok analyzer ∧
      IR.generate host.irOrder analyzer program = .ok module ∧
      Codegen.generate host.cleanupOrder host.verifyModule module = .ok function := by
  simp only [compileToLLVM, except_bind_ok, mapError_ok, exists_and_left]

end Ocelotl.Driver
