import Ocelotl.Codegen.Diagnostics
import Ocelotl.Codegen.Division
import Ocelotl.Driver.Compile
import Ocelotl.Frontend.ParserCompleteness
import Ocelotl.IR.Realizability

namespace Ocelotl.Codegen

open Ast IR Semantic Library LLVM IRGenerator

variable {operation : Operation} {declared : SymbolTable} {declarations : List TensorDecl}
  {callees : List String} {type : TensorType} {order generationOrder analysisOrder : TraversalOrder}
  {final : IRGenerator} {program : Program} {analyzer : SemanticAnalyzer}
  {verifyModule : LLVM.Function → Except String Unit} {module : IR.Module}

private theorem sized_iff : Sized type ↔ supported (.tensorDecl 0 "" type) = .ok () := by
  rw [supported, except_bind_ok]
  constructor
  · rintro ⟨size, computed⟩
    exact ⟨size, computed, rfl⟩
  · rintro ⟨size, computed, _⟩
    exact ⟨size, computed⟩

/-- Of the operations of a program, the back end supports those that can be built. -/
theorem supported_iff_buildable (arises : Arises declared declarations callees operation) :
    supported operation = .ok () ↔ Buildable Sized operation := by
  cases operation with
  | tensorDecl result name type => exact sized_iff.symm
  | phi result type incoming =>
    obtain ⟨arises, two⟩ := arises
    have short : ¬ incoming.length > maxUnsigned := by
      rw [two]
      decide
    rw [supported, if_neg short]
    rcases arises with rfl | numeric | ⟨tensor, _⟩
    · exact ⟨fun _ => rfl, fun _ => rfl⟩
    · rw [if_neg (lowerType_of_numeric numeric)]
      exact ⟨fun _ => numeric.shape, fun _ => rfl⟩
    · have unknown : lowerType type = none := if_pos tensor
      rw [if_pos unknown]
      constructor
      · intro supports
        cases supports
      · exact fun scalar => absurd scalar tensor
  | matMul result lhs rhs type | relu result input type =>
    constructor
    · intro supports
      cases supports
    · exact False.elim
  | constantInt | constantFloat | binary | compare => exact ⟨fun _ => trivial, fun _ => rfl⟩

/-- The back end takes what the generator hands to it, if it supports every operation. -/
theorem Generated.lowers_iff (generated : Generated program analyzer final)
    (verifier : ∀ function, LLVM.WellFormed function → verifyModule function = .ok ()) :
    (∃ function, generate order verifyModule final.module = .ok function) ↔
      EmitsOnly (Buildable Sized) final := by
  have topological := generated.built.topological generated.entered
  have supports : Supported final.module ↔ ∀ operation ∈ operationsOf final.module,
      Buildable Sized operation :=
    forall₂_congr fun operation member =>
      supported_iff_buildable (generated.arises operation member)
  rw [emitsOnly_iff generated.built, ← supports]
  constructor
  · rintro ⟨function, success⟩
    obtain ⟨_, _, builder, lowered, _, _⟩ := generate_ok.mp success
    exact ((lowerModule_ok_iff generated.verified).mp ⟨builder, lowered⟩).2
  · intro all
    exact generate_succeeds verifier generated.verified topological.entryFirst
      topological.toDefinitionOrdered all generated.returning (generated.translatable all)

end Ocelotl.Codegen

namespace Ocelotl.Driver

open Ast Frontend Semantic IR Library Codegen

variable {host : Host} {source : List Char} {program : Program}

/-- LLVM's verifier finds nothing in functions that follow its rules. -/
def Host.AcceptsWellFormed (host : Host) : Prop :=
  ∀ function, LLVM.WellFormed function → host.verifyModule function = .ok ()

/-- The programs that are compiled. -/
theorem compileProgram_ok_iff (verifier : host.AcceptsWellFormed)
    (ranked : ∀ declaration ∈ declarationsIn program.statements, declaration.type.shape ≠ []) :
    (∃ function, compileProgram host program = .ok function) ↔
      ∃ context, TypesProgram program context ∧ RealizesProgram Sized context program := by
  constructor
  · rintro ⟨function, compiled⟩
    simp only [compileProgram, except_bind_ok, mapError_ok] at compiled
    obtain ⟨analyzer, accepted, module, generated, lowers⟩ := compiled
    obtain ⟨final, success, _, rfl⟩ := IR.generate_ok.mp generated
    have emitted :=
      ((generated_of_success accepted ranked success).lowers_iff verifier).mp ⟨function, lowers⟩
    exact ⟨analyzer.symbols.typeOf, types_of_analyze accepted,
      (generateUnverified_realizes_iff (fun sized => sized.shape) accepted ranked).mp ⟨final,
        success, emitted⟩⟩
  · rintro ⟨context, typed, realizes⟩
    obtain ⟨analyzer, accepted, rfl⟩ := analyze_of_types host.analysisOrder typed
    have buildable : ∃ final, generateUnverified host.irOrder analyzer.symbols program {} =
      .ok () final ∧
        EmitsOnly (Buildable Sized) final :=
      (generateUnverified_realizes_iff (fun sized => sized.shape) accepted ranked).mpr realizes
    obtain ⟨final, success, emitted⟩ := buildable
    have generated := generated_of_success accepted ranked success
    have handed : IR.generate host.irOrder analyzer program = .ok final.module :=
      IR.generate_ok.mpr ⟨final, success, verify_ok_iff.mpr generated.verified, rfl⟩
    obtain ⟨function, lowers⟩ := (generated.lowers_iff verifier).mpr emitted
    refine ⟨function, ?_⟩
    simp only [compileProgram, except_bind_ok, mapError_ok]
    exact ⟨analyzer, accepted, final.module, handed, lowers⟩

end Ocelotl.Driver
