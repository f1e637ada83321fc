import Ocelotl.Codegen.Simulation
import Ocelotl.IR.StrictSSA

namespace Ocelotl.Codegen

open Ast Semantic IR Library LLVM Evaluation

variable {Contents : Type} {environment : Environment Contents}
  {analysisOrder irOrder order : TraversalOrder} {verifyModule : LLVM.Function → Except String Unit}
  {program : Program} {analyzer : SemanticAnalyzer} {module : IR.Module} {function : LLVM.Function}
  {labels : Labels} {values : Operands} {slots : CleanupSlots}

/-- The entry block of a generated module is its first block. -/
theorem Lowered.entry_first (lowered : Lowered order module labels values slots function)
    (generated : IR.generate irOrder analyzer program = .ok module) :
    labels.lookup module.entry = some 0 := by
  obtain ⟨final, success, _, rfl⟩ := IR.generate_ok.mp generated
  have built := (generateUnverified_valid success).1
  have rooted : 0 < final.module.blocks.length := built.sized ▸ built.rooted
  apply (lowered.labelled _ _).mpr
  refine ⟨final.module.blocks[0], List.getElem?_eq_getElem rooted, ?_⟩
  rw [built.entry]
  exact built.ids (List.getElem?_eq_getElem rooted)

/-- The edges of a generated module lead to later blocks. -/
theorem Lowered.forward (lowered : Lowered order module labels values slots function)
    (generated : IR.generate irOrder analyzer program = .ok module) {index : Label}
    {block : IR.BasicBlock} (found : module.blocks[index]? = some block) (target : BlockId)
    (member : target ∈ block.targets) (label : Label)
    (labelled : labels.lookup target = some label) :
    index < label := by
  obtain ⟨final, success, _, rfl⟩ := IR.generate_ok.mp generated
  have built := (generateUnverified_valid success).1
  obtain ⟨other, present, sameId⟩ := (lowered.labelled target label).mp labelled
  have sameLabel : target = label := sameId.symm.trans (built.ids present)
  exact sameLabel ▸ (built.forward ⟨block, found, member⟩).1

/-- The executable of an accepted program returns the low bits of what its
module returns, whatever the allocator answers. -/
theorem generate_refines (_accepted : analyze analysisOrder program = .ok analyzer)
    (generated : IR.generate irOrder analyzer program = .ok module)
    (lowers : Codegen.generate order verifyModule module = .ok function) {bits : BitVec 64}
    (executes : module.Executes environment.operations (.ok (.i64 bits))) :
    ∃ exit, function.Executes environment (.ok exit) ∧ exit.status = bits.setWidth 32 := by
  obtain ⟨_, labels, values, slots, lowered⟩ := generate_lowered lowers
  exact lowered.executes (lowered.entry_first generated) executes

/-- A tensor that is declared on two paths, of which one is taken, and a result
that does not fit into a status. -/
def declaredOnPaths : Program where
  statements := [
    .assignment ⟨"X", .integer 5 {}, {}⟩,
    .ifStmt (.binary .greater (.identifier "X" {}) (.integer 7 {}) {})
      [.tensorDecl ⟨"A", ⟨"f32", [2, 3]⟩, {}⟩, .returnStmt ⟨.integer 1 {}, {}⟩]
      [.assignment ⟨"Y", .integer 0 {}, {}⟩] {},
    .tensorDecl ⟨"A", ⟨"f32", [2, 3]⟩, {}⟩,
    .returnStmt ⟨.binary .multiply (.binary .divide (.identifier "X" {}) (.integer 2 {}) {})
      (.integer 4294967297 {}) {}, {}⟩]

/-- Floating point results as `Operations.fixed` gives them, and an allocator
whose calls all succeed. -/
def Environment.fixed : Environment Unit := ⟨.fixed, fun _ => true⟩

theorem generate_refines_declaredOnPaths : ∃ analyzer module function,
    analyze .stored declaredOnPaths = .ok analyzer ∧
      IR.generate .stored analyzer declaredOnPaths = .ok module ∧
      Codegen.generate .stored (fun _ => .ok ()) module = .ok function ∧
      ∃ exit, function.Executes Environment.fixed (.ok exit) ∧
        exit.status = (8589934594 : BitVec 64).setWidth 32 := by
  have computed : (analyze .stored declaredOnPaths).toOption.any (fun analyzer =>
      (IR.generate .stored analyzer declaredOnPaths).toOption.any fun module =>
        (Codegen.generate .stored (fun _ => .ok ()) module).toOption.any fun _ =>
          decide ((IR.machine Environment.fixed.operations module.block).run 30
            (.initial module.entry) = some (.ok (.i64 8589934594)))) = true := by decide +kernel
  obtain ⟨analyzer, accepted, computed⟩ := (Option.any_eq_true _ _).mp computed
  obtain ⟨module, generated, computed⟩ := (Option.any_eq_true _ _).mp computed
  obtain ⟨function, lowers, result⟩ := (Option.any_eq_true _ _).mp computed
  have executes : module.Executes Environment.fixed.operations (.ok (.i64 8589934594)) :=
    .of_run (of_decide_eq_true result)
  exact ⟨analyzer, module, function, toOption_eq_some.mp accepted, toOption_eq_some.mp generated,
    toOption_eq_some.mp lowers, generate_refines (toOption_eq_some.mp accepted)
      (toOption_eq_some.mp generated) (toOption_eq_some.mp lowers) executes⟩

end Ocelotl.Codegen
