import Ocelotl.Codegen.Division
import Ocelotl.Codegen.Steps
import Ocelotl.Codegen.Translatable
import Ocelotl.Driver.Compile

namespace Ocelotl.Codegen

open Frontend Semantic Library LLVM Evaluation Driver

variable {Contents : Type} {environment : Environment Contents} {blocks : List LLVM.BasicBlock}
  {config next : LLVM.Config} {body : LLVM.BasicBlock} {label target : Label}

/-- The number of instructions and terminators. -/
def codeSize (blocks : List LLVM.BasicBlock) : Nat :=
  (blocks.map fun body => body.instructions.length + 1).sum

/-- Every edge leads to a later block. -/
def Forward (blocks : List LLVM.BasicBlock) : Prop :=
  ∀ (label : Label) (body : LLVM.BasicBlock) (terminator : LLVM.Terminator),
    blocks[label]? = some body →
    body.terminator = some terminator → ∀ target ∈ terminator.targets, label < target ∧
      ∃ later, blocks[target]? = some later

/-- The configuration is in a block, at most after its last instruction. -/
def Inside (blocks : List LLVM.BasicBlock) (config : LLVM.Config) : Prop :=
  ∃ body, blocks[config.label]? = some body ∧ config.index ≤ body.instructions.length

/-- The size of the code that was not executed yet. -/
def ahead (blocks : List LLVM.BasicBlock) (config : LLVM.Config) : Nat :=
  codeSize (blocks.drop config.label) - config.index

private theorem codeSize_drop (found : blocks[label]? = some body) :
    codeSize (blocks.drop label) =
      body.instructions.length + 1 + codeSize (blocks.drop (label + 1)) := by
  obtain ⟨within, same⟩ := List.getElem?_eq_some_iff.mp found
  rw [List.drop_eq_getElem_cons within, same, codeSize, List.map_cons, List.sum_cons]
  rfl

private theorem codeSize_drop_le (later : label ≤ target) :
    codeSize (blocks.drop target) ≤ codeSize (blocks.drop label) := by
  obtain ⟨more, rfl⟩ := Nat.exists_eq_add_of_le later
  rw [← List.drop_drop]
  generalize blocks.drop label = rest
  have split : codeSize rest = codeSize (rest.take more) + codeSize (rest.drop more) := by
    unfold codeSize
    rw [← List.sum_append, ← List.map_append, List.take_append_drop]
  omega

theorem Inside.ahead_pos (inside : Inside blocks config) : 0 < ahead blocks config := by
  obtain ⟨body, found, bound⟩ := inside
  unfold ahead
  rw [codeSize_drop found]
  omega

/-- A step leaves code behind. -/
theorem Inside.step (forward : Forward blocks) (inside : Inside blocks config)
    (steps : (machine environment blocks).step config = .inl next) :
    Inside blocks next ∧ ahead blocks next < ahead blocks config := by
  obtain ⟨body, found, bound⟩ := inside
  rcases step_cases steps with ⟨body', instruction, found', present, success⟩ |
    ⟨body', terminator, target, found', ended, ends, member, rfl⟩
  · cases found.symm.trans found'
    have within := (List.getElem?_eq_some_iff.mp present).1
    obtain ⟨sameLabel, moved, _⟩ := execute_moves success
    constructor
    · refine ⟨body, sameLabel.symm ▸ found, ?_⟩
      rw [moved]
      exact within
    · unfold ahead
      rw [sameLabel, moved, codeSize_drop found]
      omega
  · cases found.symm.trans found'
    obtain ⟨later, other, there⟩ := forward _ _ _ found ends target member
    constructor
    · exact ⟨other, there, Nat.zero_le _⟩
    · have less := @codeSize_drop_le blocks (config.label + 1) target later
      show codeSize (blocks.drop target) - 0 < ahead blocks config
      unfold ahead
      rw [codeSize_drop found]
      omega

/-- The size of the code bounds the execution. -/
theorem halts_of_forward (forward : Forward blocks) (started : ∃ body, blocks[0]? = some body) :
    ∃ outcome, (machine environment blocks).run (codeSize blocks) .initial = some outcome := by
  obtain ⟨body, found⟩ := started
  have start : Inside blocks .initial := ⟨body, found, Nat.zero_le _⟩
  exact Machine.exists_run_of_rank (fun inside => Inside.ahead_pos inside)
    (fun inside steps => Inside.step forward inside steps) start

variable {irOrder order : TraversalOrder} {verifyModule : LLVM.Function → Except String Unit}
  {program : Ast.Program} {analyzer : SemanticAnalyzer} {module : IR.Module}
  {function : LLVM.Function}

theorem forward_of_generate (generated : IR.generate irOrder analyzer program = .ok module)
    (lowers : Codegen.generate order verifyModule module = .ok function) :
    Forward function.blocks ∧ ∃ body, function.blocks[0]? = some body := by
  obtain ⟨accepted, _, builder, lowered, rfl, _⟩ := generate_ok.mp lowers
  have verified := IR.verify_ok_iff.mp accepted
  obtain ⟨labels, code⟩ := lowerModule_lowered verified lowered
  have placed {id label} (labelled : labels.lookup id = some label) :
      ∃ body, builder.function.blocks[label]? = some body := by
    obtain ⟨block, found, _⟩ := (code.labelled _ _).mp labelled
    obtain ⟨body, filled, _⟩ := code.filled _ _ found
    exact ⟨body, filled⟩
  constructor
  · intro label body terminator found ends target member
    obtain ⟨block, there⟩ := lowerModule_bodies verified lowered found
    have labelled : Labelled labels block.id label := (code.labelled _ _).mpr ⟨block, there, rfl⟩
    have edge : builder.function.Edge label target := by
      rw [LLVM.Function.Edge, LLVM.Function.edges, found, Option.bind_some, ends, Option.elim_some]
      exact List.count_pos_iff.mpr member
    obtain ⟨id, aimed, body', known, inTargets⟩ := code.edge_back labelled edge
    obtain ⟨block', found', known', _⟩ := code.body labelled
    cases known.symm.trans known'
    exact ⟨code.forward generated found' id inTargets target aimed, placed aimed⟩
  · exact placed (code.entry_first generated)

/-- Every executable halts after at most as many steps as its code is long, with the
status that its program returns, or at a division that the program reaches. -/
theorem compiled_halts {host : Host} {source : List Char}
    (compiled : compileToLLVM host source = .ok function) (environment : Environment Contents) :
    ∃ program outcome, parse host.stod source = .ok program ∧
      (machine environment function.blocks).run (codeSize function.blocks) .initial = some outcome ∧
      ((∃ bits exit, outcome = .ok exit ∧
        Returns environment.operations.always program (.i64 bits) ∧
          exit.status = bits.setWidth 32) ∨
        outcome = .error .undefinedDivision ∧
          Fails environment.operations.always program .undefinedDivision) := by
  obtain ⟨program, analyzer, module, parsed, analyzed, generated, lowers⟩ :=
    compileToLLVM_ok.mp compiled
  obtain ⟨forward, started⟩ := forward_of_generate generated lowers
  obtain ⟨outcome, halts⟩ := @halts_of_forward Contents environment _ forward started
  have evaluates : function.Executes environment outcome := .of_run halts
  refine ⟨program, outcome, parsed, halts, ?_⟩
  rcases compile_sameResult parsed analyzed generated lowers environment with
    ⟨bits, exit, returns, exits, status⟩ | ⟨fails, divides⟩
  · exact .inl ⟨bits, exit, evaluates.unique exits, returns, status⟩
  · exact .inr ⟨evaluates.unique divides, fails⟩

theorem compiled_halts_guarded : ∃ function, compileToLLVM Host.fixed guardedSource = .ok function ∧
    ∃ outcome, (machine Environment.fixed function.blocks).run 11 .initial = some outcome := by
  have computed : (compileToLLVM Host.fixed guardedSource).toOption.any (fun function =>
      decide (codeSize function.blocks = 11)) = true := by decide +kernel
  obtain ⟨function, compiled, size⟩ := (Option.any_eq_true _ _).mp computed
  obtain ⟨_, outcome, _, halts, _⟩ :=
    compiled_halts (toOption_eq_some.mp compiled) Environment.fixed
  rw [of_decide_eq_true size] at halts
  exact ⟨function, toOption_eq_some.mp compiled, outcome, halts⟩

end Ocelotl.Codegen
