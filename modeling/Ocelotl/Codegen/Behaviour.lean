import Ocelotl.Codegen.Diagnostics
import Ocelotl.Codegen.Refinement
import Ocelotl.IR.Safety

/-! What the back end preserves, for every module that it lowers: results,
undefined divisions, and running forever. The module does not have to come from
a program. -/

namespace Ocelotl.Codegen

open Ast Semantic IR Library LLVM Evaluation

variable {Contents : Type} {environment : Environment Contents} {order : TraversalOrder}
  {module : IR.Module} {labels : Labels} {values : Operands} {slots : CleanupSlots}
  {function : LLVM.Function} {config following : IR.Config Contents} {config' : LLVM.Config}

/-- The operations of the block that are not executed yet. Constants have no
code, so the function may wait for the module while it executes them. -/
def waiting (module : IR.Module) (config : IR.Config Contents) : Nat :=
  (module.block config.block).elim 0 fun body => body.operations.length - config.index

/-- A jump of the module is a jump of the function. -/
theorem LowersTerminator.jumps {id : BlockId} {last : IR.Terminator} {tail : List Instruction}
    {terminator : LLVM.Terminator}
    (lowers : LowersTerminator order labels values slots id last tail terminator)
    (holds : Holds values config.registers config'.registers)
    (jumps : IR.transfer config last = .inl following) :
    tail = [] ∧ ∃ target label, following = config.jump target ∧ labels.lookup target = some label ∧
      LLVM.transfer config' terminator = .inl (config'.jump label) := by
  cases lowers with
  | @branch target label labelled =>
    cases jumps
    exact ⟨rfl, target, label, rfl, labelled, rfl⟩
  | @condBranch condition operand trueTarget trueLabel falseTarget falseLabel tested first second =>
    refine ⟨rfl, ?_⟩
    unfold IR.transfer at jumps
    cases read : readRegister config.registers condition with
    | error reason => simp [read] at jumps
    | ok value =>
      obtain ⟨value', evaluates, stands⟩ := holds.read read tested
      cases stands with
      | i1 truth =>
        simp only [read] at jumps
        cases jumps
        simp only [LLVM.transfer, evaluates]
        cases truth with
        | true => exact ⟨trueTarget, trueLabel, rfl, first, rfl⟩
        | false => exact ⟨falseTarget, falseLabel, rfl, second, rfl⟩
      | i64 _ | f64 _ | tensor _ _ _ _ => simp [read] at jumps
  | returnOp _ _ => cases jumps

theorem Lowered.moves (lowered : Lowered order module labels values slots function)
    (simulates : Simulates order module labels values slots function.blocks config config')
    (steps : (IR.machine environment.operations module.block).step config = .inl following) :
    ∃ following', Simulates order module labels values slots function.blocks following following' ∧
      ((LLVM.machine environment function.blocks).Moves config' following' ∨
        waiting module following < waiting module config ∧
          (LLVM.machine environment function.blocks).Leads config' following') := by
  obtain ⟨body, last, terminator, code, found, ends, lowers, here⟩ := simulates.code
  by_cases ended : body.operations.length ≤ config.index
  · rw [List.drop_eq_nil_of_le ended] at lowers
    rw [machine_terminator found ended ends] at steps
    cases lowers with
    | terminator final =>
      obtain ⟨rfl, target, label, rfl, labelled, jumps⟩ := final.jumps simulates.related.holds steps
      have left : Left labels values (some ⟨config.block, config.registers⟩)
          (some ⟨config'.label, config'.registers⟩) :=
            .jump simulates.labelled simulates.related.holds
      have labelled' : labels.lookup target = some (config'.jump label).label := labelled
      obtain ⟨next, leads, there⟩ :=
        lowered.enters environment labelled' rfl simulates.related.holds left
        fun _ => ⟨simulates.related.holds, left, simulates.related.ready⟩
      have steps' := (here.transfer environment).trans jumps
      exact ⟨next, there, .inl (Relation.TransGen.head'_iff.mpr ⟨_, steps', leads⟩)⟩
  · obtain ⟨following', leads, there⟩ := lowered.step simulates steps
    refine ⟨following', there, .inr ⟨?_, leads⟩⟩
    have within : config.index < body.operations.length := Nat.lt_of_not_le ended
    rw [machine_operation config ⟨body, found, List.getElem?_eq_getElem within⟩] at steps
    split at steps
    · cases steps
      simp only [waiting, IR.Config.define, found, Option.elim_some]
      omega
    · cases steps

/-- Where the entry block comes first, the function halts only if the module does. -/
theorem Lowered.halts (lowered : Lowered order module labels values slots function)
    (first : labels.lookup module.entry = some 0) {outcome' : Except LLVM.Stuck Exit}
    (executes : function.Executes environment outcome') :
    ∃ outcome, module.Executes environment.operations outcome := by
  obtain ⟨start, leads, simulates⟩ := lowered.simulatesInitial environment first
  exact (executes.of_leads leads).reflect (fun _ _ _ => lowered.moves) simulates

/-- Both return, the function with the low bits of what the module returns; or
both divide where there is no quotient; or both run forever. -/
def SameBehaviour (environment : Environment Contents) (module : IR.Module)
    (function : LLVM.Function) : Prop :=
  (∃ bits exit, module.Executes environment.operations (.ok (.i64 bits)) ∧
    function.Executes environment (.ok exit) ∧ exit.status = bits.setWidth 32) ∨
  module.Executes environment.operations (.error .undefinedDivision) ∧
    function.Executes environment (.error .undefinedDivision) ∨
  (∀ outcome, ¬ module.Executes environment.operations outcome) ∧
    ∀ outcome, ¬ function.Executes environment outcome

/-- The back end preserves the behaviour of every disciplined module that starts
with its entry, loops and executions without an end included. -/
theorem generate_sameBehaviour {verifyModule : LLVM.Function → Except String Unit}
    (lowers : Codegen.generate order verifyModule module = .ok function)
    (entryFirst : EntryFirst module) (disciplined : Disciplined module)
    (environment : Environment Contents) :
    SameBehaviour environment module function := by
  obtain ⟨accepted, returned, _⟩ := generate_ok.mp lowers
  obtain ⟨verified, labels, values, slots, lowered⟩ := generate_lowered lowers
  have first : labels.lookup module.entry = some 0 := (lowered.labelled _ _).mpr entryFirst
  have integer : module.ReturnsType (.scalar "i64") := (firstReturnType_iff verified).mp returned
  by_cases halts : ∃ outcome, module.Executes environment.operations outcome
  · obtain ⟨outcome, executes⟩ := halts
    rcases executable_safe (verified.executable disciplined) executes with rfl | ⟨value, rfl, typed⟩
    · exact .inr (.inl ⟨executes, lowered.executes_undefinedDivision first executes⟩)
    · obtain ⟨bits, rfl⟩ := Value.type_eq_i64.mp (verified.returnsType_unique typed integer)
      obtain ⟨exit, exits, status⟩ := lowered.executes first executes
      exact .inl ⟨bits, exit, executes, exits, status⟩
  · refine .inr (.inr ⟨fun outcome executes => halts ⟨outcome, executes⟩,
      fun outcome executes => halts ?_⟩)
    exact lowered.halts first executes

private theorem sensible_of_plain {operation : Operation} (plain : Plain Sized operation) :
    operation.Sensible module := by
  cases operation with
  | tensorDecl | phi => trivial
  | matMul | relu => cases plain
  | constantInt | constantFloat | binary | compare => exact plain

/-- What the generator hands to the back end is disciplined, as far as it is supported. -/
theorem Generated.disciplined {program : Program} {analyzer : SemanticAnalyzer}
    {final : IRGenerator} (generated : Generated program analyzer final)
    (supports : ∀ operation ∈ operationsOf final.module, supported operation = .ok ()) :
    Disciplined final.module := by
  have plain {block : IR.BasicBlock} (member : block ∈ final.module.blocks) {operation : Operation}
      (here : operation ∈ block.operations) : Plain Sized operation := by
    have inside : operation ∈ operationsOf final.module :=
      List.mem_flatMap.mpr ⟨block, member, here⟩
    exact plain_of_arises (generated.arises operation inside) (supports operation inside)
  refine ⟨generated.built.strictSSA, ?_, ?_⟩
  · exact fun block member operation here => sensible_of_plain (plain member here)
  · intro block member isEntry operation here
    rw [← Bool.not_eq_true]
    intro isPhi
    -- A phi lists two predecessors, and the entry has none.
    obtain ⟨_, sources⟩ := generated.verified.predecessors block member operation here isPhi
    cases operation with
    | phi result type incoming =>
      have two : incoming.length = 2 := plain member here
      obtain ⟨source, listed⟩ := List.exists_mem_of_length_pos (two ▸ Nat.zero_lt_two)
      obtain ⟨other, present, _, aimed⟩ :=
        (sources source.predecessor).mp (List.mem_map_of_mem listed)
      exact (generated.built.topological generated.entered).entrySource other present
        (isEntry ▸ aimed)
    | _ => cases isPhi

/-- Every module that is made from a program and lowered is one of these. -/
theorem disciplined_of_generate {analysisOrder irOrder : TraversalOrder} {program : Program}
    {analyzer : SemanticAnalyzer} {verifyModule : LLVM.Function → Except String Unit}
    (ranked : ∀ declaration ∈ declarationsIn program.statements, declaration.type.shape ≠ [])
    (analyzed : analyze analysisOrder program = .ok analyzer)
    (generated : IR.generate irOrder analyzer program = .ok module)
    (lowers : Codegen.generate order verifyModule module = .ok function) :
    EntryFirst module ∧ Disciplined module := by
  obtain ⟨final, rfl, made⟩ := generated_of_ok analyzed ranked generated
  obtain ⟨_, _, builder, lowered, _⟩ := generate_ok.mp lowers
  obtain ⟨_, supports⟩ := (lowerModule_ok_iff made.verified).mp ⟨builder, lowered⟩
  exact ⟨(made.built.topological made.entered).entryFirst, made.disciplined supports⟩

/-- A loop that is never left, and a return behind it. -/
def spinning : IR.Module where
  entry := 0
  blocks := [
    { id := 0
      name := "entry"
      operations := [.constantInt 0 0 (.scalar "i64")]
      terminator := some (.branch 1) },
    { id := 1, name := "loop", operations := [], terminator := some (.branch 1) },
    { id := 2, name := "exit", operations := [], terminator := some (.returnOp 0) }]

private theorem spinning_disciplined : Disciplined spinning := by
  have verified : Verified spinning := verify_ok_iff.mp (by decide +kernel)
  have zero : OperationAt spinning.block 0 0 (.constantInt 0 0 (.scalar "i64")) := ⟨_, rfl, rfl⟩
  have operands : ∀ block ∈ spinning.blocks, ∀ operation ∈ block.operations,
      operation.operands = [] ∧ operation.incoming = [] := by decide
  refine ⟨WellFormed.strictSSA (verified.wellFormed ?_ ?_ ?_), ?_, by decide⟩
  · intro block member index operation here value used
    rw [(operands block member operation (List.mem_of_getElem? here)).1] at used
    cases used
  · intro block member last ends value used
    simp only [spinning, List.mem_cons, List.not_mem_nil, or_false] at member
    rcases member with rfl | rfl | rfl <;> cases ends
    · cases used
    · cases used
    · cases List.mem_singleton.mp used
      exact ⟨0, 0, _, zero, rfl, .of_root 2⟩
  · intro block member operation here incoming listed
    rw [(operands block member operation here).2] at listed
    cases listed
  · intro block member operation here
    simp only [spinning, List.mem_cons, List.not_mem_nil, or_false] at member
    rcases member with rfl | rfl | rfl
    · cases List.mem_singleton.mp here
      rfl
    · cases here
    · cases here

/-- The loop is entered, and never left. -/
def InLoop (config : IR.Config Contents) : Prop := config.block = 0 ∨ config.block = 1

theorem InLoop.step {operations : Operations Contents} (inside : InLoop config) :
    ∃ next, (IR.machine operations spinning.block).step config = .inl next ∧ InLoop next := by
  obtain ⟨block, previous, index, registers⟩ := config
  rcases inside with same | same <;> cases same
  · cases index with
    | zero => exact ⟨_, rfl, .inl rfl⟩
    | succ index => exact ⟨_, rfl, .inr rfl⟩
  · exact ⟨_, rfl, .inr rfl⟩

private theorem spinning_diverges (operations : Operations Contents)
    (outcome : Except IR.Stuck (Evaluation.Value Contents)) :
    ¬ spinning.Executes operations outcome := by
  intro executes
  have start : InLoop (IR.Config.initial spinning.entry : IR.Config Contents) := .inl rfl
  have stays {config following : IR.Config Contents} (inside : InLoop config)
      (steps : (IR.machine operations spinning.block).step config = .inl following) :
        InLoop following := by
    obtain ⟨next, steps', there⟩ := inside.step
    cases steps.symm.trans steps'
    exact there
  obtain ⟨last, inside, stops⟩ := executes.invariant start stays
  obtain ⟨next, steps, _⟩ := inside.step
  cases stops.symm.trans steps

theorem generate_sameBehaviour_spinning : ∃ function,
    Codegen.generate .stored (fun _ => .ok ()) spinning = .ok function ∧
      ∀ outcome, ¬ function.Executes Environment.fixed outcome := by
  have computed : (Codegen.generate .stored (fun _ => .ok ()) spinning).toOption.isSome = true := by
    decide +kernel
  obtain ⟨function, lowers⟩ := Option.isSome_iff_exists.mp computed
  have lowers := toOption_eq_some.mp lowers
  refine ⟨function, lowers, ?_⟩
  rcases generate_sameBehaviour lowers ⟨_, rfl, rfl⟩ spinning_disciplined Environment.fixed with
    ⟨_, _, executes, _⟩ | ⟨executes, _⟩ | ⟨_, forever⟩
  · exact absurd executes (spinning_diverges _ _)
  · exact absurd executes (spinning_diverges _ _)
  · exact forever

end Ocelotl.Codegen
