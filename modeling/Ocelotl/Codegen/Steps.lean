import Ocelotl.Codegen.Fragments
import Ocelotl.Codegen.PhiRule

namespace Ocelotl.Codegen

open Library LLVM

variable {Contents : Type} {environment : Environment Contents} {blocks : List LLVM.BasicBlock}
  {config next : LLVM.Config} {instruction : Instruction} {exit : Exit}

/-- An instruction makes no call, or one that is recorded. -/
theorem execute_calls (success : execute environment config instruction = .ok next) :
    (next.calls = config.calls ∧ next.events = config.events) ∨
      (∃ pointer, next.calls = config.calls ∧ next.events = config.events ++ [.free pointer]) ∨
      ∃ register size alignment, instruction = .callAlloc register size alignment ∧
        next.calls = config.calls + 1 ∧
        next.events = config.events ++ [.alloc size alignment (answer environment config)] := by
  by_cases pure : computes instruction = true
  · obtain ⟨registers, same⟩ := execute_computes pure success
    rw [same]
    exact .inl ⟨rfl, rfl⟩
  cases instruction with
  | alloca slot =>
    cases success
    exact .inl ⟨rfl, rfl⟩
  | store value slot =>
    simp only [execute, except_bind_ok] at success
    obtain ⟨_, _, _, _, success⟩ := success
    split at success
    · cases success
    · cases success
      exact .inl ⟨rfl, rfl⟩
  | load result slot =>
    simp only [execute, except_bind_ok] at success
    obtain ⟨_, _, success⟩ := success
    split at success
    · cases success
      exact .inl ⟨rfl, rfl⟩
    · cases success
    · cases success
  | callAlloc register size alignment =>
    cases success
    exact .inr (.inr ⟨register, size, alignment, rfl, rfl, rfl⟩)
  | callFree operand =>
    simp only [execute, except_bind_ok] at success
    obtain ⟨pointer, _, success⟩ := success
    cases success
    exact .inr (.inl ⟨pointer, rfl, rfl⟩)
  | binary _ _ _ _ | icmp _ _ _ _ | fcmp _ _ _ _ | phi _ _ _ | trunc _ _ => exact absurd rfl pure

/-- A step executes an instruction, or goes along an edge after the last one. -/
theorem step_cases (steps : (machine environment blocks).step config = .inl next) :
    (∃ body instruction, blocks[config.label]? = some body ∧
      body.instructions[config.index]? = some instruction ∧
        execute environment config instruction = .ok next) ∨
      ∃ body terminator target, blocks[config.label]? = some body ∧
        body.instructions[config.index]? = none ∧
        body.terminator = some terminator ∧ target ∈ terminator.targets ∧
          next = config.jump target := by
  simp only [machine] at steps
  split at steps
  · cases steps
  · rename_i body found
    split at steps
    · rename_i instruction present
      split at steps
      · rename_i following success
        cases steps
        exact .inl ⟨body, instruction, found, present, success⟩
      · cases steps
    · rename_i ended
      split at steps
      · rename_i terminator ends
        cases terminator with
        | br target =>
          cases steps
          exact .inr ⟨body, .br target, target, found, ended, ends, List.mem_cons_self, rfl⟩
        | condBr condition trueTarget falseTarget =>
          simp only [LLVM.transfer] at steps
          split at steps
          · rename_i truth _
            cases steps
            refine .inr ⟨body, .condBr condition trueTarget falseTarget, _, found, ended,
              ends, ?_, rfl⟩
            cases truth with
            | true => exact List.mem_cons_self
            | false => exact List.mem_cons_of_mem _ List.mem_cons_self
          · cases steps
          · cases steps
        | ret value =>
          simp only [LLVM.transfer] at steps
          split at steps <;> cases steps
      · cases steps

theorem exit_events (stops : (machine environment blocks).step config = .inr (.ok exit)) :
    exit.events = config.events := by
  simp only [machine] at stops
  split at stops
  · cases stops
  · split at stops
    · split at stops <;> cases stops
    · split at stops
      · rename_i terminator _
        cases terminator with
        | br target => cases stops
        | condBr condition trueTarget falseTarget =>
          simp only [LLVM.transfer] at stops
          split at stops <;> cases stops
        | ret value =>
          simp only [LLVM.transfer] at stops
          split at stops
          · cases stops
            rfl
          · cases stops
          · cases stops
      · cases stops

end Ocelotl.Codegen
