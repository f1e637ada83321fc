import Ocelotl.Codegen.Size
import Mathlib.Tactic.Linarith

namespace Ocelotl.Driver

open Ast Frontend Semantic IR Library LLVM Codegen

/-- The fewest tokens that a program of so many constructs is written with. -/
def leastTokens (tally : Tally) : Nat :=
  7 * tally.declarations + 3 * tally.assignments + 2 * tally.returns + 7 * tally.conditionals + 2 *
    tally.operators

private theorem leastTokens_add (first second : Tally) :
    leastTokens (first.add second) = leastTokens first + leastTokens second := by
  simp only [leastTokens, Tally.add]
  omega

private theorem leastTokens_conditional (operators : Nat) :
    leastTokens { conditionals := 1, operators := operators } = 7 + 2 * operators := by
  simp [leastTokens]

section Derivations

variable {stod : String → Option Double}

mutual

/-- An expression has an operand more than operators. -/
theorem operatorsOf_lt : ∀ {level reads expression}, Derives stod level reads expression →
    2 * operatorsOf expression + 1 ≤ reads.length
  | _, _, _, .identifier _ | _, _, _, .integer _ _ | _, _, _, .float _ _ => by
    rw [operatorsOf]
    exact Nat.le_refl _
  | _, _, _, .call _ _ arguments _ => by
    have inside := operatorsIn_le arguments
    rw [operatorsOf]
    simp only [List.length_cons, List.length_append, List.length_nil]
    omega
  | _, _, _, .parentheses _ inner _ => by
    have inside := operatorsOf_lt inner
    simp only [List.length_cons, List.length_append, List.length_nil]
    omega
  | _, _, _, .binary _ operand operators => by
    have first := operatorsOf_lt operand
    have rest := operatorsOf_le operators
    rw [List.length_append]
    omega

private theorem operatorsOf_le : ∀ {level lhs reads expression}, Operators stod level lhs reads expression →
    2 * operatorsOf expression ≤ 2 * operatorsOf lhs + reads.length
  | _, _, _, _, .none => Nat.le_refl _
  | _, _, _, _, .operator _ _ operand later => by
    have first := operatorsOf_lt operand
    have rest := operatorsOf_le later
    rw [operatorsOf] at rest
    rw [List.length_cons, List.length_append]
    omega

private theorem operatorsIn_le :
    ∀ {reads values}, Arguments stod reads values → 2 * operatorsIn values ≤ reads.length
  | _, _, .none => by
    rw [operatorsIn]
    exact Nat.le_refl _
  | _, _, .some argument later => by
    have first := operatorsOf_lt argument
    have rest := operatorsIn_le_more later
    rw [operatorsIn, List.length_append]
    omega

private theorem operatorsIn_le_more : ∀ {reads values}, MoreArguments stod reads values →
    2 * operatorsIn values ≤ reads.length
  | _, _, .none => by
    rw [operatorsIn]
    exact Nat.le_refl _
  | _, _, .comma _ argument later => by
    have first := operatorsOf_lt argument
    have rest := operatorsIn_le_more later
    rw [operatorsIn, List.length_cons, List.length_append]
    omega

end

private theorem four_le_type {reads : List Token} {type : TensorType} (derives : DerivesType reads type) :
    4 ≤ reads.length := by
  cases derives
  simp only [List.length_cons, List.length_append]
  omega

mutual

private theorem leastTokens_statement : ∀ {reads statement}, DerivesStatement stod reads statement →
    leastTokens (tallyOf statement) ≤ reads.length
  | _, _, .tensorDeclaration _ _ _ type => by
    have tokens := four_le_type type
    rw [tallyOf]
    simp only [leastTokens, List.length_cons]
    omega
  | _, _, .assignment _ _ derives | _, _, .returnStmt _ derives => by
    have value := operatorsOf_lt derives
    rw [tallyOf]
    simp only [leastTokens, List.length_cons]
    omega
  | _, _, .ifStmt _ derives thenBlock _ elseBlock => by
    have condition := operatorsOf_lt derives
    have inThen := leastTokens_block thenBlock
    have inElse := leastTokens_block elseBlock
    rw [tallyOf, leastTokens_add, leastTokens_add]
    simp only [List.length_cons, List.length_append]
    rw [leastTokens_conditional]
    omega

private theorem leastTokens_block : ∀ {reads statements}, DerivesBlock stod reads statements →
    leastTokens (tallyIn statements) + 2 ≤ reads.length
  | _, _, .block _ inner _ => by
    have inside := leastTokens_statements inner
    simp only [List.length_cons, List.length_append, List.length_nil]
    omega

/-- A program has at least these tokens. -/
theorem leastTokens_statements : ∀ {reads statements}, DerivesStatements stod reads statements →
    leastTokens (tallyIn statements) ≤ reads.length
  | _, _, .none => by
    rw [tallyIn]
    exact Nat.le_refl _
  | _, _, .statement derives later => by
    have first := leastTokens_statement derives
    have rest := leastTokens_statements later
    rw [tallyIn, leastTokens_add, List.length_append]
    omega

end

end Derivations

/-- The worst program of a given length has as many tokens in declarations as in returns. -/
theorem codeBound_le {tally : Tally} {tokens : Nat} (least : leastTokens tally ≤ tokens) :
    28 * codeBound tally ≤ tokens ^ 2 + 16 * tokens + 28 := by
  obtain ⟨declarations, assignments, returns, conditionals, operators⟩ := tally
  simp only [leastTokens] at least
  simp only [codeBound, Tally.bindings]
  have binds : 7 * declarations + 3 * assignments + (2 * returns + 7 * conditionals) ≤ tokens := by
    omega
  have mean : 4 * (7 * declarations + 3 * assignments) * (2 * returns + 7 * conditionals) ≤
      tokens ^ 2 :=
    (four_mul_le_sq_add _ _).trans (Nat.pow_le_pow_left binds 2)
  nlinarith

variable {host : Host} {source : List Char} {function : LLVM.Function} {Contents : Type}

/-- Executables are at most quadratic in the length of their sources, and they run
no longer than that either. -/
theorem compiled_small (compiled : compileToLLVM host source = .ok function) :
    28 * codeSize function.blocks ≤ (tokenize source).tokens.length ^ 2 + 16 *
      (tokenize source).tokens.length + 28 ∧
      ∀ environment : Environment Contents, ∃ outcome,
        (machine environment function.blocks).run (codeSize function.blocks) .initial =
          some outcome := by
  obtain ⟨program, analyzer, module, parsed, analyzed, generated, lowers⟩ :=
    compileToLLVM_ok.mp compiled
  obtain ⟨forward, started⟩ := forward_of_generate generated lowers
  have tokens := leastTokens_statements (parseProgram_sound parsed)
  constructor
  · exact (Nat.mul_le_mul_left 28 (codeSize_le generated lowers)).trans (codeBound_le tokens)
  · exact fun environment => @halts_of_forward Contents environment _ forward started

/-- Nine tokens, which are made into eight instructions. -/
def releasedSource : List Char := "tensor A: f64[2] return 1".toList

theorem compiled_small_released :
    ∃ function, compileToLLVM Host.fixed releasedSource = .ok function ∧
    codeSize function.blocks = 8 ∧ 28 * codeSize function.blocks ≤ 9 ^ 2 + 16 * 9 + 28 := by
  have computed : (compileToLLVM Host.fixed releasedSource).toOption.any (fun function =>
      decide (codeSize function.blocks = 8)) = true := by decide +kernel
  have length : (tokenize releasedSource).tokens.length = 9 := by decide +kernel
  obtain ⟨function, compiled, size⟩ := (Option.any_eq_true _ _).mp computed
  have small := (@compiled_small _ _ _ Unit (toOption_eq_some.mp compiled)).1
  rw [length] at small
  exact ⟨function, toOption_eq_some.mp compiled, of_decide_eq_true size, small⟩

end Ocelotl.Driver
