import Ocelotl.Library.Throwing
import Mathlib.Data.List.Basic

/-! Parsers that read tokens from the front of a list, the loops they are written
with, and what it means that a parser accepts a language. -/

namespace Ocelotl.Library

variable {ε τ α : Type}

/-- `while (condition) value = body(value);`, given up after `bound` conditions. -/
def repeatWhile {σ : Type} (givenUp : ε) (condition : EStateM ε σ Bool) (body : α → EStateM ε σ α) :
    Nat → α → EStateM ε σ α
  | 0, _ => throw givenUp
  | bound + 1, value => do
    if ← condition then do
      let next ← body value
      repeatWhile givenUp condition body bound next
    else return value

section Loops

variable {σ : Type} {givenUp : ε} {condition : EStateM ε σ Bool} {body : α → EStateM ε σ α}
  {bound : Nat} {value next : α} {start middle final : σ}

theorem repeatWhile_stops (stops : condition start = .ok false final) :
    repeatWhile givenUp condition body (bound + 1) value start = .ok value final := by
  rw [repeatWhile, bind_of_ok stops]
  rfl

theorem repeatWhile_goesOn (goesOn : condition start = .ok true middle)
    (step : body value middle = .ok next final) :
    repeatWhile givenUp condition body (bound + 1) value start =
      repeatWhile givenUp condition body bound next final := by
  rw [repeatWhile, bind_of_ok goesOn]
  exact bind_of_ok step

/-- A successful loop stops at once, or goes on after its body. -/
theorem repeatWhile_ok {result : α} :
    repeatWhile givenUp condition body (bound + 1) value start = .ok result final ↔
      condition start = .ok false final ∧ result = value ∨
      ∃ tested next middle, condition start = .ok true tested ∧
        body value tested = .ok next middle ∧
        repeatWhile givenUp condition body bound next middle = .ok result final := by
  rw [repeatWhile, bind_ok]
  constructor
  · intro ⟨goesOn, tested, decided, success⟩
    cases goesOn with
    | false =>
      cases success
      exact .inl ⟨decided, rfl⟩
    | true =>
      obtain ⟨next, middle, step, rest⟩ := bind_ok.mp success
      exact .inr ⟨tested, next, middle, decided, step, rest⟩
  · intro cases
    rcases cases with ⟨decided, rfl⟩ | ⟨tested, next, middle, decided, step, rest⟩
    · exact ⟨false, final, decided, rfl⟩
    · exact ⟨true, tested, decided, bind_ok.mpr ⟨next, middle, step, rest⟩⟩

theorem repeatWhile_breaks {error : ε} (goesOn : condition start = .ok true middle)
    (step : body value middle = .error error final) :
    repeatWhile givenUp condition body (bound + 1) value start = .error error final := by
  rw [repeatWhile, bind_of_ok goesOn]
  exact bind_of_error step

/-- A loop fails in its condition, in its body, or later. -/
theorem repeatWhile_error {error : ε}
    (failure : repeatWhile givenUp condition body (bound + 1) value start = .error error final) :
    condition start = .error error final ∨
      ∃ tested, condition start = .ok true tested ∧
        (body value tested = .error error final ∨
          ∃ next middle, body value tested = .ok next middle ∧
          repeatWhile givenUp condition body bound next middle = .error error final) := by
  rw [repeatWhile] at failure
  rcases bind_error.mp failure with failed | ⟨goesOn, tested, decided, failed⟩
  · exact .inl failed
  · cases goesOn with
    | false => cases failed
    | true => exact .inr ⟨tested, decided, bind_error.mp failed⟩

end Loops

/-- What the parser reads belongs to the language. -/
def SoundFor (parser : EStateM ε (List τ) α) (derives : List τ → α → Prop) : Prop :=
  ∀ tokens value rest, parser tokens = .ok value rest → ∃ read, tokens = read ++ rest ∧
    derives read value

/-- The parser reads what belongs to the language, up to this length and before
whatever may follow. -/
def CompleteFor (parser : EStateM ε (List τ) α) (derives : List τ → α → Prop)
    (follows : List τ → Prop) (bound : Nat) : Prop :=
  ∀ read value rest, derives read value → read.length ≤ bound → follows rest →
    parser (read ++ rest) = .ok value rest

/-- Zero or more items, each of which takes a value to the next. -/
inductive Chain (item : α → List τ → α → Prop) : α → List τ → α → Prop where
  | nil : Chain item value [] value
  | cons {value next result : α} {read reads : List τ} (first : item value read next)
    (rest : Chain item next reads result) : Chain item value (read ++ reads) result

theorem Chain.imp {item item' : α → List τ → α → Prop} {value result : α} {reads : List τ}
    (chain : Chain item value reads result)
    (each : ∀ {value read next}, item value read next → item' value read next) :
    Chain item' value reads result := by
  induction chain with
  | nil => exact .nil
  | cons first _ ih => exact .cons (each first) ih

section Chains

variable {givenUp : ε} {condition : EStateM ε (List τ) Bool} {body : α → EStateM ε (List τ) α}
  {item : α → List τ → α → Prop} {decides : List τ → Bool} {bound : Nat}

/-- A loop reads a chain, if its body reads the items. -/
theorem repeatWhile_sound {value result : α} {tokens rest : List τ}
    (tests : ∀ tokens, condition tokens = .ok (decides tokens) tokens)
    (each : ∀ {value next tokens rest}, decides tokens = true →
      body value tokens = .ok next rest → ∃ read, tokens = read ++ rest ∧ item value read next)
    (success : repeatWhile givenUp condition body bound value tokens = .ok result rest) :
    ∃ reads, tokens = reads ++ rest ∧ Chain item value reads result := by
  induction bound generalizing value tokens with
  | zero => cases success
  | succ bound ih =>
    rcases repeatWhile_ok.mp success with
      ⟨decided, rfl⟩ | ⟨tested, next, middle, decided, step, later⟩
    · rw [tests, EStateM.Result.ok.injEq] at decided
      exact ⟨[], decided.2, .nil⟩
    · rw [tests, EStateM.Result.ok.injEq] at decided
      obtain ⟨goesOn, rfl⟩ := decided
      obtain ⟨read, rfl, first⟩ := each goesOn step
      obtain ⟨reads, rfl, chain⟩ := ih later
      exact ⟨read ++ reads, (List.append_assoc _ _ _).symm, .cons first chain⟩

/-- A loop ends where its condition fails. -/
theorem repeatWhile_ends {value result : α} {tokens rest : List τ}
    (tests : ∀ tokens, condition tokens = .ok (decides tokens) tokens)
    (success : repeatWhile givenUp condition body bound value tokens = .ok result rest) :
    decides rest = false := by
  induction bound generalizing value tokens with
  | zero => cases success
  | succ bound ih =>
    rcases repeatWhile_ok.mp success with ⟨decided, _⟩ | ⟨_, _, _, _, _, later⟩
    · rw [tests, EStateM.Result.ok.injEq] at decided
      exact decided.2 ▸ decided.1
    · exact ih later

/-- A loop reads every chain whose items its body reads, before tokens that stop it. -/
theorem Chain.accepted {value result : α} {reads tail : List τ} (limit : Nat)
    (tests : ∀ tokens, condition tokens = .ok (decides tokens) tokens)
    (each : ∀ {value read next rest}, item value read next → read.length ≤ limit →
      (∃ reads result, Chain item next reads result ∧ rest = reads ++ tail) →
      decides (read ++ rest) = true ∧ body value (read ++ rest) = .ok next rest)
    (nonempty : ∀ {value read next}, item value read next → read ≠ [])
    (chain : Chain item value reads result) (short : reads.length ≤ limit)
    (within : reads.length < bound)
    (stops : decides tail = false) :
    repeatWhile givenUp condition body bound value (reads ++ tail) = .ok result tail := by
  induction chain generalizing bound with
  | nil =>
    cases bound with
    | zero => exact absurd within (Nat.not_lt_zero _)
    | succ bound => exact repeatWhile_stops (stops ▸ tests tail)
  | @cons value next result read reads first later ih =>
    rw [List.length_append] at short within
    have positive : 0 < read.length := List.length_pos_iff.mpr (nonempty first)
    cases bound with
    | zero => exact absurd within (Nat.not_lt_zero _)
    | succ bound =>
      obtain ⟨goesOn, step⟩ := each first (by omega) ⟨reads, result, later, rfl⟩
      rw [List.append_assoc, repeatWhile_goesOn (goesOn ▸ tests _) step]
      exact ih (by omega) (by omega)

end Chains

end Ocelotl.Library
