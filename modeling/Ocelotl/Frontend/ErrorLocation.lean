import Ocelotl.Frontend.ParserCompleteness
import Ocelotl.Frontend.ParserDiagnosis

namespace Ocelotl.Frontend

open Ast Library

variable {stod : String → Option Double} {tokens before : List Token} {token : Token} {bound : Nat}

/-- A program and the end of the file. -/
def Sentence (stod : String → Option Double) (tokens : List Token) : Prop :=
  ∃ (sequence : TokenSequence) (program : Program), sequence.all = tokens ∧
    DerivesProgram stod sequence.tokens program

/-- Some sentence begins with the tokens. -/
def Viable (stod : String → Option Double) (tokens : List Token) : Prop :=
  ∃ rest, Sentence stod (tokens ++ rest)

/-- The first token up to which no sentence begins with the tokens. -/
def FirstOffending (stod : String → Option Double) (tokens : List Token) (token : Token) : Prop :=
  ∃ before after, tokens = before ++ token :: after ∧ Viable stod before ∧
    ¬ Viable stod (before ++ [token])

theorem within_all (sequence : TokenSequence) (short : sequence.all.length ≤ bound) :
    Within bound sequence.all :=
  ⟨short, sequence.ending, List.mem_append_right _ (List.mem_singleton_self _), sequence.ends⟩

private theorem viable_of_statements {rest : List Token} {statements : List Statement}
    (derives : DerivesStatements stod (before ++ rest) statements) : Viable stod before := by
  let sequence : TokenSequence := ⟨before ++ rest, .endOfFile {}, rfl, derives.continues⟩
  exact ⟨rest ++ [.endOfFile {}], sequence, ⟨statements⟩, List.append_assoc _ _ _, derives⟩

/-- Tokens at which the parser fails under every large bound begin no sentence. -/
theorem not_viable_of_fails {least : Nat} {error : ParseError}
    (fails : ∀ more after, ∃ final, parseStatements stod (least + more) (before ++ token :: after) =
      .error error final) :
    ¬ Viable stod (before ++ [token]) := by
  intro viable
  obtain ⟨after, sequence, program, same, derives⟩ := viable
  have accepted := parseStatements_complete derives (Nat.le_add_left sequence.all.length least)
  rw [same, List.append_assoc, List.singleton_append] at accepted
  obtain ⟨final, failed⟩ := fails (before ++ token :: after).length after
  cases accepted.symm.trans failed

/-- A parse error gives the location of the first token after which no sentence
is left. -/
theorem parse_blames_first_offending {source : List Char} {error : ParseError}
    (failure : parse stod source = .error error) :
    ∃ token message, FirstOffending stod (tokenize source).all token ∧
      error = .parse token.location message := by
  let limit := (tokenize source).all.length + 1
  have reports :
      Reports limit (parseStatements stod limit) (fun more => parseStatements stod (limit + more))
      (DerivesStatements stod) := parseStatements_reports fun more => Nat.le_add_right limit more
  rcases except_bind_error.mp failure with failed | ⟨statements, _, impossible⟩
  · obtain ⟨final, failed⟩ := outcome_eq_error.mp failed
    obtain ⟨before, token, after, split, ⟨message, blamed⟩, ⟨rest, statements, derives⟩, fails⟩ :=
      reports.error (within_all _ (Nat.le_succ _)) failed
    exact ⟨token, message,
      ⟨before, after, split, viable_of_statements derives, not_viable_of_fails fails⟩, blamed⟩
  · cases impossible

theorem parse_blames_first_offending_missing_colon :
    ∃ token message,
      FirstOffending (fun _ => none) (tokenize "tensor A f32[1024,1024]".toList).all token ∧
      ParseError.parse ⟨1, 10, 9⟩ "expected ':', found 'f32'" = .parse token.location message :=
  parse_blames_first_offending rfl

end Ocelotl.Frontend
