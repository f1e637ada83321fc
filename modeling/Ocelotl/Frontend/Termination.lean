import Ocelotl.Frontend.ErrorLocation
import Ocelotl.Frontend.Tokenization
import Ocelotl.Library.Guarded

namespace Ocelotl.Frontend

open Ast Library

variable {stod : String → Option Double} {tokens rest : List Token} {bound limit : Nat}

private theorem current_keeps : Keeps current := by
  intro tokens token rest success
  cases success
  exact Nat.le_refl _

private theorem advance_keeps : Keeps advance := by
  intro tokens value rest success
  cases success
  exact List.length_tail ▸ Nat.sub_le _ _

private theorem check_keeps (kind : TokenKind) :
    Keeps (check kind) := current_keeps.bind fun _ => keeps_pure _

private theorem checkNot_keeps (kind : TokenKind) :
    Keeps (checkNot kind) := (check_keeps kind).bind fun _ => keeps_pure _

private theorem checkAny_keeps (kinds : List TokenKind) :
    Keeps (checkAny kinds) := current_keeps.bind fun _ => keeps_pure _

private theorem throwParseError_keeps {α : Type} (token : Token) (message : String) :
    Keeps (throwParseError token message : Parsing α) := keeps_throw _

private theorem makeBinary_keeps (lhs rhs : Expression) (token : Token) :
    Keeps (makeBinary lhs token rhs) := by
  unfold makeBinary
  split
  · exact keeps_pure _
  · exact throwParseError_keeps _ _

private theorem consume_consumes {kind : TokenKind} (more : kind ≠ .endOfFile) (expectation : String) :
    Consumes (consume kind expectation) := by
  intro tokens token rest success
  obtain ⟨rfl, _⟩ := (consume_ok more).mp success
  exact Nat.lt_succ_self _

section Alike

variable {parsePrimary parsePrimary' parseOperand parseOperand' : Parsing Expression}

private theorem parseBinary_alike (operators : List TokenKind) (bound : Nat)
    (operand : Alike limit parseOperand parseOperand') :
    Alike limit (parseBinary operators parseOperand bound)
      (parseBinary operators parseOperand' bound) := by
  refine operand.bind fun expression =>
    Alike.loop (checkAny_keeps operators) (fun lhs => ?_) bound expression
  refine (Alike.refl current_keeps).bind fun token => (Alike.refl advance_keeps).bind fun _ =>
    operand.bind fun rhs => ?_
  exact .refl (makeBinary_keeps lhs rhs token)

private theorem parseExpression_alike (bound : Nat) (primary : Alike limit parsePrimary parsePrimary') :
    Alike limit (parseExpression parsePrimary bound) (parseExpression parsePrimary' bound) :=
  parseBinary_alike _ bound (parseBinary_alike _ bound (parseBinary_alike _ bound primary))

private theorem parseArguments_alike (bound : Nat) (primary : Alike limit parsePrimary parsePrimary') :
    Alike limit (parseArguments parsePrimary bound) (parseArguments parsePrimary' bound) := by
  have expression := parseExpression_alike bound primary
  refine (Alike.refl (check_keeps _)).bind fun closed => ?_
  cases closed with
  | true =>
    rw [if_pos rfl, if_pos rfl]
    exact .refl (keeps_pure [])
  | false =>
    rw [if_neg Bool.false_ne_true, if_neg Bool.false_ne_true]
    refine expression.bind fun first =>
      Alike.loop (check_keeps _) (fun arguments => ?_) bound [first]
    exact (Alike.refl advance_keeps).bind fun _ => expression.bind fun argument =>
      .refl (keeps_pure _)

private theorem parseIdentifierOrCall_alike (bound : Nat)
    (primary : Alike limit parsePrimary parsePrimary') :
    Alike (limit + 1) (parseIdentifierOrCall parsePrimary bound)
      (parseIdentifierOrCall parsePrimary' bound) := by
  refine .bind_consumes (consume_consumes (by decide) _) fun identifier =>
    (Alike.refl (check_keeps _)).bind fun opens => ?_
  cases opens with
  | false =>
    rw [if_neg Bool.false_ne_true, if_neg Bool.false_ne_true]
    exact .refl (keeps_pure _)
  | true =>
    rw [if_pos rfl, if_pos rfl]
    refine (Alike.refl advance_keeps).bind fun _ =>
      (parseArguments_alike bound primary).bind fun arguments => ?_
    exact .refl ((consume_consumes (by decide) _).keeps.bind fun _ => keeps_pure _)

end Alike

private theorem parsePrimary_consumes : Consumes (parsePrimary stod bound) :=
  parsePrimary_sound.consumes fun _ _ derives => derives.length_pos

private theorem parse_expression_consumes : Consumes (parseExpression (parsePrimary stod bound) bound) :=
  parse_expression_sound.consumes fun _ _ derives => derives.length_pos

private theorem parseStatement_consumes : Consumes (parseStatement stod bound) := by
  refine parseStatement_sound.consumes fun read statement derives => ?_
  obtain ⟨token, more, rfl, _⟩ := derives.starts
  exact Nat.zero_lt_succ _

private theorem parseDimension_consumes : Consumes parseDimension := by
  refine parseDimension_sound.consumes fun read value word => ?_
  obtain ⟨token, rfl, _⟩ := word
  exact Nat.one_pos

private theorem parseBinary_consumes {operators : List TokenKind} {parseOperand : Parsing Expression}
    (operand : Consumes parseOperand) : Consumes (parseBinary operators parseOperand bound) :=
  operand.bind fun expression =>
    .loop (checkAny_keeps operators) (fun lhs => current_keeps.bind fun token =>
    advance_keeps.bind fun _ => operand.keeps.bind fun rhs =>
      makeBinary_keeps lhs rhs token) bound expression

section Blocks

variable {parseStatement parseStatement' : Parsing Statement}
  (statement : Alike limit parseStatement parseStatement')
include statement

private theorem parseBlock_alike (bound : Nat) :
    Alike limit (parseBlock parseStatement bound) (parseBlock parseStatement' bound) := by
  refine (Alike.refl (consume_consumes (by decide) _).keeps).bind fun opening => ?_
  refine (Alike.loop (checkNot_keeps _) (fun statements => ?_) bound []).bind fun statements =>
    .refl ((consume_consumes (by decide) _).keeps.bind fun _ => keeps_pure _)
  refine (Alike.refl current_keeps).bind fun token => ?_
  by_cases ends : token.kind = .endOfFile
  · simp only [if_pos ends]
    exact .refl (throwParseError_keeps _ _)
  · simp only [if_neg ends]
    exact statement.bind fun next => .refl (keeps_pure _)

private theorem parseIfStatement_alike (bound : Nat) :
    Alike (limit + 1) (parseIfStatement stod parseStatement bound)
      (parseIfStatement stod parseStatement' bound) := by
  refine .bind_consumes (consume_consumes (by decide) _) fun ifToken => ?_
  refine (Alike.refl parse_expression_consumes.keeps).bind fun condition => ?_
  refine (parseBlock_alike statement bound).bind fun thenStatements => ?_
  refine (Alike.refl (consume_consumes (by decide) _).keeps).bind fun elseToken => ?_
  exact (parseBlock_alike statement bound).bind fun elseStatements => .refl (keeps_pure _)

end Blocks

private theorem parsePrimaryWith_guarded (stod : String → Option Double) (bound : Nat) :
    Guarded (parsePrimaryWith stod bound) := by
  refine guarded_of_alike (fun call call' => ?_) fun {token tokens call call'} alike => ?_
  · simp only [parsePrimaryWith, bind_of_ok current_apply]
    rfl
  · have identifier :=
      (parseIdentifierOrCall_alike bound alike).agrees (token :: tokens) (Nat.le_refl _)
    have closing : Keeps (consume .rightParen "')'") := (consume_consumes (by decide) _).keeps
    have inner := (parseExpression_alike bound alike).bind fun expression => Alike.refl
      (closing.bind fun _ => keeps_pure expression)
    have parentheses := inner.agrees tokens (Nat.le_refl _)
    simp only [parsePrimaryWith, bind_of_ok current_apply]
    cases (currentOf (token :: tokens)).kind with
    | identifier => exact identifier
    | leftParen => exact parentheses
    | _ => simp only

private theorem parseStatementWith_guarded (stod : String → Option Double) (bound : Nat) :
    Guarded (parseStatementWith stod bound) := by
  refine guarded_of_alike (fun call call' => ?_) fun {token tokens call call'} alike => ?_
  · simp only [parseStatementWith, bind_of_ok current_apply]
    rfl
  · have statement :=
      (@parseIfStatement_alike stod _ _ _ alike bound).agrees (token :: tokens) (Nat.le_refl _)
    simp only [parseStatementWith, bind_of_ok current_apply]
    cases (currentOf (token :: tokens)).kind with
    | kwIf => exact statement
    | _ => simp only

/-- A round of the loop that succeeds consumes a token, and the loop does not get
through a round at the end of the file. -/
structure Ends {α : Type} (condition : Parsing Bool) (body : α → Parsing α) : Prop where
  consumes : ∀ value, Consumes (body value)
  stops : ∀ value tokens, (currentOf tokens).kind = .endOfFile →
    condition tokens = .ok false tokens ∨ ∃ error final, body value tokens = .error error final

private theorem operator_ends (operators : List TokenKind) (inside : .endOfFile ∉ operators)
    {parseOperand : Parsing Expression} (operand : Consumes parseOperand) :
    Ends (checkAny operators) (fun expression => do
      let operatorToken ← current
      advance
      let rhs ← parseOperand
      makeBinary expression operatorToken rhs) where
  consumes := fun lhs => current_keeps.then_consumes fun token =>
    advance_keeps.then_consumes fun _ =>
    operand.bind fun rhs => makeBinary_keeps lhs rhs token
  stops := fun _ tokens ends =>
    .inl (by rw [checkAny_apply, ends, Bool.eq_false_iff.mpr (mt List.contains_iff_mem.mp inside)])

/-- A round that reads a comma and an element. -/
theorem comma_ends {α : Type} {parseElement : Parsing α} (element : Consumes parseElement) :
    Ends (check .comma) (fun elements : List α => do
      advance
      let element ← parseElement
      return elements ++ [element]) where
  consumes := fun _ => advance_keeps.then_consumes fun _ => element.bind fun _ => keeps_pure _
  stops := fun _ tokens ends => .inl (by rw [check_apply, ends]; rfl)

private theorem block_ends {parseStatement : Parsing Statement} (statement : Consumes parseStatement) :
    Ends (checkNot .rightBrace) (fun statements => do
      let token ← current
      if token.kind = .endOfFile then throwParseError token "expected '\x7d'"
      else do
        let statement ← parseStatement
        return statements ++ [statement]) where
  consumes := by
    refine fun statements => current_keeps.then_consumes fun token => ?_
    by_cases ends : token.kind = .endOfFile
    · simp only [if_pos ends]
      intro tokens value rest success
      cases success
    · simp only [if_neg ends]
      exact statement.bind fun _ => keeps_pure _
  stops := fun _ tokens ends => .inr ⟨_, _, by rw [bind_of_ok current_apply, if_pos ends]; rfl⟩

private theorem program_ends {parseStatement : Parsing Statement} (statement : Consumes parseStatement) :
    Ends (checkNot .endOfFile) (fun statements => do
      let statement ← parseStatement
      return statements ++ [statement]) where
  consumes := fun _ => statement.bind fun _ => keeps_pure _
  stops := fun _ tokens ends => .inl (by rw [checkNot_apply, ends]; rfl)

open Lexer in
private theorem advanceWhile_shorter (accepts : Char → Bool) (remaining : List Char)
    (location : SourceLocation) :
    (advanceWhile accepts remaining location).2.remaining.length ≤ remaining.length := by
  induction remaining generalizing location with
  | nil => exact Nat.le_refl _
  | cons current remaining ih =>
    rw [advanceWhile]
    split
    · exact Nat.le_succ_of_le (ih _)
    · exact Nat.le_refl _

private theorem advance_shorter (lexer : Lexer) :
    lexer.advance.remaining.length ≤ lexer.remaining.length := by
  obtain ⟨remaining, location⟩ := lexer
  cases remaining with
  | nil => exact Nat.le_refl _
  | cons current remaining => exact Nat.le_succ _

section Tokens

open Lexer

variable {first : Char} {more : List Char} {location : SourceLocation}

private theorem advanceWhile_consumes {accepts : Char → Bool} (accepted : accepts first = true) :
    (advanceWhile accepts (first :: more) location).2.remaining.length <
      (first :: more).length := by
  rw [advanceWhile, if_pos accepted]
  exact Nat.lt_succ_of_le (advanceWhile_shorter accepts more _)

private theorem lexNumber_consumes (digit : first.isDigit = true) :
    (lexNumber ⟨first :: more, location⟩ digit).2.remaining.length < (first :: more).length := by
  have number : (advanceWhile Char.isDigit (first :: more) location).2.remaining.length <
      (first :: more).length :=
    advanceWhile_consumes digit
  simp only [lexNumber]
  split
  · have dot := advance_shorter (advanceWhile Char.isDigit (first :: more) location).2
    exact Nat.lt_of_le_of_lt (Nat.le_trans (advanceWhile_shorter _ _ _) dot) number
  · exact number

private theorem lexSymbol_consumes (current : Char) :
    (lexSymbol ⟨first :: more, location⟩ current).2.remaining.length < (first :: more).length := by
  have alone : more.length < (first :: more).length := Nat.lt_succ_self _
  have withEqual (kind alone : TokenKind) (other : kind ≠ .integerLiteral)
    (otherAlone : alone ≠ .integerLiteral) :
      (withEqual ⟨first :: more, location⟩ current kind alone other otherAlone).2.remaining.length <
        (first :: more).length := by
    unfold Lexer.withEqual
    split
    · exact Nat.lt_succ_of_le (advance_shorter ⟨more, after location first⟩)
    · exact Nat.lt_succ_self _
  unfold lexSymbol
  split
  case h_3 | h_4 | h_9 | h_10 => exact withEqual _ _ _ _
  all_goals exact alone

/-- A token that is not the end of the file takes at least a character. -/
theorem nextToken_consumes {lexer : Lexer} (goesOn : lexer.nextToken.1.kind ≠ .endOfFile) :
    lexer.nextToken.2.remaining.length < lexer.remaining.length := by
  have skipped : lexer.skipWhitespace.remaining.length ≤ lexer.remaining.length :=
    advanceWhile_shorter isWhitespace lexer.remaining lexer.location
  refine Nat.lt_of_lt_of_le ?_ skipped
  revert goesOn
  unfold nextToken
  generalize lexer.skipWhitespace = start
  obtain ⟨remaining, location⟩ := start
  cases remaining with
  | nil => exact fun goesOn => absurd rfl goesOn
  | cons first more =>
    intro _
    rw [if_neg (List.cons_ne_nil _ _)]
    split
    · rename_i starts
      exact advanceWhile_consumes (continuesIdentifier_of_starts starts)
    · split
      · exact lexNumber_consumes _
      · exact lexSymbol_consumes _

end Tokens

/-- The loops and the recursion of the parser consume tokens, and a token
consumes characters. -/
structure Progresses (stod : String → Option Double) : Prop where
  program : ∀ bound, Ends (checkNot .endOfFile) fun statements => do
    let statement ← parseStatement stod bound
    return statements ++ [statement]
  block : ∀ bound, Ends (checkNot .rightBrace) fun statements => do
    let token ← current
    if token.kind = .endOfFile then throwParseError token "expected '\x7d'"
    else do
      let statement ← parseStatement stod bound
      return statements ++ [statement]
  dimensions : Ends (check .comma) fun dimensions : List Nat => do
    advance
    let dimension ← parseDimension
    return dimensions ++ [dimension]
  arguments : ∀ bound, Ends (check .comma) fun arguments : List Expression => do
    advance
    let argument ← parseExpression (parsePrimary stod bound) bound
    return arguments ++ [argument]
  multiplicative : ∀ bound, Ends (checkAny [.star, .slash]) fun expression => do
    let operatorToken ← current
    advance
    let rhs ← parsePrimary stod bound
    makeBinary expression operatorToken rhs
  additive : ∀ bound, Ends (checkAny [.plus, .minus]) fun expression => do
    let operatorToken ← current
    advance
    let rhs ← parseMultiplicative (parsePrimary stod bound) bound
    makeBinary expression operatorToken rhs
  comparison :
    ∀ bound, Ends (checkAny [.equalEqual, .bangEqual, .less, .lessEqual, .greater, .greaterEqual])
    fun expression => do
      let operatorToken ← current
      advance
      let rhs ← parseAdditive (parsePrimary stod bound) bound
      makeBinary expression operatorToken rhs
  primary : ∀ bound, Consumes (parsePrimary stod bound) ∧ Guarded (parsePrimaryWith stod bound) ∧
    parsePrimary stod (bound + 1) = parsePrimaryWith stod bound (parsePrimary stod bound)
  statement : ∀ bound, Consumes (parseStatement stod bound) ∧
    Guarded (parseStatementWith stod bound) ∧
    parseStatement stod (bound + 1) = parseStatementWith stod bound (parseStatement stod bound)
  character : ∀ lexer : Lexer, lexer.nextToken.1.kind ≠ .endOfFile →
    lexer.nextToken.2.remaining.length < lexer.remaining.length

private theorem progresses (stod : String → Option Double) : Progresses stod where
  program := fun _ => program_ends parseStatement_consumes
  block := fun _ => block_ends parseStatement_consumes
  dimensions := comma_ends parseDimension_consumes
  arguments := fun _ => comma_ends parse_expression_consumes
  multiplicative := fun _ => operator_ends _ (by decide) parsePrimary_consumes
  additive := fun _ => operator_ends _ (by decide) (parseBinary_consumes parsePrimary_consumes)
  comparison := fun _ =>
    operator_ends _ (by decide) (parseBinary_consumes (parseBinary_consumes parsePrimary_consumes))
  primary := fun bound => ⟨parsePrimary_consumes, parsePrimaryWith_guarded stod bound,
    parsePrimary_succ stod bound⟩
  statement := fun bound => ⟨parseStatement_consumes, parseStatementWith_guarded stod bound,
    parseStatement_succ stod bound⟩
  character := fun _ => nextToken_consumes

/-- A bound that is not less than the number of tokens does not matter. -/
theorem parseStatements_bound {sequence : TokenSequence} (short : sequence.all.length ≤ bound) :
    outcome (parseStatements stod bound) sequence.all =
      outcome (parseStatements stod sequence.all.length) sequence.all := by
  have reports : Reports sequence.all.length (parseStatements stod sequence.all.length)
      (fun _ : Unit => parseStatements stod bound) (DerivesStatements stod) :=
        parseStatements_reports fun _ => short
  cases run : parseStatements stod sequence.all.length sequence.all with
  | ok statements rest =>
    obtain ⟨read, same, _, agrees⟩ := reports.ok (within_all sequence (Nat.le_refl _)) run
    have larger := agrees () rest rfl
    rw [← same] at larger
    rw [outcome, outcome, run, larger]
  | error error final =>
    obtain ⟨before, token, after, same, _, _, agrees⟩ :=
      reports.error (within_all sequence (Nat.le_refl _)) run
    obtain ⟨final', larger⟩ := agrees () after
    rw [← same] at larger
    rw [outcome, outcome, run, larger]

/-- The parser terminates on every input, with a program or a parse error. -/
theorem parse_terminates (stod : String → Option Double) (source : List Char) :
    ((∃ program, parse stod source = .ok program) ∨
        ∃ location message, parse stod source = .error (.parse location message)) ∧
      (∀ bound, source.length < bound →
        (Lexer.tokensFrom bound ⟨source, {}⟩).all = (tokenize source).all) ∧
      (∀ bound, (tokenize source).all.length ≤ bound →
        outcome (parseStatements stod bound) (tokenize source).all =
          outcome (parseStatements stod ((tokenize source).all.length + 1)) (tokenize source).all) ∧
      Progresses stod := by
  refine ⟨?_, fun bound enough => ?_, fun bound enough => ?_, progresses stod⟩
  · let limit := (tokenize source).all.length + 1
    have reports : Reports limit (parseStatements stod limit)
      (fun _ : Unit => parseStatements stod limit)
        (DerivesStatements stod) := parseStatements_reports fun _ => Nat.le_refl _
    cases run : parseStatements stod limit (tokenize source).all with
    | ok statements rest =>
      exact .inl ⟨⟨statements⟩, except_bind_ok.mpr ⟨statements, outcome_eq_ok.mpr ⟨rest, run⟩, rfl⟩⟩
    | error error final =>
      obtain ⟨_, token, _, _, ⟨message, rfl⟩, _⟩ := reports.error (within_all _ (Nat.le_succ _)) run
      exact .inr ⟨token.location, message,
        except_bind_error.mpr (.inl (outcome_eq_error.mpr ⟨final, run⟩))⟩
  · exact (tokensFrom_tokenizes enough).unique (tokenize_tokenizes source)
  · have larger : (tokenize source).all.length ≤ (tokenize source).all.length + 1 := Nat.le_succ _
    exact (parseStatements_bound enough).trans (parseStatements_bound larger).symm

end Ocelotl.Frontend
