import Ocelotl.Frontend.RoundTrip
import Ocelotl.Library.Commuting

/-! The parser never looks at where a token stands: it commutes with forgetting the
locations. Two sources of the same lexemes get the same tree, or the same message. -/

namespace Ocelotl.Frontend

open Ast Library

variable {stod : String → Option Double} {bound : Nat} {token token' : Token} {kind : TokenKind}
  {α β : Type}

def Token.forget (token : Token) : Token := { token with location := {} }

def ParseError.forget : ParseError → ParseError
  | .parse _ message => .parse {} message
  | .bound => .bound

@[simp] theorem Token.forget_kind (token : Token) : token.forget.kind = token.kind := rfl

theorem Token.forget_eq (same : token.form = token'.form) : token.forget = token'.forget :=
  Token.ext (congrArg Lexeme.kind same) (congrArg Lexeme.text same) rfl

private theorem map_forget_eq {tokens tokens' : List Token}
    (same : tokens.map Token.form = tokens'.map Token.form) :
    tokens.map Token.forget = tokens'.map Token.forget := by
  induction tokens generalizing tokens' with
  | nil =>
    cases List.map_eq_nil_iff.mp same.symm
    rfl
  | cons token tokens ih =>
    obtain ⟨token', tokens', rfl, form, forms⟩ := List.map_eq_cons_iff.mp same.symm
    rw [List.map_cons, List.map_cons, ih forms.symm, Token.forget_eq form]

/-- The parser commutes with forgetting locations, in tokens, errors and what it returns. -/
abbrev Forgets (onValue : α → α) (parser : Parsing α) : Prop :=
  Commutes (List.map Token.forget) ParseError.forget onValue parser parser

private theorem current_forgets : Forgets Token.forget current := by
  intro tokens
  cases tokens <;> rfl

private theorem advance_forgets : Forgets id advance := by
  intro tokens
  cases tokens <;> rfl

private theorem throwParseError_forgets {onValue : α → α} (message : String) :
    Commutes (List.map Token.forget) ParseError.forget onValue (throwParseError token message)
      (throwParseError token.forget message) := fun _ => rfl

private theorem check_forgets : Forgets id (check kind) := current_forgets.bind fun _ => .pure

private theorem checkNot_forgets : Forgets id (checkNot kind) := check_forgets.bind fun _ => .pure

private theorem checkAny_forgets {kinds : List TokenKind} : Forgets id (checkAny kinds) :=
  current_forgets.bind fun _ => .pure

private theorem consume_forgets {expectation : String} :
    Forgets Token.forget (consume kind expectation) := by
  apply current_forgets.bind
  intro token
  apply Commutes.ite
  · intro _
    exact throwParseError_forgets _
  · intro _
    exact advance_forgets.bind fun _ => .pure

private theorem convert_forgets {result : Option α} {message : String} :
    Commutes (List.map Token.forget) ParseError.forget id (convert result token message)
      (convert result token.forget message) := by
  cases result with
  | some value => exact .pure
  | none => exact throwParseError_forgets _

theorem eraseArguments_eq_map (arguments : List Expression) :
    eraseArguments arguments = arguments.map eraseExpression := by
  induction arguments with
  | nil => rfl
  | cons argument arguments ih => exact congrArg (eraseExpression argument :: ·) ih

private theorem eraseArguments_append (arguments arguments' : List Expression) :
    eraseArguments (arguments ++ arguments') = eraseArguments arguments ++
      eraseArguments arguments' := by
  rw [eraseArguments_eq_map, eraseArguments_eq_map, eraseArguments_eq_map, List.map_append]

private theorem makeBinary_forgets {lhs rhs : Expression} :
    Commutes (List.map Token.forget) ParseError.forget eraseExpression (makeBinary lhs token rhs)
      (makeBinary (eraseExpression lhs) token.forget (eraseExpression rhs)) := by
  unfold makeBinary
  rw [Token.forget_kind]
  cases binaryOperator token.kind with
  | some operation => exact Commutes.pure
  | none => exact throwParseError_forgets _

private theorem parseBinary_forgets {operators : List TokenKind} {parseOperand : Parsing Expression}
    (operand : Forgets eraseExpression parseOperand) :
    Forgets eraseExpression (parseBinary operators parseOperand bound) := by
  apply operand.bind
  intro expression
  refine Commutes.repeatWhile checkAny_forgets (fun lhs => ?_) bound expression
  apply current_forgets.bind
  intro operatorToken
  apply advance_forgets.bind
  intro _
  exact operand.bind fun _ => makeBinary_forgets

section Expressions

variable {parsePrimary : Parsing Expression}

private theorem parseExpression_forgets (primary : Forgets eraseExpression parsePrimary) :
    Forgets eraseExpression (parseExpression parsePrimary bound) :=
  parseBinary_forgets (parseBinary_forgets (parseBinary_forgets primary))

private theorem parseArguments_forgets (primary : Forgets eraseExpression parsePrimary) :
    Forgets eraseArguments (parseArguments parsePrimary bound) := by
  apply check_forgets.bind
  intro closes
  apply Commutes.ite
  · intro _
    exact .pure
  · intro _
    apply (parseExpression_forgets primary).bind
    intro first
    refine Commutes.repeatWhile check_forgets (fun arguments => ?_) bound [first]
    apply advance_forgets.bind
    intro _
    apply (parseExpression_forgets primary).bind
    intro argument
    have erased := eraseArguments_append arguments [argument]
    exact erased ▸ .pure

private theorem parseIdentifierOrCall_forgets (primary : Forgets eraseExpression parsePrimary) :
    Forgets eraseExpression (parseIdentifierOrCall parsePrimary bound) := by
  apply consume_forgets.bind
  intro identifier
  apply check_forgets.bind
  intro opens
  apply Commutes.ite
  · intro _
    apply advance_forgets.bind
    intro _
    apply (parseArguments_forgets primary).bind
    intro arguments
    exact consume_forgets.bind fun _ => .pure
  · intro _
    exact .pure

end Expressions

private theorem parsePrimary_forgets : Forgets eraseExpression (parsePrimary stod bound) := by
  induction bound with
  | zero => exact .throw
  | succ bound ih =>
    apply current_forgets.bind
    intro token
    rw [Token.forget_kind]
    cases token.kind with
    | identifier => exact parseIdentifierOrCall_forgets ih
    | integerLiteral =>
      apply advance_forgets.bind
      intro _
      exact convert_forgets.bind fun _ => .pure
    | floatLiteral =>
      apply advance_forgets.bind
      intro _
      exact convert_forgets.bind fun _ => .pure
    | leftParen =>
      apply advance_forgets.bind
      intro _
      apply (parseExpression_forgets ih).bind
      intro expression
      exact consume_forgets.bind fun _ => .pure
    | _ => exact throwParseError_forgets _

private theorem parse_expression_forgets :
    Forgets eraseExpression (parseExpression (parsePrimary stod bound) bound) :=
  parseExpression_forgets parsePrimary_forgets

private theorem eraseStatements_eq_map (statements : List Statement) :
    eraseStatements statements = statements.map eraseStatement := by
  induction statements with
  | nil => rfl
  | cons statement statements ih => exact congrArg (eraseStatement statement :: ·) ih

private theorem eraseStatements_append (statements statements' : List Statement) :
    eraseStatements (statements ++ statements') = eraseStatements statements ++
      eraseStatements statements' := by
  rw [eraseStatements_eq_map, eraseStatements_eq_map, eraseStatements_eq_map, List.map_append]

private theorem parseDimension_forgets : Forgets id parseDimension :=
  consume_forgets.bind fun _ => convert_forgets

private theorem parseTensorType_forgets : Forgets id (parseTensorType bound) := by
  apply consume_forgets.bind
  intro elementType
  apply consume_forgets.bind
  intro _
  apply parseDimension_forgets.bind
  intro first
  have loop : Forgets id (repeatWhile .bound (check .comma) (fun dimensions => do
      advance
      let dimension ← parseDimension
      return dimensions ++ [dimension]) bound [first]) := by
    refine Commutes.repeatWhile check_forgets (fun dimensions => ?_) bound [first]
    apply advance_forgets.bind
    intro _
    apply parseDimension_forgets.bind
    intro dimension
    exact Commutes.pure
  apply loop.bind
  intro dimensions
  exact consume_forgets.bind fun _ => .pure

private theorem parseTensorDeclaration_forgets : Forgets eraseStatement (parseTensorDeclaration bound) := by
  apply consume_forgets.bind
  intro tensorToken
  apply consume_forgets.bind
  intro name
  apply consume_forgets.bind
  intro _
  exact parseTensorType_forgets.bind fun _ => .pure

private theorem parseAssignment_forgets : Forgets eraseStatement (parseAssignment stod bound) := by
  apply consume_forgets.bind
  intro target
  apply consume_forgets.bind
  intro _
  exact parse_expression_forgets.bind fun _ => .pure

private theorem parseReturnStatement_forgets :
    Forgets eraseStatement (parseReturnStatement stod bound) := by
  apply consume_forgets.bind
  intro returnToken
  exact parse_expression_forgets.bind fun _ => .pure

section Blocks

variable {parseStatement : Parsing Statement}

private theorem parseBlock_forgets (each : Forgets eraseStatement parseStatement) :
    Forgets eraseStatements (parseBlock parseStatement bound) := by
  apply consume_forgets.bind
  intro _
  have loop :
      Forgets eraseStatements (repeatWhile .bound (checkNot .rightBrace) (fun statements => do
      let token ← current
      if token.kind = .endOfFile then throwParseError token "expected '\x7d'"
      else do
        let statement ← parseStatement
        return statements ++ [statement]) bound []) := by
    refine Commutes.repeatWhile checkNot_forgets (fun statements => ?_) bound []
    apply current_forgets.bind
    intro token
    apply Commutes.ite
    · intro _
      exact throwParseError_forgets _
    · intro _
      apply each.bind
      intro statement
      have erased := eraseStatements_append statements [statement]
      exact erased ▸ .pure
  apply loop.bind
  intro statements
  exact consume_forgets.bind fun _ => .pure

private theorem parseIfStatement_forgets (each : Forgets eraseStatement parseStatement) :
    Forgets eraseStatement (parseIfStatement stod parseStatement bound) := by
  apply consume_forgets.bind
  intro ifToken
  apply parse_expression_forgets.bind
  intro condition
  apply (parseBlock_forgets each).bind
  intro thenStatements
  apply consume_forgets.bind
  intro _
  exact (parseBlock_forgets each).bind fun _ => .pure

end Blocks

private theorem parseStatement_forgets : Forgets eraseStatement (parseStatement stod bound) := by
  induction bound with
  | zero => exact .throw
  | succ bound ih =>
    apply current_forgets.bind
    intro token
    rw [Token.forget_kind]
    cases token.kind with
    | kwTensor => exact parseTensorDeclaration_forgets
    | kwReturn => exact parseReturnStatement_forgets
    | kwIf => exact parseIfStatement_forgets ih
    | identifier => exact parseAssignment_forgets
    | _ => exact throwParseError_forgets _

private theorem parseStatements_forgets : Forgets eraseStatements (parseStatements stod bound) := by
  refine Commutes.repeatWhile checkNot_forgets (fun statements => ?_) bound []
  apply parseStatement_forgets.bind
  intro statement
  have erased := eraseStatements_append statements [statement]
  exact erased ▸ .pure

/-- What the parser gives, without locations. -/
def withoutLocations (result : Except ParseError Program) : Except ParseError Program :=
  (result.map eraseLocations).mapError ParseError.forget

/-- The parser commutes with forgetting the locations of a whole file. -/
theorem parseProgram_forgets {sequence sequence' : TokenSequence}
    (same : sequence.all.map Token.form = sequence'.all.map Token.form) :
    withoutLocations (parseProgram stod sequence) =
      withoutLocations (parseProgram stod sequence') := by
  have forgotten (sequence : TokenSequence) (bound : Nat) :
      ((outcome (parseStatements stod bound) sequence.all).map eraseStatements).mapError
        ParseError.forget =
        outcome (parseStatements stod bound) (sequence.all.map Token.forget) :=
    (parseStatements_forgets.outcome sequence.all).symm
  have length : sequence.all.length = sequence'.all.length := by
    simpa using congrArg List.length same
  have program (sequence : TokenSequence) : withoutLocations (parseProgram stod sequence) =
      (outcome (parseStatements stod (sequence.all.length + 1)) (sequence.all.map Token.forget)).map
        Program.mk := by
    rw [← forgotten, parseProgram]
    cases outcome (parseStatements stod (sequence.all.length + 1)) sequence.all <;> rfl
  rw [program, program, length, map_forget_eq same]

/-- Sources of the same lexemes get the same tree, or the same message. -/
theorem parse_forgets {source source' : List Char}
    (same : (tokenize source).all.map Token.form = (tokenize source').all.map Token.form) :
    withoutLocations (parse stod source) = withoutLocations (parse stod source') :=
  parseProgram_forgets same

end Ocelotl.Frontend
