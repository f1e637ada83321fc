import Mathlib.Algebra.Ring.Nat
import Ocelotl.Frontend.Lexer
import Ocelotl.Library.Parsing

namespace Ocelotl.Frontend

open Ast Library

/-- What the parser throws. The loops and the recursion carry a bound, which the
number of tokens never exceeds; reaching it is no exception of the source. -/
inductive ParseError where
  | parse (location : SourceLocation) (message : String)
  | bound
  deriving DecidableEq, Repr

def ParseError.text : ParseError → String
  | .parse location message =>
    toString location.line ++ ":" ++ toString location.column ++ ": parse error: " ++ message
  | .bound => ""

/-- The state holds the tokens that are left, the current one first. -/
abbrev Parsing := EStateM ParseError (List Token)

/-- The lexer repeats the end of the file, which is never passed. -/
def currentOf (tokens : List Token) : Token := tokens.headD (.endOfFile {})

def current : Parsing Token := do
  let tokens ← get
  return currentOf tokens

def advance : Parsing Unit := modify List.tail

def check (kind : TokenKind) : Parsing Bool := do
  let token ← current
  return token.kind = kind

def checkNot (kind : TokenKind) : Parsing Bool := do
  let present ← check kind
  return !present

def throwParseError {α : Type} (token : Token) (message : String) : Parsing α :=
  throw (.parse token.location message)

def consume (kind : TokenKind) (expectation : String) : Parsing Token := do
  let token ← current
  if token.kind ≠ kind then
    throwParseError token ("expected " ++ expectation ++ ", found '" ++ token.lexeme ++ "'")
  else do
    advance
    return token

/-- `std::stoll` on a numeral. -/
def stoll (numeral : String) : Option (BitVec 64) :=
  if decimal numeral ≤ 2 ^ 63 - 1 then some (BitVec.ofNat 64 (decimal numeral)) else none

/-- `std::stoull` on a numeral. -/
def stoull (numeral : String) : Option Nat :=
  if decimal numeral ≤ 2 ^ 64 - 1 then some (decimal numeral) else none

/-- `try { return convert(token.lexeme); } catch (...) { throwParseError(token, message); }` -/
def convert {α : Type} (result : Option α) (token : Token) (message : String) : Parsing α :=
  match result with
  | some value => return value
  | none => throwParseError token message

def binaryOperator : TokenKind → Option BinaryOperator
  | .plus => some .add
  | .minus => some .subtract
  | .star => some .multiply
  | .slash => some .divide
  | .equalEqual => some .equal
  | .bangEqual => some .notEqual
  | .less => some .less
  | .lessEqual => some .lessEqual
  | .greater => some .greater
  | .greaterEqual => some .greaterEqual
  | _ => none

def makeBinary (lhs : Expression) (operatorToken : Token) (rhs : Expression) : Parsing Expression :=
  match binaryOperator operatorToken.kind with
  | some operation => return .binary operation lhs rhs operatorToken.location
  | none => throwParseError operatorToken "expected binary operator"

def checkAny (kinds : List TokenKind) : Parsing Bool := do
  let token ← current
  return kinds.contains token.kind

/-- The loop of the three binary levels: one operand, and then operators of the
level with an operand each. -/
def parseBinary (operators : List TokenKind) (parseOperand : Parsing Expression) (bound : Nat) :
    Parsing Expression := do
  let expression ← parseOperand
  repeatWhile .bound (checkAny operators) (fun expression => do
    let operatorToken ← current
    advance
    let rhs ← parseOperand
    makeBinary expression operatorToken rhs) bound expression

section Expressions

-- Primary expressions one level of parentheses deeper call these functions again.
variable (parsePrimary : Parsing Expression) (bound : Nat)

def parseMultiplicative : Parsing Expression := parseBinary [.star, .slash] parsePrimary bound

def parseAdditive : Parsing Expression :=
  parseBinary [.plus, .minus] (parseMultiplicative parsePrimary bound) bound

def parseComparison : Parsing Expression :=
  parseBinary [.equalEqual, .bangEqual, .less, .lessEqual, .greater, .greaterEqual]
    (parseAdditive parsePrimary bound) bound

def parseExpression : Parsing Expression := parseComparison parsePrimary bound

/-- The arguments of a call up to its closing parenthesis. -/
def parseArguments : Parsing (List Expression) := do
  if ← check .rightParen then return []
  else do
    let first ← parseExpression parsePrimary bound
    repeatWhile .bound (check .comma) (fun arguments => do
      advance
      let argument ← parseExpression parsePrimary bound
      return arguments ++ [argument]) bound [first]

def parseIdentifierOrCall : Parsing Expression := do
  let identifier ← consume .identifier "identifier"
  if ← check .leftParen then do
    advance
    let arguments ← parseArguments parsePrimary bound
    let _ ← consume .rightParen "')'"
    return .call identifier.lexeme arguments identifier.location
  else return .identifier identifier.lexeme identifier.location

end Expressions

variable (stod : String → Option Double)

/-- The library's `stod` is a parameter: it gives a number or throws. -/
def parsePrimary : Nat → Parsing Expression
  | 0 => throw .bound
  | bound + 1 => do
    let token ← current
    match token.kind with
    | .identifier => parseIdentifierOrCall (parsePrimary bound) bound
    | .integerLiteral => do
      advance
      let value ← convert (stoll token.lexeme) token "invalid integer literal"
      return .integer value token.location
    | .floatLiteral => do
      advance
      let value ← convert (stod token.lexeme) token "invalid floating-point literal"
      return .float value token.location
    | .leftParen => do
      advance
      let expression ← parseExpression (parsePrimary bound) bound
      let _ ← consume .rightParen "')'"
      return expression
    | _ => throwParseError token "expected expression"

def parseDimension : Parsing Nat := do
  let dimension ← consume .integerLiteral "tensor dimension"
  convert (stoull dimension.lexeme) dimension "invalid tensor dimension"

def parseTensorType (bound : Nat) : Parsing TensorType := do
  let elementType ← consume .identifier "element type"
  let _ ← consume .leftBracket "'['"
  let first ← parseDimension
  let dimensions ← repeatWhile .bound (check .comma) (fun dimensions => do
    advance
    let dimension ← parseDimension
    return dimensions ++ [dimension]) bound [first]
  let _ ← consume .rightBracket "']'"
  return ⟨elementType.lexeme, dimensions⟩

def parseTensorDeclaration (bound : Nat) : Parsing Statement := do
  let tensorToken ← consume .kwTensor "'tensor'"
  let name ← consume .identifier "tensor name"
  let _ ← consume .colon "':'"
  let type ← parseTensorType bound
  return .tensorDecl ⟨name.lexeme, type, tensorToken.location⟩

def parseAssignment (bound : Nat) : Parsing Statement := do
  let target ← consume .identifier "assignment target"
  let _ ← consume .equal "'='"
  let value ← parseExpression (parsePrimary stod bound) bound
  return .assignment ⟨target.lexeme, value, target.location⟩

def parseReturnStatement (bound : Nat) : Parsing Statement := do
  let returnToken ← consume .kwReturn "'return'"
  let value ← parseExpression (parsePrimary stod bound) bound
  return .returnStmt ⟨value, returnToken.location⟩

section Blocks

variable (parseStatement : Parsing Statement) (bound : Nat)

def parseBlock : Parsing (List Statement) := do
  let _ ← consume .leftBrace "'\x7b'"
  let statements ← repeatWhile .bound (checkNot .rightBrace) (fun statements => do
    let token ← current
    if token.kind = .endOfFile then throwParseError token "expected '\x7d'"
    else do
      let statement ← parseStatement
      return statements ++ [statement]) bound []
  let _ ← consume .rightBrace "'\x7d'"
  return statements

def parseIfStatement : Parsing Statement := do
  let ifToken ← consume .kwIf "'if'"
  let condition ← parseExpression (parsePrimary stod bound) bound
  let thenStatements ← parseBlock parseStatement bound
  let _ ← consume .kwElse "'else'"
  let elseStatements ← parseBlock parseStatement bound
  return .ifStmt condition thenStatements elseStatements ifToken.location

end Blocks

def parseStatement : Nat → Parsing Statement
  | 0 => throw .bound
  | bound + 1 => do
    let token ← current
    match token.kind with
    | .kwTensor => parseTensorDeclaration bound
    | .kwReturn => parseReturnStatement stod bound
    | .kwIf => parseIfStatement stod (parseStatement bound) bound
    | .identifier => parseAssignment stod bound
    | .unknown => throwParseError token ("unknown token '" ++ token.lexeme ++ "'")
    | _ => throwParseError token "expected statement"

/-- The loop of `parseProgram`, with a bound. -/
def parseStatements (bound : Nat) : Parsing (List Statement) :=
  repeatWhile .bound (checkNot .endOfFile) (fun statements => do
    let statement ← parseStatement stod bound
    return statements ++ [statement]) bound []

/-- Each token is read once, so their number bounds the loops and the recursion. -/
def parseProgram (sequence : TokenSequence) : Except ParseError Program := do
  let statements ← outcome (parseStatements stod (sequence.all.length + 1)) sequence.all
  return ⟨statements⟩

/-- A source text, through the lexer and the parser. -/
def parse (source : List Char) : Except ParseError Program := parseProgram stod (tokenize source)

/-- `parsePrimary` with its recursive calls as a parameter. -/
def parsePrimaryWith (bound : Nat) (parsePrimary : Parsing Expression) : Parsing Expression := do
  let token ← current
  match token.kind with
  | .identifier => parseIdentifierOrCall parsePrimary bound
  | .integerLiteral => do
    advance
    let value ← convert (stoll token.lexeme) token "invalid integer literal"
    return .integer value token.location
  | .floatLiteral => do
    advance
    let value ← convert (stod token.lexeme) token "invalid floating-point literal"
    return .float value token.location
  | .leftParen => do
    advance
    let expression ← parseExpression parsePrimary bound
    let _ ← consume .rightParen "')'"
    return expression
  | _ => throwParseError token "expected expression"

/-- `parseStatement` with its recursive calls as a parameter. -/
def parseStatementWith (bound : Nat) (parseStatement : Parsing Statement) : Parsing Statement := do
  let token ← current
  match token.kind with
  | .kwTensor => parseTensorDeclaration bound
  | .kwReturn => parseReturnStatement stod bound
  | .kwIf => parseIfStatement stod parseStatement bound
  | .identifier => parseAssignment stod bound
  | .unknown => throwParseError token ("unknown token '" ++ token.lexeme ++ "'")
  | _ => throwParseError token "expected statement"

theorem parsePrimary_succ (bound : Nat) :
    parsePrimary stod (bound + 1) = parsePrimaryWith stod bound (parsePrimary stod bound) := by
  rw [parsePrimary, parsePrimaryWith]

theorem parseStatement_succ (bound : Nat) :
    parseStatement stod (bound + 1) =
      parseStatementWith stod bound (parseStatement stod bound) := by
  rw [parseStatement, parseStatementWith]

end Ocelotl.Frontend
