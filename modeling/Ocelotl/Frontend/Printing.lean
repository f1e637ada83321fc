import Ocelotl.Frontend.Grammar

namespace Ocelotl.Frontend

open Ast

structure Lexeme where
  kind : TokenKind
  text : String
  deriving DecidableEq, Repr

def Token.form (token : Token) : Lexeme := ⟨token.kind, token.lexeme⟩

/-- The text of the kinds that have only one. -/
def spelling : TokenKind → String
  | .kwTensor => "tensor"
  | .kwReturn => "return"
  | .kwIf => "if"
  | .kwElse => "else"
  | .colon => ":"
  | .comma => ","
  | .equal => "="
  | .equalEqual => "=="
  | .bangEqual => "!="
  | .plus => "+"
  | .minus => "-"
  | .star => "*"
  | .slash => "/"
  | .less => "<"
  | .lessEqual => "<="
  | .greater => ">"
  | .greaterEqual => ">="
  | .leftBracket => "["
  | .rightBracket => "]"
  | .leftParen => "("
  | .rightParen => ")"
  | .leftBrace => "\x7b"
  | .rightBrace => "\x7d"
  | .endOfFile | .identifier | .integerLiteral | .floatLiteral | .unknown => ""

def fixed (kind : TokenKind) : Lexeme := ⟨kind, spelling kind⟩

def name (identifier : String) : Lexeme := ⟨.identifier, identifier⟩

def numeral (number : Nat) : Lexeme := ⟨.integerLiteral, number.repr⟩

def operatorKind : BinaryOperator → TokenKind
  | .add => .plus
  | .subtract => .minus
  | .multiply => .star
  | .divide => .slash
  | .equal => .equalEqual
  | .notEqual => .bangEqual
  | .less => .less
  | .lessEqual => .lessEqual
  | .greater => .greater
  | .greaterEqual => .greaterEqual

def operatorLevel : BinaryOperator → Level
  | .multiply | .divide => .multiplicative
  | .add | .subtract => .additive
  | .equal | .notEqual | .less | .lessEqual | .greater | .greaterEqual => .comparison

def parenthesise (needed : Prop) [Decidable needed] (lexemes : List Lexeme) : List Lexeme :=
  if needed then fixed .leftParen :: (lexemes ++ [fixed .rightParen]) else lexemes

mutual

/-- An expression where one of this level is expected. Looser operators need
parentheses, and so do right operands of the same level. -/
def printExpression : Level → Expression → List Lexeme
  | _, .identifier identifier _ => [name identifier]
  | _, .integer value _ => [numeral value.toNat]
  | _, .call callee arguments _ =>
    name callee :: fixed .leftParen :: (printArguments arguments ++ [fixed .rightParen])
  | level, .binary op lhs rhs _ =>
    parenthesise (level.rank < (operatorLevel op).rank)
      (printExpression (operatorLevel op) lhs ++
        fixed (operatorKind op) :: printExpression (operatorLevel op).operand rhs)
  | _, .float _ _ | _, .nullCall | _, .nullBinary => []

def printArguments : List Expression → List Lexeme
  | [] => []
  | argument :: arguments => printExpression .comparison argument ++ printMoreArguments arguments

def printMoreArguments : List Expression → List Lexeme
  | [] => []
  | argument :: arguments =>
    fixed .comma :: (printExpression .comparison argument ++ printMoreArguments arguments)

end

def printMoreDimensions : List Nat → List Lexeme
  | [] => []
  | dimension :: dimensions => fixed .comma :: numeral dimension :: printMoreDimensions dimensions

def printType (type : TensorType) : List Lexeme :=
  match type.shape with
  | [] => []
  | dimension :: dimensions =>
    name type.elementType :: fixed .leftBracket :: numeral dimension ::
      (printMoreDimensions dimensions ++ [fixed .rightBracket])

mutual

def printStatement : Statement → List Lexeme
  | .tensorDecl declaration =>
    fixed .kwTensor :: name declaration.name :: fixed .colon :: printType declaration.type
  | .assignment assignment =>
    name assignment.target :: fixed .equal :: printExpression .comparison assignment.value
  | .returnStmt returnStatement =>
    fixed .kwReturn :: printExpression .comparison returnStatement.value
  | .ifStmt condition thenStatements elseStatements _ =>
    fixed .kwIf :: (printExpression .comparison condition ++
      (fixed .leftBrace :: (printStatements thenStatements ++ [fixed .rightBrace]) ++
        fixed .kwElse :: fixed .leftBrace ::
          (printStatements elseStatements ++ [fixed .rightBrace])))
  | .nullIf => []

def printStatements : List Statement → List Lexeme
  | [] => []
  | statement :: statements => printStatement statement ++ printStatements statements

end

def printProgram (program : Program) : List Lexeme := printStatements program.statements

/-- The identifiers of the lexer that are not keywords. -/
structure IsIdentifier (identifier : String) : Prop where
  starts : ∃ first more, identifier.toList = first :: more ∧ Lexer.startsIdentifier first = true
  continues : ∀ current ∈ identifier.toList, Lexer.continuesIdentifier current = true
  notKeyword : Lexer.keywordKind identifier = .identifier

mutual

/-- An expression without null pointers and floats, whose names are identifiers
and whose integers are literals. -/
def ExpressionPrintable : Expression → Prop
  | .identifier identifier _ => IsIdentifier identifier
  | .integer value _ => value.toNat ≤ 2 ^ 63 - 1
  | .call callee arguments _ => IsIdentifier callee ∧ ArgumentsPrintable arguments
  | .binary _ lhs rhs _ => ExpressionPrintable lhs ∧ ExpressionPrintable rhs
  | .float _ _ | .nullCall | .nullBinary => False

def ArgumentsPrintable : List Expression → Prop
  | [] => True
  | argument :: arguments => ExpressionPrintable argument ∧ ArgumentsPrintable arguments

end

/-- A shape that is not empty, of dimensions of 64 bits. -/
structure TypePrintable (type : TensorType) : Prop where
  elementType : IsIdentifier type.elementType
  shape : type.shape ≠ []
  dimensions : ∀ dimension ∈ type.shape, dimension ≤ 2 ^ 64 - 1

mutual

def StatementPrintable : Statement → Prop
  | .tensorDecl declaration => IsIdentifier declaration.name ∧ TypePrintable declaration.type
  | .assignment assignment => IsIdentifier assignment.target ∧ ExpressionPrintable assignment.value
  | .returnStmt returnStatement => ExpressionPrintable returnStatement.value
  | .ifStmt condition thenStatements elseStatements _ =>
    ExpressionPrintable condition ∧ StatementsPrintable thenStatements ∧
      StatementsPrintable elseStatements
  | .nullIf => False

def StatementsPrintable : List Statement → Prop
  | [] => True
  | statement :: statements => StatementPrintable statement ∧ StatementsPrintable statements

end

def Printable (program : Program) : Prop := StatementsPrintable program.statements

/-- The lexer would go on reading a lexeme of this kind. -/
def goesOn (kind : TokenKind) (next : Char) : Bool :=
  match kind with
  | .identifier | .kwTensor | .kwReturn | .kwIf | .kwElse => Lexer.continuesIdentifier next
  | .integerLiteral => next.isDigit || next = '.'
  | .equal | .less | .greater => next = '='
  | _ => false

/-- The text spells the lexemes. There may be whitespace before each and after
the last, and there must be some where two would be read as one. -/
inductive Spells : List Lexeme → List Char → Prop where
  | nil {gap : List Char} (white : ∀ current ∈ gap, Lexer.isWhitespace current = true) :
    Spells [] gap
  | cons {gap text : List Char} {lexeme : Lexeme} {lexemes : List Lexeme}
    (white : ∀ current ∈ gap, Lexer.isWhitespace current = true) (later : Spells lexemes text)
    (apart : ∀ next ∈ text.head?, goesOn lexeme.kind next = false) :
    Spells (lexeme :: lexemes) (gap ++ (lexeme.text.toList ++ text))

mutual

def eraseExpression : Expression → Expression
  | .identifier identifier _ => .identifier identifier {}
  | .integer value _ => .integer value {}
  | .float value _ => .float value {}
  | .call callee arguments _ => .call callee (eraseArguments arguments) {}
  | .nullCall => .nullCall
  | .binary op lhs rhs _ => .binary op (eraseExpression lhs) (eraseExpression rhs) {}
  | .nullBinary => .nullBinary

def eraseArguments : List Expression → List Expression
  | [] => []
  | argument :: arguments => eraseExpression argument :: eraseArguments arguments

end

mutual

def eraseStatement : Statement → Statement
  | .tensorDecl declaration => .tensorDecl ⟨declaration.name, declaration.type, {}⟩
  | .assignment assignment => .assignment ⟨assignment.target, eraseExpression assignment.value, {}⟩
  | .returnStmt returnStatement => .returnStmt ⟨eraseExpression returnStatement.value, {}⟩
  | .ifStmt condition thenStatements elseStatements _ =>
    .ifStmt (eraseExpression condition) (eraseStatements thenStatements)
      (eraseStatements elseStatements) {}
  | .nullIf => .nullIf

def eraseStatements : List Statement → List Statement
  | [] => []
  | statement :: statements => eraseStatement statement :: eraseStatements statements

end

/-- The same program without its source locations. -/
def eraseLocations (program : Program) : Program := ⟨eraseStatements program.statements⟩

end Ocelotl.Frontend
