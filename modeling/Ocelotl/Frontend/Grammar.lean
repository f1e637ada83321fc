import Ocelotl.Frontend.Parser

/-! The documented grammar, with the syntax tree of each derivation. The three
binary levels share their rules. -/

namespace Ocelotl.Frontend

open Ast Library

/-- From the tightest to the loosest. -/
inductive Level where
  | primary | multiplicative | additive | comparison
  deriving DecidableEq, Repr

namespace Level

def operators : Level → List TokenKind
  | primary => []
  | multiplicative => [.star, .slash]
  | additive => [.plus, .minus]
  | comparison => [.equalEqual, .bangEqual, .less, .lessEqual, .greater, .greaterEqual]

/-- The level of the operands of a binary level. -/
def operand : Level → Level
  | primary | multiplicative => primary
  | additive => multiplicative
  | comparison => additive

/-- Looser levels have higher ranks. -/
def rank : Level → Nat
  | primary => 0
  | multiplicative => 1
  | additive => 2
  | comparison => 3

theorem rank_operand {level : Level} (isBinary : level ≠ primary) :
    level.operand.rank + 1 = level.rank := by
  cases level with
  | primary => exact absurd rfl isBinary
  | multiplicative | additive | comparison => rfl

end Level

variable (stod : String → Option Double)

mutual

/-- The tokens are derivable as an expression of this level. -/
inductive Derives : Level → List Token → Expression → Prop where
  | identifier {token : Token} (isIdentifier : token.kind = .identifier) :
    Derives .primary [token] (.identifier token.lexeme token.location)
  | integer {token : Token} (isInteger : token.kind = .integerLiteral)
    (fits : decimal token.lexeme ≤ 2 ^ 63 - 1) :
    Derives .primary [token] (.integer (BitVec.ofNat 64 (decimal token.lexeme)) token.location)
  | float {token : Token} {number : Double} (isFloat : token.kind = .floatLiteral)
    (accepted : stod token.lexeme = some number) :
    Derives .primary [token] (.float number token.location)
  | call {name opening closing : Token} {reads : List Token} {values : List Expression}
    (isIdentifier : name.kind = .identifier) (opens : opening.kind = .leftParen)
    (arguments : Arguments reads values) (closes : closing.kind = .rightParen) :
    Derives .primary (name :: opening :: (reads ++ [closing]))
      (.call name.lexeme values name.location)
  | parentheses {opening closing : Token} {reads : List Token} {expression : Expression}
    (opens : opening.kind = .leftParen) (inner : Derives .comparison reads expression)
    (closes : closing.kind = .rightParen) :
    Derives .primary (opening :: (reads ++ [closing])) expression
  | binary {level : Level} {first rest : List Token} {lhs expression : Expression}
    (isBinary : level ≠ .primary) (operand : Derives level.operand first lhs)
    (operators : Operators level lhs rest expression) : Derives level (first ++ rest) expression

/-- Operators of the level, each with an operand, after an expression. They
associate to the left. -/
inductive Operators : Level → Expression → List Token → Expression → Prop where
  | none {level : Level} {expression : Expression} : Operators level expression [] expression
  | operator {level : Level} {token : Token} {op : BinaryOperator} {lhs rhs expression : Expression}
    {first rest : List Token} (isOperator : token.kind ∈ level.operators)
    (denotes : binaryOperator token.kind = some op) (operand : Derives level.operand first rhs)
    (later : Operators level (.binary op lhs rhs token.location) rest expression) :
    Operators level lhs (token :: (first ++ rest)) expression

inductive Arguments : List Token → List Expression → Prop where
  | none : Arguments [] []
  | some {first rest : List Token} {value : Expression} {values : List Expression}
    (argument : Derives .comparison first value) (later : MoreArguments rest values) :
    Arguments (first ++ rest) (value :: values)

inductive MoreArguments : List Token → List Expression → Prop where
  | none : MoreArguments [] []
  | comma {token : Token} {first rest : List Token} {value : Expression} {values : List Expression}
    (isComma : token.kind = .comma) (argument : Derives .comparison first value)
    (later : MoreArguments rest values) : MoreArguments (token :: (first ++ rest)) (value :: values)

end

/-- A dimension that fits into 64 bits. -/
structure Dimension (token : Token) (value : Nat) : Prop where
  isInteger : token.kind = .integerLiteral
  denotes : decimal token.lexeme = value
  fits : value ≤ 2 ^ 64 - 1

inductive MoreDimensions : List Token → List Nat → Prop where
  | none : MoreDimensions [] []
  | comma {comma token : Token} {value : Nat} {rest : List Token} {values : List Nat}
    (isComma : comma.kind = .comma) (dimension : Dimension token value)
    (later : MoreDimensions rest values) : MoreDimensions (comma :: token :: rest) (value :: values)

inductive DerivesType : List Token → TensorType → Prop where
  | type {name opening token closing : Token} {value : Nat} {rest : List Token} {values : List Nat}
    (isIdentifier : name.kind = .identifier) (opens : opening.kind = .leftBracket)
    (dimension : Dimension token value) (later : MoreDimensions rest values)
    (closes : closing.kind = .rightBracket) :
    DerivesType (name :: opening :: token :: (rest ++ [closing])) ⟨name.lexeme, value :: values⟩

mutual

/-- The tokens are derivable as a statement. -/
inductive DerivesStatement : List Token → Statement → Prop where
  | tensorDeclaration {tensorToken name colon : Token} {read : List Token} {type : TensorType}
    (isTensor : tensorToken.kind = .kwTensor) (isIdentifier : name.kind = .identifier)
    (isColon : colon.kind = .colon) (derives : DerivesType read type) :
    DerivesStatement (tensorToken :: name :: colon :: read)
      (.tensorDecl ⟨name.lexeme, type, tensorToken.location⟩)
  | assignment {target equal : Token} {read : List Token} {value : Expression}
    (isIdentifier : target.kind = .identifier) (isEqual : equal.kind = .equal)
    (derives : Derives stod .comparison read value) :
    DerivesStatement (target :: equal :: read) (.assignment ⟨target.lexeme, value, target.location⟩)
  | returnStmt {returnToken : Token} {read : List Token} {value : Expression}
    (isReturn : returnToken.kind = .kwReturn) (derives : Derives stod .comparison read value) :
    DerivesStatement (returnToken :: read) (.returnStmt ⟨value, returnToken.location⟩)
  | ifStmt {ifToken elseToken : Token} {read thenRead elseRead : List Token}
    {condition : Expression}
    {thenStatements elseStatements : List Statement} (isIf : ifToken.kind = .kwIf)
    (derives : Derives stod .comparison read condition)
    (thenBlock : DerivesBlock thenRead thenStatements)
    (isElse : elseToken.kind = .kwElse) (elseBlock : DerivesBlock elseRead elseStatements) :
    DerivesStatement (ifToken :: (read ++ (thenRead ++ elseToken :: elseRead)))
      (.ifStmt condition thenStatements elseStatements ifToken.location)

inductive DerivesBlock : List Token → List Statement → Prop where
  | block {opening closing : Token} {reads : List Token} {statements : List Statement}
    (opens : opening.kind = .leftBrace) (inner : DerivesStatements reads statements)
    (closes : closing.kind = .rightBrace) :
      DerivesBlock (opening :: (reads ++ [closing])) statements

/-- Statements stand next to each other without a separator. -/
inductive DerivesStatements : List Token → List Statement → Prop where
  | none : DerivesStatements [] []
  | statement {first rest : List Token} {statement : Statement} {statements : List Statement}
    (derives : DerivesStatement first statement) (later : DerivesStatements rest statements) :
    DerivesStatements (first ++ rest) (statement :: statements)

end

/-- The tokens are derivable as a program. -/
def DerivesProgram (tokens : List Token) (program : Program) : Prop :=
  DerivesStatements stod tokens program.statements

end Ocelotl.Frontend
