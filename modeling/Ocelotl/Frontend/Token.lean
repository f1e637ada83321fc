import Ocelotl.Ast

namespace Ocelotl.Frontend

inductive TokenKind where
  | endOfFile
  | identifier
  | integerLiteral | floatLiteral
  | kwTensor | kwReturn | kwIf | kwElse
  | colon | comma | equal | equalEqual | bangEqual
  | plus | minus | star | slash | less | lessEqual | greater | greaterEqual
  | leftBracket | rightBracket | leftParen | rightParen | leftBrace | rightBrace
  | unknown
  deriving DecidableEq, Repr

/-- One or more decimal digits. -/
def IsNumeral (lexeme : String) : Prop :=
  lexeme.toList ≠ [] ∧ ∀ digit ∈ lexeme.toList, digit.isDigit = true

theorem isNumeral_of_all {lexeme : String} (nonempty : lexeme.toList ≠ [])
    (all : lexeme.toList.all Char.isDigit = true) :
    IsNumeral lexeme := ⟨nonempty, List.all_eq_true.mp all⟩

/-- The number that a numeral denotes. -/
def decimal (numeral : String) : Nat := Nat.ofDigitChars 10 numeral.toList 0

structure Token where
  kind : TokenKind
  lexeme : String
  location : SourceLocation
  numeral : kind = .integerLiteral → IsNumeral lexeme

/-- The end of the file, where it is. -/
def Token.endOfFile (location : SourceLocation) : Token :=
  ⟨.endOfFile, "", location, fun same => absurd same (by decide)⟩

/-- Tokens up to the end of the file, which comes once and last. -/
structure TokenSequence where
  tokens : List Token
  ending : Token
  ends : ending.kind = .endOfFile
  continues : ∀ token ∈ tokens, token.kind ≠ .endOfFile

/-- All tokens, with the end of the file. -/
def TokenSequence.all (sequence : TokenSequence) : List Token :=
  sequence.tokens ++ [sequence.ending]

end Ocelotl.Frontend
