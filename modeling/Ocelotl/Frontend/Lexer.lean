import Ocelotl.Frontend.Token

namespace Ocelotl.Frontend

/-- The rest of the source, and where it starts. -/
structure Lexer where
  remaining : List Char
  location : SourceLocation := {}

namespace Lexer

/-- The location after this character. -/
def after (location : SourceLocation) (current : Char) : SourceLocation :=
  if current = '\n' then ⟨location.line + 1, 1, location.offset + 1⟩
  else ⟨location.line, location.column + 1, location.offset + 1⟩

def peek (lexer : Lexer) : Char := lexer.remaining.headD '\x00'

def peekNext (lexer : Lexer) : Char := lexer.remaining.tail.headD '\x00'

def advance (lexer : Lexer) : Lexer :=
  match lexer.remaining with
  | [] => lexer
  | current :: remaining => ⟨remaining, after lexer.location current⟩

/-- The loop that advances while characters are accepted, and what it reads. It
stops at the end, where `peek` gives a character that no caller accepts. -/
def advanceWhile (accepts : Char → Bool) : List Char → SourceLocation → List Char × Lexer
  | [], location => ([], ⟨[], location⟩)
  | current :: remaining, location =>
    if accepts current then
      let (read, lexer) := advanceWhile accepts remaining (after location current)
      (current :: read, lexer)
    else ([], ⟨current :: remaining, location⟩)

def isWhitespace (current : Char) : Bool :=
  current = ' ' || current = '\t' || current = '\r' || current = '\n'

def skipWhitespace (lexer : Lexer) : Lexer :=
  (advanceWhile isWhitespace lexer.remaining lexer.location).2

/-- Characters inside identifiers. -/
def continuesIdentifier (current : Char) : Bool := current.isAlphanum || current = '_'

def startsIdentifier (current : Char) : Bool := current.isAlpha || current = '_'

def keywordKind (lexeme : String) : TokenKind :=
  if lexeme = "tensor" then .kwTensor
  else if lexeme = "return" then .kwReturn
  else if lexeme = "if" then .kwIf
  else if lexeme = "else" then .kwElse
  else .identifier

theorem keywordKind_ne_integerLiteral (lexeme : String) : keywordKind lexeme ≠ .integerLiteral := by
  unfold keywordKind
  repeat' split
  all_goals decide

def lexIdentifierOrKeyword (start : Lexer) : Token × Lexer :=
  let (read, lexer) := advanceWhile continuesIdentifier start.remaining start.location
  let lexeme := String.ofList read
  (⟨keywordKind lexeme, lexeme, start.location,
    fun same => absurd same (keywordKind_ne_integerLiteral lexeme)⟩, lexer)

private theorem advanceWhile_accepts {accepts : Char → Bool} {remaining : List Char}
    {location : SourceLocation} :
    ∀ current ∈ (advanceWhile accepts remaining location).1, accepts current = true := by
  induction remaining generalizing location with
  | nil => exact List.forall_mem_nil _
  | cons first remaining ih =>
    intro current member
    rw [advanceWhile] at member
    split at member
    · rename_i accepted
      rcases List.mem_cons.mp member with rfl | later
      · exact accepted
      · exact ih current later
    · cases member

private theorem advanceWhile_ne_nil {accepts : Char → Bool} {lexer : Lexer}
    (absent : accepts '\x00' = false) (first : accepts lexer.peek = true) :
    (advanceWhile accepts lexer.remaining lexer.location).1 ≠ [] := by
  obtain ⟨remaining, location⟩ := lexer
  cases remaining with
  | nil => exact absurd (absent.symm.trans first) Bool.false_ne_true
  | cons current remaining =>
    have first : accepts current = true := first
    rw [advanceWhile, if_pos first]
    exact List.cons_ne_nil _ _

/-- The current character is a digit. -/
def lexNumber (start : Lexer) (digit : start.peek.isDigit = true) : Token × Lexer :=
  let number := advanceWhile Char.isDigit start.remaining start.location
  if number.2.peek = '.' && number.2.peekNext.isDigit then
    let fraction := advanceWhile Char.isDigit number.2.advance.remaining number.2.advance.location
    (⟨.floatLiteral, String.ofList (number.1 ++ '.' :: fraction.1), start.location,
      fun same => absurd same (by decide)⟩, fraction.2)
  else
    (⟨.integerLiteral, String.ofList number.1, start.location, fun _ => by
      constructor
      · rw [String.toList_ofList]
        exact advanceWhile_ne_nil rfl digit
      · rw [String.toList_ofList]
        exact advanceWhile_accepts⟩, number.2)

/-- A token of one character. -/
def single (start : Lexer) (current : Char) (kind : TokenKind) (other : kind ≠ .integerLiteral) :
    Token × Lexer :=
  (⟨kind, String.ofList [current], start.location, fun same => absurd same other⟩, start.advance)

/-- A token of two characters, if `=` follows. -/
def withEqual (start : Lexer) (current : Char) (kind : TokenKind) (alone : TokenKind)
    (other : kind ≠ .integerLiteral) (otherAlone : alone ≠ .integerLiteral) : Token × Lexer :=
  if start.advance.peek = '=' then
    (⟨kind, String.ofList [current, '='], start.location, fun same => absurd same other⟩,
      start.advance.advance)
  else single start current alone otherAlone

/-- The switch over the characters that start neither a name nor a number. -/
def lexSymbol (start : Lexer) (current : Char) : Token × Lexer :=
  match current with
  | ':' => single start current .colon (by decide)
  | ',' => single start current .comma (by decide)
  | '=' => withEqual start current .equalEqual .equal (by decide) (by decide)
  | '!' => withEqual start current .bangEqual .unknown (by decide) (by decide)
  | '+' => single start current .plus (by decide)
  | '-' => single start current .minus (by decide)
  | '*' => single start current .star (by decide)
  | '/' => single start current .slash (by decide)
  | '<' => withEqual start current .lessEqual .less (by decide) (by decide)
  | '>' => withEqual start current .greaterEqual .greater (by decide) (by decide)
  | '[' => single start current .leftBracket (by decide)
  | ']' => single start current .rightBracket (by decide)
  | '(' => single start current .leftParen (by decide)
  | ')' => single start current .rightParen (by decide)
  | '{' => single start current .leftBrace (by decide)
  | '}' => single start current .rightBrace (by decide)
  | _ => single start current .unknown (by decide)

def nextToken (lexer : Lexer) : Token × Lexer :=
  let start := lexer.skipWhitespace
  if start.remaining = [] then (.endOfFile start.location, start)
  else if startsIdentifier start.peek then lexIdentifierOrKeyword start
  else if digit : start.peek.isDigit then lexNumber start digit
  else lexSymbol start start.peek

/-- The tokens from here to the end of the file. The bound is on their number. -/
def tokensFrom : Nat → Lexer → TokenSequence
  | 0, lexer => ⟨[], .endOfFile lexer.location, rfl, List.forall_mem_nil _⟩
  | bound + 1, lexer =>
    if ends : lexer.nextToken.1.kind = .endOfFile then
      ⟨[], lexer.nextToken.1, ends, List.forall_mem_nil _⟩
    else
      let rest := tokensFrom bound lexer.nextToken.2
      ⟨lexer.nextToken.1 :: rest.tokens, rest.ending, rest.ends, fun token member =>
        (List.mem_cons.mp member).elim (fun same => same ▸ ends) (rest.continues token)⟩

end Lexer

/-- What the lexer gives for a source text. Every token takes a character. -/
def tokenize (source : List Char) : TokenSequence :=
  Lexer.tokensFrom (source.length + 1) ⟨source, {}⟩

end Ocelotl.Frontend
