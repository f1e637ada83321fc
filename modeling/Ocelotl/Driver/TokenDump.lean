import Ocelotl.Frontend.SourceMap
import Ocelotl.Library.Delimited
import Mathlib.Data.List.Nodup

namespace Ocelotl.Frontend

def TokenKind.toString : TokenKind → String
  | .endOfFile => "eof"
  | .identifier => "identifier"
  | .integerLiteral => "integer_literal"
  | .floatLiteral => "float_literal"
  | .kwTensor => "tensor"
  | .kwReturn => "return"
  | .kwIf => "if"
  | .kwElse => "else"
  | .colon => ":"
  | .comma => ","
  | .equal => "="
  | .equalEqual => "=="
  | .bangEqual => "!="
  | .plus => "+"
  | .minus => "-"
  | .star => "*"
  | .slash => "/"
  | .less => "<"
  | .lessEqual => "<="
  | .greater => ">"
  | .greaterEqual => ">="
  | .leftBracket => "["
  | .rightBracket => "]"
  | .leftParen => "("
  | .rightParen => ")"
  | .leftBrace => "\x7b"
  | .rightBrace => "\x7d"
  | .unknown => "unknown"

end Ocelotl.Frontend

namespace Ocelotl.Driver

open Frontend Lexer Library

/-- The line of a token, up to its end. -/
def tokenLine (token : Token) : List Char :=
  (toString token.location.line).toList ++ ':' :: ((toString token.location.column).toList ++
    ' ' :: ' ' :: (token.kind.toString.toList ++
      if token.lexeme.toList = [] then [] else ' ' :: ' ' :: '[' :: (token.lexeme.toList ++ [']'])))

def emitTokens (source : List Char) : List Char := terminated '\n' tokenLine (tokenize source).all

/-- What the dump shows of a token: all but its offset. -/
def shown (token : Token) : Lexeme × Nat × Nat :=
  (token.form, token.location.line, token.location.column)

variable {token token' : Token} {kind kind' : TokenKind} {number number' : Nat} {current : Char}

private theorem isDigit_of_mem_toString (member : current ∈ (toString number).toList) :
    current.isDigit = true := by
  have digits : current ∈ Nat.toDigits 10 number := Nat.toList_repr ▸ member
  exact Nat.isDigit_of_mem_toDigits (by omega) (by omega) digits

private theorem toString_injective (same : (toString number).toList = (toString number').toList) :
    number = number' := by
  have digits : Nat.toDigits 10 number = Nat.toDigits 10 number' := by
    rw [← Nat.toList_repr, ← Nat.toList_repr]
    exact same
  rw [← @Nat.ofDigitChars_ten_toDigits number, digits, Nat.ofDigitChars_ten_toDigits]

def kinds : List TokenKind :=
  [.endOfFile, .identifier, .integerLiteral, .floatLiteral, .kwTensor, .kwReturn, .kwIf, .kwElse,
    .colon, .comma, .equal,
    .equalEqual, .bangEqual, .plus, .minus, .star, .slash, .less, .lessEqual, .greater,
      .greaterEqual, .leftBracket,
    .rightBracket, .leftParen, .rightParen, .leftBrace, .rightBrace, .unknown]

private theorem mem_kinds (kind : TokenKind) : kind ∈ kinds := by cases kind <;> decide

/-- Different kinds have different names. -/
theorem kindName_injective (same : kind.toString.toList = kind'.toString.toList) :
    kind = kind' := by
  have distinct : (kinds.map TokenKind.toString).Nodup := by decide
  exact List.inj_on_of_nodup_map distinct (mem_kinds kind) (mem_kinds kind')
    (String.toList_inj.mp same)

/-- Names of kinds are made of characters that can be seen. -/
theorem kindName_visible : ∀ current ∈ kind.toString.toList, isWhitespace current = false := by
  have all : kinds.all (fun kind => kind.toString.toList.all fun current => !isWhitespace current) =
      true := by decide
  intro current member
  have here := List.all_eq_true.mp (List.all_eq_true.mp all kind (mem_kinds kind)) current member
  exact (Bool.not_eq_true' _).mp here

/-- A lexeme contains no line break. -/
theorem noLineBreak_of_tokenizes {before remaining : List Char} {tokens : List Token}
    (tokenizes : Tokenizes before remaining tokens) :
    ∀ token ∈ tokens, '\n' ∉ token.lexeme.toList := by
  intro token member inside
  induction tokenizes with
  | ending white ends =>
    cases List.mem_singleton.mp member
    subst ends
    cases inside
  | token white munch spelled placed later ih =>
    rcases List.mem_cons.mp member with rfl | member
    · rw [spelled, String.toList_ofList] at inside
      exact absurd (munch.visible _ inside) (by decide)
    · exact ih member

private theorem tokenLine_noLineBreak (absent : '\n' ∉ token.lexeme.toList) : '\n' ∉ tokenLine token := by
  have number (number : Nat) : '\n' ∉ (toString number).toList := by
    intro member
    exact absurd (isDigit_of_mem_toString member) (by decide)
  have name : '\n' ∉ token.kind.toString.toList := by
    intro member
    exact absurd (kindName_visible _ member) (by decide)
  unfold tokenLine
  split
  · simp only [List.mem_append, List.mem_cons, List.not_mem_nil, or_false, not_or]
    exact ⟨number _, by decide, number _, by decide, by decide, name⟩
  · simp only [List.mem_append, List.mem_cons, List.not_mem_nil, or_false, not_or]
    exact ⟨number _, by decide, number _, by decide, by decide, name, by decide, by decide,
      by decide, absent, by decide⟩

/-- A name without blanks, and the lexeme in brackets if there is one. -/
theorem nameAndLexeme_unique {name name' lexeme lexeme' : List Char} (blank : ' ' ∉ name)
    (blank' : ' ' ∉ name')
    (same : (name ++ if lexeme = [] then [] else ' ' :: ' ' :: '[' :: (lexeme ++ [']'])) =
      name' ++ if lexeme' = [] then [] else ' ' :: ' ' :: '[' :: (lexeme' ++ [']'])) : name =
        name' ∧ lexeme = lexeme' := by
  by_cases empty : lexeme = [] <;> by_cases empty' : lexeme' = []
  · rw [if_pos empty, if_pos empty', List.append_nil, List.append_nil] at same
    exact ⟨same, empty.trans empty'.symm⟩
  · rw [if_pos empty, if_neg empty', List.append_nil] at same
    exact absurd (same ▸ List.mem_append_right _ List.mem_cons_self) blank
  · rw [if_neg empty, if_pos empty', List.append_nil] at same
    exact absurd (same ▸ List.mem_append_right _ List.mem_cons_self) blank'
  · rw [if_neg empty, if_neg empty'] at same
    obtain ⟨sameName, sameRest⟩ := cut_unique blank blank' same
    have sameLexeme := (List.cons.inj (List.cons.inj sameRest).2).2
    exact ⟨sameName, List.append_cancel_right sameLexeme⟩

/-- A line shows the token. -/
theorem shown_of_tokenLine (same : tokenLine token = tokenLine token') :
    shown token = shown token' := by
  have colon (number : Nat) : ':' ∉ (toString number).toList := by
    intro member
    exact absurd (isDigit_of_mem_toString member) (by decide)
  have blank (number : Nat) : ' ' ∉ (toString number).toList := by
    intro member
    exact absurd (isDigit_of_mem_toString member) (by decide)
  have name (kind : TokenKind) : ' ' ∉ kind.toString.toList := by
    intro member
    exact absurd (kindName_visible _ member) (by decide)
  obtain ⟨line, same⟩ := cut_unique (colon _) (colon _) same
  obtain ⟨column, same⟩ := cut_unique (blank _) (blank _) same
  have parts := nameAndLexeme_unique (name _) (name _) (List.cons.inj same).2
  unfold shown Token.form
  rw [kindName_injective parts.1, String.toList_inj.mp parts.2, toString_injective line,
    toString_injective column]

private theorem tokenLine_of_shown (same : shown token = shown token') :
    tokenLine token = tokenLine token' := by
  obtain ⟨form, line, column⟩ : token.form = token'.form ∧
    token.location.line = token'.location.line ∧
      token.location.column = token'.location.column := by
    simpa [shown] using same
  have kind : token.kind = token'.kind := congrArg Lexeme.kind form
  have lexeme : token.lexeme = token'.lexeme := congrArg Lexeme.text form
  unfold tokenLine
  rw [line, column, kind, lexeme]

private theorem shown_eq_iff : shown token = shown token' ↔ tokenLine token = tokenLine token' :=
  ⟨tokenLine_of_shown, shown_of_tokenLine⟩

private theorem map_shown_iff {tokens tokens' : List Token} :
    tokens.map shown = tokens'.map shown ↔ tokens.map tokenLine = tokens'.map tokenLine := by
  induction tokens generalizing tokens' with
  | nil =>
    cases tokens' with
    | nil => simp
    | cons token' tokens' => simp
  | cons token tokens ih =>
    cases tokens' with
    | nil => simp
    | cons token' tokens' => simp only [List.map_cons, List.cons.injEq, shown_eq_iff, ih]

/-- Two sources have the same dump exactly if they have the same tokens, with the
same lines and columns. -/
theorem emitTokens_iff (source source' : List Char) :
    emitTokens source = emitTokens source' ↔
      (tokenize source).all.map shown = (tokenize source').all.map shown := by
  have absent (source : List Char) : ∀ token ∈ (tokenize source).all, '\n' ∉ tokenLine token :=
    fun token member =>
      tokenLine_noLineBreak (noLineBreak_of_tokenizes (tokenize_tokenizes source) token member)
  rw [map_shown_iff]
  constructor
  · intro same
    exact map_eq_of_terminated (absent source) (absent source') same
  · intro same
    unfold emitTokens terminated
    rw [List.flatMap_def, List.flatMap_def]
    have lines := congrArg (List.map (· ++ ['\n'])) same
    simp only [List.map_map] at lines
    exact congrArg List.flatten lines

end Ocelotl.Driver
