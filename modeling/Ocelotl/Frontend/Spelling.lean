import Ocelotl.Frontend.Tokenization

namespace Ocelotl.Frontend

open Lexer

variable {before read text gap : List Char} {first : Char} {kind : TokenKind} {word : String}
  {lexeme : Lexeme} {lexemes : List Lexeme} {tokens : List Token}

/-- The lexemes of printed programs. -/
inductive Readable : Lexeme → Prop where
  | name {identifier : String} (isIdentifier : IsIdentifier identifier) : Readable (name identifier)
  | numeral {number : Nat} : Readable (numeral number)
  | keyword {kind : TokenKind} (isKeyword : kind ∈ [.kwTensor, .kwReturn, .kwIf, .kwElse]) :
    Readable (fixed kind)
  | symbol {kind : TokenKind} (isSymbol : IsSymbol kind) : Readable (fixed kind)

private theorem isNumeral_repr {number : Nat} : IsNumeral number.repr := by
  unfold IsNumeral
  rw [Nat.toList_repr]
  exact ⟨Nat.toDigits_ne_nil, fun _ => Nat.isDigit_of_mem_toDigits (by omega) (by omega)⟩

private theorem spelling_of_keyword (isKeyword : kind ∈ [.kwTensor, .kwReturn, .kwIf, .kwElse]) :
    (∃ first more, (spelling kind).toList = first :: more ∧ startsIdentifier first = true) ∧
      (∀ current ∈ (spelling kind).toList, continuesIdentifier current = true) ∧
      keywordKind (spelling kind) = kind ∧ ∀ next, goesOn kind next = continuesIdentifier next := by
  simp only [List.mem_cons, List.not_mem_nil, or_false] at isKeyword
  rcases isKeyword with rfl | rfl | rfl | rfl <;>
    exact ⟨⟨_, _, by simp [spelling]; exact ⟨rfl, rfl⟩, by decide⟩, by
      simp [spelling]; decide, by decide, fun _ => rfl⟩

private theorem pattern_of_word
    (starts : ∃ first more, word.toList = first :: more ∧ startsIdentifier first = true)
    (continues : ∀ current ∈ word.toList, continuesIdentifier current = true) :
    Pattern (keywordKind word) word.toList := by
  obtain ⟨first, more, spelled, starts⟩ := starts
  rw [spelled] at continues
  have pattern := Pattern.word starts (List.forall_mem_cons.mp continues).2
  rwa [← spelled, String.ofList_toList] at pattern

private theorem munch_of_word
    (starts : ∃ first more, word.toList = first :: more ∧ startsIdentifier first = true)
    (continues : ∀ current ∈ word.toList, continuesIdentifier current = true)
    (stops : ∀ next ∈ text.head?, continuesIdentifier next = false) :
    Munch (word.toList ++ text) (keywordKind word) word.toList := by
  obtain ⟨first, more, spelled, starts⟩ := starts
  rw [spelled] at continues
  have munch := munch_word starts (List.forall_mem_cons.mp continues).2 stops
  rwa [← spelled, String.ofList_toList] at munch

private theorem munch_of_symbol (isSymbol : IsSymbol kind)
    (stops : ∀ next ∈ text.head?, goesOn kind next = false) :
    Munch ((spelling kind).toList ++ text) kind (spelling kind).toList := by
  obtain ⟨first, more, spelled, _⟩ := spelling_of_symbol isSymbol
  have alone : more = [] → first ∈ equalSymbols → text.head? ≠ some '=' := by
    rintro rfl member equal
    have stop : goesOn kind '=' = false := stops '=' equal
    cases kind with
    | equal | less | greater => cases stop
    | endOfFile | identifier | integerLiteral | floatLiteral | kwTensor | kwReturn
    | kwIf | kwElse | unknown =>
      exact isSymbol.elim
    | _ =>
      simp [spelling] at spelled
      all_goals exact absurd (spelled ▸ member) (by decide)
  rw [spelled]
  exact munch_symbol isSymbol spelled alone

/-- The longest match is the lexeme if nothing after it could be part of it. -/
theorem Readable.munch (readable : Readable lexeme)
    (apart : ∀ next ∈ text.head?, goesOn lexeme.kind next = false) :
    Munch (lexeme.text.toList ++ text) lexeme.kind lexeme.text.toList := by
  cases readable with
  | @name identifier isIdentifier =>
    have munch := munch_of_word isIdentifier.starts isIdentifier.continues apart
    rw [isIdentifier.notKeyword] at munch
    exact munch
  | @numeral number =>
    have ends : ∀ next ∈ text.head?, next.isDigit = false ∧ decide (next = '.') = false :=
      fun next member => Bool.or_eq_false_iff.mp (apart next member)
    refine munch_integer isNumeral_repr.1 isNumeral_repr.2 (fun next member => (ends next member).1)
      ?_
    rintro next more rfl
    exact absurd (ends '.' rfl).2 (by decide)
  | @keyword kind isKeyword =>
    obtain ⟨starts, continues, same, goes⟩ := spelling_of_keyword isKeyword
    have munch := munch_of_word starts continues fun next member => goes next ▸ apart next member
    rw [same] at munch
    exact munch
  | symbol isSymbol => exact munch_of_symbol isSymbol apart

theorem Pattern.isNumeral (pattern : Pattern kind read) (same : kind = .integerLiteral) :
    read ≠ [] ∧ ∀ digit ∈ read, digit.isDigit = true := by
  cases pattern with
  | word _ _ => exact absurd same (keywordKind_ne_integerLiteral _)
  | integer nonempty all => exact ⟨nonempty, all⟩
  | float _ _ _ _ => cases same
  | symbol isSymbol =>
    subst same
    exact isSymbol.elim

theorem Munch.isNumeral {remaining : List Char} (munch : Munch remaining kind read)
    (same : kind = .integerLiteral) :
    read ≠ [] ∧ ∀ digit ∈ read, digit.isDigit = true := by
  cases munch with
  | longest pattern _ _ => exact pattern.isNumeral same
  | unknown _ _ => cases same

/-- The token that is read where the lexeme is the longest match. -/
theorem exists_token_of_munch
    (munch : Munch (lexeme.text.toList ++ text) lexeme.kind lexeme.text.toList)
    (white : ∀ current ∈ gap, isWhitespace current = true)
    (later : Tokenizes (before ++ gap ++ lexeme.text.toList) text tokens) :
    ∃ token : Token, token.form = lexeme ∧
      Tokenizes before (gap ++ (lexeme.text.toList ++ text)) (token :: tokens) := by
  let token : Token := ⟨lexeme.kind, lexeme.text, locationOf (before ++ gap), munch.isNumeral⟩
  exact ⟨token, rfl, .token white munch String.ofList_toList.symm rfl later⟩

theorem Spells.tokenizes (before : List Char) (readable : ∀ lexeme ∈ lexemes, Readable lexeme)
    (spells : Spells lexemes text) :
    ∃ tokens, Tokenizes before text tokens ∧
      tokens.map Token.form = lexemes ++ [fixed .endOfFile] := by
  induction spells generalizing before with
  | @nil gap white => exact ⟨[.endOfFile (locationOf (before ++ gap))], .ending white rfl, rfl⟩
  | @cons gap text lexeme lexemes white _ apart ih =>
    obtain ⟨here, there⟩ := List.forall_mem_cons.mp readable
    obtain ⟨tokens, later, forms⟩ := ih (before ++ gap ++ lexeme.text.toList) there
    obtain ⟨token, form, tokenizes⟩ := exists_token_of_munch (here.munch apart) white later
    refine ⟨token :: tokens, tokenizes, ?_⟩
    rw [List.map_cons, form, forms, List.cons_append]

/-- The tokens of a text are the lexemes that it spells. -/
theorem tokenize_spells (readable : ∀ lexeme ∈ lexemes, Readable lexeme)
    (spells : Spells lexemes text) : (tokenize text).tokens.map Token.form = lexemes := by
  obtain ⟨tokens, tokenizes, forms⟩ := spells.tokenizes [] readable
  rw [tokenizes.unique (tokenize_tokenizes text), TokenSequence.all, List.map_append] at forms
  exact List.append_inj_left' forms rfl

theorem Spells.prepend (white : ∀ current ∈ gap, isWhitespace current = true)
    (spells : Spells lexemes text) :
    Spells lexemes (gap ++ text) := by
  cases spells with
  | nil white' => exact .nil (List.forall_mem_append.mpr ⟨white, white'⟩)
  | cons white' later apart =>
    rw [← List.append_assoc]
    exact .cons (List.forall_mem_append.mpr ⟨white, white'⟩) later apart

/-- Whitespace ends every lexeme. -/
theorem goesOn_of_white (white : isWhitespace first = true) : goesOn kind first = false := by
  simp only [isWhitespace, Bool.or_eq_true, decide_eq_true_eq] at white
  rcases white with ((rfl | rfl) | rfl) | rfl <;> cases kind <;> decide

/-- The lexemes with a space after each. -/
def spaced : List Lexeme → List Char
  | [] => []
  | lexeme :: lexemes => lexeme.text.toList ++ ' ' :: spaced lexemes

theorem spells_spaced (lexemes : List Lexeme) : Spells lexemes (spaced lexemes) := by
  have space : ∀ current ∈ [' '], isWhitespace current = true := List.forall_mem_singleton.mpr rfl
  induction lexemes with
  | nil => exact .nil (List.forall_mem_nil _)
  | cons lexeme lexemes ih =>
    have later : Spells lexemes (' ' :: spaced lexemes) := ih.prepend space
    refine @Spells.cons [] _ _ _ (List.forall_mem_nil _) later fun next member => ?_
    cases member
    exact goesOn_of_white (by decide)

/-- The text is one that lexemes of the kind can have. -/
def Lexeme.Valid (lexeme : Lexeme) : Prop :=
  match lexeme.kind with
  | .identifier => IsIdentifier lexeme.text
  | .integerLiteral => IsNumeral lexeme.text
  | .floatLiteral =>
    ∃ whole fraction, IsNumeral whole ∧ IsNumeral fraction ∧ lexeme.text = whole ++ "." ++ fraction
  | .endOfFile | .unknown => False
  | kind => lexeme.text = spelling kind

/-- Lexemes with a gap after each. -/
def joined : List (Lexeme × List Char) → List Char
  | [] => []
  | (lexeme, gap) :: items => lexeme.text.toList ++ (gap ++ joined items)

theorem Lexeme.Valid.pattern (valid : lexeme.Valid) : Pattern lexeme.kind lexeme.text.toList := by
  obtain ⟨kind, text⟩ := lexeme
  have keyword (isKeyword : kind ∈ [.kwTensor, .kwReturn, .kwIf, .kwElse]) :
      Pattern kind (spelling kind).toList := by
    obtain ⟨starts, continues, same, _⟩ := spelling_of_keyword isKeyword
    have pattern := pattern_of_word starts continues
    rwa [same] at pattern
  cases kind with
  | identifier =>
    have valid : IsIdentifier text := valid
    exact valid.notKeyword ▸ pattern_of_word valid.starts valid.continues
  | integerLiteral => exact .integer valid.1 valid.2
  | floatLiteral =>
    obtain ⟨whole, fraction, ⟨nonempty, all⟩, ⟨nonempty', all'⟩, same⟩ := valid
    have same : text = whole ++ "." ++ fraction := same
    subst same
    have pattern := Pattern.float nonempty all nonempty' all'
    simpa using pattern
  | endOfFile | unknown => exact valid.elim
  | kwTensor | kwReturn | kwIf | kwElse =>
    cases valid
    exact keyword (by decide)
  | _ =>
    cases valid
    exact .symbol trivial

/-- The whitespace after a lexeme ends it. -/
theorem munch_of_pattern (pattern : Pattern kind read)
    (stops : ∀ next ∈ text.head?, isWhitespace next = true) :
    Munch (read ++ text) kind read := by
  refine .longest pattern (List.prefix_append _ _) fun kind' read' pattern' inside => ?_
  have ends : ∀ next ∈ text.head?, (!isWhitespace next) = false := fun next member => by
    rw [stops next member]; rfl
  exact length_le_of_stops ends inside fun current member => by
    rw [pattern'.visible current member]; rfl

private theorem joined_tokenizes {items : List (Lexeme × List Char)} {leading : List Char}
    (before : List Char) (valid : ∀ item ∈ items, item.1.Valid)
    (white : ∀ item ∈ items, ∀ current ∈ item.2, isWhitespace current = true)
    (apart : items.IsChain fun item _ => item.2 ≠ [])
    (blank : ∀ current ∈ leading, isWhitespace current = true) :
    ∃ tokens, Tokenizes before (leading ++ joined items) tokens ∧
      tokens.map Token.form = items.map Prod.fst ++ [fixed .endOfFile] := by
  induction items generalizing before leading with
  | nil =>
    refine ⟨[.endOfFile (locationOf (before ++ leading))], ?_, rfl⟩
    rw [joined, List.append_nil]
    exact .ending blank rfl
  | cons item items ih =>
    obtain ⟨lexeme, gap⟩ := item
    obtain ⟨validHere, validLater⟩ := List.forall_mem_cons.mp valid
    obtain ⟨whiteHere, whiteLater⟩ := List.forall_mem_cons.mp white
    have stops : ∀ next ∈ (gap ++ joined items).head?, isWhitespace next = true := by
      intro next member
      cases gap with
      | nil =>
        cases items with
        | nil => cases member
        | cons other items => exact absurd rfl (List.isChain_cons_cons.mp apart).1
      | cons first gap =>
        cases member
        exact whiteHere next List.mem_cons_self
    obtain ⟨tokens, later, forms⟩ :=
      ih (before ++ leading ++ lexeme.text.toList) validLater whiteLater apart.of_cons whiteHere
    obtain ⟨token, form, tokenizes⟩ :=
      exists_token_of_munch (munch_of_pattern validHere.pattern stops) blank later
    refine ⟨token :: tokens, tokenizes, ?_⟩
    rw [List.map_cons, form, forms, List.map_cons, List.cons_append]

/-- The lexer gives back every list of valid lexemes from the text that joins them
with whitespace. -/
theorem tokenize_joined {items : List (Lexeme × List Char)} {leading : List Char}
    (valid : ∀ item ∈ items, item.1.Valid)
    (white : ∀ item ∈ items, ∀ current ∈ item.2, isWhitespace current = true)
    (apart : items.IsChain fun item _ => item.2 ≠ [])
    (blank : ∀ current ∈ leading, isWhitespace current = true) :
    (tokenize (leading ++ joined items)).all.map Token.form = items.map Prod.fst ++
      [fixed .endOfFile] := by
  obtain ⟨tokens, tokenizes, forms⟩ := joined_tokenizes [] valid white apart blank
  rwa [tokenizes.unique (tokenize_tokenizes _)] at forms

theorem tokenize_joined_float :
    (tokenize (['\n'] ++ joined [(⟨.floatLiteral, "1.5"⟩, [' ']), (fixed .equalEqual, [])])).all.map
      Token.form =
      [(⟨.floatLiteral, "1.5"⟩, [' ']), (fixed .equalEqual, [])].map Prod.fst ++
        [fixed .endOfFile] := by
  have float : Lexeme.Valid ⟨.floatLiteral, "1.5"⟩ :=
    ⟨"1", "5", isNumeral_of_all (by decide) rfl, isNumeral_of_all (by decide) rfl, by decide⟩
  have equal : (fixed .equalEqual).Valid := rfl
  refine tokenize_joined ?_ ?_ ?_ (List.forall_mem_singleton.mpr rfl)
  · exact List.forall_mem_cons.mpr ⟨float, List.forall_mem_singleton.mpr equal⟩
  · refine List.forall_mem_cons.mpr ⟨List.forall_mem_singleton.mpr rfl, ?_⟩
    exact List.forall_mem_singleton.mpr (List.forall_mem_nil _)
  · exact List.isChain_cons_cons.mpr ⟨List.cons_ne_nil _ _, .singleton _⟩

end Ocelotl.Frontend
