import Ocelotl.Frontend.Printing

namespace Ocelotl.Frontend

open Ast Lexer

variable {accepts : Char → Bool} {before remaining read read' rest more gap digits : List Char}
  {first current : Char} {kind kind' : TokenKind} {lexer : Lexer} {tokens : List Token}
  {bound : Nat}

/-- The location after these characters. -/
def locationOf (before : List Char) : SourceLocation where
  line := 1 + before.count '\n'
  column := 1 + (before.reverse.takeWhile (· ≠ '\n')).length
  offset := before.length

private theorem after_locationOf :
    after (locationOf before) current = locationOf (before ++ [current]) := by
  unfold after locationOf
  by_cases newline : current = '\n'
  · simp [newline, Nat.add_assoc]
  · simp [newline, Nat.add_comm]

/-- The loop reads all that is accepted, and counts it. -/
theorem advanceWhile_reads (accepts : Char → Bool) (before remaining : List Char) :
    ∃ read rest, remaining = read ++ rest ∧ (∀ current ∈ read, accepts current = true) ∧
      (∀ next ∈ rest.head?, accepts next = false) ∧
      advanceWhile accepts remaining (locationOf before) =
        (read, ⟨rest, locationOf (before ++ read)⟩) := by
  induction remaining generalizing before with
  | nil =>
    refine ⟨[], [], rfl, List.forall_mem_nil _, fun next member => ?_, ?_⟩
    · cases member
    · rw [advanceWhile, List.append_nil]
  | cons current remaining ih =>
    by_cases here : accepts current = true
    · obtain ⟨read, rest, same, all, stops, reads⟩ := ih (before ++ [current])
      refine ⟨current :: read, rest, congrArg (current :: ·) same,
        List.forall_mem_cons.mpr ⟨here, all⟩, stops, ?_⟩
      rw [advanceWhile, if_pos here, after_locationOf, reads, List.append_assoc,
        List.singleton_append]
    · refine ⟨[], current :: remaining, rfl, List.forall_mem_nil _, fun next member => ?_, ?_⟩
      · cases member
        exact Bool.eq_false_iff.mpr here
      · rw [advanceWhile, if_neg here, List.append_nil]

theorem continuesIdentifier_of_starts (starts : startsIdentifier first = true) :
    continuesIdentifier first = true := by
  simp only [startsIdentifier, continuesIdentifier, Char.isAlphanum, Bool.or_eq_true] at starts ⊢
  exact starts.imp_left Or.inl

private theorem visible_of_continues (continues : continuesIdentifier first = true) :
    isWhitespace first = false := by
  refine Bool.eq_false_iff.mpr fun white => ?_
  simp only [isWhitespace, Bool.or_eq_true, decide_eq_true_eq] at white
  rcases white with ((rfl | rfl) | rfl) | rfl <;> exact absurd continues (by decide)

private theorem not_startsIdentifier_of_digit (digit : first.isDigit = true) :
    startsIdentifier first = false := by
  refine Bool.eq_false_iff.mpr fun starts => ?_
  simp only [startsIdentifier, Bool.or_eq_true, decide_eq_true_eq] at starts
  rcases starts with alpha | rfl
  · change (decide (first.val ≥ 'A'.val ∧ first.val ≤ 'Z'.val) || first.val ≥ 'a'.val && first.val ≤
      'z'.val) = true at alpha
    change (first.val ≥ '0'.val && first.val ≤ '9'.val) = true at digit
    simp only [Bool.or_eq_true, Bool.and_eq_true, decide_eq_true_eq, ge_iff_le,
      UInt32.le_iff_toNat_le] at alpha digit
    simp at alpha digit
    omega
  · exact absurd digit (by decide)

/-- The kinds whose text is not a word. -/
def IsSymbol : TokenKind → Prop
  | .colon | .comma | .equal | .equalEqual | .bangEqual | .plus | .minus | .star | .slash | .less
  | .lessEqual | .greater | .greaterEqual | .leftBracket | .rightBracket | .leftParen | .rightParen
  | .leftBrace | .rightBrace => True
  | _ => False

/-- What a token can be. A keyword is a whole word. -/
inductive Pattern : TokenKind → List Char → Prop where
  | word {first : Char} {more : List Char} (starts : startsIdentifier first = true)
    (continues : ∀ current ∈ more, continuesIdentifier current = true) :
    Pattern (keywordKind (String.ofList (first :: more))) (first :: more)
  | integer {digits : List Char} (nonempty : digits ≠ [])
    (all : ∀ current ∈ digits, current.isDigit = true) :
    Pattern .integerLiteral digits
  | float {whole fraction : List Char} (nonempty : whole ≠ [])
    (all : ∀ current ∈ whole, current.isDigit = true)
    (nonempty' : fraction ≠ []) (all' : ∀ current ∈ fraction, current.isDigit = true) :
    Pattern .floatLiteral (whole ++ '.' :: fraction)
  | symbol {kind : TokenKind} (isSymbol : IsSymbol kind) : Pattern kind (spelling kind).toList

/-- The longest prefix that is a token, or one character where none is. -/
inductive Munch : List Char → TokenKind → List Char → Prop where
  | longest {remaining read : List Char} {kind : TokenKind} (pattern : Pattern kind read)
    (starts : read <+: remaining)
    (longest : ∀ kind' read', Pattern kind' read' → read' <+: remaining →
      read'.length ≤ read.length) :
    Munch remaining kind read
  | unknown {first : Char} {more : List Char} (visible : isWhitespace first = false)
    (none : ∀ kind read, Pattern kind read → ¬ read <+: first :: more) :
      Munch (first :: more) .unknown [first]

/-- The tokens of the remaining text, after the text before. -/
inductive Tokenizes : List Char → List Char → List Token → Prop where
  | ending {before gap : List Char} {token : Token}
    (white : ∀ current ∈ gap, isWhitespace current = true)
    (ends : token = .endOfFile (locationOf (before ++ gap))) : Tokenizes before gap [token]
  | token {before gap read rest : List Char} {token : Token} {tokens : List Token}
    (white : ∀ current ∈ gap, isWhitespace current = true)
    (munch : Munch (read ++ rest) token.kind read)
    (spelled : token.lexeme = String.ofList read)
    (placed : token.location = locationOf (before ++ gap))
    (later : Tokenizes (before ++ gap ++ read) rest tokens) :
    Tokenizes before (gap ++ (read ++ rest)) (token :: tokens)

private theorem pattern_of_spelling (isSymbol : IsSymbol kind) (spelled : (spelling kind).toList = read) :
    Pattern kind read :=
  spelled ▸ .symbol isSymbol

/-- Symbols of one character. -/
def aloneSymbols : List Char :=
  [':', ',', '=', '+', '-', '*', '/', '<', '>', '[', ']', '(', ')', '\x7b', '\x7d']

/-- First characters of the symbols that end with `=`. -/
def equalSymbols : List Char := ['=', '!', '<', '>']

private theorem spelling_symbol (isSymbol : IsSymbol kind) :
    ∃ first, (spelling kind).toList = [first] ∧ first ∈ aloneSymbols ∨
      (spelling kind).toList = [first, '='] ∧ first ∈ equalSymbols := by
  cases kind with
  | endOfFile | identifier | integerLiteral | floatLiteral | kwTensor | kwReturn
  | kwIf | kwElse | unknown =>
    exact isSymbol.elim
  | equalEqual | bangEqual | lessEqual | greaterEqual =>
    exact ⟨_, .inr ⟨by simp [spelling]; rfl, by decide⟩⟩
  | _ => exact ⟨_, .inl ⟨by simp [spelling]; rfl, by decide⟩⟩

/-- The first character of a symbol starts neither a word nor a number. -/
theorem spelling_of_symbol (isSymbol : IsSymbol kind) :
    ∃ first read, (spelling kind).toList = first :: read ∧ isWhitespace first = false ∧
      startsIdentifier first = false ∧ first.isDigit = false := by
  cases kind with
  | endOfFile | identifier | integerLiteral | floatLiteral | kwTensor | kwReturn
  | kwIf | kwElse | unknown =>
    exact isSymbol.elim
  | _ => exact ⟨_, _, by simp [spelling]; exact ⟨rfl, rfl⟩, by decide⟩

/-- The first character tells what kind of pattern it is. -/
theorem Pattern.of_first (pattern : Pattern kind (first :: more)) :
    startsIdentifier first = true ∧ (∀ current ∈ more, continuesIdentifier current = true) ∧
        kind = keywordKind (String.ofList (first :: more)) ∨
      first.isDigit = true ∨
      (startsIdentifier first = false ∧ first.isDigit = false ∧ isWhitespace first = false) ∧
        IsSymbol kind ∧ (spelling kind).toList = first :: more := by
  generalize spelled : first :: more = read at pattern
  cases pattern with
  | word starts continues =>
    cases spelled
    exact .inl ⟨starts, continues, rfl⟩
  | integer nonempty all => exact .inr (.inl (all first (spelled ▸ List.mem_cons_self)))
  | @float whole fraction nonempty all nonempty' all' =>
    obtain ⟨digit, digits, rfl⟩ := List.exists_cons_of_ne_nil nonempty
    cases spelled
    exact .inr (.inl (all first List.mem_cons_self))
  | symbol isSymbol =>
    obtain ⟨other, symbol, spelled', visible, noWord, noDigit⟩ := spelling_of_symbol isSymbol
    obtain ⟨rfl, rfl⟩ := List.cons.inj (spelled.trans spelled')
    exact .inr (.inr ⟨⟨noWord, noDigit, visible⟩, isSymbol, rfl⟩)

theorem Pattern.ne_nil (pattern : Pattern kind read) : read ≠ [] := by
  cases pattern with
  | word _ _ => exact List.cons_ne_nil _ _
  | integer nonempty _ => exact nonempty
  | float _ _ _ _ => exact List.append_ne_nil_of_right_ne_nil _ (List.cons_ne_nil _ _)
  | symbol isSymbol =>
    obtain ⟨first, symbol, spelled, _⟩ := spelling_of_symbol isSymbol
    exact spelled ▸ List.cons_ne_nil _ _

/-- No accepted characters go beyond the place where the loop stops. -/
theorem length_le_of_stops (stops : ∀ next ∈ rest.head?, accepts next = false)
    (starts : read' <+: read ++ rest) (all : ∀ current ∈ read', accepts current = true) :
    read'.length ≤ read.length := by
  by_contra longer
  have shorter : read <+: read' :=
    List.prefix_of_prefix_length_le (List.prefix_append read rest) starts (by omega)
  obtain ⟨more, rfl⟩ := shorter
  have inside : more <+: rest := (List.prefix_append_right_inj read).mp starts
  cases more with
  | nil => exact longer (by simp)
  | cons next more =>
    obtain ⟨tail, rfl⟩ := inside
    have accepted := all next (List.mem_append_right _ List.mem_cons_self)
    exact absurd ((stops next rfl).symm.trans accepted) Bool.false_ne_true

/-- The dot of a number comes right after the digits. -/
theorem split_at_dot {whole fraction : List Char} (all : ∀ current ∈ digits, current.isDigit = true)
    (stops : ∀ next ∈ rest.head?, next.isDigit = false)
    (all' : ∀ current ∈ whole, current.isDigit = true)
    (starts : whole ++ '.' :: fraction <+: digits ++ rest) :
    whole = digits ∧ '.' :: fraction <+: rest := by
  induction digits generalizing whole with
  | nil =>
    cases whole with
    | nil => exact ⟨rfl, starts⟩
    | cons digit whole =>
      obtain ⟨tail, rfl⟩ := starts
      exact absurd ((stops digit rfl).symm.trans (all' digit List.mem_cons_self)) Bool.false_ne_true
  | cons digit digits ih =>
    cases whole with
    | nil =>
      obtain ⟨rfl, _⟩ := List.cons_prefix_cons.mp starts
      exact absurd (all '.' List.mem_cons_self) (by decide)
    | cons other whole =>
      obtain ⟨rfl, inside⟩ := List.cons_prefix_cons.mp starts
      obtain ⟨rfl, later⟩ :=
        ih (List.forall_mem_cons.mp all).2 (List.forall_mem_cons.mp all').2 inside
      exact ⟨rfl, later⟩

/-- A prefix that is not empty has the same first character. -/
theorem exists_cons_of_prefix (pattern : Pattern kind read) (starts : read <+: first :: more) :
    ∃ later, read = first :: later ∧ later <+: more := by
  obtain ⟨other, later, rfl⟩ := List.exists_cons_of_ne_nil pattern.ne_nil
  obtain ⟨rfl, inside⟩ := List.cons_prefix_cons.mp starts
  exact ⟨later, rfl, inside⟩

/-- What matches where a digit stands is a number. -/
theorem Pattern.of_digit (pattern : Pattern kind read) (inside : read <+: first :: more)
    (digit : first.isDigit = true) :
    kind = .integerLiteral ∧ (∀ current ∈ read, current.isDigit = true) ∨
      kind = .floatLiteral ∧ ∃ whole fraction, read = whole ++ '.' :: fraction ∧ fraction ≠ [] ∧
        (∀ current ∈ whole, current.isDigit = true) ∧ ∀ current ∈ fraction,
          current.isDigit = true := by
  obtain ⟨later, spelled, _⟩ := exists_cons_of_prefix pattern inside
  cases pattern with
  | word starts _ =>
    cases spelled
    exact absurd ((not_startsIdentifier_of_digit digit).symm.trans starts) Bool.false_ne_true
  | integer _ all => exact .inl ⟨rfl, all⟩
  | @float whole fraction _ all nonempty all' =>
    exact .inr ⟨rfl, whole, fraction, rfl, nonempty, all, all'⟩
  | symbol isSymbol =>
    obtain ⟨other, symbol, spelled', _, _, noDigit⟩ := spelling_of_symbol isSymbol
    cases spelled.symm.trans spelled'
    exact absurd (noDigit.symm.trans digit) Bool.false_ne_true

/-- What matches where a symbol stands is a symbol. -/
theorem Pattern.of_symbol (pattern : Pattern kind read) (inside : read <+: first :: more)
    (noWord : startsIdentifier first = false) (noDigit : first.isDigit = false) :
    read = [first] ∧ first ∈ aloneSymbols ∨
      read = [first, '='] ∧ first ∈ equalSymbols ∧ more.head? = some '=' := by
  obtain ⟨later, rfl, follows⟩ := exists_cons_of_prefix pattern inside
  rcases pattern.of_first with ⟨starts, _⟩ | digit | ⟨_, isSymbol, spelled⟩
  · exact absurd (noWord.symm.trans starts) Bool.false_ne_true
  · exact absurd (noDigit.symm.trans digit) Bool.false_ne_true
  · obtain ⟨other, ⟨spelled', member⟩ | ⟨spelled', member⟩⟩ := spelling_symbol isSymbol
    · cases spelled.symm.trans spelled'
      exact .inl ⟨rfl, member⟩
    · cases spelled.symm.trans spelled'
      obtain ⟨tail, rfl⟩ := follows
      exact .inr ⟨rfl, member, rfl⟩

theorem munch_word (starts : startsIdentifier first = true)
    (continues : ∀ current ∈ more, continuesIdentifier current = true)
    (stops : ∀ next ∈ rest.head?, continuesIdentifier next = false) :
    Munch (first :: more ++ rest) (keywordKind (String.ofList (first :: more)))
      (first :: more) := by
  refine .longest (.word starts continues) (List.prefix_append _ _)
    fun kind' read' pattern inside => ?_
  obtain ⟨later, rfl, _⟩ := exists_cons_of_prefix pattern inside
  have here : continuesIdentifier first = true := continuesIdentifier_of_starts starts
  rcases pattern.of_first with ⟨_, continues', _⟩ | digit | ⟨⟨noWord, _⟩, _⟩
  · exact length_le_of_stops stops inside (List.forall_mem_cons.mpr ⟨here, continues'⟩)
  · exact absurd starts (not_startsIdentifier_of_digit digit ▸ Bool.false_ne_true)
  · exact absurd starts (noWord ▸ Bool.false_ne_true)

/-- Digits, without a dot and a digit after them. -/
theorem munch_integer (nonempty : digits ≠ []) (all : ∀ current ∈ digits, current.isDigit = true)
    (stops : ∀ next ∈ rest.head?, next.isDigit = false)
    (whole : ∀ next more, rest = '.' :: next :: more → next.isDigit = false) :
    Munch (digits ++ rest) .integerLiteral digits := by
  refine .longest (.integer nonempty all) (List.prefix_append _ _) fun kind' read' pattern inside =>
    ?_
  obtain ⟨first, more, rfl⟩ := List.exists_cons_of_ne_nil nonempty
  rcases pattern.of_digit inside (all first List.mem_cons_self) with
    ⟨_, all'⟩ | ⟨_, digits', fraction, rfl, nonempty', all', digit⟩
  · exact length_le_of_stops stops inside all'
  · obtain ⟨rfl, tail, rfl⟩ := split_at_dot all stops all' inside
    obtain ⟨next, later, rfl⟩ := List.exists_cons_of_ne_nil nonempty'
    exact absurd ((whole _ _ rfl).symm.trans (digit next List.mem_cons_self)) Bool.false_ne_true

/-- A symbol, unless a longer one with `=` is there. -/
theorem munch_symbol (isSymbol : IsSymbol kind) (spelled : (spelling kind).toList = first :: more)
    (alone : more = [] → first ∈ equalSymbols → rest.head? ≠ some '=') :
    Munch (first :: more ++ rest) kind (first :: more) := by
  obtain ⟨other, symbol, spelled', _, noWord, noDigit⟩ := spelling_of_symbol isSymbol
  obtain ⟨rfl, rfl⟩ := List.cons.inj (spelled.symm.trans spelled')
  refine .longest (pattern_of_spelling isSymbol spelled) (List.prefix_append _ _)
    fun kind' read' pattern inside => ?_
  rcases pattern.of_symbol inside noWord noDigit with ⟨rfl, _⟩ | ⟨rfl, member, equal⟩
  · exact Nat.le_add_left 1 _
  · cases more with
    | nil => exact absurd equal (alone rfl member)
    | cons _ _ => exact Nat.le_add_left 2 _

/-- The result is the longest match, and all that was read. -/
def Munches (before remaining : List Char) (result : Token × Lexer) : Prop :=
  ∃ read rest, remaining = read ++ rest ∧ Munch remaining result.1.kind read ∧
    result.1.lexeme = String.ofList read ∧ result.1.location = locationOf before ∧
    result.2 = ⟨rest, locationOf (before ++ read)⟩

private theorem lexIdentifierOrKeyword_munches (starts : startsIdentifier first = true) :
    Munches before (first :: more) (lexIdentifierOrKeyword ⟨first :: more, locationOf before⟩) := by
  obtain ⟨read, rest, same, all, stops, reads⟩ :=
    advanceWhile_reads continuesIdentifier before (first :: more)
  cases read with
  | nil =>
    cases same
    exact absurd ((stops first rfl).symm.trans (continuesIdentifier_of_starts starts))
      Bool.false_ne_true
  | cons current read =>
    obtain ⟨rfl, rfl⟩ := List.cons.inj same
    unfold lexIdentifierOrKeyword
    simp only [reads]
    exact ⟨first :: read, rest, rfl, munch_word starts (List.forall_mem_cons.mp all).2 stops,
      rfl, rfl, rfl⟩

private theorem fraction_of_dot {location : SourceLocation}
    (goesOn : ((⟨rest, location⟩ : Lexer).peek = '.' &&
      (⟨rest, location⟩ : Lexer).peekNext.isDigit) = true) :
    ∃ digit more, rest = '.' :: digit :: more ∧ digit.isDigit = true := by
  obtain ⟨dot, digit⟩ := Bool.and_eq_true_iff.mp goesOn
  have dot : rest.headD '\x00' = '.' := of_decide_eq_true dot
  have digit : (rest.tail.headD '\x00').isDigit = true := digit
  cases rest with
  | nil => exact absurd dot (by decide)
  | cons first rest =>
    cases rest with
    | nil => cases digit
    | cons next more => exact ⟨next, more, congrArg (· :: next :: more) dot, digit⟩

private theorem lexNumber_munches (digit : first.isDigit = true) :
    Munches before (first :: more) (lexNumber ⟨first :: more, locationOf before⟩ digit) := by
  obtain ⟨whole, rest, same, all, stops, reads⟩ :=
    advanceWhile_reads Char.isDigit before (first :: more)
  have nonempty : whole ≠ [] := by
    rintro rfl
    cases same
    exact absurd ((stops first rfl).symm.trans digit) Bool.false_ne_true
  unfold lexNumber
  simp only [reads]
  by_cases goesOn : ((⟨rest, locationOf (before ++ whole)⟩ : Lexer).peek = '.' &&
      (⟨rest, locationOf (before ++ whole)⟩ : Lexer).peekNext.isDigit) = true
  · rw [if_pos goesOn]
    obtain ⟨next, more', rfl, digit'⟩ := fraction_of_dot goesOn
    obtain ⟨fraction, rest', same', all', stops', reads'⟩ :=
      advanceWhile_reads Char.isDigit (before ++ whole ++ ['.']) (next :: more')
    have nonempty' : fraction ≠ [] := by
      rintro rfl
      cases same'
      exact absurd ((stops' _ rfl).symm.trans digit') Bool.false_ne_true
    simp only [Lexer.advance, after_locationOf, reads']
    have spelled : first :: more = (whole ++ '.' :: fraction) ++ rest' := by
      rw [same, same', List.append_assoc, List.cons_append]
    have placed : before ++ whole ++ ['.'] ++ fraction = before ++ (whole ++ '.' :: fraction) := by
      simp only [List.append_assoc, List.singleton_append]
    refine ⟨whole ++ '.' :: fraction, rest', spelled, .longest (.float nonempty all nonempty' all')
      (spelled ▸ List.prefix_append _ _) ?_, rfl, rfl, congrArg _ (congrArg locationOf placed)⟩
    intro kind' read' pattern inside
    rcases pattern.of_digit inside digit with
      ⟨_, digits⟩ | ⟨_, whole', fraction', rfl, _, digits, digits'⟩
    · have within := length_le_of_stops stops (same ▸ inside) digits
      exact Nat.le_trans within (List.length_append ▸ Nat.le_add_right _ _)
    · obtain ⟨rfl, later⟩ := split_at_dot all stops digits (same ▸ inside)
      have inside' : fraction' <+: fraction ++ rest' := same' ▸ (List.cons_prefix_cons.mp later).2
      have within := length_le_of_stops stops' inside' digits'
      simp only [List.length_append, List.length_cons]
      omega
  · rw [if_neg goesOn]
    have noFraction : ∀ next more, rest = '.' :: next :: more → next.isDigit = false := by
      rintro next more rfl
      exact Bool.eq_false_iff.mpr goesOn
    have munch : Munch (first :: more) .integerLiteral whole := by
      rw [same]
      exact munch_integer nonempty all stops noFraction
    exact ⟨whole, rest, same, munch, rfl, rfl, rfl⟩

private theorem single_munches {other : kind ≠ .integerLiteral} (isSymbol : IsSymbol kind)
    (spelled : (spelling kind).toList = [first])
    (alone : first ∈ equalSymbols → more.head? ≠ some '=') :
    Munches before (first :: more) (single ⟨first :: more, locationOf before⟩ first kind other) :=
  ⟨[first], more, rfl, munch_symbol isSymbol spelled fun _ => alone, rfl, rfl,
    congrArg _ after_locationOf⟩

/-- No symbol starts here. -/
theorem unknown_munches {other : TokenKind.unknown ≠ .integerLiteral}
    (visible : isWhitespace first = false) (noWord : startsIdentifier first = false)
    (noDigit : first.isDigit = false) (noSymbol : first ∉ aloneSymbols)
    (alone : first ∈ equalSymbols → more.head? ≠ some '=') :
    Munches before (first :: more)
      (single ⟨first :: more, locationOf before⟩ first .unknown other) := by
  refine ⟨[first], more, rfl, .unknown visible fun kind' read' pattern inside => ?_, rfl, rfl,
    congrArg _ after_locationOf⟩
  rcases pattern.of_symbol inside noWord noDigit with ⟨_, member⟩ | ⟨_, member, head⟩
  · exact noSymbol member
  · exact alone member head

/-- A symbol that ends with `=`, if one is there. -/
theorem withEqual_munches {other : kind ≠ .integerLiteral} {otherAlone : kind' ≠ .integerLiteral}
    (isSymbol : IsSymbol kind) (spelled : (spelling kind).toList = [first, '='])
    (single' : more.head? ≠ some '=' →
      Munches before (first :: more)
        (single ⟨first :: more, locationOf before⟩ first kind' otherAlone)) :
    Munches before (first :: more) (withEqual ⟨first :: more, locationOf before⟩ first kind kind'
      other otherAlone) := by
  unfold withEqual
  by_cases equal : (⟨first :: more, locationOf before⟩ : Lexer).advance.peek = '='
  · rw [if_pos equal]
    have equal : more.headD '\x00' = '=' := equal
    cases more with
    | nil => exact absurd equal (by decide)
    | cons next more =>
      have equal : next = '=' := equal
      subst equal
      have munch : Munch ([first, '='] ++ more) kind [first, '='] :=
        munch_symbol isSymbol spelled fun empty => absurd empty (List.cons_ne_nil _ _)
      refine ⟨[first, '='], more, rfl, munch, rfl, rfl, ?_⟩
      simp only [Lexer.advance, after_locationOf, List.append_assoc, List.singleton_append]
  · rw [if_neg equal]
    refine single' fun head => equal ?_
    obtain ⟨tail, rfl⟩ := List.head?_eq_some_iff.mp head
    rfl

private theorem lexSymbol_munches (visible : isWhitespace first = false)
    (noWord : startsIdentifier first = false) (noDigit : first.isDigit = false) :
    Munches before (first :: more) (lexSymbol ⟨first :: more, locationOf before⟩ first) := by
  unfold lexSymbol
  split
  case h_3 | h_9 | h_10 =>
    exact withEqual_munches trivial (by simp [spelling]) fun alone =>
      single_munches trivial (by simp [spelling]) fun _ => alone
  case h_4 =>
    exact withEqual_munches trivial (by simp [spelling]) fun alone =>
      unknown_munches visible noWord noDigit (by decide) fun _ => alone
  case h_17 =>
    exact unknown_munches visible noWord noDigit (by simp_all [aloneSymbols]) fun member => by
      simp_all [equalSymbols]
  all_goals
    exact single_munches trivial (by simp [spelling]) fun member => absurd member (by decide)

/-- After the gap, the lexer gives the end of the file or the longest match. -/
theorem nextToken_munches (before remaining : List Char) :
    ∃ gap rest, remaining = gap ++ rest ∧ (∀ current ∈ gap, isWhitespace current = true) ∧
      (rest = [] ∧ nextToken ⟨remaining, locationOf before⟩ =
          (.endOfFile (locationOf (before ++ gap)), ⟨[], locationOf (before ++ gap)⟩) ∨
        Munches (before ++ gap) rest (nextToken ⟨remaining, locationOf before⟩)) := by
  obtain ⟨gap, rest, same, white, stops, reads⟩ := advanceWhile_reads isWhitespace before remaining
  have start : skipWhitespace ⟨remaining, locationOf before⟩ = ⟨rest, locationOf (before ++ gap)⟩ :=
    congrArg Prod.snd reads
  refine ⟨gap, rest, same, white, ?_⟩
  unfold nextToken
  rw [start]
  cases rest with
  | nil => exact .inl ⟨rfl, rfl⟩
  | cons first more =>
    right
    rw [if_neg (List.cons_ne_nil _ _)]
    change Munches _ _ (if startsIdentifier first = true then lexIdentifierOrKeyword _
      else if digit : first.isDigit = true then
        lexNumber ⟨first :: more, _⟩ digit else lexSymbol _ first)
    by_cases starts : startsIdentifier first = true
    · rw [if_pos starts]
      exact lexIdentifierOrKeyword_munches starts
    by_cases digit : first.isDigit = true
    · rw [if_neg starts, dif_pos digit]
      exact lexNumber_munches digit
    · rw [if_neg starts, dif_neg digit]
      exact lexSymbol_munches (stops first rfl) (Bool.eq_false_iff.mpr starts)
        (Bool.eq_false_iff.mpr digit)

/-- The token that this call of `nextToken` gives. -/
def tokenAt (lexer : Lexer) : Nat → Token
  | 0 => lexer.nextToken.1
  | call + 1 => tokenAt lexer.nextToken.2 call

theorem Pattern.ne_endOfFile (pattern : Pattern kind read) : kind ≠ .endOfFile := by
  cases pattern with
  | word _ _ =>
    unfold keywordKind
    repeat' split
    all_goals decide
  | integer _ _ | float _ _ _ _ => decide
  | symbol isSymbol =>
    rintro rfl
    exact isSymbol

theorem Munch.ne_endOfFile (munch : Munch remaining kind read) : kind ≠ .endOfFile := by
  cases munch with
  | longest pattern _ _ => exact pattern.ne_endOfFile
  | unknown _ _ => decide

theorem Munch.length_pos (munch : Munch remaining kind read) : 0 < read.length := by
  cases munch with
  | longest pattern _ _ => exact List.length_pos_iff.mpr pattern.ne_nil
  | unknown _ _ => exact Nat.one_pos

private theorem tokensFrom_ends (ends : lexer.nextToken.1.kind = .endOfFile) :
    (tokensFrom (bound + 1) lexer).tokens = [] ∧
      (tokensFrom (bound + 1) lexer).ending = lexer.nextToken.1 := by
  rw [tokensFrom, dif_pos ends]
  exact ⟨rfl, rfl⟩

private theorem tokensFrom_goesOn (goesOn : lexer.nextToken.1.kind ≠ .endOfFile) :
    (tokensFrom (bound + 1) lexer).tokens = lexer.nextToken.1 ::
      (tokensFrom bound lexer.nextToken.2).tokens ∧
      (tokensFrom (bound + 1) lexer).ending = (tokensFrom bound lexer.nextToken.2).ending := by
  rw [tokensFrom, dif_neg goesOn]
  exact ⟨rfl, rfl⟩

theorem tokensFrom_tokenizes (enough : remaining.length < bound) :
    Tokenizes before remaining (tokensFrom bound ⟨remaining, locationOf before⟩).all := by
  induction bound generalizing before remaining with
  | zero => exact absurd enough (Nat.not_lt_zero _)
  | succ bound ih =>
    obtain ⟨gap, rest, rfl, white,
        ⟨rfl, ends⟩ | ⟨read, rest, rfl, munch, spelled, placed, later⟩⟩ :=
      nextToken_munches before remaining
    · rw [List.append_nil] at ends ⊢
      obtain ⟨noTokens, ending⟩ :=
        @tokensFrom_ends ⟨gap, locationOf before⟩ bound (congrArg (·.1.kind) ends)
      rw [TokenSequence.all, noTokens, ending, List.nil_append]
      exact .ending white (congrArg Prod.fst ends)
    · obtain ⟨tokens, ending⟩ :=
        @tokensFrom_goesOn ⟨gap ++ (read ++ rest), locationOf before⟩ bound munch.ne_endOfFile
      have positive := munch.length_pos
      simp only [List.length_append] at enough
      rw [TokenSequence.all, tokens, ending, later, List.cons_append]
      exact .token white munch spelled placed (ih (by omega))

/-- At the end of the file it stays. -/
theorem tokenAt_end (location : SourceLocation) (call : Nat) :
    tokenAt ⟨[], location⟩ call = .endOfFile location := by
  induction call with
  | zero => rfl
  | succ call ih => exact ih

/-- Calls give the tokens in order, and then the end of the file each time. -/
theorem tokenAt_eq (enough : remaining.length < bound) (call : Nat) :
    tokenAt ⟨remaining, locationOf before⟩ call =
      (tokensFrom bound ⟨remaining, locationOf before⟩).tokens.getD call
        (tokensFrom bound ⟨remaining, locationOf before⟩).ending := by
  induction bound generalizing before remaining call with
  | zero => exact absurd enough (Nat.not_lt_zero _)
  | succ bound ih =>
    obtain ⟨gap, rest, rfl, white,
        ⟨rfl, ends⟩ | ⟨read, rest, rfl, munch, spelled, placed, later⟩⟩ :=
      nextToken_munches before remaining
    · rw [List.append_nil] at ends ⊢
      obtain ⟨noTokens, ending⟩ :=
        @tokensFrom_ends ⟨gap, locationOf before⟩ bound (congrArg (·.1.kind) ends)
      rw [noTokens, ending, List.getD_nil]
      cases call with
      | zero => rfl
      | succ call => rw [tokenAt, ends, tokenAt_end]
    · obtain ⟨tokens, ending⟩ :=
        @tokensFrom_goesOn ⟨gap ++ (read ++ rest), locationOf before⟩ bound munch.ne_endOfFile
      have positive := munch.length_pos
      simp only [List.length_append] at enough
      rw [tokens, ending]
      cases call with
      | zero => rfl
      | succ call =>
        rw [tokenAt, later]
        exact ih (by omega) call

theorem Tokenizes.length_le (tokenizes : Tokenizes before remaining tokens) :
    tokens.length ≤ remaining.length + 1 := by
  induction tokenizes with
  | ending _ _ => exact Nat.le_add_left 1 _
  | token _ munch _ _ _ ih =>
    have positive := munch.length_pos
    simp only [List.length_append, List.length_cons]
    omega

def symbolKinds : List TokenKind :=
  [.colon, .comma, .equal, .equalEqual, .bangEqual, .plus, .minus, .star, .slash, .less,
    .lessEqual, .greater,
    .greaterEqual, .leftBracket, .rightBracket, .leftParen, .rightParen, .leftBrace, .rightBrace]

private theorem mem_symbolKinds (isSymbol : IsSymbol kind) : kind ∈ symbolKinds := by
  cases kind with
  | endOfFile | identifier | integerLiteral | floatLiteral | kwTensor | kwReturn
  | kwIf | kwElse | unknown =>
    exact isSymbol.elim
  | _ => decide

private theorem spelling_injective (isSymbol : IsSymbol kind) (isSymbol' : IsSymbol kind')
    (same : spelling kind = spelling kind') :
    kind = kind' := by
  have all : ∀ kind ∈ symbolKinds, ∀ kind' ∈ symbolKinds, spelling kind = spelling kind' →
      kind = kind' := by decide
  exact all kind (mem_symbolKinds isSymbol) kind' (mem_symbolKinds isSymbol') same

/-- Digits contain no dot. -/
theorem no_dot {whole fraction : List Char} (all : ∀ current ∈ digits, current.isDigit = true)
    (spelled : digits = whole ++ '.' :: fraction) : False := by
  have dot : '.' ∈ digits := spelled ▸ List.mem_append_right _ List.mem_cons_self
  exact absurd (all '.' dot) (by decide)

/-- The form of a token tells its kind. -/
theorem Pattern.kind_unique (pattern : Pattern kind read) (pattern' : Pattern kind' read) :
    kind = kind' := by
  obtain ⟨first, more, rfl⟩ := List.exists_cons_of_ne_nil pattern.ne_nil
  rcases pattern.of_first with ⟨starts, _, same⟩ | digit | ⟨⟨noWord, noDigit, _⟩, isSymbol, spelled⟩
  · rcases pattern'.of_first with ⟨_, _, same'⟩ | digit | ⟨⟨noWord, _⟩, _⟩
    · exact same.trans same'.symm
    · exact absurd ((not_startsIdentifier_of_digit digit).symm.trans starts) Bool.false_ne_true
    · exact absurd (noWord.symm.trans starts) Bool.false_ne_true
  · have here := List.prefix_refl (first :: more)
    rcases pattern.of_digit here digit with ⟨same, all⟩ | ⟨same, whole, fraction, spelled, _⟩
    · rcases pattern'.of_digit here digit with ⟨same', _⟩ | ⟨_, whole, fraction, spelled, _⟩
      · exact same.trans same'.symm
      · exact (no_dot all spelled).elim
    · rcases pattern'.of_digit here digit with ⟨_, all⟩ | ⟨same', _⟩
      · exact (no_dot all spelled).elim
      · exact same.trans same'.symm
  · rcases pattern'.of_first with ⟨starts, _⟩ | digit | ⟨_, isSymbol', spelled'⟩
    · exact absurd (noWord.symm.trans starts) Bool.false_ne_true
    · exact absurd (noDigit.symm.trans digit) Bool.false_ne_true
    · exact spelling_injective isSymbol isSymbol'
        (String.toList_inj.mp (spelled.trans spelled'.symm))

theorem Pattern.visible (pattern : Pattern kind read) :
    ∀ current ∈ read, isWhitespace current = false := by
  have digit {current : Char} (isDigit : current.isDigit = true) : isWhitespace current = false :=
    visible_of_continues (by simp [continuesIdentifier, Char.isAlphanum, isDigit])
  cases pattern with
  | word starts continues =>
    refine List.forall_mem_cons.mpr ⟨visible_of_continues (continuesIdentifier_of_starts starts),
      ?_⟩
    exact fun current member => visible_of_continues (continues current member)
  | integer _ all => exact fun current member => digit (all current member)
  | float _ all _ all' =>
    refine List.forall_mem_append.mpr ⟨fun current member => digit (all current member), ?_⟩
    exact List.forall_mem_cons.mpr ⟨rfl, fun current member => digit (all' current member)⟩
  | symbol isSymbol =>
    obtain ⟨first, ⟨spelled, member⟩ | ⟨spelled, member⟩⟩ := spelling_symbol isSymbol
    · rw [spelled]
      have all : aloneSymbols.all (fun first => !isWhitespace first) = true := rfl
      exact List.forall_mem_singleton.mpr
        (Bool.not_eq_true' _ ▸ List.all_eq_true.mp all first member)
    · rw [spelled]
      have all : equalSymbols.all (fun first => !isWhitespace first) = true := rfl
      refine List.forall_mem_cons.mpr ⟨?_, List.forall_mem_singleton.mpr rfl⟩
      exact Bool.not_eq_true' _ ▸ List.all_eq_true.mp all first member

theorem Munch.visible (munch : Munch remaining kind read) :
    ∀ current ∈ read, isWhitespace current = false := by
  cases munch with
  | longest pattern _ _ => exact pattern.visible
  | unknown visible _ => exact List.forall_mem_singleton.mpr visible

theorem Munch.unique (munch : Munch remaining kind read) (munch' : Munch remaining kind' read') :
    read = read' ∧ kind = kind' := by
  cases munch with
  | longest pattern starts longest =>
    cases munch' with
    | longest pattern' starts' longest' =>
      have within := longest' _ _ pattern starts
      have within' := longest _ _ pattern' starts'
      have same := (List.prefix_of_prefix_length_le starts starts' within).eq_of_length_le within'
      subst same
      exact ⟨rfl, pattern.kind_unique pattern'⟩
    | unknown _ none => exact absurd starts (none _ _ pattern)
  | unknown _ none =>
    cases munch' with
    | longest pattern starts _ => exact absurd starts (none _ _ pattern)
    | unknown _ _ => exact ⟨rfl, rfl⟩

/-- A gap ends where something visible begins. -/
theorem gap_unique {gap' rest' : List Char} (white : ∀ current ∈ gap, isWhitespace current = true)
    (white' : ∀ current ∈ gap', isWhitespace current = true)
    (visible : ∀ next ∈ rest.head?, isWhitespace next = false)
    (visible' : ∀ next ∈ rest'.head?, isWhitespace next = false)
    (same : gap ++ rest = gap' ++ rest') :
    gap = gap' ∧ rest = rest' := by
  have within := length_le_of_stops visible (same ▸ List.prefix_append gap' rest') white'
  have within' := length_le_of_stops visible' (same ▸ List.prefix_append gap rest) white
  exact List.append_inj same (Nat.le_antisymm within' within)

theorem Munch.starts_visible (munch : Munch (read ++ rest) kind read) :
    ∀ next ∈ (read ++ rest).head?, isWhitespace next = false := by
  obtain ⟨first, more, rfl⟩ := List.exists_cons_of_length_pos munch.length_pos
  intro next member
  cases member
  exact munch.visible first List.mem_cons_self

theorem Munch.not_white (munch : Munch (read ++ rest) kind read) :
    ¬ ∀ current ∈ gap ++ (read ++ rest), isWhitespace current = true := by
  intro white
  obtain ⟨first, more, rfl⟩ := List.exists_cons_of_length_pos munch.length_pos
  have here := white first (List.mem_append_right _ List.mem_cons_self)
  exact Bool.false_ne_true ((munch.visible first List.mem_cons_self).symm.trans here)

theorem Token.ext {token token' : Token} (kind : token.kind = token'.kind)
    (lexeme : token.lexeme = token'.lexeme) (location : token.location = token'.location) :
    token = token' := by
  cases token
  cases token'
  cases kind
  cases lexeme
  cases location
  rfl

/-- A text is tokenized in one way. -/
theorem Tokenizes.unique {tokens' : List Token} (tokenizes : Tokenizes before remaining tokens)
    (tokenizes' : Tokenizes before remaining tokens') : tokens = tokens' := by
  induction tokenizes generalizing tokens' with
  | ending white ends =>
    cases tokenizes' with
    | ending _ ends' => rw [ends, ends']
    | token _ munch _ _ _ => exact (munch.not_white white).elim
  | @token before gap read rest token tokens white munch spelled placed later ih =>
    generalize same : gap ++ (read ++ rest) = text at tokenizes'
    cases tokenizes' with
    | ending white' _ =>
      subst same
      exact (munch.not_white white').elim
    | token white' munch' spelled' placed' later' =>
      obtain ⟨rfl, left⟩ := gap_unique white white' munch.starts_visible munch'.starts_visible same
      rw [← left] at munch'
      obtain ⟨rfl, sameKind⟩ := munch.unique munch'
      cases List.append_cancel_left left
      have sameToken := Token.ext sameKind (spelled.trans spelled'.symm) (placed.trans placed'.symm)
      rw [sameToken, ih later']

theorem tokenize_tokenizes (source : List Char) : Tokenizes [] source (tokenize source).all :=
  tokensFrom_tokenizes (Nat.lt_succ_self _)

/-- The lexer gives the longest matches with their locations, and then the end of
the file for ever. -/
theorem tokenize_munches (source : List Char) :
    (∀ tokens, Tokenizes [] source tokens ↔ tokens = (tokenize source).all) ∧
      (tokenize source).all.length ≤ source.length + 1 ∧
      ∀ call, tokenAt ⟨source, {}⟩ call =
        (tokenize source).tokens.getD call (tokenize source).ending := by
  have tokenizes := tokenize_tokenizes source
  refine ⟨fun tokens => ⟨fun other => other.unique tokenizes, ?_⟩, tokenizes.length_le,
    fun call => ?_⟩
  · rintro rfl
    exact tokenizes
  · exact @tokenAt_eq [] source (source.length + 1) (Nat.lt_succ_self _) call

end Ocelotl.Frontend
