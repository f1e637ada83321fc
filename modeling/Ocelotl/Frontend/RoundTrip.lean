import Ocelotl.Frontend.ParserCompleteness
import Ocelotl.Frontend.Spelling

namespace Ocelotl.Frontend

open Ast Library

variable {stod : String → Option Double} {level : Level} {token : Token} {kind : TokenKind}
  {tokens reads : List Token} {expression lhs rhs : Expression} {op : BinaryOperator}
  {statement : Statement}

private theorem kind_of_form (same : token.form = fixed kind) : token.kind = kind :=
  congrArg Lexeme.kind same

private theorem form_eq_name {identifier : String} (same : token.form = name identifier) :
    token.kind = .identifier ∧ token.lexeme = identifier :=
  ⟨congrArg Lexeme.kind same, congrArg Lexeme.text same⟩

private theorem form_eq_numeral {number : Nat} (same : token.form = numeral number) :
    token.kind = .integerLiteral ∧ decimal token.lexeme = number := by
  refine ⟨congrArg Lexeme.kind same, ?_⟩
  have text : token.lexeme = number.repr := congrArg Lexeme.text same
  rw [text, decimal, Nat.toList_repr]
  exact Nat.ofDigitChars_ten_toDigits

private theorem bracketed_of_form {opens closes : TokenKind} {lexemes : List Lexeme}
    (same : tokens.map Token.form = fixed opens :: (lexemes ++ [fixed closes])) :
    ∃ opening inner closing, tokens = opening :: (inner ++ [closing]) ∧ opening.kind = opens ∧
      inner.map Token.form = lexemes ∧ closing.kind = closes := by
  obtain ⟨opening, more, rfl, isOpening, rest⟩ := List.map_eq_cons_iff.mp same
  obtain ⟨inner, last, rfl, inside, ending⟩ := List.map_eq_append_iff.mp rest
  obtain ⟨closing, rfl, isClosing⟩ := List.map_eq_singleton_iff.mp ending
  exact ⟨opening, inner, closing, rfl, kind_of_form isOpening, inside, kind_of_form isClosing⟩

theorem Derives.fromOperand (isBinary : level ≠ .primary)
    (derives : Derives stod level.operand reads expression) :
    Derives stod level reads expression := by
  have whole := Derives.binary isBinary derives .none
  rwa [List.append_nil] at whole

theorem Level.rank_injective {level level' : Level} (same : level.rank = level'.rank) :
    level = level' := by
  cases level <;> cases level' <;> first
    | rfl
    | cases same

/-- What is derivable at a level is derivable at the looser ones. -/
theorem Derives.loosen {looser : Level} (derives : Derives stod level reads expression)
    (within : level.rank ≤ looser.rank) :
    Derives stod looser reads expression := by
  rcases Nat.eq_or_lt_of_le within with same | less
  · exact Level.rank_injective same ▸ derives
  · have isBinary : looser ≠ .primary := by
      rintro rfl
      exact Nat.not_lt_zero _ less
    have closer := Level.rank_operand isBinary
    exact .fromOperand isBinary (derives.loosen (by omega))
  termination_by looser.rank

/-- One more operator after the others. -/
theorem Operators.snoc (isOperator : token.kind ∈ level.operators)
    (denotes : binaryOperator token.kind = some op) {second : List Token}
    (operand : Derives stod level.operand second rhs) :
    ∀ {first lhs reads}, Operators stod level first reads lhs →
      Operators stod level first (reads ++ token :: second) (.binary op lhs rhs token.location)
  | _, _, _, .none => by
    rw [List.nil_append, ← List.append_nil second]
    exact .operator isOperator denotes operand .none
  | _, _, _, .operator isOperator' denotes' operand' later => by
    rw [List.cons_append, List.append_assoc]
    exact .operator isOperator' denotes' operand' (Operators.snoc isOperator denotes operand later)

/-- The left operand may end in operators of the same level. -/
theorem Derives.snoc (derives : Derives stod level reads lhs)
    (isOperator : token.kind ∈ level.operators) (denotes : binaryOperator token.kind = some op)
    {second : List Token} (operand : Derives stod level.operand second rhs) :
    Derives stod level (reads ++ token :: second) (.binary op lhs rhs token.location) := by
  cases derives with
  | binary isBinary first operators =>
    rw [List.append_assoc]
    exact .binary isBinary first (operators.snoc isOperator denotes operand)
  | identifier _ | integer _ _ | float _ _ | call _ _ _ _ | parentheses _ _ _ => cases isOperator

private theorem operatorKind_mem (op : BinaryOperator) :
    operatorKind op ∈ (operatorLevel op).operators := by
  cases op <;> decide

private theorem binaryOperator_operatorKind (op : BinaryOperator) :
    binaryOperator (operatorKind op) = some op := by
  cases op <;> rfl

/-- Tokens of the printed expression are derivable as the expression. -/
def PrintDerives (stod : String → Option Double) (expression : Expression) : Prop :=
  ∀ level tokens, tokens.map Token.form = printExpression level expression →
    ∃ parsed, Derives stod level tokens parsed ∧ eraseExpression parsed = eraseExpression expression

private theorem printMoreArguments_derives {arguments : List Expression}
    (each : ∀ argument ∈ arguments, PrintDerives stod argument) :
    ∀ tokens, tokens.map Token.form = printMoreArguments arguments →
      ∃ parsed, MoreArguments stod tokens parsed ∧
        eraseArguments parsed = eraseArguments arguments := by
  induction arguments with
  | nil =>
    intro tokens same
    rw [printMoreArguments, List.map_eq_nil_iff] at same
    exact ⟨[], same ▸ .none, rfl⟩
  | cons argument arguments ih =>
    intro tokens same
    rw [printMoreArguments] at same
    obtain ⟨comma, more, rfl, isComma, same⟩ := List.map_eq_cons_iff.mp same
    obtain ⟨first, rest, rfl, here, later⟩ := List.map_eq_append_iff.mp same
    obtain ⟨value, derives, sameValue⟩ := each argument List.mem_cons_self _ first here
    obtain ⟨values, moreDerive, sameValues⟩ :=
      ih (fun other member => each other (List.mem_cons_of_mem _ member)) rest later
    refine ⟨value :: values, .comma (kind_of_form isComma) derives moreDerive, ?_⟩
    rw [eraseArguments, eraseArguments, sameValue, sameValues]

private theorem printArguments_derives {arguments : List Expression}
    (each : ∀ argument ∈ arguments, PrintDerives stod argument)
    (same : tokens.map Token.form = printArguments arguments) :
    ∃ parsed, Arguments stod tokens parsed ∧ eraseArguments parsed = eraseArguments arguments := by
  cases arguments with
  | nil =>
    rw [printArguments, List.map_eq_nil_iff] at same
    exact ⟨[], same ▸ .none, rfl⟩
  | cons argument arguments =>
    rw [printArguments] at same
    obtain ⟨first, rest, rfl, here, later⟩ := List.map_eq_append_iff.mp same
    obtain ⟨value, derives, sameValue⟩ := each argument List.mem_cons_self _ first here
    obtain ⟨values, moreDerive, sameValues⟩ :=
      printMoreArguments_derives (fun other member => each other (List.mem_cons_of_mem _ member))
        rest later
    refine ⟨value :: values, .some derives moreDerive, ?_⟩
    rw [eraseArguments, eraseArguments, sameValue, sameValues]

/-- Without the parentheses around it. -/
theorem printBinary_derives (left : PrintDerives stod lhs) (right : PrintDerives stod rhs)
    (same : tokens.map Token.form = printExpression (operatorLevel op) lhs ++
      fixed (operatorKind op) :: printExpression (operatorLevel op).operand rhs) :
    ∃ parsed, Derives stod (operatorLevel op) tokens parsed ∧
      eraseExpression parsed = .binary op (eraseExpression lhs) (eraseExpression rhs) {} := by
  obtain ⟨first, rest, rfl, here, same⟩ := List.map_eq_append_iff.mp same
  obtain ⟨operator, second, rfl, isOperator, later⟩ := List.map_eq_cons_iff.mp same
  obtain ⟨lhs', derivesLeft, sameLeft⟩ := left _ first here
  obtain ⟨rhs', derivesRight, sameRight⟩ := right _ second later
  have kind : operator.kind = operatorKind op := kind_of_form isOperator
  refine ⟨_, derivesLeft.snoc (kind ▸ operatorKind_mem op) (kind ▸ binaryOperator_operatorKind op)
    derivesRight, ?_⟩
  rw [eraseExpression, sameLeft, sameRight]

private theorem argumentsPrintable_iff {arguments : List Expression} :
    ArgumentsPrintable arguments ↔ ∀ argument ∈ arguments, ExpressionPrintable argument := by
  induction arguments with
  | nil => simp [ArgumentsPrintable]
  | cons argument arguments ih => rw [ArgumentsPrintable, ih, List.forall_mem_cons]

private theorem printExpression_derives (printable : ExpressionPrintable expression) :
    PrintDerives stod expression := by
  induction expression with
  | identifier identifier location =>
    intro level tokens same
    rw [printExpression] at same
    obtain ⟨token, rfl, form⟩ := List.map_eq_singleton_iff.mp same
    obtain ⟨isIdentifier, lexeme⟩ := form_eq_name form
    refine ⟨_, (Derives.identifier isIdentifier).loosen (Nat.zero_le _), ?_⟩
    rw [eraseExpression, eraseExpression, lexeme]
  | integer value location =>
    intro level tokens same
    rw [printExpression] at same
    obtain ⟨token, rfl, form⟩ := List.map_eq_singleton_iff.mp same
    obtain ⟨isInteger, denotes⟩ := form_eq_numeral form
    rw [ExpressionPrintable] at printable
    refine ⟨_, (Derives.integer isInteger (denotes ▸ printable)).loosen (Nat.zero_le _), ?_⟩
    rw [eraseExpression, eraseExpression, denotes, BitVec.ofNat_toNat, BitVec.setWidth_eq]
  | call callee arguments location each =>
    intro level tokens same
    rw [ExpressionPrintable] at printable
    rw [printExpression] at same
    obtain ⟨token, more, rfl, form, same⟩ := List.map_eq_cons_iff.mp same
    obtain ⟨opening, inner, closing, rfl, opens, inside, closes⟩ := bracketed_of_form same
    obtain ⟨isIdentifier, lexeme⟩ := form_eq_name form
    have every := argumentsPrintable_iff.mp printable.2
    obtain ⟨values, derives, sameValues⟩ :=
      printArguments_derives (fun argument member => each argument member (every argument member))
        inside
    refine ⟨_, (Derives.call isIdentifier opens derives closes).loosen (Nat.zero_le _), ?_⟩
    rw [eraseExpression, eraseExpression, lexeme, sameValues]
  | binary op lhs rhs location left right =>
    intro level tokens same
    rw [ExpressionPrintable] at printable
    rw [printExpression, parenthesise] at same
    split at same
    · obtain ⟨opening, inner, closing, rfl, opens, inside, closes⟩ := bracketed_of_form same
      obtain ⟨parsed, derives, erased⟩ :=
        printBinary_derives (left printable.1) (right printable.2) inside
      have loosest : Derives stod .comparison inner parsed :=
        derives.loosen (by cases op <;> decide)
      refine ⟨parsed, (Derives.parentheses opens loosest closes).loosen (Nat.zero_le _), ?_⟩
      rw [erased, eraseExpression]
    · rename_i loose
      obtain ⟨parsed, derives, erased⟩ :=
        printBinary_derives (left printable.1) (right printable.2) same
      refine ⟨parsed, derives.loosen (Nat.le_of_not_lt loose), ?_⟩
      rw [erased, eraseExpression]
  | float _ _ | nullCall | nullBinary =>
    rw [ExpressionPrintable] at printable
    exact printable.elim

private theorem form_eq_dimension {dimension : Nat} (same : token.form = numeral dimension)
    (fits : dimension ≤ 2 ^ 64 - 1) : Dimension token dimension :=
  ⟨(form_eq_numeral same).1, (form_eq_numeral same).2, fits⟩

private theorem printMoreDimensions_derives {dimensions : List Nat}
    (fits : ∀ dimension ∈ dimensions, dimension ≤ 2 ^ 64 - 1) :
    ∀ tokens, tokens.map Token.form = printMoreDimensions dimensions →
      MoreDimensions tokens dimensions := by
  induction dimensions with
  | nil =>
    intro tokens same
    rw [printMoreDimensions, List.map_eq_nil_iff] at same
    exact same ▸ .none
  | cons dimension dimensions ih =>
    intro tokens same
    obtain ⟨comma, more, rfl, isComma, rest⟩ := List.map_eq_cons_iff.mp same
    obtain ⟨token, more, rfl, isNumeral, later⟩ := List.map_eq_cons_iff.mp rest
    exact .comma (kind_of_form isComma)
      (form_eq_dimension isNumeral (fits dimension List.mem_cons_self))
      (ih (fun other member => fits other (List.mem_cons_of_mem _ member)) more later)

private theorem printType_derives {type : TensorType} (printable : TypePrintable type)
    (same : tokens.map Token.form = printType type) : DerivesType tokens type := by
  obtain ⟨elementType, shape⟩ := type
  have fits := printable.dimensions
  cases shape with
  | nil => exact absurd rfl printable.shape
  | cons dimension dimensions =>
    obtain ⟨element, more, rfl, isElement, rest⟩ := List.map_eq_cons_iff.mp same
    obtain ⟨opening, more, rfl, opens, rest⟩ := List.map_eq_cons_iff.mp rest
    obtain ⟨token, more, rfl, isNumeral, rest⟩ := List.map_eq_cons_iff.mp rest
    obtain ⟨inner, last, rfl, inside, ending⟩ := List.map_eq_append_iff.mp rest
    obtain ⟨closing, rfl, closes⟩ := List.map_eq_singleton_iff.mp ending
    obtain ⟨isIdentifier, rfl⟩ := form_eq_name isElement
    exact .type isIdentifier (kind_of_form opens)
      (form_eq_dimension isNumeral (fits dimension List.mem_cons_self))
      (printMoreDimensions_derives (fun other member => fits other (List.mem_cons_of_mem _ member))
        inner inside)
      (kind_of_form closes)

/-- Tokens of the printed statement are derivable as the statement. -/
def PrintStatementDerives (stod : String → Option Double) (statement : Statement) : Prop :=
  ∀ tokens, tokens.map Token.form = printStatement statement →
    ∃ parsed, DerivesStatement stod tokens parsed ∧ eraseStatement parsed = eraseStatement statement

private theorem printStatements_derives {statements : List Statement}
    (each : ∀ statement ∈ statements, PrintStatementDerives stod statement) :
    ∀ tokens, tokens.map Token.form = printStatements statements →
      ∃ parsed, DerivesStatements stod tokens parsed ∧
        eraseStatements parsed = eraseStatements statements := by
  induction statements with
  | nil =>
    intro tokens same
    rw [printStatements, List.map_eq_nil_iff] at same
    exact ⟨[], same ▸ .none, rfl⟩
  | cons statement statements ih =>
    intro tokens same
    rw [printStatements] at same
    obtain ⟨first, rest, rfl, here, later⟩ := List.map_eq_append_iff.mp same
    obtain ⟨parsed, derives, sameHere⟩ := each statement List.mem_cons_self first here
    obtain ⟨others, derive, sameLater⟩ :=
      ih (fun other member => each other (List.mem_cons_of_mem _ member)) rest later
    refine ⟨parsed :: others, .statement derives derive, ?_⟩
    rw [eraseStatements, eraseStatements, sameHere, sameLater]

private theorem printBlock_derives {statements : List Statement}
    (each : ∀ statement ∈ statements, PrintStatementDerives stod statement)
    (same : tokens.map Token.form = fixed .leftBrace ::
      (printStatements statements ++ [fixed .rightBrace])) :
    ∃ parsed, DerivesBlock stod tokens parsed ∧
      eraseStatements parsed = eraseStatements statements := by
  obtain ⟨opening, inner, closing, rfl, opens, inside, closes⟩ := bracketed_of_form same
  obtain ⟨parsed, derive, erased⟩ := printStatements_derives each inner inside
  exact ⟨parsed, .block opens derive closes, erased⟩

private theorem statementsPrintable_iff {statements : List Statement} :
    StatementsPrintable statements ↔ ∀ statement ∈ statements, StatementPrintable statement := by
  induction statements with
  | nil => simp [StatementsPrintable]
  | cons statement statements ih => rw [StatementsPrintable, ih, List.forall_mem_cons]

private theorem printStatement_derives (printable : StatementPrintable statement) :
    PrintStatementDerives stod statement := by
  induction statement with
  | tensorDecl declaration =>
    intro tokens same
    rw [StatementPrintable] at printable
    rw [printStatement] at same
    obtain ⟨tensorToken, more, rfl, isTensor, rest⟩ := List.map_eq_cons_iff.mp same
    obtain ⟨token, more, rfl, isName, rest⟩ := List.map_eq_cons_iff.mp rest
    obtain ⟨colon, more, rfl, isColon, rest⟩ := List.map_eq_cons_iff.mp rest
    obtain ⟨isIdentifier, lexeme⟩ := form_eq_name isName
    refine ⟨_, .tensorDeclaration (kind_of_form isTensor) isIdentifier (kind_of_form isColon)
      (printType_derives printable.2 rest), ?_⟩
    rw [eraseStatement, eraseStatement, lexeme]
  | assignment assignment =>
    intro tokens same
    rw [StatementPrintable] at printable
    rw [printStatement] at same
    obtain ⟨target, more, rfl, isName, rest⟩ := List.map_eq_cons_iff.mp same
    obtain ⟨equal, more, rfl, isEqual, rest⟩ := List.map_eq_cons_iff.mp rest
    obtain ⟨isIdentifier, lexeme⟩ := form_eq_name isName
    have derivable : PrintDerives stod assignment.value := printExpression_derives printable.2
    obtain ⟨value, derives, erased⟩ := derivable _ _ rest
    refine ⟨_, .assignment isIdentifier (kind_of_form isEqual) derives, ?_⟩
    rw [eraseStatement, eraseStatement, lexeme, erased]
  | returnStmt returnStatement =>
    intro tokens same
    rw [StatementPrintable] at printable
    rw [printStatement] at same
    obtain ⟨returnToken, more, rfl, isReturn, rest⟩ := List.map_eq_cons_iff.mp same
    have derivable : PrintDerives stod returnStatement.value := printExpression_derives printable
    obtain ⟨value, derives, erased⟩ := derivable _ _ rest
    refine ⟨_, .returnStmt (kind_of_form isReturn) derives, ?_⟩
    rw [eraseStatement, eraseStatement, erased]
  | ifStmt condition thenStatements elseStatements location thens elses =>
    intro tokens same
    rw [StatementPrintable] at printable
    obtain ⟨ofCondition, ofThen, ofElse⟩ := printable
    have everyThen := statementsPrintable_iff.mp ofThen
    have everyElse := statementsPrintable_iff.mp ofElse
    rw [printStatement] at same
    obtain ⟨ifToken, more, rfl, isIf, rest⟩ := List.map_eq_cons_iff.mp same
    obtain ⟨read, more, rfl, here, rest⟩ := List.map_eq_append_iff.mp rest
    obtain ⟨thenRead, more, rfl, inThen, rest⟩ := List.map_eq_append_iff.mp rest
    obtain ⟨elseToken, elseRead, rfl, isElse, inElse⟩ := List.map_eq_cons_iff.mp rest
    obtain ⟨condition', derives, erased⟩ := printExpression_derives ofCondition _ _ here
    obtain ⟨thens', thenBlock, erasedThen⟩ :=
      printBlock_derives
        (fun statement member => thens statement member (everyThen statement member)) inThen
    obtain ⟨elses', elseBlock, erasedElse⟩ :=
      printBlock_derives
        (fun statement member => elses statement member (everyElse statement member)) inElse
    refine ⟨_, .ifStmt (kind_of_form isIf) derives thenBlock (kind_of_form isElse) elseBlock, ?_⟩
    rw [eraseStatement, eraseStatement, erased, erasedThen, erasedElse]
  | nullIf =>
    rw [StatementPrintable] at printable
    exact printable.elim

theorem printProgram_derives (stod : String → Option Double) {program : Program}
    (printable : Printable program) (same : tokens.map Token.form = printProgram program) :
    ∃ parsed, DerivesProgram stod tokens parsed ∧
      eraseLocations parsed = eraseLocations program := by
  have every := statementsPrintable_iff.mp printable
  obtain ⟨parsed, derives, erased⟩ :=
    printStatements_derives
      (fun statement member => printStatement_derives (every statement member)) tokens same
  exact ⟨⟨parsed⟩, derives, congrArg Program.mk erased⟩

private theorem readable_parenthesise {needed : Prop} [Decidable needed] {lexemes : List Lexeme}
    (inside : ∀ lexeme ∈ lexemes, Readable lexeme) :
    ∀ lexeme ∈ parenthesise needed lexemes, Readable lexeme := by
  unfold parenthesise
  split
  · refine List.forall_mem_cons.mpr ⟨.symbol trivial, List.forall_mem_append.mpr ⟨inside, ?_⟩⟩
    exact List.forall_mem_singleton.mpr (.symbol trivial)
  · exact inside

private theorem readable_printMoreArguments {arguments : List Expression}
    (each : ∀ argument ∈ arguments, ∀ lexeme ∈ printExpression .comparison argument,
      Readable lexeme) :
    ∀ lexeme ∈ printMoreArguments arguments, Readable lexeme := by
  induction arguments with
  | nil => exact List.forall_mem_nil _
  | cons argument arguments ih =>
    rw [printMoreArguments]
    refine List.forall_mem_cons.mpr ⟨.symbol trivial, List.forall_mem_append.mpr ⟨?_, ?_⟩⟩
    · exact each argument List.mem_cons_self
    · exact ih fun other member => each other (List.mem_cons_of_mem _ member)

private theorem readable_printArguments {arguments : List Expression}
    (each : ∀ argument ∈ arguments, ∀ lexeme ∈ printExpression .comparison argument,
      Readable lexeme) :
    ∀ lexeme ∈ printArguments arguments, Readable lexeme := by
  cases arguments with
  | nil => exact List.forall_mem_nil _
  | cons argument arguments =>
    rw [printArguments]
    refine List.forall_mem_append.mpr ⟨each argument List.mem_cons_self, ?_⟩
    exact readable_printMoreArguments fun other member => each other (List.mem_cons_of_mem _ member)

private theorem readable_operatorKind (op : BinaryOperator) : Readable (fixed (operatorKind op)) := by
  cases op <;> exact .symbol trivial

private theorem readable_printExpression (printable : ExpressionPrintable expression) :
    ∀ level, ∀ lexeme ∈ printExpression level expression, Readable lexeme := by
  induction expression with
  | identifier identifier location =>
    intro level
    rw [printExpression]
    exact List.forall_mem_singleton.mpr (.name printable)
  | integer value location =>
    intro level
    rw [printExpression]
    exact List.forall_mem_singleton.mpr .numeral
  | call callee arguments location each =>
    intro level
    rw [ExpressionPrintable] at printable
    have every := argumentsPrintable_iff.mp printable.2
    rw [printExpression]
    refine List.forall_mem_cons.mpr ⟨.name printable.1,
      List.forall_mem_cons.mpr ⟨.symbol trivial, ?_⟩⟩
    refine List.forall_mem_append.mpr ⟨?_, List.forall_mem_singleton.mpr (.symbol trivial)⟩
    exact readable_printArguments fun argument member =>
      each argument member (every argument member) _
  | binary op lhs rhs location left right =>
    intro level
    rw [ExpressionPrintable] at printable
    rw [printExpression]
    refine readable_parenthesise (List.forall_mem_append.mpr ⟨left printable.1 _, ?_⟩)
    exact List.forall_mem_cons.mpr ⟨readable_operatorKind op, right printable.2 _⟩
  | float _ _ | nullCall | nullBinary =>
    rw [ExpressionPrintable] at printable
    exact printable.elim

private theorem readable_printMoreDimensions (dimensions : List Nat) :
    ∀ lexeme ∈ printMoreDimensions dimensions, Readable lexeme := by
  induction dimensions with
  | nil => exact List.forall_mem_nil _
  | cons dimension dimensions ih =>
    rw [printMoreDimensions]
    exact List.forall_mem_cons.mpr ⟨.symbol trivial, List.forall_mem_cons.mpr ⟨.numeral, ih⟩⟩

private theorem readable_printType {type : TensorType} (printable : TypePrintable type) :
    ∀ lexeme ∈ printType type, Readable lexeme := by
  unfold printType
  split
  · exact List.forall_mem_nil _
  · rename_i dimension dimensions _
    refine List.forall_mem_cons.mpr ⟨.name printable.elementType,
      List.forall_mem_cons.mpr ⟨.symbol trivial, ?_⟩⟩
    refine List.forall_mem_cons.mpr ⟨.numeral, List.forall_mem_append.mpr ⟨?_, ?_⟩⟩
    · exact readable_printMoreDimensions dimensions
    · exact List.forall_mem_singleton.mpr (.symbol trivial)

private theorem readable_printStatements {statements : List Statement}
    (each : ∀ statement ∈ statements, ∀ lexeme ∈ printStatement statement, Readable lexeme) :
    ∀ lexeme ∈ printStatements statements, Readable lexeme := by
  induction statements with
  | nil => exact List.forall_mem_nil _
  | cons statement statements ih =>
    rw [printStatements]
    refine List.forall_mem_append.mpr ⟨each statement List.mem_cons_self, ?_⟩
    exact ih fun other member => each other (List.mem_cons_of_mem _ member)

private theorem readable_printStatement (printable : StatementPrintable statement) :
    ∀ lexeme ∈ printStatement statement, Readable lexeme := by
  induction statement with
  | tensorDecl declaration =>
    rw [StatementPrintable] at printable
    rw [printStatement]
    refine List.forall_mem_cons.mpr ⟨.keyword (by decide),
      List.forall_mem_cons.mpr ⟨.name printable.1, ?_⟩⟩
    exact List.forall_mem_cons.mpr ⟨.symbol trivial, readable_printType printable.2⟩
  | assignment assignment =>
    rw [StatementPrintable] at printable
    rw [printStatement]
    refine List.forall_mem_cons.mpr ⟨.name printable.1,
      List.forall_mem_cons.mpr ⟨.symbol trivial, ?_⟩⟩
    exact readable_printExpression printable.2 _
  | returnStmt returnStatement =>
    rw [StatementPrintable] at printable
    rw [printStatement]
    exact List.forall_mem_cons.mpr ⟨.keyword (by decide), readable_printExpression printable _⟩
  | ifStmt condition thenStatements elseStatements location thens elses =>
    rw [StatementPrintable] at printable
    have inThen := statementsPrintable_iff.mp printable.2.1
    have inElse := statementsPrintable_iff.mp printable.2.2
    have block {statements : List Statement}
      (inside : ∀ lexeme ∈ printStatements statements, Readable lexeme) :
        ∀ lexeme ∈ fixed .leftBrace :: (printStatements statements ++ [fixed .rightBrace]),
          Readable lexeme :=
      List.forall_mem_cons.mpr ⟨.symbol trivial, List.forall_mem_append.mpr ⟨inside,
        List.forall_mem_singleton.mpr (.symbol trivial)⟩⟩
    rw [printStatement]
    refine List.forall_mem_cons.mpr ⟨.keyword (by decide), List.forall_mem_append.mpr ⟨?_, ?_⟩⟩
    · exact readable_printExpression printable.1 _
    refine List.forall_mem_append.mpr ⟨block ?_,
      List.forall_mem_cons.mpr ⟨.keyword (by decide), block ?_⟩⟩
    · exact readable_printStatements fun statement member =>
        thens statement member (inThen statement member)
    · exact readable_printStatements fun statement member =>
        elses statement member (inElse statement member)
  | nullIf =>
    rw [StatementPrintable] at printable
    exact printable.elim

theorem readable_printProgram {program : Program} (printable : Printable program) :
    ∀ lexeme ∈ printProgram program, Readable lexeme := by
  have every := statementsPrintable_iff.mp printable
  exact readable_printStatements fun statement member =>
    readable_printStatement (every statement member)

/-- Every text of a printable program parses to the program, up to locations. -/
theorem parse_print (stod : String → Option Double) (program : Program)
    (printable : Printable program) (text : List Char)
    (spells : Spells (printProgram program) text) :
    ∃ parsed, parse stod text = .ok parsed ∧ eraseLocations parsed = eraseLocations program := by
  have lexemes := tokenize_spells (readable_printProgram printable) spells
  obtain ⟨parsed, derives, erased⟩ := printProgram_derives stod printable lexemes
  exact ⟨parsed, parseProgram_complete derives, erased⟩

/-- `x = ( 1 + 2 ) * f ( x ) return x`, with locations of its own. -/
def groupedProgram : Program :=
  ⟨[.assignment ⟨"x", .binary .multiply (.binary .add (.integer 1 ⟨7, 7, 7⟩) (.integer 2 {}) {})
      (.call "f" [.identifier "x" {}] {}) {}, {}⟩,
    .returnStmt ⟨.identifier "x" {}, {}⟩]⟩

theorem parse_print_grouped :
    ∃ parsed, parse (fun _ => none) (spaced (printProgram groupedProgram)) = .ok parsed ∧
      eraseLocations parsed = eraseLocations groupedProgram := by
  have x : IsIdentifier "x" := ⟨⟨'x', [], by simp, rfl⟩, by simp; rfl, by decide⟩
  have f : IsIdentifier "f" := ⟨⟨'f', [], by simp, rfl⟩, by simp; rfl, by decide⟩
  refine parse_print _ groupedProgram ⟨⟨x, ⟨?_, ?_⟩, f, x, trivial⟩, x, trivial⟩ _ (spells_spaced _)
  · show (1 : BitVec 64).toNat ≤ 2 ^ 63 - 1
    decide
  · show (2 : BitVec 64).toNat ≤ 2 ^ 63 - 1
    decide

end Ocelotl.Frontend
