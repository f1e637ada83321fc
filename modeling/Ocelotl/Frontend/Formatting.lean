import Ocelotl.Frontend.Layout
import Ocelotl.Frontend.SourceMap

namespace Ocelotl.Frontend

open Ast Library

variable {stod : String → Option Double} {level : Level} {expression : Expression}
  {statement : Statement} {statements : List Statement} {source text : List Char}
  {tokens rest : List Token} {token : Token} {program : Program}

private theorem printMoreArguments_erase {arguments : List Expression}
    (each : ∀ argument ∈ arguments, ∀ level, printExpression level (eraseExpression argument) =
      printExpression level argument) :
    printMoreArguments (eraseArguments arguments) = printMoreArguments arguments := by
  induction arguments with
  | nil => rfl
  | cons argument arguments ih =>
    rw [eraseArguments, printMoreArguments, printMoreArguments, each argument List.mem_cons_self,
      ih fun other member => each other (List.mem_cons_of_mem _ member)]

private theorem printArguments_erase {arguments : List Expression}
    (each : ∀ argument ∈ arguments, ∀ level, printExpression level (eraseExpression argument) =
      printExpression level argument) :
    printArguments (eraseArguments arguments) = printArguments arguments := by
  cases arguments with
  | nil => rfl
  | cons argument arguments =>
    rw [eraseArguments, printArguments, printArguments, each argument List.mem_cons_self,
      printMoreArguments_erase fun other member => each other (List.mem_cons_of_mem _ member)]

private theorem printExpression_erase (level : Level) :
    printExpression level (eraseExpression expression) = printExpression level expression := by
  induction expression generalizing level with
  | identifier | integer | float | nullCall | nullBinary => rfl
  | call callee arguments location ih =>
    rw [eraseExpression, printExpression, printExpression, printArguments_erase ih]
  | binary op lhs rhs location lhsIH rhsIH =>
    rw [eraseExpression, printExpression, printExpression, lhsIH, rhsIH]

private theorem printStatements_erase
    (each : ∀ statement ∈ statements, printStatement (eraseStatement statement) =
      printStatement statement) :
    printStatements (eraseStatements statements) = printStatements statements := by
  induction statements with
  | nil => rfl
  | cons statement statements ih =>
    rw [eraseStatements, printStatements, printStatements, each statement List.mem_cons_self,
      ih fun other member => each other (List.mem_cons_of_mem _ member)]

private theorem printStatement_erase :
    printStatement (eraseStatement statement) = printStatement statement := by
  induction statement with
  | tensorDecl | nullIf => rfl
  | assignment assignment =>
    rw [eraseStatement, printStatement, printStatement, printExpression_erase]
  | returnStmt returnStatement =>
    rw [eraseStatement, printStatement, printStatement, printExpression_erase]
  | ifStmt condition thenStatements elseStatements location thenIH elseIH =>
    rw [eraseStatement, printStatement, printStatement, printExpression_erase,
      printStatements_erase thenIH,
      printStatements_erase elseIH]

private theorem printProgram_erase : printProgram (eraseLocations program) = printProgram program :=
  printStatements_erase fun _ _ => printStatement_erase

/-- A token that printing can give back: no float, whose number is not printed, and
no identifier that the lexer would not read. -/
structure Token.Plain (token : Token) : Prop where
  notFloat : token.kind ≠ .floatLiteral
  identifier : token.kind = .identifier → IsIdentifier token.lexeme

def Plain (tokens : List Token) : Prop := ∀ token ∈ tokens, token.Plain

theorem Plain.of_cons (plain : Plain (token :: tokens)) : token.Plain ∧ Plain tokens :=
  List.forall_mem_cons.mp plain

theorem Plain.of_append (plain : Plain (tokens ++ rest)) : Plain tokens ∧ Plain rest :=
  List.forall_mem_append.mp plain

mutual

theorem Derives.printable :
    ∀ {level reads expression}, Derives stod level reads expression → Plain reads →
    ExpressionPrintable expression
  | _, _, _, .identifier isIdentifier, plain => plain.of_cons.1.identifier isIdentifier
  | _, _, _, .integer _ fits, _ => by
    show (BitVec.ofNat 64 _).toNat ≤ 2 ^ 63 - 1
    rwa [BitVec.toNat_ofNat, Nat.mod_eq_of_lt (by omega)]
  | _, _, _, .float isFloat _, plain => absurd isFloat plain.of_cons.1.notFloat
  | _, _, _, .call isIdentifier _ arguments _, plain =>
    ⟨plain.of_cons.1.identifier isIdentifier,
      arguments.printable plain.of_cons.2.of_cons.2.of_append.1⟩
  | _, _, _, .parentheses _ inner _, plain => inner.printable plain.of_cons.2.of_append.1
  | _, _, _, .binary _ operand operators, plain =>
    operators.printable (operand.printable plain.of_append.1) plain.of_append.2

theorem Operators.printable :
    ∀ {level lhs reads expression}, Operators stod level lhs reads expression →
    ExpressionPrintable lhs → Plain reads → ExpressionPrintable expression
  | _, _, _, _, .none, first, _ => first
  | _, _, _, _, .operator _ _ operand later, first, plain =>
    later.printable ⟨first, operand.printable plain.of_cons.2.of_append.1⟩
      plain.of_cons.2.of_append.2

theorem Arguments.printable :
    ∀ {reads values}, Arguments stod reads values → Plain reads → ArgumentsPrintable values
  | _, _, .none, _ => trivial
  | _, _, .some argument later, plain =>
    ⟨argument.printable plain.of_append.1, later.printable plain.of_append.2⟩

theorem MoreArguments.printable : ∀ {reads values}, MoreArguments stod reads values → Plain reads →
    ArgumentsPrintable values
  | _, _, .none, _ => trivial
  | _, _, .comma _ argument later, plain =>
    ⟨argument.printable plain.of_cons.2.of_append.1, later.printable plain.of_cons.2.of_append.2⟩

end

theorem MoreDimensions.fits {dimensions : List Nat} (derives : MoreDimensions tokens dimensions) :
    ∀ dimension ∈ dimensions, dimension ≤ 2 ^ 64 - 1 := by
  induction derives with
  | none => exact List.forall_mem_nil _
  | comma _ dimension _ ih => exact List.forall_mem_cons.mpr ⟨dimension.fits, ih⟩

theorem DerivesType.printable {type : TensorType} (derives : DerivesType tokens type)
    (plain : Plain tokens) :
    TypePrintable type := by
  cases derives with
  | type isIdentifier _ dimension later _ =>
    exact ⟨plain.of_cons.1.identifier isIdentifier, List.cons_ne_nil _ _,
      List.forall_mem_cons.mpr ⟨dimension.fits, later.fits⟩⟩

mutual

theorem DerivesStatement.printable :
    ∀ {reads statement}, DerivesStatement stod reads statement → Plain reads →
    StatementPrintable statement
  | _, _, .tensorDeclaration _ isIdentifier _ derives, plain =>
    ⟨plain.of_cons.2.of_cons.1.identifier isIdentifier,
      derives.printable plain.of_cons.2.of_cons.2.of_cons.2⟩
  | _, _, .assignment isIdentifier _ derives, plain =>
    ⟨plain.of_cons.1.identifier isIdentifier, derives.printable plain.of_cons.2.of_cons.2⟩
  | _, _, .returnStmt _ derives, plain => derives.printable plain.of_cons.2
  | _, _, .ifStmt _ derives thenBlock _ elseBlock, plain =>
    have inner := plain.of_cons.2.of_append
    have branches := inner.2.of_append
    ⟨derives.printable inner.1, thenBlock.printable branches.1,
      elseBlock.printable branches.2.of_cons.2⟩

theorem DerivesBlock.printable :
    ∀ {reads statements}, DerivesBlock stod reads statements → Plain reads →
    StatementsPrintable statements
  | _, _, .block _ inner _, plain => inner.printable plain.of_cons.2.of_append.1

theorem DerivesStatements.printable :
    ∀ {reads statements}, DerivesStatements stod reads statements → Plain reads →
    StatementsPrintable statements
  | _, _, .none, _ => trivial
  | _, _, .statement derives later, plain =>
    ⟨derives.printable plain.of_append.1, later.printable plain.of_append.2⟩

end

/-- The lexer's identifiers are identifiers, so only floats cannot be printed. -/
theorem plain_of_tokenize
    (noFloat : ∀ token ∈ (tokenize source).tokens, token.kind ≠ .floatLiteral) :
    Plain (tokenize source).tokens := by
  intro token member
  refine ⟨noFloat token member, fun isIdentifier => ?_⟩
  have valid := (tokenize_tokenizes source).valid token (List.mem_append_left _ member)
    (by rw [isIdentifier]; decide) (by rw [isIdentifier]; decide)
  unfold Lexeme.Valid Token.form at valid
  rwa [isIdentifier] at valid

theorem printable_of_parse (parsed : parse stod source = .ok program)
    (noFloat : ∀ token ∈ (tokenize source).tokens, token.kind ≠ .floatLiteral) :
    Printable program :=
  (parseProgram_sound parsed).printable (plain_of_tokenize noFloat)

/-- A text of the program is read as the program. -/
theorem parse_of_spells (printable : Printable program)
    (spells : Spells (printProgram program) text) :
    ∃ parsed, parse stod text = .ok parsed ∧ eraseLocations parsed = eraseLocations program := by
  obtain ⟨parsed, derives, erased⟩ :=
    printProgram_derives stod printable (tokenize_spells (readable_printProgram printable) spells)
  exact ⟨parsed, parseProgram_complete derives, erased⟩

theorem printProgram_congr {program' : Program}
    (same : eraseLocations program = eraseLocations program') :
    printProgram program = printProgram program' := by
  rw [← printProgram_erase, same, printProgram_erase]

private theorem length_parenthesise {needed : Prop} [Decidable needed] {lexemes : List Lexeme} :
    (parenthesise needed lexemes).length = lexemes.length + if needed then 2 else 0 := by
  unfold parenthesise
  split
  · simp
  · rfl

/-- Where looser operators are expected, no more parentheses are needed. -/
theorem length_printExpression_loosen {looser : Level} (within : level.rank ≤ looser.rank) :
    (printExpression looser expression).length ≤ (printExpression level expression).length ∧
      (printExpression level expression).length ≤
        (printExpression looser expression).length + 2 := by
  cases expression with
  | binary op lhs rhs location =>
    rw [printExpression, printExpression, length_parenthesise, length_parenthesise]
    constructor
    · split
      · rw [if_pos (by omega)]
      · omega
    · split <;> split <;> omega
  | _ => simp [printExpression]

private theorem operatorLevel_of_mem {kind : TokenKind} {op : BinaryOperator}
    (isOperator : kind ∈ level.operators) (denotes : binaryOperator kind = some op) :
    operatorLevel op = level := by
  obtain ⟨rfl, _⟩ := operatorKind_of_denotes denotes
  cases op <;> cases level <;> first
    | rfl
    | exact absurd isOperator (by decide)

private theorem rank_operand_le (level : Level) : level.operand.rank ≤ level.rank := by
  cases level <;> decide

mutual

/-- No tokens of an expression are fewer than those that are printed. -/
theorem Derives.length_ge : ∀ {level reads expression}, Derives stod level reads expression →
    (printExpression level expression).length ≤ reads.length
  | _, _, _, .identifier _ => Nat.le_refl 1
  | _, _, _, .integer _ _ => Nat.le_refl 1
  | _, _, _, .float _ _ => Nat.zero_le _
  | _, _, _, .call _ _ arguments _ => by
    have fewer := arguments.length_ge
    simp only [printExpression, List.length_cons, List.length_append, List.length_nil]
    omega
  | _, _, _, @Derives.parentheses _ _ _ _ expression _ inner _ => by
    have fewer := inner.length_ge
    have more := (@length_printExpression_loosen .primary expression .comparison (Nat.zero_le _)).2
    simp only [List.length_cons, List.length_append, List.length_nil]
    omega
  | _, _, _, @Derives.binary _ level _ _ lhs _ _ operand operators => by
    have fewer := operand.length_ge
    have loosened :=
      (@length_printExpression_loosen level.operand lhs level (rank_operand_le level)).1
    have whole := operators.length_ge
    rw [List.length_append]
    omega

theorem Operators.length_ge :
    ∀ {level lhs reads expression}, Operators stod level lhs reads expression →
      (printExpression level expression).length ≤ (printExpression level lhs).length + reads.length
  | _, _, _, _, .none => Nat.le_refl _
  | _, _, _, _, .operator isOperator denotes operand later => by
    have fewer := operand.length_ge
    have whole := later.length_ge
    obtain rfl := operatorLevel_of_mem isOperator denotes
    rw [printExpression, length_parenthesise, if_neg (Nat.lt_irrefl _)] at whole
    simp only [List.length_cons, List.length_append] at whole ⊢
    omega

theorem Arguments.length_ge :
    ∀ {reads values}, Arguments stod reads values → (printArguments values).length ≤ reads.length
  | _, _, .none => Nat.le_refl 0
  | _, _, .some argument later => by
    have first := argument.length_ge
    have rest := later.length_ge
    rw [printArguments, List.length_append, List.length_append]
    omega

theorem MoreArguments.length_ge : ∀ {reads values}, MoreArguments stod reads values →
    (printMoreArguments values).length ≤ reads.length
  | _, _, .none => Nat.le_refl 0
  | _, _, .comma _ argument later => by
    have first := argument.length_ge
    have rest := later.length_ge
    simp only [printMoreArguments, List.length_cons, List.length_append]
    omega

end

theorem MoreDimensions.length_ge {dimensions : List Nat}
    (derives : MoreDimensions tokens dimensions) :
    (printMoreDimensions dimensions).length ≤ tokens.length := by
  induction derives with
  | none => exact Nat.le_refl 0
  | comma _ _ _ ih =>
    simp only [printMoreDimensions, List.length_cons]
    omega

theorem DerivesType.length_ge {type : TensorType} (derives : DerivesType tokens type) :
    (printType type).length ≤ tokens.length := by
  cases derives with
  | type _ _ _ later _ =>
    have fewer := later.length_ge
    simp only [printType, List.length_cons, List.length_append, List.length_nil]
    omega

mutual

theorem DerivesStatement.length_ge : ∀ {reads statement}, DerivesStatement stod reads statement →
    (printStatement statement).length ≤ reads.length
  | _, _, .tensorDeclaration _ _ _ derives => by
    have fewer := derives.length_ge
    simp only [printStatement, List.length_cons]
    omega
  | _, _, .assignment _ _ derives => by
    have fewer := derives.length_ge
    simp only [printStatement, List.length_cons]
    omega
  | _, _, .returnStmt _ derives => by
    have fewer := derives.length_ge
    simp only [printStatement, List.length_cons]
    omega
  | _, _, .ifStmt _ derives thenBlock _ elseBlock => by
    have condition := derives.length_ge
    have first := thenBlock.length_ge
    have second := elseBlock.length_ge
    simp only [printStatement, List.length_cons, List.length_append, List.length_nil]
    omega

theorem DerivesBlock.length_ge : ∀ {reads statements}, DerivesBlock stod reads statements →
    (printStatements statements).length + 2 ≤ reads.length
  | _, _, .block _ inner _ => by
    have fewer := inner.length_ge
    simp only [List.length_cons, List.length_append, List.length_nil]
    omega

theorem DerivesStatements.length_ge :
    ∀ {reads statements}, DerivesStatements stod reads statements →
      (printStatements statements).length ≤ reads.length
  | _, _, .none => Nat.le_refl 0
  | _, _, .statement derives later => by
    have first := derives.length_ge
    have rest := later.length_ge
    rw [printStatements, List.length_append, List.length_append]
    omega

end

end Ocelotl.Frontend
