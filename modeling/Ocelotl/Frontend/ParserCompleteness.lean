import Ocelotl.Frontend.ParserSoundness

namespace Ocelotl.Frontend

open Ast Library

variable {stod : String → Option Double} {level : Level} {tokens rest reads : List Token}
  {token : Token} {kind : TokenKind} {expectation message : String} {bound limit : Nat}
  {lhs expression : Expression} {statement : Statement} {statements : List Statement}

/-- The tokens that continue an expression of this level. -/
def Level.extensions : Level → List TokenKind
  | primary => [.leftParen]
  | multiplicative => [.star, .slash, .leftParen]
  | additive => [.plus, .minus, .star, .slash, .leftParen]
  | comparison =>
    [.equalEqual, .bangEqual, .less, .lessEqual, .greater, .greaterEqual, .plus, .minus,
    .star, .slash, .leftParen]

/-- An expression of this level ends here. -/
def Stops (level : Level) (rest : List Token) : Prop := (currentOf rest).kind ∉ level.extensions

theorem Stops.operand (stops : Stops level rest) : Stops level.operand rest := by
  have wider : level.operand.extensions ⊆ level.extensions := by cases level <;> decide
  exact fun extends' => stops (wider extends')

theorem Stops.not_operator (stops : Stops level rest) :
    (currentOf rest).kind ∉ level.operators := by
  have wider : level.operators ⊆ level.extensions := by cases level <;> decide
  exact fun isOperator => stops (wider isOperator)

/-- The operand before an operator ends there. -/
theorem stops_of_operator (isOperator : (currentOf rest).kind ∈ level.operators) :
    Stops level.operand rest := by
  have apart : ∀ kind ∈ level.operators, kind ∉ level.operand.extensions := by
    cases level <;> decide
  exact apart _ isOperator

private theorem stops_of_chain (chain : Chain (OperatorItem stod level) lhs reads expression)
    (stops : Stops level rest) : Stops level.operand (reads ++ rest) := by
  cases chain with
  | nil => exact stops.operand
  | cons item _ =>
    obtain ⟨token, op, first, rhs, isOperator, _, _, rfl, _⟩ := item
    exact stops_of_operator isOperator

private theorem consume_cons (here : token.kind = kind) (more : kind ≠ .endOfFile) :
    consume kind expectation (token :: rest) = .ok token rest := (consume_ok more).mpr ⟨rfl, here⟩

/-- An expression starts with one of these. -/
theorem Derives.starts {level : Level} {reads : List Token} {expression : Expression}
    (derives : Derives stod level reads expression) :
    ∃ token more, reads = token :: more ∧
      token.kind ∈ [TokenKind.identifier, .integerLiteral, .floatLiteral, .leftParen] := by
  cases derives with
  | identifier isIdentifier => exact ⟨_, _, rfl, by simp [isIdentifier]⟩
  | integer isInteger => exact ⟨_, _, rfl, by simp [isInteger]⟩
  | float isFloat => exact ⟨_, _, rfl, by simp [isFloat]⟩
  | call isIdentifier => exact ⟨_, _, rfl, by simp [isIdentifier]⟩
  | parentheses opens => exact ⟨_, _, rfl, by simp [opens]⟩
  | binary isBinary operand =>
    have closer := Level.rank_operand isBinary
    obtain ⟨token, more, rfl, kind⟩ := operand.starts
    exact ⟨token, _, List.cons_append, kind⟩
  termination_by level.rank

theorem Derives.length_pos (derives : Derives stod level reads expression) : 0 < reads.length := by
  obtain ⟨token, more, rfl, _⟩ := derives.starts
  exact Nat.zero_lt_succ _

private theorem parseBinary_complete (level : Level) {parseOperand : Parsing Expression}
    (isBinary : level ≠ .primary)
    (operand : CompleteFor parseOperand (Derives stod level.operand) (Stops level.operand) limit)
    (within : limit ≤ bound) :
    CompleteFor (parseBinary level.operators parseOperand bound) (Derives stod level)
      (Stops level) limit := by
  intro read expression rest derives short stops
  cases derives with
  | @binary _ first reads lhs _ _ derives operators =>
    have chain := operators.chain
    rw [List.length_append] at short
    have positive := derives.length_pos
    have parsed : parseOperand (first ++ (reads ++ rest)) = .ok lhs (reads ++ rest) :=
      operand _ _ _ derives (by omega) (stops_of_chain chain stops)
    rw [List.append_assoc, parseBinary, bind_of_ok parsed]
    refine chain.accepted limit (fun _ => checkAny_apply) ?_ ?_ (by omega) (by omega) ?_
    · intro lhs read next later item short following
      obtain ⟨token, op, first, rhs, isOperator, denotes, derives, rfl, rfl⟩ := item
      obtain ⟨reads, _, chain, rfl⟩ := following
      rw [List.length_cons] at short
      have parsed := operand _ _ _ derives (by omega) (stops_of_chain chain stops)
      refine ⟨List.contains_iff_mem.mpr isOperator, ?_⟩
      rw [List.cons_append, bind_of_ok current_apply, bind_of_ok advance_apply]
      exact bind_ok.mpr ⟨rhs, _, parsed, makeBinary_ok.mpr ⟨op, denotes, rfl, rfl⟩⟩
    · intro lhs read next item
      obtain ⟨token, op, first, rhs, _, _, _, rfl, _⟩ := item
      exact List.cons_ne_nil _ _
    · simpa using stops.not_operator
  | _ => exact absurd rfl isBinary

section Primary

variable {parsePrimary : Parsing Expression}
  (primary : CompleteFor parsePrimary (Derives stod .primary) (Stops .primary) limit)
  (within : limit ≤ bound)
include primary within

private theorem parseExpression_complete :
    CompleteFor (parseExpression parsePrimary bound) (Derives stod .comparison)
      (Stops .comparison) limit := by
  have multiplicative : CompleteFor (parseMultiplicative parsePrimary bound)
      (Derives stod .multiplicative) (Stops .multiplicative) limit :=
    parseBinary_complete .multiplicative (by decide) primary within
  have additive : CompleteFor (parseAdditive parsePrimary bound)
      (Derives stod .additive) (Stops .additive) limit :=
    parseBinary_complete .additive (by decide) multiplicative within
  exact parseBinary_complete .comparison (by decide) additive within

omit primary within in
theorem MoreArguments.chain :
    ∀ {reads more} (values : List Expression), MoreArguments stod reads more →
    Chain (ArgumentItem stod) values reads (values ++ more)
  | _, _, values, .none => (List.append_nil values).symm ▸ .nil
  | _, _, values, @MoreArguments.comma _ _ _ _ value _ isComma argument later => by
    have rest := later.chain (values ++ [value])
    rw [List.append_assoc] at rest
    exact .cons ⟨_, _, _, isComma, argument, rfl, rfl⟩ rest

omit primary within in
/-- An argument ends before a comma, and before the closing parenthesis. -/
theorem stops_of_arguments {values next : List Expression}
    (chain : Chain (ArgumentItem stod) values reads next)
    (closes : (currentOf rest).kind = .rightParen) :
    Stops .comparison (reads ++ rest) := by
  cases chain with
  | nil =>
    intro extends'
    rw [List.nil_append, closes] at extends'
    exact absurd extends' (by decide)
  | cons item _ =>
    obtain ⟨token, first, value, isComma, _, rfl, _⟩ := item
    intro extends'
    have here : token.kind ∈ Level.comparison.extensions := extends'
    rw [isComma] at here
    exact absurd here (by decide)

private theorem parseArguments_complete :
    CompleteFor (parseArguments parsePrimary bound) (Arguments stod)
      (fun rest => (currentOf rest).kind = .rightParen) limit := by
  intro read values rest derives short closes
  cases derives with
  | none =>
    rw [parseArguments, bind_of_ok check_apply, List.nil_append, if_pos (decide_eq_true closes)]
    rfl
  | @some first reads value values argument later =>
    have chain := later.chain [value]
    rw [List.length_append] at short
    have positive := argument.length_pos
    have parsed := parseExpression_complete primary within _ _ _ argument (by omega)
      (stops_of_arguments chain closes)
    obtain ⟨token, more, rfl, starts⟩ := argument.starts
    have open' :
        ¬ decide ((currentOf (token :: more ++ reads ++ rest)).kind = .rightParen) = true := by
      intro impossible
      have kind : token.kind = .rightParen := of_decide_eq_true impossible
      rw [kind] at starts
      exact absurd starts (by decide)
    rw [parseArguments, bind_of_ok check_apply, if_neg open', List.append_assoc, bind_of_ok parsed]
    refine chain.accepted limit (fun _ => check_apply) ?_ ?_ (by omega) (by omega) ?_
    · intro values read next later item short following
      obtain ⟨token, first, value, isComma, derives, rfl, rfl⟩ := item
      obtain ⟨reads, _, chain, rfl⟩ := following
      rw [List.length_cons] at short
      have parsed := parseExpression_complete primary within _ _ _ derives (by omega)
        (stops_of_arguments chain closes)
      refine ⟨decide_eq_true isComma, ?_⟩
      rw [List.cons_append, bind_of_ok advance_apply]
      exact bind_ok.mpr ⟨value, _, parsed, rfl⟩
    · intro values read next item
      obtain ⟨token, first, value, _, _, rfl, _⟩ := item
      exact List.cons_ne_nil _ _
    · rw [closes]
      rfl

private theorem parseIdentifierOrCall_complete {name : Token} (isIdentifier : name.kind = .identifier) :
    (Stops .primary rest → parseIdentifierOrCall parsePrimary bound (name :: rest) =
      .ok (.identifier name.lexeme name.location) rest) ∧
    ∀ {opening closing reads values}, opening.kind = .leftParen → closing.kind = .rightParen →
      Arguments stod reads values → reads.length ≤ limit →
      parseIdentifierOrCall parsePrimary bound (name :: opening :: (reads ++ closing :: rest)) =
        .ok (.call name.lexeme values name.location) rest := by
  constructor
  · intro stops
    have alone : ¬ decide ((currentOf rest).kind = .leftParen) = true := by
      intro opens
      exact stops (by rw [of_decide_eq_true opens]; decide)
    rw [parseIdentifierOrCall, bind_of_ok (consume_cons isIdentifier (by decide)),
      bind_of_ok check_apply,
      if_neg alone]
    rfl
  · intro opening closing reads values opens closes arguments short
    have parsed :=
      parseArguments_complete primary within _ _ (closing :: rest) arguments short closes
    rw [parseIdentifierOrCall, bind_of_ok (consume_cons isIdentifier (by decide)),
      bind_of_ok check_apply,
      currentOf_cons, if_pos (decide_eq_true opens), bind_of_ok advance_apply, List.tail_cons,
      bind_of_ok parsed, bind_of_ok (consume_cons closes (by decide))]
    rfl

end Primary

private theorem parsePrimary_complete :
    CompleteFor (parsePrimary stod bound) (Derives stod .primary) (Stops .primary) bound := by
  induction bound with
  | zero => exact fun read value rest derives short => absurd derives.length_pos (by omega)
  | succ bound ih =>
    intro read expression rest derives short stops
    cases derives with
    | identifier isIdentifier =>
      rw [List.singleton_append, parsePrimary, bind_of_ok current_apply, currentOf_cons,
        isIdentifier]
      exact (parseIdentifierOrCall_complete ih (Nat.le_refl _) isIdentifier).1 stops
    | integer isInteger fits =>
      rw [List.singleton_append, parsePrimary, bind_of_ok current_apply, currentOf_cons, isInteger]
      exact bind_ok.mpr ⟨_, _, advance_apply, bind_ok.mpr ⟨_, _,
        convert_ok.mpr ⟨stoll_eq_some.mpr ⟨fits, rfl⟩, rfl⟩, rfl⟩⟩
    | float isFloat accepted =>
      rw [List.singleton_append, parsePrimary, bind_of_ok current_apply, currentOf_cons, isFloat]
      exact bind_ok.mpr ⟨_, _, advance_apply,
        bind_ok.mpr ⟨_, _, convert_ok.mpr ⟨accepted, rfl⟩, rfl⟩⟩
    | call isIdentifier opens arguments closes =>
      simp only [List.length_cons, List.length_append, List.length_nil] at short
      rw [List.cons_append, List.cons_append, List.append_assoc, parsePrimary,
        bind_of_ok current_apply,
        currentOf_cons, isIdentifier]
      exact (parseIdentifierOrCall_complete ih (Nat.le_refl _) isIdentifier).2 opens
        closes arguments
        (by omega)
    | @parentheses opening closing reads _ opens inner closes =>
      simp only [List.length_cons, List.length_append, List.length_nil] at short
      have stops : Stops .comparison (closing :: rest) := by
        intro extends'
        have here : closing.kind ∈ Level.comparison.extensions := extends'
        rw [closes] at here
        exact absurd here (by decide)
      have parsed := parseExpression_complete ih (Nat.le_refl _) _ _ _ inner (by omega) stops
      rw [List.cons_append, List.append_assoc, parsePrimary, bind_of_ok current_apply,
        currentOf_cons, opens]
      exact bind_ok.mpr ⟨_, _, advance_apply, bind_ok.mpr ⟨_, _, parsed,
        bind_ok.mpr ⟨_, _, consume_cons closes (by decide), rfl⟩⟩⟩
    | binary isBinary => exact absurd rfl isBinary

private theorem parse_expression_complete :
    CompleteFor (parseExpression (parsePrimary stod bound) bound) (Derives stod .comparison)
      (Stops .comparison) bound := parseExpression_complete parsePrimary_complete (Nat.le_refl _)

private theorem parseDimension_complete {value : Nat} (dimension : Dimension token value) :
    parseDimension (token :: rest) = .ok value rest := by
  rw [parseDimension, bind_of_ok (consume_cons dimension.isInteger (by decide))]
  exact convert_ok.mpr ⟨stoull_eq_some.mpr ⟨dimension.denotes, dimension.fits⟩, rfl⟩

theorem MoreDimensions.chain {more : List Nat} (dimensions : MoreDimensions reads more)
    (values : List Nat) :
    Chain DimensionItem values reads (values ++ more) := by
  induction dimensions generalizing values with
  | none => exact (List.append_nil values).symm ▸ .nil
  | @comma comma token value rest more isComma dimension _ ih =>
    have later := ih (values ++ [value])
    rw [List.append_assoc] at later
    have first : DimensionItem values [comma, token] (values ++ [value]) :=
      ⟨comma, token, value, isComma, dimension, rfl, rfl⟩
    exact .cons first later

private theorem parseTensorType_complete {type : TensorType} (derives : DerivesType reads type)
    (short : reads.length ≤ bound) : parseTensorType bound (reads ++ rest) = .ok type rest := by
  obtain @⟨name, opening, token, closing, value, more, values, isIdentifier, opens,
    dimension, later,
    closes⟩ := derives
  simp only [List.length_cons, List.length_append, List.length_nil] at short
  have chain := later.chain [value]
  have loop : repeatWhile .bound (check .comma) (fun dimensions => do
      advance
      let dimension ← parseDimension
      return dimensions ++ [dimension]) bound [value] (more ++ closing :: rest) =
        .ok ([value] ++ values) (closing :: rest) := by
    refine chain.accepted bound (fun _ => check_apply) ?_ ?_ (by omega) (by omega) ?_
    · intro values read next later item _ _
      obtain ⟨comma, token, value, isComma, dimension, rfl, rfl⟩ := item
      refine ⟨decide_eq_true isComma, ?_⟩
      rw [List.cons_append, bind_of_ok advance_apply]
      exact bind_ok.mpr ⟨value, _, parseDimension_complete dimension, rfl⟩
    · intro values read next item
      obtain ⟨comma, token, value, _, _, rfl, _⟩ := item
      exact List.cons_ne_nil _ _
    · rw [currentOf_cons, closes]
      rfl
  rw [List.cons_append, List.cons_append, List.cons_append, List.append_assoc, parseTensorType,
    bind_of_ok (consume_cons isIdentifier (by decide)), bind_of_ok (consume_cons opens (by decide)),
    bind_of_ok (parseDimension_complete dimension), List.singleton_append, bind_of_ok loop,
    bind_of_ok (consume_cons closes (by decide))]
  rfl

/-- A statement starts with one of these. -/
theorem DerivesStatement.starts (derives : DerivesStatement stod reads statement) :
    ∃ token more, reads = token :: more ∧
      token.kind ∈ [TokenKind.kwTensor, .identifier, .kwReturn, .kwIf] := by
  cases derives with
  | tensorDeclaration isTensor => exact ⟨_, _, rfl, by simp [isTensor]⟩
  | assignment isIdentifier => exact ⟨_, _, rfl, by simp [isIdentifier]⟩
  | returnStmt isReturn => exact ⟨_, _, rfl, by simp [isReturn]⟩
  | ifStmt isIf => exact ⟨_, _, rfl, by simp [isIf]⟩

theorem DerivesStatements.chain : ∀ {reads more} (statements : List Statement),
    DerivesStatements stod reads more →
      Chain (StatementItem stod) statements reads (statements ++ more)
  | _, _, statements, .none => (List.append_nil statements).symm ▸ .nil
  | _, _, statements, @DerivesStatements.statement _ _ _ next _ derives later => by
    have rest := later.chain (statements ++ [next])
    rw [List.append_assoc] at rest
    exact .cons ⟨_, derives, rfl⟩ rest

/-- A statement ends before the next, and where the statements end. -/
theorem stops_of_statements {next : List Statement}
    (chain : Chain (StatementItem stod) statements reads next) (stops : Stops .comparison rest) :
    Stops .comparison (reads ++ rest) := by
  cases chain with
  | nil => exact stops
  | cons item _ =>
    obtain ⟨statement, derives, _⟩ := item
    obtain ⟨token, more, rfl, starts⟩ := derives.starts
    have apart : ∀ kind ∈ [TokenKind.kwTensor, .identifier, .kwReturn, .kwIf],
      kind ∉ Level.comparison.extensions := by decide
    exact apart _ starts

/-- The loop over statements, up to a token that starts none. -/
theorem statements_complete {parseStatement : Parsing Statement}
    {guarded : List Statement → Parsing (List Statement)}
    (each : CompleteFor parseStatement (DerivesStatement stod) (Stops .comparison) limit)
    (body : ∀ statements token more,
      token.kind ∈ [TokenKind.kwTensor, .identifier, .kwReturn, .kwIf] →
      guarded statements (token :: more) = (do
        let statement ← parseStatement
        return statements ++ [statement]) (token :: more))
    (derives : DerivesStatements stod reads statements) (short : reads.length ≤ limit)
    (within : reads.length < bound) (ends : (currentOf rest).kind = kind)
    (starts : kind ∉ [TokenKind.kwTensor, .identifier, .kwReturn, .kwIf])
    (stops : Stops .comparison rest) :
    repeatWhile .bound (checkNot kind) guarded bound [] (reads ++ rest) = .ok statements rest := by
  have chain := derives.chain []
  refine chain.accepted limit (fun _ => checkNot_apply) ?_ ?_ short within ?_
  · intro statements read next later item short following
    obtain ⟨statement, derives, rfl⟩ := item
    obtain ⟨reads, _, chain, rfl⟩ := following
    have parsed := each _ _ _ derives short (stops_of_statements chain stops)
    obtain ⟨token, more, rfl, kinds⟩ := derives.starts
    have goesOn : token.kind ≠ kind := fun same => starts (same ▸ kinds)
    refine ⟨by simp [goesOn], ?_⟩
    rw [List.cons_append, body _ _ _ kinds]
    exact bind_ok.mpr ⟨statement, _, parsed, rfl⟩
  · intro statements read next item
    obtain ⟨statement, derives, _⟩ := item
    obtain ⟨token, more, rfl, _⟩ := derives.starts
    exact List.cons_ne_nil _ _
  · simpa using ends

section Blocks

variable {parseStatement : Parsing Statement}
  (each : CompleteFor parseStatement (DerivesStatement stod) (Stops .comparison) bound)
include each

private theorem parseBlock_complete (derives : DerivesBlock stod reads statements)
    (short : reads.length ≤ bound) :
    parseBlock parseStatement bound (reads ++ rest) = .ok statements rest := by
  obtain @⟨opening, closing, reads, _, opens, inner, closes⟩ := derives
  simp only [List.length_cons, List.length_append, List.length_nil] at short
  have stops : Stops .comparison (closing :: rest) := by
    have apart : closing.kind ∉ Level.comparison.extensions := by rw [closes]; decide
    exact apart
  have loop : repeatWhile .bound (checkNot .rightBrace) (fun statements => do
      let token ← current
      if token.kind = .endOfFile then throwParseError token "expected '\x7d'"
      else do
        let statement ← parseStatement
        return statements ++ [statement]) bound [] (reads ++ closing :: rest) =
          .ok statements (closing :: rest) := by
    refine statements_complete each (fun statements token more kinds => ?_) inner
      (by omega) (by omega)
      closes (by decide) stops
    have inside : token.kind ≠ .endOfFile := by
      intro same
      rw [same] at kinds
      exact absurd kinds (by decide)
    rw [bind_of_ok current_apply, currentOf_cons, if_neg inside]
  rw [List.cons_append, List.append_assoc, parseBlock, bind_of_ok (consume_cons opens (by decide)),
    List.singleton_append, bind_of_ok loop, bind_of_ok (consume_cons closes (by decide))]
  rfl

private theorem parseIfStatement_complete {ifToken elseToken : Token} {read thenRead elseRead : List Token}
    {condition : Expression} {thenStatements elseStatements : List Statement}
    (isIf : ifToken.kind = .kwIf) (derives : Derives stod .comparison read condition)
    (thenBlock : DerivesBlock stod thenRead thenStatements) (isElse : elseToken.kind = .kwElse)
    (elseBlock : DerivesBlock stod elseRead elseStatements)
    (short : (read ++ (thenRead ++ elseToken :: elseRead)).length ≤ bound) :
    parseIfStatement stod parseStatement bound (ifToken ::
      (read ++ (thenRead ++ elseToken :: (elseRead ++ rest)))) =
      .ok (.ifStmt condition thenStatements elseStatements ifToken.location) rest := by
  simp only [List.length_cons, List.length_append] at short
  have stops : Stops .comparison (thenRead ++ elseToken :: (elseRead ++ rest)) := by
    obtain ⟨opens, _, _⟩ := thenBlock
    intro extends'
    rw [List.cons_append, currentOf_cons, opens] at extends'
    exact absurd extends' (by decide)
  have complete :
      CompleteFor (parseExpression (parsePrimary stod bound) bound) (Derives stod .comparison)
      (Stops .comparison) bound := parse_expression_complete
  have parsed := complete _ _ _ derives (by omega) stops
  rw [parseIfStatement, bind_of_ok (consume_cons isIf (by decide)), bind_of_ok parsed,
    bind_of_ok (parseBlock_complete each thenBlock (by omega)),
      bind_of_ok (consume_cons isElse (by decide)),
    bind_of_ok (parseBlock_complete each elseBlock (by omega))]
  rfl

end Blocks

private theorem parseStatement_complete :
    CompleteFor (parseStatement stod bound) (DerivesStatement stod) (Stops .comparison) bound := by
  induction bound with
  | zero =>
    intro read statement rest derives short
    obtain ⟨token, more, rfl, _⟩ := derives.starts
    exact absurd short (Nat.not_succ_le_zero _)
  | succ bound ih =>
    intro read statement rest derives short stops
    cases derives with
    | tensorDeclaration isTensor isIdentifier isColon derives =>
      simp only [List.length_cons] at short
      rw [List.cons_append, List.cons_append, List.cons_append, parseStatement,
        bind_of_ok current_apply,
        currentOf_cons, isTensor]
      exact bind_ok.mpr ⟨_, _, consume_cons isTensor (by decide), bind_ok.mpr ⟨_, _,
        consume_cons isIdentifier (by decide),
          bind_ok.mpr ⟨_, _, consume_cons isColon (by decide), bind_ok.mpr
          ⟨_, _, parseTensorType_complete derives (by omega), rfl⟩⟩⟩⟩
    | assignment isIdentifier isEqual derives =>
      simp only [List.length_cons] at short
      rw [List.cons_append, List.cons_append, parseStatement, bind_of_ok current_apply,
        currentOf_cons,
        isIdentifier]
      exact bind_ok.mpr ⟨_, _, consume_cons isIdentifier (by decide), bind_ok.mpr ⟨_, _,
        consume_cons isEqual (by decide), bind_ok.mpr
          ⟨_, _, parse_expression_complete _ _ _ derives (by omega) stops, rfl⟩⟩⟩
    | returnStmt isReturn derives =>
      simp only [List.length_cons] at short
      rw [List.cons_append, parseStatement, bind_of_ok current_apply, currentOf_cons, isReturn]
      exact bind_ok.mpr ⟨_, _, consume_cons isReturn (by decide), bind_ok.mpr
        ⟨_, _, parse_expression_complete _ _ _ derives (by omega) stops, rfl⟩⟩
    | ifStmt isIf derives thenBlock isElse elseBlock =>
      simp only [List.length_cons] at short
      rw [List.cons_append, List.append_assoc, List.append_assoc, List.cons_append, parseStatement,
        bind_of_ok current_apply, currentOf_cons, isIf]
      exact parseIfStatement_complete ih isIf derives thenBlock isElse elseBlock (by omega)

/-- The statements of a derivable program are read up to the end of the file. -/
theorem parseStatements_complete {sequence : TokenSequence} {program : Program}
    (derives : DerivesProgram stod sequence.tokens program) (short : sequence.all.length ≤ bound) :
    parseStatements stod bound sequence.all = .ok program.statements [sequence.ending] := by
  have ends : (currentOf [sequence.ending]).kind = .endOfFile := sequence.ends
  have stops : Stops .comparison [sequence.ending] := by
    unfold Stops
    rw [ends]
    decide
  have length : sequence.all.length = sequence.tokens.length + 1 := by simp [TokenSequence.all]
  exact statements_complete parseStatement_complete (fun _ _ _ _ => rfl) derives (by omega)
    (by omega) ends
    (by decide) stops

/-- A derivable program is accepted. -/
theorem parseProgram_complete {sequence : TokenSequence} {program : Program}
    (derives : DerivesProgram stod sequence.tokens program) :
    parseProgram stod sequence = .ok program := by
  have loop := parseStatements_complete derives (Nat.le_succ sequence.all.length)
  exact except_bind_ok.mpr ⟨program.statements, outcome_eq_ok.mpr ⟨_, loop⟩, rfl⟩

/-- The parser returns a program exactly when the tokens are derivable, and the
tokens have one syntax tree at most. -/
theorem parseProgram_iff (stod : String → Option Double) (sequence : TokenSequence)
    (program : Program) :
    (parseProgram stod sequence = .ok program ↔ DerivesProgram stod sequence.tokens program) ∧
      ∀ other, DerivesProgram stod sequence.tokens program →
        DerivesProgram stod sequence.tokens other →
        other = program := by
  refine ⟨⟨parseProgram_sound, parseProgram_complete⟩, fun other derives derives' => ?_⟩
  have same := (parseProgram_complete derives).symm.trans (parseProgram_complete derives')
  exact (Except.ok.inj same).symm

end Ocelotl.Frontend
