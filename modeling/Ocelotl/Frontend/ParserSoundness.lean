import Ocelotl.Frontend.Grammar

namespace Ocelotl.Frontend

open Ast Library

variable {stod : String → Option Double} {level : Level} {tokens rest reads : List Token}
  {token : Token} {kind : TokenKind} {expectation message : String} {bound : Nat}
  {lhs expression : Expression} {statement : Statement} {statements : List Statement}

@[simp] theorem current_apply : current tokens = .ok (currentOf tokens) tokens := rfl

@[simp] theorem advance_apply : advance tokens = .ok () tokens.tail := rfl

@[simp] theorem check_apply :
    check kind tokens = .ok (decide ((currentOf tokens).kind = kind)) tokens := rfl

@[simp] theorem checkNot_apply :
    checkNot kind tokens = .ok (!decide ((currentOf tokens).kind = kind)) tokens := rfl

@[simp] theorem checkAny_apply {kinds : List TokenKind} :
    checkAny kinds tokens = .ok (kinds.contains (currentOf tokens).kind) tokens := rfl

@[simp] theorem currentOf_cons : currentOf (token :: rest) = token := rfl

@[simp] theorem throwParseError_apply {α : Type} :
    (throwParseError token message : Parsing α) tokens =
    .error (.parse token.location message) tokens := rfl

/-- Only the end of the file has nothing after it. -/
theorem eq_cons_of_kind (present : (currentOf tokens).kind = kind) (more : kind ≠ .endOfFile) :
    tokens = currentOf tokens :: tokens.tail := by
  cases tokens with
  | nil => exact absurd present.symm more
  | cons token rest => rfl

theorem consume_ok (more : kind ≠ .endOfFile) :
    consume kind expectation tokens = .ok token rest ↔
      tokens = token :: rest ∧ token.kind = kind := by
  rw [consume, bind_of_ok current_apply]
  by_cases here : (currentOf tokens).kind = kind
  · rw [if_neg (not_not_intro here)]
    simp only [bind_of_ok advance_apply, pure_apply, EStateM.Result.ok.injEq]
    constructor
    · intro same
      obtain ⟨same, same'⟩ := same
      exact ⟨same ▸ same' ▸ eq_cons_of_kind here more, same ▸ here⟩
    · intro same
      obtain ⟨rfl, _⟩ := same
      exact ⟨rfl, rfl⟩
  · rw [if_pos here]
    constructor
    · intro impossible
      cases impossible
    · intro same
      obtain ⟨rfl, same⟩ := same
      exact absurd same here

theorem convert_ok {α : Type} {result : Option α} {value : α} :
    convert result token message tokens = .ok value rest ↔ result = some value ∧ rest = tokens := by
  cases result <;> simp [convert, eq_comm]

theorem stoll_eq_some {lexeme : String} {bits : BitVec 64} :
    stoll lexeme = some bits ↔
      decimal lexeme ≤ 2 ^ 63 - 1 ∧ bits = BitVec.ofNat 64 (decimal lexeme) := by
  unfold stoll
  split
  · simp_all [eq_comm]
  · simp only [reduceCtorEq, false_iff, not_and]
    intro fits
    contradiction

theorem stoull_eq_some {lexeme : String} {value : Nat} :
    stoull lexeme = some value ↔ decimal lexeme = value ∧ value ≤ 2 ^ 64 - 1 := by
  unfold stoull
  split <;> simp <;> omega

theorem makeBinary_ok {rhs : Expression} :
    makeBinary lhs token rhs tokens = .ok expression rest ↔
      ∃ op, binaryOperator token.kind = some op ∧ expression = .binary op lhs rhs token.location ∧
        rest = tokens := by
  unfold makeBinary
  cases binaryOperator token.kind with
  | none => simp
  | some op => simp [eq_comm]

/-- An operator of the level with its operand. -/
def OperatorItem (stod : String → Option Double) (level : Level) (lhs : Expression)
    (read : List Token) (expression : Expression) : Prop :=
  ∃ token op first rhs, token.kind ∈ level.operators ∧ binaryOperator token.kind = some op ∧
    Derives stod level.operand first rhs ∧ read = token :: first ∧
    expression = .binary op lhs rhs token.location

theorem Operators.of_chain (chain : Chain (OperatorItem stod level) lhs reads expression) :
    Operators stod level lhs reads expression := by
  induction chain with
  | nil => exact .none
  | cons item _ ih =>
    obtain ⟨token, op, first, rhs, isOperator, denotes, operand, rfl, rfl⟩ := item
    exact .operator isOperator denotes operand ih

theorem Operators.chain : ∀ {lhs reads expression}, Operators stod level lhs reads expression →
    Chain (OperatorItem stod level) lhs reads expression
  | _, _, _, .none => .nil
  | _, _, _, .operator isOperator denotes operand later =>
    .cons ⟨_, _, _, _, isOperator, denotes, operand, rfl, rfl⟩ later.chain

theorem not_endOfFile_of_operator (isOperator : kind ∈ level.operators) : kind ≠ .endOfFile := by
  rintro rfl
  cases level <;> simp [Level.operators] at isOperator

private theorem parseBinary_sound (level : Level) {parseOperand : Parsing Expression}
    (isBinary : level ≠ .primary) (operand : SoundFor parseOperand (Derives stod level.operand)) :
    SoundFor (parseBinary level.operators parseOperand bound) (Derives stod level) := by
  intro tokens expression rest success
  obtain ⟨lhs, middle, first, loop⟩ := bind_ok.mp success
  have chain : ∃ reads, middle = reads ++ rest ∧
      Chain (OperatorItem stod level) lhs reads expression := by
    refine repeatWhile_sound (fun _ => checkAny_apply)
      (fun {lhs next tokens rest} goesOn step => ?_) loop
    have isOperator : (currentOf tokens).kind ∈ level.operators := List.contains_iff_mem.mp goesOn
    simp only [bind_of_ok current_apply, bind_of_ok advance_apply, bind_ok, makeBinary_ok] at step
    obtain ⟨rhs, middle, first, op, denotes, rfl, rfl⟩ := step
    obtain ⟨read, same, derives⟩ := operand _ _ _ first
    refine ⟨currentOf tokens :: read, ?_, _, op, read, rhs, isOperator, denotes, derives, rfl, rfl⟩
    rw [List.cons_append, ← same]
    exact eq_cons_of_kind rfl (not_endOfFile_of_operator isOperator)
  obtain ⟨read, rfl, derives⟩ := operand _ _ _ first
  obtain ⟨reads, rfl, chain⟩ := chain
  exact ⟨read ++ reads, (List.append_assoc _ _ _).symm, .binary isBinary derives (.of_chain chain)⟩

section Primary

variable {parsePrimary : Parsing Expression}
  (primary : SoundFor parsePrimary (Derives stod .primary))
include primary

private theorem parseExpression_sound :
    SoundFor (parseExpression parsePrimary bound) (Derives stod .comparison) := by
  have multiplicative :
      SoundFor (parseMultiplicative parsePrimary bound) (Derives stod .multiplicative) :=
    parseBinary_sound .multiplicative (by decide) primary
  have additive : SoundFor (parseAdditive parsePrimary bound) (Derives stod .additive) :=
    parseBinary_sound .additive (by decide) multiplicative
  exact parseBinary_sound .comparison (by decide) additive

/-- One more argument. -/
def ArgumentItem (stod : String → Option Double) (values : List Expression) (read : List Token)
    (next : List Expression) : Prop :=
  ∃ token first value, token.kind = .comma ∧ Derives stod .comparison first value ∧
    read = token :: first ∧ next = values ++ [value]

omit primary in
theorem MoreArguments.of_chain {values next : List Expression}
    (chain : Chain (ArgumentItem stod) values reads next) :
    ∃ more, next = values ++ more ∧ MoreArguments stod reads more := by
  induction chain with
  | nil => exact ⟨[], (List.append_nil _).symm, .none⟩
  | cons item _ ih =>
    obtain ⟨token, first, value, isComma, derives, rfl, rfl⟩ := item
    obtain ⟨more, rfl, later⟩ := ih
    exact ⟨value :: more, List.append_assoc _ _ _, .comma isComma derives later⟩

private theorem parseArguments_sound :
    SoundFor (parseArguments parsePrimary bound) (Arguments stod) := by
  intro tokens values rest success
  simp only [parseArguments, bind_of_ok check_apply] at success
  split at success
  · cases success
    exact ⟨[], rfl, .none⟩
  · obtain ⟨first, middle, parsed, loop⟩ := bind_ok.mp success
    have chain : ∃ reads, middle = reads ++ rest ∧
        Chain (ArgumentItem stod) [first] reads values := by
      refine repeatWhile_sound (fun _ => check_apply)
        (fun {values next tokens rest} goesOn step => ?_) loop
      have isComma : (currentOf tokens).kind = .comma := of_decide_eq_true goesOn
      rw [bind_of_ok advance_apply] at step
      obtain ⟨value, rest, parsed, same⟩ := bind_ok.mp step
      cases same
      obtain ⟨read, same, derives⟩ := parseExpression_sound primary _ _ _ parsed
      refine ⟨currentOf tokens :: read, ?_, _, read, value, isComma, derives, rfl, rfl⟩
      rw [List.cons_append, ← same]
      exact eq_cons_of_kind isComma (by decide)
    obtain ⟨read, rfl, derives⟩ := parseExpression_sound primary _ _ _ parsed
    obtain ⟨reads, rfl, chain⟩ := chain
    obtain ⟨more, rfl, later⟩ := MoreArguments.of_chain chain
    exact ⟨read ++ reads, (List.append_assoc _ _ _).symm, .some derives later⟩

private theorem parseIdentifierOrCall_sound :
    SoundFor (parseIdentifierOrCall parsePrimary bound) (Derives stod .primary) := by
  intro tokens expression rest run
  obtain ⟨name, middle, consumed, success⟩ := bind_ok.mp run
  obtain ⟨rfl, isIdentifier⟩ := (consume_ok (by decide)).mp consumed
  rw [bind_of_ok check_apply] at success
  split at success
  · rename_i opens
    have opens : (currentOf middle).kind = .leftParen := of_decide_eq_true opens
    rw [bind_of_ok advance_apply] at success
    obtain ⟨values, later, parsed, success⟩ := bind_ok.mp success
    obtain ⟨closing, _, consumed, same⟩ := bind_ok.mp success
    obtain ⟨rfl, closes⟩ := (consume_ok (by decide)).mp consumed
    cases same
    obtain ⟨reads, same, arguments⟩ := parseArguments_sound primary _ _ _ parsed
    refine ⟨name :: currentOf middle :: (reads ++ [closing]), ?_,
      .call isIdentifier opens arguments closes⟩
    have shape := eq_cons_of_kind opens (by decide)
    rw [same] at shape
    simpa using shape
  · cases success
    exact ⟨[name], rfl, .identifier isIdentifier⟩

end Primary

theorem parsePrimary_sound : SoundFor (parsePrimary stod bound) (Derives stod .primary) := by
  induction bound with
  | zero =>
    intro tokens value rest run
    cases run
  | succ bound ih =>
    intro tokens expression rest success
    rw [parsePrimary, bind_of_ok current_apply] at success
    generalize kind : (currentOf tokens).kind = found at success
    cases found with
    | identifier => exact parseIdentifierOrCall_sound ih _ _ _ success
    | integerLiteral =>
      simp only [bind_of_ok advance_apply, bind_ok, convert_ok, stoll_eq_some] at success
      obtain ⟨_, _, ⟨⟨fits, rfl⟩, rfl⟩, same⟩ := success
      cases same
      exact ⟨[currentOf tokens], eq_cons_of_kind kind (by decide), .integer kind fits⟩
    | floatLiteral =>
      simp only [bind_of_ok advance_apply, bind_ok, convert_ok] at success
      obtain ⟨_, _, ⟨accepted, rfl⟩, same⟩ := success
      cases same
      exact ⟨[currentOf tokens], eq_cons_of_kind kind (by decide), .float kind accepted⟩
    | leftParen =>
      dsimp only at success
      rw [bind_of_ok advance_apply] at success
      obtain ⟨inner, middle, parsed, success⟩ := bind_ok.mp success
      obtain ⟨closing, _, consumed, same⟩ := bind_ok.mp success
      obtain ⟨rfl, closes⟩ := (consume_ok (by decide)).mp consumed
      cases same
      obtain ⟨reads, same, derives⟩ := parseExpression_sound ih _ _ _ parsed
      refine ⟨currentOf tokens :: (reads ++ [closing]), ?_, .parentheses kind derives closes⟩
      have shape := eq_cons_of_kind kind (by decide)
      rw [same] at shape
      simpa using shape
    | _ => cases success

theorem parseDimension_sound : SoundFor parseDimension (fun read value => ∃ token, read = [token] ∧
    Dimension token value) := by
  intro tokens value rest run
  obtain ⟨token, _, consumed, success⟩ := bind_ok.mp run
  obtain ⟨rfl, isInteger⟩ := (consume_ok (by decide)).mp consumed
  obtain ⟨converted, rfl⟩ := convert_ok.mp success
  obtain ⟨denotes, fits⟩ := stoull_eq_some.mp converted
  exact ⟨[token], rfl, token, rfl, isInteger, denotes, fits⟩

/-- One more dimension. -/
def DimensionItem (values : List Nat) (read : List Token) (next : List Nat) : Prop :=
  ∃ comma token value, comma.kind = .comma ∧ Dimension token value ∧ read = [comma, token] ∧
    next = values ++ [value]

theorem MoreDimensions.of_chain {values next : List Nat}
    (chain : Chain DimensionItem values reads next) :
    ∃ more, next = values ++ more ∧ MoreDimensions reads more := by
  induction chain with
  | nil => exact ⟨[], (List.append_nil _).symm, .none⟩
  | cons item _ ih =>
    obtain ⟨comma, token, value, isComma, dimension, rfl, rfl⟩ := item
    obtain ⟨more, rfl, later⟩ := ih
    exact ⟨value :: more, List.append_assoc _ _ _, .comma isComma dimension later⟩

private theorem parseTensorType_sound : SoundFor (parseTensorType bound) DerivesType := by
  intro tokens type rest run
  simp (disch := decide) only [parseTensorType, bind_ok, consume_ok] at run
  obtain ⟨name, _, ⟨rfl, isIdentifier⟩, opening, _, ⟨rfl, opens⟩, first, middle, parsed,
    values, _, loop,
    closing, _, ⟨rfl, closes⟩, same⟩ := run
  cases same
  have chain : ∃ reads, middle = reads ++ closing ::
      rest ∧ Chain DimensionItem [first] reads values := by
    refine repeatWhile_sound (fun _ => check_apply)
      (fun {values next tokens rest} goesOn step => ?_) loop
    have isComma : (currentOf tokens).kind = .comma := of_decide_eq_true goesOn
    rw [bind_of_ok advance_apply] at step
    obtain ⟨value, rest, parsed, same⟩ := bind_ok.mp step
    cases same
    obtain ⟨_, same, token, rfl, dimension⟩ := parseDimension_sound _ _ _ parsed
    refine ⟨[currentOf tokens, token], ?_, _, token, value, isComma, dimension, rfl, rfl⟩
    have shape := eq_cons_of_kind isComma (by decide)
    rw [same] at shape
    exact shape
  obtain ⟨_, rfl, token, rfl, dimension⟩ := parseDimension_sound _ _ _ parsed
  obtain ⟨reads, rfl, chain⟩ := chain
  obtain ⟨more, rfl, later⟩ := MoreDimensions.of_chain chain
  exact ⟨name :: opening :: token :: (reads ++ [closing]), by simp,
    .type isIdentifier opens dimension later closes⟩

private theorem parseTensorDeclaration_sound :
    SoundFor (parseTensorDeclaration bound) (DerivesStatement stod) := by
  intro tokens statement rest run
  simp (disch := decide) only [parseTensorDeclaration, bind_ok, consume_ok] at run
  obtain ⟨tensorToken, _, ⟨rfl, isTensor⟩, name, _, ⟨rfl, isIdentifier⟩, colon, _, ⟨rfl, isColon⟩,
    type, _, parsed, same⟩ := run
  cases same
  obtain ⟨read, rfl, derives⟩ := parseTensorType_sound _ _ _ parsed
  exact ⟨tensorToken :: name :: colon :: read, rfl,
    .tensorDeclaration isTensor isIdentifier isColon derives⟩

theorem parse_expression_sound :
    SoundFor (parseExpression (parsePrimary stod bound) bound) (Derives stod .comparison) :=
  parseExpression_sound parsePrimary_sound

private theorem parseAssignment_sound : SoundFor (parseAssignment stod bound) (DerivesStatement stod) := by
  intro tokens statement rest run
  simp (disch := decide) only [parseAssignment, bind_ok, consume_ok] at run
  obtain ⟨target, _, ⟨rfl, isIdentifier⟩, equal, _, ⟨rfl, isEqual⟩, value, _, parsed, same⟩ := run
  cases same
  obtain ⟨read, rfl, derives⟩ := parse_expression_sound _ _ _ parsed
  exact ⟨target :: equal :: read, rfl, .assignment isIdentifier isEqual derives⟩

private theorem parseReturnStatement_sound :
    SoundFor (parseReturnStatement stod bound) (DerivesStatement stod) := by
  intro tokens statement rest run
  simp (disch := decide) only [parseReturnStatement, bind_ok, consume_ok] at run
  obtain ⟨returnToken, _, ⟨rfl, isReturn⟩, value, _, parsed, same⟩ := run
  cases same
  obtain ⟨read, rfl, derives⟩ := parse_expression_sound _ _ _ parsed
  exact ⟨returnToken :: read, rfl, .returnStmt isReturn derives⟩

/-- One more statement. -/
def StatementItem (stod : String → Option Double) (statements : List Statement) (read : List Token)
    (next : List Statement) : Prop :=
  ∃ statement, DerivesStatement stod read statement ∧ next = statements ++ [statement]

theorem DerivesStatements.of_chain {next : List Statement}
    (chain : Chain (StatementItem stod) statements reads next) :
    ∃ more, next = statements ++ more ∧ DerivesStatements stod reads more := by
  induction chain with
  | nil => exact ⟨[], (List.append_nil _).symm, .none⟩
  | cons item _ ih =>
    obtain ⟨statement, derives, rfl⟩ := item
    obtain ⟨more, rfl, later⟩ := ih
    exact ⟨statement :: more, List.append_assoc _ _ _, .statement derives later⟩

section Blocks

variable {parseStatement : Parsing Statement}
  (each : SoundFor parseStatement (DerivesStatement stod))
include each

private theorem parseBlock_sound : SoundFor (parseBlock parseStatement bound) (DerivesBlock stod) := by
  intro tokens statements rest run
  simp (disch := decide) only [parseBlock, bind_ok, consume_ok] at run
  obtain ⟨opening, middle, ⟨rfl, opens⟩, statements, _, loop, closing, _, ⟨rfl, closes⟩, same⟩ :=
    run
  cases same
  have chain : ∃ reads, middle = reads ++ closing ::
      rest ∧ Chain (StatementItem stod) [] reads statements := by
    refine repeatWhile_sound (fun _ => checkNot_apply)
      (fun {statements next tokens rest} _ step => ?_) loop
    rw [bind_of_ok current_apply] at step
    split at step
    · cases step
    · obtain ⟨statement, rest, parsed, same⟩ := bind_ok.mp step
      cases same
      obtain ⟨read, rfl, derives⟩ := each _ _ _ parsed
      exact ⟨read, rfl, statement, derives, rfl⟩
  obtain ⟨reads, rfl, chain⟩ := chain
  obtain ⟨more, rfl, inner⟩ := DerivesStatements.of_chain chain
  exact ⟨opening :: (reads ++ [closing]), by simp, .block opens inner closes⟩

private theorem parseIfStatement_sound :
    SoundFor (parseIfStatement stod parseStatement bound) (DerivesStatement stod) := by
  intro tokens statement rest run
  simp (disch := decide) only [parseIfStatement, bind_ok, consume_ok] at run
  obtain ⟨ifToken, _, ⟨rfl, isIf⟩, condition, _, parsed, thenStatements, _, thenParsed,
    elseToken, _, ⟨rfl, isElse⟩, elseStatements, _, elseParsed, same⟩ := run
  cases same
  obtain ⟨read, rfl, derives⟩ := parse_expression_sound _ _ _ parsed
  obtain ⟨thenRead, rfl, thenBlock⟩ := parseBlock_sound each _ _ _ thenParsed
  obtain ⟨elseRead, rfl, elseBlock⟩ := parseBlock_sound each _ _ _ elseParsed
  exact ⟨ifToken :: (read ++ (thenRead ++ elseToken :: elseRead)), by simp,
    .ifStmt isIf derives thenBlock isElse elseBlock⟩

end Blocks

theorem parseStatement_sound : SoundFor (parseStatement stod bound) (DerivesStatement stod) := by
  induction bound with
  | zero =>
    intro tokens value rest run
    cases run
  | succ bound ih =>
    intro tokens statement rest success
    rw [parseStatement, bind_of_ok current_apply] at success
    generalize (currentOf tokens).kind = found at success
    cases found with
    | kwTensor => exact parseTensorDeclaration_sound _ _ _ success
    | kwReturn => exact parseReturnStatement_sound _ _ _ success
    | kwIf => exact parseIfStatement_sound ih _ _ _ success
    | identifier => exact parseAssignment_sound _ _ _ success
    | _ => cases success

/-- No end of the file is inside. -/
def Continues (tokens : List Token) : Prop := ∀ token ∈ tokens, token.kind ≠ .endOfFile

theorem Continues.cons (here : token.kind = kind) (more : kind ≠ .endOfFile)
    (later : Continues rest) :
    Continues (token :: rest) := by
  intro other member
  rcases List.mem_cons.mp member with rfl | member
  · exact here ▸ more
  · exact later other member

theorem Continues.append (first : Continues tokens) (second : Continues rest) :
    Continues (tokens ++ rest) :=
  fun token member => (List.mem_append.mp member).elim (first token) (second token)

theorem Continues.nil : Continues [] := List.forall_mem_nil _

mutual

theorem Derives.continues :
    ∀ {level reads expression}, Derives stod level reads expression → Continues reads
  | _, _, _, .identifier isIdentifier => .cons isIdentifier (by decide) .nil
  | _, _, _, .integer isInteger _ => .cons isInteger (by decide) .nil
  | _, _, _, .float isFloat _ => .cons isFloat (by decide) .nil
  | _, _, _, .call isIdentifier opens arguments closes =>
    .cons isIdentifier (by decide)
      (.cons opens (by decide) (arguments.continues.append (.cons closes (by decide) .nil)))
  | _, _, _, .parentheses opens inner closes =>
    .cons opens (by decide) (inner.continues.append (.cons closes (by decide) .nil))
  | _, _, _, .binary _ operand operators => operand.continues.append operators.continues

theorem Operators.continues :
    ∀ {level lhs reads expression}, Operators stod level lhs reads expression →
    Continues reads
  | _, _, _, _, .none => .nil
  | _, _, _, _, .operator isOperator _ operand later =>
    .cons rfl (not_endOfFile_of_operator isOperator) (operand.continues.append later.continues)

theorem Arguments.continues : ∀ {reads values}, Arguments stod reads values → Continues reads
  | _, _, .none => .nil
  | _, _, .some argument later => argument.continues.append later.continues

theorem MoreArguments.continues :
    ∀ {reads values}, MoreArguments stod reads values → Continues reads
  | _, _, .none => .nil
  | _, _, .comma isComma argument later =>
    .cons isComma (by decide) (argument.continues.append later.continues)

end

theorem MoreDimensions.continues {values : List Nat} (dimensions : MoreDimensions reads values) :
    Continues reads := by
  induction dimensions with
  | none => exact .nil
  | comma isComma dimension _ ih =>
    exact .cons isComma (by decide) (.cons dimension.isInteger (by decide) ih)

theorem DerivesType.continues {type : TensorType} (derives : DerivesType reads type) :
    Continues reads := by
  obtain ⟨isIdentifier, opens, dimension, later, closes⟩ := derives
  exact .cons isIdentifier (by decide)
    (.cons opens (by decide) (.cons dimension.isInteger (by decide)
    (later.continues.append (.cons closes (by decide) .nil))))

mutual

theorem DerivesStatement.continues : ∀ {reads statement}, DerivesStatement stod reads statement →
    Continues reads
  | _, _, .tensorDeclaration isTensor isIdentifier isColon derives =>
    .cons isTensor (by decide)
      (.cons isIdentifier (by decide) (.cons isColon (by decide) derives.continues))
  | _, _, .assignment isIdentifier isEqual derives =>
    .cons isIdentifier (by decide) (.cons isEqual (by decide) derives.continues)
  | _, _, .returnStmt isReturn derives => .cons isReturn (by decide) derives.continues
  | _, _, .ifStmt isIf derives thenBlock isElse elseBlock =>
    .cons isIf (by decide) (derives.continues.append (thenBlock.continues.append
      (.cons isElse (by decide) elseBlock.continues)))

theorem DerivesBlock.continues :
    ∀ {reads statements}, DerivesBlock stod reads statements → Continues reads
  | _, _, .block opens inner closes =>
    .cons opens (by decide) (inner.continues.append (.cons closes (by decide) .nil))

theorem DerivesStatements.continues :
    ∀ {reads statements}, DerivesStatements stod reads statements →
    Continues reads
  | _, _, .none => .nil
  | _, _, .statement derives later => derives.continues.append later.continues

end

/-- The end of the file is not passed. -/
theorem TokenSequence.read_all (sequence : TokenSequence) (same : sequence.all = reads ++ rest)
    (inner : Continues reads) (ends : (currentOf rest).kind = .endOfFile) :
    reads = sequence.tokens := by
  rcases List.append_eq_append_iff.mp same with ⟨more, rfl, ending⟩ | ⟨more, split, rfl⟩
  · cases more with
    | nil => exact List.append_nil _
    | cons token more =>
      obtain ⟨first, _⟩ := List.cons.inj ending
      exact absurd (first ▸ sequence.ends) (inner token (by simp))
  · cases more with
    | nil => rw [split, List.append_nil]
    | cons token more => exact absurd ends (sequence.continues token (by simp [split]))

/-- An accepted program is derivable. -/
theorem parseProgram_sound {sequence : TokenSequence} {program : Program}
    (success : parseProgram stod sequence = .ok program) :
    DerivesProgram stod sequence.tokens program := by
  obtain ⟨statements, parsed, same⟩ := except_bind_ok.mp success
  cases same
  obtain ⟨rest, loop⟩ := outcome_eq_ok.mp parsed
  have ends : (currentOf rest).kind = .endOfFile := by
    simpa using repeatWhile_ends (fun _ => checkNot_apply) loop
  have chain : ∃ reads, sequence.all = reads ++ rest ∧
      Chain (StatementItem stod) [] reads statements := by
    refine repeatWhile_sound (fun _ => checkNot_apply)
      (fun {statements next tokens rest} _ step => ?_) loop
    obtain ⟨statement, rest, parsed, same⟩ := bind_ok.mp step
    cases same
    obtain ⟨read, rfl, derives⟩ := parseStatement_sound _ _ _ parsed
    exact ⟨read, rfl, statement, derives, rfl⟩
  obtain ⟨reads, same, chain⟩ := chain
  obtain ⟨more, rfl, inner⟩ := DerivesStatements.of_chain chain
  cases sequence.read_all same inner.continues ends
  exact inner

end Ocelotl.Frontend
