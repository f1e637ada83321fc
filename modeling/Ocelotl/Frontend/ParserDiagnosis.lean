import Ocelotl.Frontend.ParserSoundness
import Ocelotl.Library.Diagnosis

namespace Ocelotl.Frontend

open Ast Library

variable {stod : String → Option Double} {level : Level} {tokens rest read reads : List Token}
  {token : Token} {kind : TokenKind} {expectation message : String} {ι : Type}
  {bound limit limit' : Nat} {bounds : ι → Nat}

/-- The error gives the location of the token. -/
def Blames (error : ParseError) (token : Token) : Prop :=
  ∃ message, error = .parse token.location message

/-- At most this many tokens, with the end of the file among them. -/
structure Within (limit : Nat) (tokens : List Token) : Prop where
  short : tokens.length ≤ limit
  ended : ∃ token ∈ tokens, token.kind = .endOfFile

/-- The procedure under a bound and under larger ones. -/
abbrev Reports {α ι : Type} (limit : Nat) (parser : Parsing α) (parser' : ι → Parsing α)
    (derives : List Token → α → Prop) : Prop :=
  Diagnoses Blames (Within limit) parser parser' derives

theorem Within.ne_nil (within : Within limit tokens) : tokens ≠ [] := by
  obtain ⟨_, token, member, _⟩ := within
  exact List.ne_nil_of_mem member

private theorem not_within_zero (tokens : List Token) : ¬ Within 0 tokens :=
  fun within => within.ne_nil (List.length_eq_zero_iff.mp (Nat.le_zero.mp within.short))

theorem Within.mono (within : Within bound tokens) (shorter : bound ≤ limit) :
    Within limit tokens :=
  ⟨Nat.le_trans within.short shorter, within.ended⟩

/-- The end of the file is still to come. -/
theorem Within.after (within : Within limit (read ++ tokens)) (inner : Continues read) :
    Within limit tokens := by
  obtain ⟨short, token, member, ends⟩ := within
  rw [List.length_append] at short
  refine ⟨by omega, token, ?_, ends⟩
  exact (List.mem_append.mp member).resolve_left fun before => inner token before ends

theorem Within.drop (within : Within (limit + 1) (read ++ tokens)) (inner : Continues read)
    (nonempty : read ≠ []) :
    Within limit tokens := by
  have positive := List.length_pos_iff.mpr nonempty
  have short := within.short
  rw [List.length_append] at short
  exact ⟨by omega, (within.after inner).ended⟩

theorem exists_token (kind : TokenKind) : ∃ token : Token, token.kind = kind := by
  have numeral : IsNumeral "0" := isNumeral_of_all (by decide) rfl
  exact ⟨⟨kind, "0", {}, fun _ => numeral⟩, rfl⟩

/-- A token of this kind. -/
def OfKind (kind : TokenKind) (read : List Token) (token : Token) : Prop :=
  read = [token] ∧ token.kind = kind

theorem OfKind.continues (one : OfKind kind read token) (more : kind ≠ .endOfFile) :
    Continues read := by
  obtain ⟨rfl, here⟩ := one
  exact .cons here more .nil

private theorem consume_fails (differs : token.kind ≠ kind) : consume kind expectation (token :: rest) =
    .error (.parse token.location ("expected " ++ expectation ++ ", found '" ++ token.lexeme ++
      "'")) (token :: rest) := by
  rw [consume, bind_of_ok current_apply, currentOf_cons, if_pos differs, throwParseError_apply]

private theorem consume_reports (more : kind ≠ .endOfFile) :
    Reports limit (consume kind expectation) (fun _ : ι => consume kind expectation)
      (OfKind kind) where
  ok := by
    intro tokens token rest _ success
    obtain ⟨rfl, here⟩ := (consume_ok more).mp success
    exact ⟨[token], rfl, ⟨rfl, here⟩, fun _ rest' _ => (consume_ok more).mpr ⟨rfl, here⟩⟩
  error := by
    intro tokens error final within failure
    cases tokens with
    | nil => exact absurd rfl within.ne_nil
    | cons token rest =>
      have differs : token.kind ≠ kind := by
        intro here
        rw [(consume_ok more).mpr ⟨rfl, here⟩] at failure
        cases failure
      rw [consume_fails differs] at failure
      cases failure
      obtain ⟨other, expected⟩ := exists_token kind
      exact ⟨[], token, rest, rfl, ⟨_, rfl⟩, ⟨[other], other, rfl, expected⟩,
        fun _ after => ⟨_, consume_fails differs⟩⟩

section Steps

variable {α : Type} {derives : List Token → α → Prop}

/-- A token is consumed, and the rest of the word read. -/
theorem consumed_reports {next : Token → Parsing α} {next' : ι → Token → Parsing α}
    (shorter : limit ≤ limit' + 1) (more : kind ≠ .endOfFile)
    (completes : ∀ {token}, token.kind = kind → ∃ rest value, derives (token :: rest) value)
    (rest : ∀ {token}, token.kind = kind →
      Reports limit' (next token) (fun index => next' index token)
      fun more value => derives (token :: more) value) :
    Reports limit (consume kind expectation >>= next) (fun index => consume kind expectation >>=
      next' index) derives := by
  have passes {read : List Token} {token : Token} {tokens : List Token}
    (one : OfKind kind read token)
      (within : Within limit (read ++ tokens)) : Within limit' tokens :=
    (within.mono shorter).drop (one.continues more) (one.1 ▸ List.cons_ne_nil _ _)
  refine (consume_reports more).bind passes (fun one => ?_) (fun one => ?_)
  · obtain ⟨rfl, here⟩ := one
    exact completes here
  · obtain ⟨rfl, here⟩ := one
    exact rest here

/-- A choice that the current token makes. -/
theorem current_reports {given : List Token → Prop} {choose : Token → Parsing α}
    {choose' : ι → Token → Parsing α} (nonempty : ∀ tokens, given tokens → tokens ≠ [])
    (each : ∀ token, Diagnoses Blames (fun tokens => given tokens ∧ tokens.head? = some token)
      (choose token) (fun index => choose' index token) derives) :
    Diagnoses Blames given (current >>= choose) (fun index => current >>= choose' index)
      derives := by
  refine .current nonempty ?_ ?_ each
  · exact fun _ _ => rfl
  · exact fun _ _ _ => rfl

private theorem throwParseError_reports {given : List Token → Prop}
    (inhabited : ∃ read value, derives read value) :
    Diagnoses Blames (fun tokens => given tokens ∧ tokens.head? = some token)
      (throwParseError token message) (fun _ : ι => throwParseError token message) derives :=
  .throw ⟨message, rfl⟩ inhabited

/-- A token that was looked at is taken. -/
theorem taken_reports {next : Token → Parsing α} {next' : ι → Token → Parsing α}
    {test : Token → Bool} (shorter : limit ≤ limit' + 1)
    (inside : ∀ token, test token = true → token.kind ≠ .endOfFile)
    (rest : ∀ {token}, test token = true →
      Reports limit' (next token) (fun index => next' index token)
      fun more value => derives (token :: more) value) :
    Diagnoses Blames (fun tokens => Within limit tokens ∧ test (currentOf tokens) = true)
      (do
        let token ← current
        advance
        next token)
      (fun index => do
        let token ← current
        advance
        next' index token) derives := by
  refine .token (fun _ given => given.1.ne_nil) (fun _ _ => rfl) (fun _ _ _ => rfl)
    (fun {token tokens} given => ?_) rest
  obtain ⟨within, accepted⟩ := given
  have within : Within (limit' + 1) ([token] ++ tokens) := within.mono shorter
  exact ⟨accepted, within.drop (.cons rfl (inside token accepted) .nil) (List.cons_ne_nil _ _)⟩

/-- A token of a kind that was checked is passed over. -/
theorem passed_reports {next : Parsing α} {next' : ι → Parsing α} (shorter : limit ≤ limit' + 1)
    (more : kind ≠ .endOfFile)
    (rest : ∀ {token}, token.kind = kind →
      Reports limit' next next' fun more value => derives (token :: more) value) :
    Diagnoses Blames (fun tokens => Within limit tokens ∧
      decide ((currentOf tokens).kind = kind) = true)
      (do
        advance
        next)
      (fun index => do
        advance
        next' index) derives := by
  refine .token (fun _ given => given.1.ne_nil) (fun _ _ => rfl) (fun _ _ _ => rfl)
    (fun {token tokens} given => ?_) rest
  obtain ⟨within, here⟩ := given
  have within : Within (limit' + 1) ([token] ++ tokens) := within.mono shorter
  have here : token.kind = kind := of_decide_eq_true here
  exact ⟨here, within.drop (.cons here more .nil) (List.cons_ne_nil _ _)⟩

/-- The current token is passed over, and its lexeme converted. -/
theorem convert_reports {β : Type} {converted : Option β} {build : β → α}
    (inhabited : ∃ read value, derives read value)
    (derived : ∀ value, converted = some value → derives [token] (build value)) :
    Diagnoses Blames (fun tokens => Within limit tokens ∧ tokens.head? = some token)
      (do
        advance
        let value ← convert converted token message
        return build value)
      (fun _ : ι => do
        advance
        let value ← convert converted token message
        return build value) derives where
  ok := by
    intro tokens result final here success
    obtain ⟨rest, rfl⟩ := List.head?_eq_some_iff.mp here.2
    rw [bind_of_ok advance_apply] at success
    obtain ⟨value, middle, converts, same⟩ := bind_ok.mp success
    obtain ⟨found, kept⟩ := convert_ok.mp converts
    cases kept
    cases same
    refine ⟨[token], rfl, derived value found, fun _ rest' _ => ?_⟩
    rw [bind_of_ok advance_apply]
    exact bind_ok.mpr ⟨value, rest', convert_ok.mpr ⟨found, rfl⟩, rfl⟩
  error := by
    intro tokens error final here failure
    obtain ⟨rest, rfl⟩ := List.head?_eq_some_iff.mp here.2
    cases found : converted with
    | some value =>
      rw [found] at failure
      cases failure
    | none =>
      rw [found] at failure
      cases failure
      exact ⟨[], token, _, rfl, ⟨message, rfl⟩, inhabited, fun _ after => ⟨_, rfl⟩⟩

/-- One more element of a list. -/
theorem append_reports {given : List Token → Prop} {parser : Parsing α} {parser' : ι → Parsing α}
    (element : Diagnoses Blames given parser parser' derives) (values : List α) :
    Diagnoses Blames given (do
      let value ← parser
      return values ++ [value]) (fun index => do
      let value ← parser' index
      return values ++ [value]) (fun read next => ∃ value, derives read value ∧
        next = values ++ [value]) :=
  element.map fun derived => ⟨_, derived, rfl⟩

/-- A comma and an element, which is put at the end of a list. -/
def CommaItem (derives : List Token → α → Prop) (values : List α) (read : List Token)
    (next : List α) : Prop :=
  ∃ token first value, token.kind = .comma ∧ derives first value ∧ read = token :: first ∧
    next = values ++ [value]

/-- One more element after a comma. -/
theorem comma_reports {parser : Parsing α} {parser' : ι → Parsing α}
    (element : Reports limit parser parser' derives) (values : List α) :
    Diagnoses Blames (fun tokens => Within limit tokens ∧
      decide ((currentOf tokens).kind = .comma) = true)
      (do
        advance
        let value ← parser
        return values ++ [value])
      (fun index => do
        advance
        let value ← parser' index
        return values ++ [value])
      (CommaItem derives values) := by
  refine passed_reports (Nat.le_succ limit) (by decide) fun {token} isComma =>
    (append_reports element values).widen ?_
  intro first next word
  obtain ⟨value, derived, same⟩ := word
  exact ⟨token, first, value, isComma, derived, rfl, same⟩

end Steps

private theorem kind_of_head? (head : tokens.head? = some token) (here : token.kind = kind) :
    (currentOf tokens).kind = kind := by
  obtain ⟨rest, rfl⟩ := List.head?_eq_some_iff.mp head
  exact here

private theorem continues_of_chain {item : α → List Token → α → Prop} {value result : α}
    (chain : Chain item value reads result)
    (each : ∀ {value read next}, item value read next → Continues read) : Continues reads := by
  induction chain with
  | nil => exact .nil
  | cons first _ ih => exact (each first).append ih

private theorem check_looks (kind : TokenKind) {tokens tokens' : List Token}
    (same : tokens.head? = tokens'.head?) :
    decide ((currentOf tokens).kind = kind) = decide ((currentOf tokens').kind = kind) := by
  rw [currentOf, currentOf, List.headD_eq_head?_getD, List.headD_eq_head?_getD, same]

private theorem ifCheck_apply {α : Type} {accepted rejected : Parsing α} :
    (do if ← check kind then accepted else rejected) tokens =
      if decide ((currentOf tokens).kind = kind) = true then
        accepted tokens else rejected tokens := by
  rw [bind_of_ok check_apply]
  split <;> rfl

private theorem exists_derives (level : Level) : ∃ read expression, Derives stod level read expression := by
  obtain ⟨token, isIdentifier⟩ := exists_token .identifier
  have primary : Derives stod .primary [token] _ := .identifier isIdentifier
  have multiplicative : Derives stod .multiplicative _ _ := .binary (by decide) primary .none
  have additive : Derives stod .additive _ _ := .binary (by decide) multiplicative .none
  have comparison : Derives stod .comparison _ _ := .binary (by decide) additive .none
  cases level with
  | primary => exact ⟨_, _, primary⟩
  | multiplicative => exact ⟨_, _, multiplicative⟩
  | additive => exact ⟨_, _, additive⟩
  | comparison => exact ⟨_, _, comparison⟩

private theorem exists_operator (isOperator : kind ∈ level.operators) :
    ∃ op, binaryOperator kind = some op := by
  have all : ∀ kind ∈ level.operators, (binaryOperator kind).isSome = true := by
    cases level <;> decide
  exact Option.isSome_iff_exists.mp (all kind isOperator)

theorem OperatorItem.continues {lhs expression : Expression}
    (item : OperatorItem stod level lhs read expression) :
    Continues read ∧ read ≠ [] := by
  obtain ⟨token, op, first, rhs, isOperator, _, operand, rfl, _⟩ := item
  exact ⟨.cons rfl (not_endOfFile_of_operator isOperator) operand.continues, List.cons_ne_nil _ _⟩

section Levels

variable {parseOperand : Parsing Expression} {parseOperand' : ι → Parsing Expression}

/-- An operator with its operand. -/
theorem operator_reports (lhs : Expression)
    (operand : Reports limit parseOperand parseOperand' (Derives stod level.operand)) :
    Diagnoses Blames (fun tokens => Within limit tokens ∧
      level.operators.contains (currentOf tokens).kind = true)
      (do
        let operatorToken ← current
        advance
        let rhs ← parseOperand
        makeBinary lhs operatorToken rhs)
      (fun index => do
        let operatorToken ← current
        advance
        let rhs ← parseOperand' index
        makeBinary lhs operatorToken rhs) (OperatorItem stod level lhs) := by
  have isOperator {token : Token} (listed : level.operators.contains token.kind = true) :
      token.kind ∈ level.operators := List.contains_iff_mem.mp listed
  refine taken_reports (Nat.le_succ limit)
    (fun _ listed => not_endOfFile_of_operator (isOperator listed))
    fun {token} listed => ?_
  obtain ⟨op, denotes⟩ := exists_operator (isOperator listed)
  have item {first : List Token} {rhs : Expression}
    (derives : Derives stod level.operand first rhs) :
      OperatorItem stod level lhs (token :: (first ++ [])) (.binary op lhs rhs token.location) :=
    ⟨token, op, first, rhs, isOperator listed, denotes, derives, by rw [List.append_nil], rfl⟩
  refine operand.bind (fun derives within => within.after derives.continues)
    (fun derives => ⟨[], _, item derives⟩) (fun {first rhs} derives => ?_)
  have made : makeBinary lhs token rhs = pure (.binary op lhs rhs token.location) := by
    rw [makeBinary, denotes]
  rw [made]
  exact .pure (item derives)

private theorem checkAny_looks (kinds : List TokenKind) {tokens tokens' : List Token}
    (same : tokens.head? = tokens'.head?) :
    kinds.contains (currentOf tokens).kind = kinds.contains (currentOf tokens').kind := by
  rw [currentOf, currentOf, List.headD_eq_head?_getD, List.headD_eq_head?_getD, same]

private theorem parseBinary_reports (level : Level) (isBinary : level ≠ .primary)
    (operand : Reports bound parseOperand parseOperand' (Derives stod level.operand))
    (longer : ∀ index, bound ≤ bounds index) :
    Reports bound (parseBinary level.operators parseOperand bound)
      (fun index => parseBinary level.operators (parseOperand' index) (bounds index))
        (Derives stod level) := by
  refine operand.bind (fun derives within => within.after derives.continues)
    (fun derives => ⟨[], _, .binary isBinary derives .none⟩) (fun derives => ?_)
  refine (Diagnoses.loop (fun _ => checkAny_apply) (checkAny_looks level.operators)
    (fun lhs => operator_reports lhs operand) not_within_zero
      (fun short within => within.mono short)
    (fun item within => within.drop item.continues.1 item.continues.2) (Nat.le_refl bound)
      longer).widen ?_
  exact fun reads expression chain => .binary isBinary derives (.of_chain chain)

end Levels

section Primary

variable {parsePrimary : Parsing Expression} {parsePrimary' : ι → Parsing Expression}
  (primary : Reports bound parsePrimary parsePrimary' (Derives stod .primary))
  (longer : ∀ index, bound ≤ bounds index)
include primary longer

private theorem parseExpression_reports :
    Reports bound (parseExpression parsePrimary bound)
      (fun index => parseExpression (parsePrimary' index) (bounds index))
        (Derives stod .comparison) := by
  have multiplicative : Reports bound (parseMultiplicative parsePrimary bound)
      (fun index => parseMultiplicative (parsePrimary' index) (bounds index))
        (Derives stod .multiplicative) :=
    parseBinary_reports .multiplicative (by decide) primary longer
  have additive : Reports bound (parseAdditive parsePrimary bound)
      (fun index => parseAdditive (parsePrimary' index) (bounds index)) (Derives stod .additive) :=
    parseBinary_reports .additive (by decide) multiplicative longer
  exact parseBinary_reports .comparison (by decide) additive longer

private theorem parseArguments_reports :
    Reports bound (parseArguments parsePrimary bound)
      (fun index => parseArguments (parsePrimary' index) (bounds index)) (Arguments stod) := by
  have expression := parseExpression_reports primary longer
  have given : Diagnoses Blames (fun tokens => Within bound tokens ∧
      decide ((currentOf tokens).kind = .rightParen) = false) (parseExpression parsePrimary bound)
      (fun index => parseExpression (parsePrimary' index) (bounds index))
        (Derives stod .comparison) :=
    expression.mono (fun _ given => given.1) (fun _ _ derives => derives)
  refine .branch (check_looks .rightParen) (.pure .none) ?_ (fun _ => ifCheck_apply)
    (fun _ _ => ifCheck_apply)
  refine given.bind (fun derives given => given.1.after derives.continues)
    (fun derives => ⟨[], _, .some derives .none⟩) (fun derives => ?_)
  refine (Diagnoses.loop (fun _ => check_apply) (check_looks .comma) (comma_reports expression)
    not_within_zero
    (fun short within => within.mono short) ?_ (Nat.le_refl bound) longer).widen ?_
  · intro bound values read next tokens item within
    obtain ⟨token, first, value, isComma, derives, rfl, _⟩ := item
    exact within.drop (.cons isComma (by decide) derives.continues) (List.cons_ne_nil _ _)
  · intro reads values chain
    obtain ⟨more, rfl, later⟩ := MoreArguments.of_chain chain
    exact .some derives later

/-- After the name, a call goes on with its arguments. -/
theorem parseIdentifierOrCall_reports :
    Reports (bound + 1) (parseIdentifierOrCall parsePrimary bound) (fun index =>
      parseIdentifierOrCall (parsePrimary' index) (bounds index)) (Derives stod .primary) := by
  refine consumed_reports (Nat.le_refl _) (by decide)
    (fun isIdentifier => ⟨[], _, .identifier isIdentifier⟩)
    fun isIdentifier => ?_
  refine .branch (check_looks .leftParen) ?_ (.pure (.identifier isIdentifier))
    (fun _ => ifCheck_apply)
    (fun _ _ => ifCheck_apply)
  refine passed_reports (Nat.le_succ bound) (by decide) fun opens => ?_
  obtain ⟨closing, closes⟩ := exists_token .rightParen
  refine (parseArguments_reports primary longer).bind
    (fun arguments within => within.after arguments.continues)
    (fun arguments => ⟨[closing], _, .call isIdentifier opens arguments closes⟩) fun arguments => ?_
  refine consumed_reports (Nat.le_succ bound) (by decide)
    (fun closes => ⟨[], _, .call isIdentifier opens arguments closes⟩) fun closes => ?_
  exact .pure (.call isIdentifier opens arguments closes)

end Primary

private theorem parsePrimary_reports (longer : ∀ index, bound ≤ bounds index) :
    Reports bound (parsePrimary stod bound) (fun index => parsePrimary stod (bounds index))
      (Derives stod .primary) := by
  induction bound generalizing bounds with
  | zero =>
    exact ⟨fun here => absurd here (not_within_zero _), fun here => absurd here (not_within_zero _)⟩
  | succ bound ih =>
    obtain ⟨bounds, rfl⟩ := exists_succ_of_le longer
    have longer (index : ι) : bound ≤ bounds index := Nat.le_of_succ_le_succ (longer index)
    have inhabited : ∃ read expression, Derives stod .primary read expression :=
      exists_derives .primary
    simp only [parsePrimary]
    refine current_reports (fun _ within => within.ne_nil) fun token => ?_
    cases kind : token.kind with
    | identifier =>
      exact (parseIdentifierOrCall_reports (ih longer) longer).mono (fun _ given => given.1)
        fun _ _ derives => derives
    | integerLiteral =>
      refine convert_reports inhabited fun value converted => ?_
      obtain ⟨fits, rfl⟩ := stoll_eq_some.mp converted
      exact .integer kind fits
    | floatLiteral => exact convert_reports inhabited fun number accepted => .float kind accepted
    | leftParen =>
      refine (passed_reports (Nat.le_refl _) (by decide) fun opens => ?_).mono
        (fun tokens given => ⟨given.1, decide_eq_true (kind_of_head? given.2 kind)⟩)
          fun _ _ derives => derives
      obtain ⟨closing, closes⟩ := exists_token .rightParen
      refine (parseExpression_reports (ih longer) longer).bind
        (fun derives within => within.after derives.continues)
        (fun inner => ⟨[closing], _, .parentheses opens inner closes⟩) fun inner => ?_
      exact consumed_reports (Nat.le_succ bound) (by decide)
        (fun closes => ⟨[], _, .parentheses opens inner closes⟩)
        fun closes => .pure (.parentheses opens inner closes)
    | _ => exact throwParseError_reports inhabited

private theorem expression_reports (longer : ∀ index, bound ≤ bounds index) :
    Reports bound (parseExpression (parsePrimary stod bound) bound)
      (fun index => parseExpression (parsePrimary stod (bounds index)) (bounds index))
        (Derives stod .comparison) :=
  parseExpression_reports (parsePrimary_reports longer) longer

private theorem exists_dimension : ∃ token, Dimension token 0 := by
  have numeral : IsNumeral "0" := isNumeral_of_all (by decide) rfl
  have zero : decimal "0" = 0 := by decide
  exact ⟨⟨.integerLiteral, "0", {}, fun _ => numeral⟩, rfl, zero, Nat.zero_le _⟩

/-- The word of a single dimension. -/
def OneDimension (read : List Token) (value : Nat) : Prop :=
  ∃ token, read = [token] ∧ Dimension token value

private theorem parseDimension_reports :
    Reports limit parseDimension (fun _ : ι => parseDimension) OneDimension where
  ok := by
    intro tokens value rest _ success
    obtain ⟨token, middle, consumed, converted⟩ := bind_ok.mp success
    obtain ⟨rfl, isInteger⟩ := (consume_ok (by decide)).mp consumed
    obtain ⟨found, same⟩ := convert_ok.mp converted
    cases same
    obtain ⟨denotes, fits⟩ := stoull_eq_some.mp found
    refine ⟨[token], rfl, ⟨token, rfl, isInteger, denotes, fits⟩, fun _ rest' _ => ?_⟩
    exact bind_ok.mpr ⟨token, rest', (consume_ok (by decide)).mpr ⟨rfl, isInteger⟩,
      convert_ok.mpr ⟨found, rfl⟩⟩
  error := by
    intro tokens error final within failure
    obtain ⟨zero, dimension⟩ := exists_dimension
    cases tokens with
    | nil => exact absurd rfl within.ne_nil
    | cons token rest =>
      have fails : ∃ message, ∀ rest, ∃ final, parseDimension (token :: rest) =
          .error (.parse token.location message) final := by
        by_cases isInteger : token.kind = .integerLiteral
        · have consumed (rest : List Token) :
              consume .integerLiteral "tensor dimension" (token :: rest) =
              .ok token rest := (consume_ok (by decide)).mpr ⟨rfl, isInteger⟩
          cases found : stoull token.lexeme with
          | some value =>
            rw [parseDimension, bind_of_ok (consumed rest), found] at failure
            cases failure
          | none =>
            refine ⟨"invalid tensor dimension", fun rest => ⟨rest, ?_⟩⟩
            rw [parseDimension, bind_of_ok (consumed rest), found]
            rfl
        · exact ⟨_, fun rest => ⟨_, bind_of_error (consume_fails isInteger)⟩⟩
      obtain ⟨message, fails⟩ := fails
      obtain ⟨final', failure'⟩ := fails rest
      cases failure.symm.trans failure'
      refine ⟨[], token, rest, rfl, ⟨message, rfl⟩, ⟨[zero], 0, zero, rfl, dimension⟩,
        fun _ after => ?_⟩
      exact fails after

theorem OneDimension.continues {value : Nat} (one : OneDimension read value) : Continues read := by
  obtain ⟨token, rfl, dimension⟩ := one
  exact .cons dimension.isInteger (by decide) .nil

private theorem parseTensorType_reports (longer : ∀ index, bound ≤ bounds index) :
    Reports (bound + 1) (parseTensorType bound) (fun index => parseTensorType (bounds index))
      DerivesType := by
  obtain ⟨zero, dimension⟩ := exists_dimension
  obtain ⟨opening, opens⟩ := exists_token .leftBracket
  obtain ⟨closing, closes⟩ := exists_token .rightBracket
  have derived {name opening first : Token} {value : Nat} {reads : List Token} {values : List Nat}
      (isIdentifier : name.kind = .identifier) (opens : opening.kind = .leftBracket)
      (dimension : Dimension first value)
      (chain : Chain DimensionItem [value] reads values) {closing : Token}
      (closes : closing.kind = .rightBracket) :
      DerivesType (name :: opening :: first :: (reads ++ [closing])) ⟨name.lexeme, values⟩ := by
    obtain ⟨more, rfl, later⟩ := MoreDimensions.of_chain chain
    exact .type isIdentifier opens dimension later closes
  refine consumed_reports (Nat.le_refl _) (by decide) (fun isIdentifier =>
    ⟨[opening, zero, closing], _, derived isIdentifier opens dimension .nil closes⟩)
      fun isIdentifier => ?_
  refine consumed_reports (Nat.le_succ _) (by decide) (fun opens =>
    ⟨[zero, closing], _, derived isIdentifier opens dimension .nil closes⟩) fun opens => ?_
  refine parseDimension_reports.bind (fun one within => within.after one.continues) (fun one => ?_)
    fun one => ?_
  · obtain ⟨token, rfl, dimension⟩ := one
    exact ⟨[closing], _, derived isIdentifier opens dimension .nil closes⟩
  obtain ⟨token, rfl, dimension⟩ := one
  have inside {value : List Nat} {read : List Token} {next : List Nat}
    (item : CommaItem OneDimension value read next) :
      Continues read ∧ read ≠ [] := by
    obtain ⟨token, first, other, isComma, one, rfl, _⟩ := item
    exact ⟨.cons isComma (by decide) one.continues, List.cons_ne_nil _ _⟩
  have dimensions {value : Nat} {reads : List Token} {values : List Nat}
      (chain : Chain (CommaItem OneDimension) [value] reads values) :
        Chain DimensionItem [value] reads values := by
    refine chain.imp fun item => ?_
    obtain ⟨comma, _, other, isComma, ⟨token, rfl, dimension⟩, rfl, same⟩ := item
    exact ⟨comma, token, other, isComma, dimension, rfl, same⟩
  refine (Diagnoses.loop (fun _ => check_apply) (check_looks .comma)
    (comma_reports parseDimension_reports)
    not_within_zero (fun short within => within.mono short)
      (fun item within => within.drop (inside item).1 (inside item).2)
    (Nat.le_refl bound) longer).bind
      (fun chain within => within.after (continues_of_chain chain fun item => (inside item).1))
        (fun chain => ?_) fun chain => ?_
  · exact ⟨[closing], _, derived isIdentifier opens dimension (dimensions chain) closes⟩
  · exact consumed_reports (Nat.le_succ _) (by decide)
      (fun closes => ⟨[], _, derived isIdentifier opens dimension (dimensions chain) closes⟩)
      fun closes => .pure (derived isIdentifier opens dimension (dimensions chain) closes)

private theorem exists_type : ∃ read type, DerivesType read type := by
  obtain ⟨name, isIdentifier⟩ := exists_token .identifier
  obtain ⟨opening, opens⟩ := exists_token .leftBracket
  obtain ⟨token, dimension⟩ := exists_dimension
  obtain ⟨closing, closes⟩ := exists_token .rightBracket
  exact ⟨_, _, .type isIdentifier opens dimension .none closes⟩

private theorem parseTensorDeclaration_reports (longer : ∀ index, bound ≤ bounds index) :
    Reports (bound + 1) (parseTensorDeclaration bound)
      (fun index => parseTensorDeclaration (bounds index))
      (DerivesStatement stod) := by
  obtain ⟨name, isIdentifier⟩ := exists_token .identifier
  obtain ⟨colon, isColon⟩ := exists_token .colon
  obtain ⟨read, type, derives⟩ := exists_type
  refine consumed_reports (Nat.le_refl _) (by decide)
    (fun isTensor => ⟨name :: colon :: read, _,
      .tensorDeclaration isTensor isIdentifier isColon derives⟩) fun isTensor => ?_
  refine consumed_reports (Nat.le_succ _) (by decide)
    (fun isIdentifier => ⟨colon :: read, _,
      .tensorDeclaration isTensor isIdentifier isColon derives⟩)
    fun isIdentifier => ?_
  refine consumed_reports (Nat.le_succ _) (by decide)
    (fun isColon => ⟨read, _, .tensorDeclaration isTensor isIdentifier isColon derives⟩)
      fun isColon => ?_
  have type : Reports bound (parseTensorType bound) (fun index => parseTensorType (bounds index))
      DerivesType :=
    (parseTensorType_reports longer).mono (fun _ within => within.mono (Nat.le_succ bound))
      fun _ _ derives => derives
  exact type.map fun derives => .tensorDeclaration isTensor isIdentifier isColon derives

private theorem parseAssignment_reports (longer : ∀ index, bound ≤ bounds index) :
    Reports (bound + 1) (parseAssignment stod bound)
      (fun index => parseAssignment stod (bounds index))
      (DerivesStatement stod) := by
  obtain ⟨equal, isEqual⟩ := exists_token .equal
  obtain ⟨read, value, derives⟩ := @exists_derives stod .comparison
  refine consumed_reports (Nat.le_refl _) (by decide)
    (fun isIdentifier => ⟨equal :: read, _, .assignment isIdentifier isEqual derives⟩)
      fun isIdentifier => ?_
  refine consumed_reports (Nat.le_succ _) (by decide)
    (fun isEqual => ⟨read, _, .assignment isIdentifier isEqual derives⟩) fun isEqual => ?_
  exact (expression_reports longer).map fun derives => .assignment isIdentifier isEqual derives

private theorem parseReturnStatement_reports (longer : ∀ index, bound ≤ bounds index) :
    Reports (bound + 1) (parseReturnStatement stod bound)
      (fun index => parseReturnStatement stod (bounds index))
      (DerivesStatement stod) := by
  obtain ⟨read, value, derives⟩ := @exists_derives stod .comparison
  refine consumed_reports (Nat.le_refl _) (by decide)
    (fun isReturn => ⟨read, _, .returnStmt isReturn derives⟩)
    fun isReturn => ?_
  exact (expression_reports longer).map fun derives => .returnStmt isReturn derives

private theorem checkNot_looks (kind : TokenKind) {tokens tokens' : List Token}
    (same : tokens.head? = tokens'.head?) :
    (!decide ((currentOf tokens).kind = kind)) = !decide ((currentOf tokens').kind = kind) :=
  congrArg (!·) (check_looks kind same)

private theorem exists_statement : ∃ read statement, DerivesStatement stod read statement := by
  obtain ⟨token, isReturn⟩ := exists_token .kwReturn
  obtain ⟨read, value, derives⟩ := @exists_derives stod .comparison
  exact ⟨_, _, .returnStmt isReturn derives⟩

theorem StatementItem.inside {before next : List Statement}
    (item : StatementItem stod before read next) :
    Continues read ∧ read ≠ [] := by
  obtain ⟨statement, derives, _⟩ := item
  refine ⟨derives.continues, ?_⟩
  cases derives <;> exact List.cons_ne_nil _ _

section Blocks

variable {parseStatement : Parsing Statement} {parseStatement' : ι → Parsing Statement}
  (each : Reports bound parseStatement parseStatement' (DerivesStatement stod))
  (longer : ∀ index, bound ≤ bounds index)
include each longer

private theorem parseBlock_reports : Reports bound (parseBlock parseStatement bound)
    (fun index => parseBlock (parseStatement' index) (bounds index)) (DerivesBlock stod) := by
  obtain ⟨closing, closes⟩ := exists_token .rightBrace
  have block {opening closing : Token} {reads : List Token} {statements : List Statement}
    (opens : opening.kind = .leftBrace)
      (chain : Chain (StatementItem stod) [] reads statements)
      (closes : closing.kind = .rightBrace) :
      DerivesBlock stod (opening :: (reads ++ [closing])) statements := by
    obtain ⟨more, rfl, inner⟩ := DerivesStatements.of_chain chain
    exact .block opens inner closes
  refine consumed_reports (Nat.le_succ _) (by decide)
    (fun opens => ⟨[closing], _, block opens .nil closes⟩)
    fun opens => ?_
  refine (Diagnoses.loop (fun _ => checkNot_apply) (checkNot_looks .rightBrace) ?_ not_within_zero
    (fun short within => within.mono short)
      (fun item within => within.drop item.inside.1 item.inside.2)
    (Nat.le_refl bound) longer).bind
      (fun chain within => within.after (continues_of_chain chain fun item => item.inside.1))
      (fun chain => ⟨[closing], _, block opens chain closes⟩) fun chain => ?_
  · intro statements
    obtain ⟨read, statement, derives⟩ := @exists_statement stod
    refine current_reports (fun _ given => given.1.ne_nil) fun token => ?_
    by_cases ends : token.kind = .endOfFile
    · simp only [if_pos ends]
      exact throwParseError_reports ⟨read, _, statement, derives, rfl⟩
    · simp only [if_neg ends]
      exact append_reports (each.mono (fun _ given => given.1.1) fun _ _ derives => derives)
        statements
  · exact consumed_reports (Nat.le_succ _) (by decide)
      (fun closes => ⟨[], _, block opens chain closes⟩)
      fun closes => .pure (block opens chain closes)

private theorem parseIfStatement_reports :
    Reports (bound + 1) (parseIfStatement stod parseStatement bound) (fun index =>
      parseIfStatement stod (parseStatement' index) (bounds index)) (DerivesStatement stod) := by
  have block := parseBlock_reports each longer
  obtain ⟨conditionRead, condition, derives⟩ := @exists_derives stod .comparison
  obtain ⟨opening, opens⟩ := exists_token .leftBrace
  obtain ⟨closing, closes⟩ := exists_token .rightBrace
  obtain ⟨elseToken, isElse⟩ := exists_token .kwElse
  have empty : DerivesBlock stod [opening, closing] [] := .block opens .none closes
  refine consumed_reports (Nat.le_refl _) (by decide)
    (fun isIf => ⟨_, _, .ifStmt isIf derives empty isElse empty⟩) fun isIf => ?_
  refine (expression_reports longer).bind (fun derives within => within.after derives.continues)
    (fun derives => ⟨_, _, .ifStmt isIf derives empty isElse empty⟩) fun derives => ?_
  refine block.bind (fun thenBlock within => within.after thenBlock.continues)
    (fun thenBlock => ⟨_, _, .ifStmt isIf derives thenBlock isElse empty⟩) fun thenBlock => ?_
  refine consumed_reports (Nat.le_succ _) (by decide)
    (fun isElse => ⟨_, _, .ifStmt isIf derives thenBlock isElse empty⟩) fun isElse => ?_
  exact block.map fun elseBlock => .ifStmt isIf derives thenBlock isElse elseBlock

end Blocks

private theorem parseStatement_reports (longer : ∀ index, bound ≤ bounds index) :
    Reports bound (parseStatement stod bound) (fun index => parseStatement stod (bounds index))
      (DerivesStatement stod) := by
  induction bound generalizing bounds with
  | zero =>
    exact ⟨fun here => absurd here (not_within_zero _), fun here => absurd here (not_within_zero _)⟩
  | succ bound ih =>
    obtain ⟨bounds, rfl⟩ := exists_succ_of_le longer
    have longer (index : ι) : bound ≤ bounds index := Nat.le_of_succ_le_succ (longer index)
    simp only [parseStatement]
    refine current_reports (fun _ within => within.ne_nil) fun token => ?_
    cases token.kind with
    | kwTensor =>
      exact (parseTensorDeclaration_reports longer).mono (fun _ given => given.1) fun _ _ derives =>
        derives
    | kwReturn =>
      exact (parseReturnStatement_reports longer).mono (fun _ given => given.1) fun _ _ derives =>
        derives
    | kwIf =>
      exact (parseIfStatement_reports (ih longer) longer).mono (fun _ given => given.1)
        fun _ _ derives => derives
    | identifier =>
      exact (parseAssignment_reports longer).mono (fun _ given => given.1) fun _ _ derives =>
        derives
    | _ => exact throwParseError_reports exists_statement

theorem parseStatements_reports (longer : ∀ index, bound ≤ bounds index) :
    Reports bound (parseStatements stod bound) (fun index => parseStatements stod (bounds index))
      (DerivesStatements stod) := by
  have each (statements : List Statement) : Diagnoses Blames
      (fun tokens => Within bound tokens ∧ (!decide ((currentOf tokens).kind = .endOfFile)) = true)
      (do
        let statement ← parseStatement stod bound
        return statements ++ [statement])
      (fun index => do
        let statement ← parseStatement stod (bounds index)
        return statements ++ [statement]) (StatementItem stod statements) :=
    append_reports ((parseStatement_reports longer).mono (fun _ given => given.1) fun _ _ derives =>
      derives) statements
  refine (Diagnoses.loop (fun _ => checkNot_apply) (checkNot_looks .endOfFile) each not_within_zero
    (fun short within => within.mono short)
      (fun item within => within.drop item.inside.1 item.inside.2)
    (Nat.le_refl bound) longer).widen fun reads statements chain => ?_
  obtain ⟨more, rfl, inner⟩ := DerivesStatements.of_chain chain
  exact inner

end Ocelotl.Frontend
