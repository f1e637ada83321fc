import Ocelotl.Frontend.ParserSoundness
import Ocelotl.Frontend.Spelling
import Mathlib.Data.List.Forall2

/-! Where the nodes of a syntax tree stand in the source: in order, and each at the
token that it was made from. -/

namespace Ocelotl.Frontend

open Ast Lexer Library

variable {before remaining source : List Char} {tokens tokens' reads rest : List Token}
  {token : Token} {kind : TokenKind} {read : List Char}

/-- The text stands at this place of the source. -/
def StandsAt (source : List Char) (location : SourceLocation) (text : String) : Prop :=
  ∃ before after, source = before ++ (text.toList ++ after) ∧ location = locationOf before

theorem Tokenizes.standsAt (tokenizes : Tokenizes before remaining tokens) :
    ∀ token ∈ tokens, StandsAt (before ++ remaining) token.location token.lexeme := by
  induction tokenizes with
  | @ending before gap token white ends =>
    refine List.forall_mem_singleton.mpr ⟨before ++ gap, [], ?_, ?_⟩
    · simp [ends, Token.endOfFile]
    · rw [ends, Token.endOfFile]
  | @token before gap read rest token tokens white munch spelled placed later ih =>
    refine List.forall_mem_cons.mpr ⟨⟨before ++ gap, rest, ?_, placed⟩, fun other member => ?_⟩
    · rw [spelled, String.toList_ofList, List.append_assoc]
    · have there := ih other member
      rwa [List.append_assoc, List.append_assoc] at there

theorem Tokenizes.offset_ge (tokenizes : Tokenizes before remaining tokens) :
    ∀ token ∈ tokens, before.length ≤ token.location.offset := by
  intro token member
  induction tokenizes with
  | @ending before gap _ white ends =>
    cases List.mem_singleton.mp member
    subst ends
    exact (List.length_append ▸ Nat.le_add_right _ _ : before.length ≤ (before ++ gap).length)
  | @token before gap read rest first tokens white munch spelled placed later ih =>
    rcases List.mem_cons.mp member with rfl | member
    · rw [placed]
      exact (List.length_append ▸ Nat.le_add_right _ _ : before.length ≤ (before ++ gap).length)
    · have further := ih member
      simp only [List.length_append] at further
      omega

/-- Every token starts after the one before it. -/
theorem Tokenizes.increasing (tokenizes : Tokenizes before remaining tokens) :
    tokens.Pairwise fun token token' => token.location.offset < token'.location.offset := by
  induction tokenizes with
  | ending white ends => exact List.pairwise_singleton _ _
  | @token before gap read rest token tokens white munch spelled placed later ih =>
    apply List.pairwise_cons.mpr
    refine ⟨fun other member => ?_, ih⟩
    have positive := munch.length_pos
    have further := later.offset_ge other member
    have here : token.location.offset = (before ++ gap).length :=
      congrArg SourceLocation.offset placed
    simp only [List.length_append] at further here
    omega

theorem Pattern.valid (pattern : Pattern kind read) : Lexeme.Valid ⟨kind, String.ofList read⟩ := by
  have numeral {digits : List Char} (nonempty : digits ≠ [])
    (all : ∀ digit ∈ digits, digit.isDigit = true) :
      IsNumeral (String.ofList digits) := by
    unfold IsNumeral
    rw [String.toList_ofList]
    exact ⟨nonempty, all⟩
  cases pattern with
  | @word first more starts continues =>
    have continuesAll : ∀ current ∈ first :: more, continuesIdentifier current = true :=
      List.forall_mem_cons.mpr ⟨continuesIdentifier_of_starts starts, continues⟩
    have spelled (keyword : TokenKind) (text : String) (same : String.ofList (first :: more) = text)
        (spelling : text = Frontend.spelling keyword)
        (valid : Lexeme.Valid ⟨keyword, Frontend.spelling keyword⟩) :
        Lexeme.Valid ⟨keyword, String.ofList (first :: more)⟩ := by
      rw [same, spelling]
      exact valid
    unfold keywordKind
    split
    · exact spelled .kwTensor _ ‹_› rfl rfl
    split
    · exact spelled .kwReturn _ ‹_› rfl rfl
    split
    · exact spelled .kwIf _ ‹_› rfl rfl
    split
    · exact spelled .kwElse _ ‹_› rfl rfl
    · refine ⟨⟨first, more, String.toList_ofList, starts⟩, ?_, ?_⟩
      · rwa [String.toList_ofList]
      · unfold keywordKind
        rw [if_neg ‹_›, if_neg ‹_›, if_neg ‹_›, if_neg ‹_›]
  | integer nonempty all => exact numeral nonempty all
  | @float whole fraction nonempty all nonempty' all' =>
    refine ⟨String.ofList whole, String.ofList fraction, numeral nonempty all,
      numeral nonempty' all', ?_⟩
    simp [← String.toList_inj]
  | symbol isSymbol =>
    rw [String.ofList_toList]
    cases kind with
    | endOfFile | identifier | integerLiteral | floatLiteral | kwTensor | kwReturn
    | kwIf | kwElse | unknown =>
      exact isSymbol.elim
    | _ => rfl

theorem Munch.pattern (munch : Munch remaining kind read) (known : kind ≠ .unknown) :
    Pattern kind read := by
  cases munch with
  | longest pattern _ _ => exact pattern
  | unknown _ _ => exact absurd rfl known

/-- Tokens that the grammar knows have a text of their kind. -/
theorem Tokenizes.valid (tokenizes : Tokenizes before remaining tokens) :
    ∀ token ∈ tokens, token.kind ≠ .endOfFile → token.kind ≠ .unknown → token.form.Valid := by
  intro token member notEnd notUnknown
  induction tokenizes with
  | ending white ends =>
    cases List.mem_singleton.mp member
    exact absurd (congrArg Token.kind ends) notEnd
  | @token before gap read rest first tokens white munch spelled placed later ih =>
    rcases List.mem_cons.mp member with rfl | member
    · unfold Token.form
      rw [spelled]
      exact (munch.pattern notUnknown).valid
    · exact ih member

/-- What a node tells of the token that it was made from. -/
inductive Sign where
  | name (identifier : String)
  | integer (value : BitVec 64)
  | float (number : Double)
  | fixed (kind : TokenKind)
  deriving DecidableEq, Repr

/-- The texts that a node can have been read from. -/
def Sign.SpelledBy (stod : String → Option Double) : Sign → String → Prop
  | .name identifier, text => text = identifier
  | .integer value, text => IsNumeral text ∧ decimal text = value.toNat
  | .float number, text => stod text = some number
  | .fixed kind, text => text = spelling kind

structure Node where
  sign : Sign
  location : SourceLocation
  deriving DecidableEq, Repr

mutual

/-- The nodes from left to right, an operator between its operands. -/
def nodesOf : Expression → List Node
  | .identifier identifier location => [⟨.name identifier, location⟩]
  | .integer value location => [⟨.integer value, location⟩]
  | .float number location => [⟨.float number, location⟩]
  | .call callee arguments location => ⟨.name callee, location⟩ :: nodesOfAll arguments
  | .binary op lhs rhs location =>
    nodesOf lhs ++ ⟨.fixed (operatorKind op), location⟩ :: nodesOf rhs
  | .nullCall | .nullBinary => []

def nodesOfAll : List Expression → List Node
  | [] => []
  | argument :: arguments => nodesOf argument ++ nodesOfAll arguments

end

mutual

def statementNodes : Statement → List Node
  | .tensorDecl declaration => [⟨.fixed .kwTensor, declaration.location⟩]
  | .assignment assignment =>
    ⟨.name assignment.target, assignment.location⟩ :: nodesOf assignment.value
  | .returnStmt returnStatement =>
    ⟨.fixed .kwReturn, returnStatement.location⟩ :: nodesOf returnStatement.value
  | .ifStmt condition thenStatements elseStatements location =>
    ⟨.fixed .kwIf, location⟩ ::
      (nodesOf condition ++ (statementsNodes thenStatements ++ statementsNodes elseStatements))
  | .nullIf => []

def statementsNodes : List Statement → List Node
  | [] => []
  | statement :: statements => statementNodes statement ++ statementsNodes statements

end

def Sign.Reads (stod : String → Option Double) : Sign → Token → Prop
  | .name identifier, token => token.kind = .identifier ∧ token.lexeme = identifier
  | .integer value, token => token.kind = .integerLiteral ∧ decimal token.lexeme = value.toNat
  | .float number, token => token.kind = .floatLiteral ∧ stod token.lexeme = some number
  | .fixed kind, token => token.kind = kind ∧ spelling kind ≠ ""

/-- The token that a node was made from. -/
structure Node.MadeFrom (stod : String → Option Double) (node : Node) (token : Token) : Prop where
  located : node.location = token.location
  reads : node.sign.Reads stod token

variable {stod : String → Option Double} {level : Level} {expression lhs : Expression}
  {values : List Expression} {nodes nodes' : List Node} {node : Node} {statement : Statement}
  {statements : List Statement}

/-- The nodes were made from some of the tokens, in order. -/
abbrev MadeFrom (stod : String → Option Double) : List Node → List Token → Prop :=
  List.SublistForall₂ (Node.MadeFrom stod)

namespace MadeFrom

theorem append (first : MadeFrom stod nodes tokens) (second : MadeFrom stod nodes' tokens') :
    MadeFrom stod (nodes ++ nodes') (tokens ++ tokens') := by
  induction first with
  | @nil tokens =>
    induction tokens with
    | nil => exact second
    | cons token tokens ih => exact .cons_right ih
  | cons here _ ih => exact .cons here ih
  | cons_right _ ih => exact .cons_right ih

theorem of_first (first : MadeFrom stod nodes tokens) : MadeFrom stod nodes (tokens ++ rest) := by
  have whole := first.append (@List.SublistForall₂.nil _ _ _ rest)
  rwa [List.append_nil] at whole

theorem locations (made : MadeFrom stod nodes tokens) :
    (nodes.map Node.location).Sublist (tokens.map Token.location) := by
  induction made with
  | nil => exact List.nil_sublist _
  | cons here _ ih =>
    rw [List.map_cons, List.map_cons, here.located]
    exact ih.cons_cons _
  | cons_right _ ih => exact ih.cons _

theorem exists_token (made : MadeFrom stod nodes tokens) :
    ∀ node ∈ nodes, ∃ token ∈ tokens, node.MadeFrom stod token := by
  induction made with
  | nil => exact List.forall_mem_nil _
  | @cons node token nodes tokens here _ ih =>
    refine List.forall_mem_cons.mpr ⟨⟨token, List.mem_cons_self, here⟩, fun other member => ?_⟩
    obtain ⟨origin, inside, made⟩ := ih other member
    exact ⟨origin, List.mem_cons_of_mem _ inside, made⟩
  | cons_right _ ih =>
    intro node member
    obtain ⟨origin, inside, made⟩ := ih node member
    exact ⟨origin, List.mem_cons_of_mem _ inside, made⟩

end MadeFrom

theorem operatorKind_of_denotes {op : BinaryOperator} (denotes : binaryOperator kind = some op) :
    kind = operatorKind op ∧ spelling (operatorKind op) ≠ "" := by
  cases kind <;> cases denotes <;> exact ⟨rfl, by decide⟩

mutual

theorem Derives.madeFrom : ∀ {level reads expression}, Derives stod level reads expression →
    MadeFrom stod (nodesOf expression) reads
  | _, _, _, .identifier isIdentifier => .cons ⟨rfl, isIdentifier, rfl⟩ .nil
  | _, _, _, .integer isInteger fits => by
    refine .cons ⟨rfl, isInteger, ?_⟩ .nil
    rw [BitVec.toNat_ofNat, Nat.mod_eq_of_lt (by omega)]
  | _, _, _, .float isFloat accepted => .cons ⟨rfl, isFloat, accepted⟩ .nil
  | _, _, _, .call isIdentifier _ arguments _ =>
    .cons ⟨rfl, isIdentifier, rfl⟩ (.cons_right arguments.madeFrom.of_first)
  | _, _, _, .parentheses _ inner _ => .cons_right inner.madeFrom.of_first
  | _, _, _, .binary _ operand operators => operators.madeFrom operand.madeFrom

theorem Operators.madeFrom :
    ∀ {level lhs reads expression before}, Operators stod level lhs reads expression →
    MadeFrom stod (nodesOf lhs) before → MadeFrom stod (nodesOf expression) (before ++ reads)
  | _, _, _, _, _, .none, first => first.of_first
  | _, _, _, _, _, .operator _ denotes operand later, first => by
    have whole :=
  later.madeFrom (first.append (.cons ⟨rfl, operatorKind_of_denotes denotes⟩ operand.madeFrom))
    rwa [List.append_assoc] at whole

theorem Arguments.madeFrom :
    ∀ {reads values}, Arguments stod reads values → MadeFrom stod (nodesOfAll values) reads
  | _, _, .none => .nil
  | _, _, .some argument later => argument.madeFrom.append later.madeFrom

theorem MoreArguments.madeFrom : ∀ {reads values}, MoreArguments stod reads values →
    MadeFrom stod (nodesOfAll values) reads
  | _, _, .none => .nil
  | _, _, .comma _ argument later => .cons_right (argument.madeFrom.append later.madeFrom)

end

mutual

theorem DerivesStatement.madeFrom : ∀ {reads statement}, DerivesStatement stod reads statement →
    MadeFrom stod (statementNodes statement) reads
  | _, _, .tensorDeclaration isTensor _ _ _ => .cons ⟨rfl, isTensor, by decide⟩ .nil
  | _, _, .assignment isIdentifier _ derives =>
    .cons ⟨rfl, isIdentifier, rfl⟩ (.cons_right derives.madeFrom)
  | _, _, .returnStmt isReturn derives => .cons ⟨rfl, isReturn, by decide⟩ derives.madeFrom
  | _, _, .ifStmt isIf derives thenBlock _ elseBlock =>
    .cons ⟨rfl, isIf, by decide⟩
      (derives.madeFrom.append (thenBlock.madeFrom.append (.cons_right elseBlock.madeFrom)))

theorem DerivesBlock.madeFrom : ∀ {reads statements}, DerivesBlock stod reads statements →
    MadeFrom stod (statementsNodes statements) reads
  | _, _, .block _ inner _ => .cons_right inner.madeFrom.of_first

theorem DerivesStatements.madeFrom : ∀ {reads statements}, DerivesStatements stod reads statements →
    MadeFrom stod (statementsNodes statements) reads
  | _, _, .none => .nil
  | _, _, .statement derives later => derives.madeFrom.append later.madeFrom

end

theorem Sign.known_of_reads {sign : Sign} (reads : sign.Reads stod token) :
    token.kind ≠ .unknown := by
  intro unknown
  cases sign with
  | name | integer | float => cases unknown.symm.trans reads.1
  | fixed kind =>
    obtain ⟨rfl, some⟩ := reads
    rw [unknown] at some
    exact some rfl

theorem Sign.spelledBy_of_reads {sign : Sign} (reads : sign.Reads stod token)
    (valid : token.form.Valid) :
    sign.SpelledBy stod token.lexeme := by
  cases sign with
  | name identifier => exact reads.2
  | integer value => exact ⟨token.numeral reads.1, reads.2⟩
  | float number => exact reads.2
  | fixed kind =>
    obtain ⟨rfl, some⟩ := reads
    unfold Lexeme.Valid Token.form at valid
    unfold Sign.SpelledBy
    cases known : token.kind with
    | endOfFile | identifier | integerLiteral | floatLiteral | unknown =>
      rw [known] at some
      exact absurd rfl some
    | _ =>
      rw [known] at valid
      exact valid

/-- The nodes of a program that was parsed stand in the source from left to right,
each at a text that spells it. -/
theorem parse_nodes_located {program : Program} (parsed : parse stod source = .ok program) :
    (statementsNodes program.statements).Pairwise (fun node node' => node.location.offset <
      node'.location.offset) ∧
      ∀ node ∈ statementsNodes program.statements,
        ∃ text, StandsAt source node.location text ∧ node.sign.SpelledBy stod text := by
  have tokenizes := tokenize_tokenizes source
  have made := (parseProgram_sound parsed).madeFrom
  constructor
  · have increasing :
        (((tokenize source).tokens.map Token.location).map SourceLocation.offset).Pairwise
          (· < ·) := by
      rw [List.map_map]
      exact List.pairwise_map.mpr (tokenizes.increasing.sublist (List.sublist_append_left _ _))
    have sorted := increasing.sublist (made.locations.map SourceLocation.offset)
    rw [List.map_map] at sorted
    exact List.pairwise_map.mp sorted
  · intro node member
    obtain ⟨token, inside, located, reads⟩ := made.exists_token node member
    have inAll : token ∈ (tokenize source).all := List.mem_append_left _ inside
    have valid := tokenizes.valid token inAll ((tokenize source).continues token inside)
        (Sign.known_of_reads reads)
    exact ⟨token.lexeme, located ▸ tokenizes.standsAt token inAll,
      Sign.spelledBy_of_reads reads valid⟩

theorem parse_nodes_located_sum :
    ∃ program, parse (fun _ => none) "A = 1\nreturn 2 + A".toList = .ok program ∧
    statementsNodes program.statements = [⟨.name "A", ⟨1, 1, 0⟩⟩, ⟨.integer 1, ⟨1, 5, 4⟩⟩,
      ⟨.fixed .kwReturn, ⟨2, 1, 6⟩⟩,
      ⟨.integer 2, ⟨2, 8, 13⟩⟩, ⟨.fixed .plus, ⟨2, 10, 15⟩⟩, ⟨.name "A", ⟨2, 12, 17⟩⟩] ∧
    ∃ text, StandsAt "A = 1\nreturn 2 + A".toList ⟨2, 10, 15⟩ text ∧ text = spelling .plus := by
  have computed : (parse (fun _ => none) "A = 1\nreturn 2 + A".toList).toOption.any (fun program =>
      decide (statementsNodes program.statements = [⟨.name "A", ⟨1, 1, 0⟩⟩, ⟨.integer 1, ⟨1, 5, 4⟩⟩,
        ⟨.fixed .kwReturn, ⟨2, 1, 6⟩⟩, ⟨.integer 2, ⟨2, 8, 13⟩⟩, ⟨.fixed .plus, ⟨2, 10, 15⟩⟩,
        ⟨.name "A", ⟨2, 12, 17⟩⟩])) = true := by decide +kernel
  obtain ⟨program, parsed, nodes⟩ := (Option.any_eq_true _ _).mp computed
  have nodes := of_decide_eq_true nodes
  refine ⟨program, toOption_eq_some.mp parsed, nodes, ?_⟩
  exact (parse_nodes_located (toOption_eq_some.mp parsed)).2 ⟨.fixed .plus,
    ⟨2, 10, 15⟩⟩ (by rw [nodes]; simp)

end Ocelotl.Frontend
