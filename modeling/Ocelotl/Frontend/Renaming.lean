import Ocelotl.Frontend.Layout
import Ocelotl.Frontend.ParserCompleteness
import Mathlib.Logic.Equiv.Defs

namespace Ocelotl.Ast

/-- The names that the phases after the parser know: the functions, and the element
types that storage can be allocated for. -/
def reserved : List String := ["relu", "matmul", "f32", "f64", "i64"]

/-- A new name for every name. Different names stay different, and reserved names
stay what they are. -/
structure NameMap where
  names : Equiv.Perm String
  keeps : ∀ name ∈ reserved, names name = name

instance : CoeFun NameMap fun _ => String → String := ⟨fun map => map.names⟩

variable {map : NameMap} {name name' : String}

namespace NameMap

/-- The old names again. -/
def symm (map : NameMap) : NameMap where
  names := map.names.symm
  keeps := by
    intro name member
    rw [Equiv.symm_apply_eq, map.keeps name member]

@[simp] theorem symm_apply : map.symm (map name) = name := map.names.symm_apply_apply name

@[simp] theorem apply_symm : map (map.symm name) = name := map.names.apply_symm_apply name

@[simp] theorem apply_eq_iff : map name = map name' ↔ name = name' := map.names.apply_eq_iff_eq

/-- Reserved names are the new names of nothing else. -/
theorem apply_eq_reserved (member : name' ∈ reserved) : map name = name' ↔ name = name' := by
  rw [← map.keeps name' member, apply_eq_iff, map.keeps name' member]

end NameMap

/-- The type of renamed tensors. Numbers have no name of a type in the source. -/
def renameType (map : NameMap) (type : TensorType) : TensorType :=
  { type with elementType := if type.shape = [] then type.elementType else map type.elementType }

mutual

def renameExpression (map : NameMap) : Expression → Expression
  | .identifier name location => .identifier (map name) location
  | .integer value location => .integer value location
  | .float value location => .float value location
  | .call callee arguments location => .call (map callee) (renameArguments map arguments) location
  | .nullCall => .nullCall
  | .binary op lhs rhs location =>
    .binary op (renameExpression map lhs) (renameExpression map rhs) location
  | .nullBinary => .nullBinary

def renameArguments (map : NameMap) : List Expression → List Expression
  | [] => []
  | argument :: arguments => renameExpression map argument :: renameArguments map arguments

end

mutual

def renameStatement (map : NameMap) : Statement → Statement
  | .tensorDecl declaration =>
    .tensorDecl ⟨map declaration.name, renameType map declaration.type, declaration.location⟩
  | .assignment assignment =>
    .assignment ⟨map assignment.target, renameExpression map assignment.value, assignment.location⟩
  | .returnStmt returnStatement =>
    .returnStmt ⟨renameExpression map returnStatement.value, returnStatement.location⟩
  | .ifStmt condition thenStatements elseStatements location =>
    .ifStmt (renameExpression map condition) (renameStatements map thenStatements)
      (renameStatements map elseStatements) location
  | .nullIf => .nullIf

def renameStatements (map : NameMap) : List Statement → List Statement
  | [] => []
  | statement :: statements => renameStatement map statement :: renameStatements map statements

end

def renameProgram (map : NameMap) (program : Program) : Program :=
  ⟨renameStatements map program.statements⟩

variable {type type' : TensorType}

@[simp] theorem renameType_shape : (renameType map type).shape = type.shape := rfl

theorem renameType_of_scalar (scalar : type.shape = []) : renameType map type = type := by
  rw [renameType, if_pos scalar]

@[simp] theorem renameType_scalar (elementType : String) :
    renameType map (.scalar elementType) = .scalar elementType := renameType_of_scalar rfl

theorem renameType_of_tensor (tensor : type.shape ≠ []) :
    renameType map type = ⟨map type.elementType, type.shape⟩ := by
  rw [renameType, if_neg tensor]

theorem renameType_injective : Function.Injective (renameType map) := by
  intro type type' same
  have shapes : (renameType map type).shape = (renameType map type').shape :=
    congrArg TensorType.shape same
  rw [renameType_shape, renameType_shape] at shapes
  by_cases scalar : type.shape = []
  · rwa [renameType_of_scalar scalar, renameType_of_scalar (shapes ▸ scalar)] at same
  · rw [renameType_of_tensor scalar, renameType_of_tensor (shapes ▸ scalar)] at same
    exact TensorType.ext (NameMap.apply_eq_iff.mp (congrArg TensorType.elementType same)) shapes

end Ocelotl.Ast

namespace Ocelotl.Frontend

open Ast Library

variable {map : NameMap} {stod : String → Option Double} {token : Token}

/-- Identifiers get new names. Every other token stays as it is. -/
def renameToken (map : NameMap) (token : Token) : Token :=
  { token with
    lexeme := if token.kind = .identifier then map token.lexeme else token.lexeme
    numeral := by
      intro isInteger
      rw [if_neg (by simp [isInteger])]
      exact token.numeral isInteger }

private theorem renameToken_identifier (isIdentifier : token.kind = .identifier) :
    (renameToken map token).lexeme = map token.lexeme := if_pos isIdentifier

private theorem renameToken_other (other : token.kind ≠ .identifier) : renameToken map token = token :=
  Token.ext rfl (if_neg other) rfl

def TokenSequence.rename (map : NameMap) (sequence : TokenSequence) : TokenSequence where
  tokens := sequence.tokens.map (renameToken map)
  ending := sequence.ending
  ends := sequence.ends
  continues := by
    intro token member
    obtain ⟨old, present, rfl⟩ := List.mem_map.mp member
    exact sequence.continues old present

theorem TokenSequence.all_rename (sequence : TokenSequence) :
    (sequence.rename map).all = sequence.all.map (renameToken map) := by
  have ending : renameToken map sequence.ending = sequence.ending :=
    renameToken_other (by simp [sequence.ends])
  rw [TokenSequence.all, TokenSequence.all, List.map_append, List.map_singleton, ending]
  rfl

mutual

theorem Derives.rename : ∀ {level reads expression}, Derives stod level reads expression →
    Derives stod level (reads.map (renameToken map)) (renameExpression map expression)
  | _, _, _, .identifier isIdentifier => by
    rw [renameExpression, ← renameToken_identifier isIdentifier]
    exact .identifier isIdentifier
  | _, _, _, .integer isInteger fits => by
    rw [List.map_singleton, renameToken_other (by simp [isInteger])]
    exact .integer isInteger fits
  | _, _, _, .float isFloat accepted => by
    rw [List.map_singleton, renameToken_other (by simp [isFloat])]
    exact .float isFloat accepted
  | _, _, _, .call isIdentifier opens arguments closes => by
    rw [renameExpression, ← renameToken_identifier isIdentifier]
    simp only [List.map_cons, List.map_append, List.map_nil]
    exact .call isIdentifier opens arguments.rename closes
  | _, _, _, .parentheses opens inner closes => by
    simp only [List.map_cons, List.map_append, List.map_nil]
    exact .parentheses opens inner.rename closes
  | _, _, _, .binary isBinary operand operators => by
    rw [List.map_append]
    exact .binary isBinary operand.rename operators.rename

theorem Operators.rename :
    ∀ {level lhs reads expression}, Operators stod level lhs reads expression →
    Operators stod level (renameExpression map lhs) (reads.map (renameToken map))
      (renameExpression map expression)
  | _, _, _, _, .none => .none
  | _, _, _, _, .operator isOperator denotes operand later => by
    rw [List.map_cons, List.map_append]
    exact .operator isOperator denotes operand.rename later.rename

theorem Arguments.rename : ∀ {reads values}, Arguments stod reads values →
    Arguments stod (reads.map (renameToken map)) (renameArguments map values)
  | _, _, .none => .none
  | _, _, .some argument later => by
    rw [List.map_append]
    exact .some argument.rename later.rename

theorem MoreArguments.rename : ∀ {reads values}, MoreArguments stod reads values →
    MoreArguments stod (reads.map (renameToken map)) (renameArguments map values)
  | _, _, .none => .none
  | _, _, .comma isComma argument later => by
    rw [List.map_cons, List.map_append]
    exact .comma isComma argument.rename later.rename

end

theorem Dimension.rename {value : Nat} (dimension : Dimension token value) :
    renameToken map token = token :=
  renameToken_other (by simp [dimension.isInteger])

theorem MoreDimensions.rename {reads : List Token} {values : List Nat}
    (derives : MoreDimensions reads values) :
    MoreDimensions (reads.map (renameToken map)) values := by
  induction derives with
  | none => exact .none
  | comma isComma dimension _ ih =>
    rw [List.map_cons, List.map_cons, dimension.rename]
    exact .comma isComma dimension ih

theorem DerivesType.rename {reads : List Token} {type : TensorType}
    (derives : DerivesType reads type) :
    DerivesType (reads.map (renameToken map)) (renameType map type) := by
  cases derives with
  | type isIdentifier opens dimension later closes =>
    rw [renameType_of_tensor (List.cons_ne_nil _ _), ← renameToken_identifier isIdentifier]
    simp only [List.map_cons, List.map_append, List.map_nil, dimension.rename]
    exact .type isIdentifier opens dimension later.rename closes

mutual

theorem DerivesStatement.rename : ∀ {reads statement}, DerivesStatement stod reads statement →
    DerivesStatement stod (reads.map (renameToken map)) (renameStatement map statement)
  | _, _, .tensorDeclaration isTensor isIdentifier isColon derives => by
    rw [renameStatement, ← renameToken_identifier isIdentifier]
    exact .tensorDeclaration isTensor isIdentifier isColon derives.rename
  | _, _, .assignment isIdentifier isEqual derives => by
    rw [renameStatement, ← renameToken_identifier isIdentifier]
    exact .assignment isIdentifier isEqual derives.rename
  | _, _, .returnStmt isReturn derives => .returnStmt isReturn derives.rename
  | _, _, .ifStmt isIf derives thenBlock isElse elseBlock => by
    simp only [List.map_cons, List.map_append]
    exact .ifStmt isIf derives.rename thenBlock.rename isElse elseBlock.rename

theorem DerivesBlock.rename : ∀ {reads statements}, DerivesBlock stod reads statements →
    DerivesBlock stod (reads.map (renameToken map)) (renameStatements map statements)
  | _, _, .block opens inner closes => by
    simp only [List.map_cons, List.map_append, List.map_nil]
    exact .block opens inner.rename closes

theorem DerivesStatements.rename : ∀ {reads statements}, DerivesStatements stod reads statements →
    DerivesStatements stod (reads.map (renameToken map)) (renameStatements map statements)
  | _, _, .none => .none
  | _, _, .statement derives later => by
    rw [List.map_append]
    exact .statement derives.rename later.rename

end

def renameLexeme (map : NameMap) (lexeme : Lexeme) : Lexeme :=
  { lexeme with text := if lexeme.kind = .identifier then map lexeme.text else lexeme.text }

private theorem renameLexeme_symm (lexeme : Lexeme) :
    renameLexeme map.symm (renameLexeme map lexeme) = lexeme := by
  obtain ⟨kind, text⟩ := lexeme
  by_cases isIdentifier : kind = .identifier
  · simp [renameLexeme, isIdentifier]
  · simp [renameLexeme, isIdentifier]

/-- The second source has the tokens of the first with other names, in any layout. -/
def Renamed (map : NameMap) (source source' : List Char) : Prop :=
  (tokenize source').all.map Token.form =
    ((tokenize source).all.map Token.form).map (renameLexeme map)

variable {source source' : List Char} {program : Program}

theorem Renamed.symm (renamed : Renamed map source source') : Renamed map.symm source' source := by
  unfold Renamed at renamed ⊢
  rw [renamed, List.map_map]
  exact (List.map_id'' renameLexeme_symm _).symm

theorem parse_of_renamed (renamed : Renamed map source source')
    (parsed : parse stod source = .ok program) :
    ∃ program', parse stod source' = .ok program' ∧
      eraseLocations program' = eraseLocations (renameProgram map program) := by
  have derives :
      DerivesProgram stod ((tokenize source).rename map).tokens (renameProgram map program) :=
    DerivesStatements.rename (parseProgram_sound parsed)
  have same : (tokenize source').all.map Token.form =
      ((tokenize source).rename map).all.map Token.form := by
    rw [TokenSequence.all_rename, List.map_map]
    exact renamed.trans List.map_map
  have forgotten := @parseProgram_forgets stod _ _ same
  rw [parseProgram_complete derives] at forgotten
  unfold parse
  cases parsed' : parseProgram stod (tokenize source') with
  | ok program' =>
    rw [parsed'] at forgotten
    exact ⟨program', rfl, Except.ok.inj forgotten⟩
  | error error =>
    rw [parsed'] at forgotten
    cases forgotten

end Ocelotl.Frontend
