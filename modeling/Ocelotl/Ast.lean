import Mathlib.Data.List.Basic

namespace Ocelotl

structure SourceLocation where
  line : Nat := 1
  column : Nat := 1
  offset : Nat := 0
  deriving DecidableEq, Repr

/-- The syntax tree and the analyser have a type of this name each, with the
same two fields, and the analyser copies one into the other field by field. -/
@[ext]
structure TensorType where
  elementType : String
  shape : List Nat
  deriving DecidableEq, Repr

/-- Rank 0 types: the shape is empty. -/
def TensorType.scalar (elementType : String) : TensorType := ⟨elementType, []⟩

/-- The types that binary operators take. -/
def TensorType.Numeric (type : TensorType) : Prop := type = .scalar "i64" ∨ type = .scalar "f64"

theorem TensorType.Numeric.shape {type : TensorType} (numeric : type.Numeric) :
    type.shape = [] := by
  rcases numeric with rfl | rfl <;> rfl

/-- A binary64 number, kept as its bits. No phase computes with it. -/
structure Double where
  bits : BitVec 64
  deriving DecidableEq, Repr

namespace Ast

inductive BinaryOperator where
  | add | subtract | multiply | divide
  | equal | notEqual | less | lessEqual | greater | greaterEqual
  deriving DecidableEq, Repr

/-- Calls and binary expressions are shared pointers in the source, which may
be null in a tree that is built by hand. -/
inductive Expression where
  | identifier (name : String) (location : SourceLocation)
  | integer (value : BitVec 64) (location : SourceLocation)
  | float (value : Double) (location : SourceLocation)
  | call (callee : String) (arguments : List Expression) (location : SourceLocation)
  | nullCall
  | binary (op : BinaryOperator) (lhs rhs : Expression) (location : SourceLocation)
  | nullBinary
  deriving Repr

structure TensorDecl where
  name : String
  type : TensorType
  location : SourceLocation
  deriving DecidableEq, Repr

structure Assignment where
  target : String
  value : Expression
  location : SourceLocation
  deriving Repr

structure ReturnStmt where
  value : Expression
  location : SourceLocation
  deriving Repr

inductive Statement where
  | tensorDecl (declaration : TensorDecl)
  | assignment (assignment : Assignment)
  | returnStmt (returnStatement : ReturnStmt)
  | ifStmt (condition : Expression) (thenStatements elseStatements : List Statement)
      (location : SourceLocation)
  | nullIf
  deriving Repr

structure Program where
  statements : List Statement
  deriving Repr

/-- The expression that a statement starts by evaluating. -/
def startingExpression : Statement → Option Expression
  | .assignment assignment => some assignment.value
  | .returnStmt returnStatement => some returnStatement.value
  | .ifStmt condition _ _ _ => some condition
  | .tensorDecl _ | .nullIf => none

/-- Induction on expressions, with a hypothesis for every argument of a call. -/
@[elab_as_elim, induction_eliminator]
theorem Expression.induction {motive : Expression → Prop}
    (identifier : ∀ name location, motive (.identifier name location))
    (integer : ∀ value location, motive (.integer value location))
    (float : ∀ value location, motive (.float value location))
    (call : ∀ callee arguments location, (∀ argument ∈ arguments, motive argument) →
      motive (.call callee arguments location))
    (nullCall : motive .nullCall)
    (binary : ∀ op lhs rhs location, motive lhs → motive rhs →
      motive (.binary op lhs rhs location))
    (nullBinary : motive .nullBinary) (expression : Expression) : motive expression :=
  Expression.rec (motive_1 := motive) (motive_2 := fun arguments => ∀ argument ∈ arguments,
    motive argument)
    identifier integer float call nullCall binary nullBinary
    (fun _ member => nomatch member)
    (fun _ _ head tail argument member => by
      rcases List.mem_cons.mp member with same | later
      · exact same ▸ head
      · exact tail argument later)
    expression

/-- Induction on statements, with a hypothesis for every statement of a branch. -/
@[elab_as_elim, induction_eliminator]
theorem Statement.induction {motive : Statement → Prop}
    (tensorDecl : ∀ declaration, motive (.tensorDecl declaration))
    (assignment : ∀ assignment, motive (.assignment assignment))
    (returnStmt : ∀ returnStatement, motive (.returnStmt returnStatement))
    (ifStmt : ∀ condition thenStatements elseStatements location,
      (∀ statement ∈ thenStatements, motive statement) →
      (∀ statement ∈ elseStatements, motive statement) →
      motive (.ifStmt condition thenStatements elseStatements location))
    (nullIf : motive .nullIf) (statement : Statement) : motive statement :=
  Statement.rec (motive_1 := motive) (motive_2 := fun statements => ∀ statement ∈ statements,
    motive statement)
    tensorDecl assignment returnStmt ifStmt nullIf
    (fun _ member => nomatch member)
    (fun _ _ head tail statement member => by
      rcases List.mem_cons.mp member with same | later
      · exact same ▸ head
      · exact tail statement later)
    statement

end Ast

end Ocelotl
