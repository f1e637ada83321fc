import Ocelotl.Evaluation.Value
import Ocelotl.Library.UnorderedMap
import Ocelotl.Library.Throwing

/-! Direct evaluation of programs: a store of names that assignments overwrite,
conditionals that run one branch, and a program that ends with its first return. -/

namespace Ocelotl.Evaluation

open Ast Library

inductive Fault where
  | unbound (name : String)
  | operandTypes | matmulOperands | innerDimensions
  | conditionNotI1
  | undefinedDivision
  | unknownCall | null
  deriving DecidableEq, Repr

variable {Contents : Type}

abbrev Store (Contents : Type) := UnorderedMap String (Value Contents)

/-- What an evaluation leaves open: at each moment, the results of opaque
operations, and the branch that a conditional runs for each condition. -/
structure Choices (Contents : Type) where
  operations : Nat → Operations Contents
  branch : Nat → Bool → Bool

/-- The same operations at all times, and the branch that the condition asks for. -/
def Operations.always (operations : Operations Contents) : Choices Contents where
  operations _ := operations
  branch _ truth := truth

/-- The store, and the number of choices made so far. -/
structure State (Contents : Type) where
  store : Store Contents := ∅
  moment : Nat := 0

def State.bind (state : State Contents) (name : String) (value : Value Contents) :
    State Contents := { state with store := state.store.insert name value }

def State.tick (state : State Contents) : State Contents :=
  { state with moment := state.moment + 1 }

@[simp] theorem State.bind_store (state : State Contents) (name : String) (value : Value Contents) :
    (state.bind name value).store = state.store.insert name value := rfl

@[simp] theorem State.tick_store (state : State Contents) : state.tick.store = state.store := rfl

abbrev Evaluating (Contents : Type) := EStateM Fault (State Contents)

/-- The moment of a choice, which no other choice shares. -/
def nextMoment : Evaluating Contents Nat :=
  modifyGet fun state => (state.moment, state.tick)

def evaluateIdentifier (name : String) : Evaluating Contents (Value Contents) := do
  let state ← get
  match state.store.lookup name with
  | some value => pure value
  | none => throw (.unbound name)

def integerOperation (op : BinaryOperator) (lhs rhs : BitVec 64) : Except Fault (Value Contents) :=
  match op with
  | .add => return .i64 (lhs + rhs)
  | .subtract => return .i64 (lhs - rhs)
  | .multiply => return .i64 (lhs * rhs)
  | .divide =>
    match quotient lhs rhs with
    | some result => return .i64 result
    | none => throw .undefinedDivision
  | .equal => return .i1 (lhs == rhs)
  | .notEqual => return .i1 (lhs != rhs)
  | .less => return .i1 (lhs.slt rhs)
  | .lessEqual => return .i1 (lhs.sle rhs)
  | .greater => return .i1 (rhs.slt lhs)
  | .greaterEqual => return .i1 (rhs.sle lhs)

def floatOperation (operations : Operations Contents) (op : BinaryOperator) (lhs rhs : Double) :
    Value Contents :=
  match op with
  | .add => .f64 (operations.add lhs rhs)
  | .subtract => .f64 (operations.subtract lhs rhs)
  | .multiply => .f64 (operations.multiply lhs rhs)
  | .divide => .f64 (operations.divide lhs rhs)
  | .equal => .i1 (operations.equal lhs rhs)
  | .notEqual => .i1 (operations.notEqual lhs rhs)
  | .less => .i1 (operations.less lhs rhs)
  | .lessEqual => .i1 (operations.lessEqual lhs rhs)
  | .greater => .i1 (operations.greater lhs rhs)
  | .greaterEqual => .i1 (operations.greaterEqual lhs rhs)

/-- Operators are defined on two numbers of one kind only. -/
def applyBinary (operations : Operations Contents) (op : BinaryOperator)
    (lhs rhs : Value Contents) :
    Except Fault (Value Contents) :=
  match lhs, rhs with
  | .i64 lhs, .i64 rhs => integerOperation op lhs rhs
  | .f64 lhs, .f64 rhs => return floatOperation operations op lhs rhs
  | _, _ => throw .operandTypes

/-- A product is defined on two matrices of one element type, when the columns
of the first are as many as the rows of the second. -/
def applyMatmul (operations : Operations Contents) (lhs rhs : Value Contents) :
    Except Fault (Value Contents) :=
  match lhs.type.shape, rhs.type.shape with
  | [_, inner], [otherInner, _] =>
    if lhs.type.elementType ≠ rhs.type.elementType then throw .matmulOperands
    else if inner ≠ otherInner then throw .innerDimensions
    else return operations.matmul lhs rhs
  | _, _ => throw .matmulOperands

variable (choices : Choices Contents)

def evaluateExpression : Expression → Evaluating Contents (Value Contents)
  | .identifier name _ => evaluateIdentifier name
  | .integer value _ => return .i64 value
  | .float value _ => return .f64 value
  | .nullCall | .nullBinary => throw .null
  | .binary op lhs rhs _ => do
    let lhsValue ← evaluateExpression lhs
    let rhsValue ← evaluateExpression rhs
    let moment ← nextMoment
    ofExcept (applyBinary (choices.operations moment) op lhsValue rhsValue)
  | .call callee arguments _ =>
    if callee = "relu" then
      match arguments with
      | [argument] => do
        let input ← evaluateExpression argument
        let moment ← nextMoment
        return (choices.operations moment).relu input
      | _ => throw .unknownCall
    else if callee = "matmul" then
      match arguments with
      | [lhs, rhs] => do
        let lhsValue ← evaluateExpression lhs
        let rhsValue ← evaluateExpression rhs
        let moment ← nextMoment
        ofExcept (applyMatmul (choices.operations moment) lhsValue rhsValue)
      | _ => throw .unknownCall
    else throw .unknownCall

/-- How a statement ends. -/
inductive Completion (Contents : Type) where
  | continues
  | returned (value : Value Contents)

def bindName (name : String) (value : Value Contents) : Evaluating Contents Unit :=
  modify (·.bind name value)

/-- The branch that a conditional runs. -/
def chooseBranch (condition : Value Contents) : Evaluating Contents Bool :=
  match condition with
  | .i1 truth => do
    let moment ← nextMoment
    return choices.branch moment truth
  | _ => throw .conditionNotI1

mutual

def evaluateStatement : Statement → Evaluating Contents (Completion Contents)
  | .tensorDecl declaration => do
    let moment ← nextMoment
    bindName declaration.name ((choices.operations moment).tensor declaration.name declaration.type)
    return .continues
  | .assignment assignment => do
    let value ← evaluateExpression choices assignment.value
    bindName assignment.target value
    return .continues
  | .returnStmt returnStatement => do
    let value ← evaluateExpression choices returnStatement.value
    return .returned value
  | .nullIf => throw .null
  | .ifStmt condition thenStatements elseStatements _ => do
    let value ← evaluateExpression choices condition
    if ← chooseBranch choices value then evaluateStatements thenStatements
    else evaluateStatements elseStatements

def evaluateStatements : List Statement → Evaluating Contents (Completion Contents)
  | [] => return .continues
  | statement :: statements => do
    match ← evaluateStatement statement with
    | .returned value => return .returned value
    | .continues => evaluateStatements statements

end

/-- Evaluation of a whole program, from an empty store. -/
def evaluate (program : Program) : EStateM.Result Fault (State Contents) (Completion Contents) :=
  evaluateStatements choices program.statements {}

def returnedValue (program : Program) : Option (Value Contents) :=
  match evaluate choices program with
  | .ok (.returned value) _ => some value
  | _ => none

/-- The program returns this value. -/
def Returns (program : Program) (value : Value Contents) : Prop :=
  ∃ final, evaluate choices program = .ok (.returned value) final

/-- The program ends in a fault. -/
def Fails (program : Program) (fault : Fault) : Prop :=
  ∃ final, evaluate choices program = .error fault final

variable {choices}

theorem returnedValue_eq_some {program : Program} {value : Value Contents} :
    returnedValue choices program = some value ↔ Returns choices program value := by
  unfold returnedValue Returns
  cases evaluate choices program with
  | ok completion final => cases completion <;> simp
  | error fault final => simp

end Ocelotl.Evaluation
