import Ocelotl.Semantic.SymbolTable
import Ocelotl.Library.Throwing

namespace Ocelotl.Semantic

open Ast Library

inductive SemanticError where
  | nullIf | nullCall | nullBinary
  | redeclaration (location : SourceLocation) (name : String)
  | assignmentTypeMismatch (target : String)
  | assignmentShapeMismatch (target : String)
  | notIntroduced (target : String)
  | returnTypeMismatch
  | returnNotScalarI64 (location : SourceLocation)
  | conditionNotI1 (location : SourceLocation)
  | branchTypeMismatch (name : String)
  | scalarOperandsRequired | matchingOperandsRequired | numericOperandsRequired
  | undeclaredIdentifier (name : String)
  | reluArity | matmulArity | matmulRank | matmulElementType
  | matmulDimensions (rows inner otherInner columns : Nat)
  | unknownOperation (callee : String)
  deriving DecidableEq, Repr

def makeLocationPrefix (location : SourceLocation) : String :=
  s!"{location.line}:{location.column}: "

def SemanticError.message : SemanticError → String
  | .nullIf => "encountered null if statement"
  | .nullCall => "encountered null call expression"
  | .nullBinary => "encountered null binary expression"
  | .redeclaration location name =>
    makeLocationPrefix location ++ s!"redeclaration of symbol '{name}'"
  | .assignmentTypeMismatch target => s!"assignment type mismatch for symbol '{target}'"
  | .assignmentShapeMismatch target => s!"assignment shape mismatch for symbol '{target}'"
  | .notIntroduced target => s!"failed to introduce symbol '{target}'"
  | .returnTypeMismatch => "return type mismatch"
  | .returnNotScalarI64 location =>
    makeLocationPrefix location ++ "top-level return must have scalar i64 type"
  | .conditionNotI1 location => makeLocationPrefix location ++ "if condition must have type i1"
  | .branchTypeMismatch name => s!"branch type mismatch for symbol '{name}'"
  | .scalarOperandsRequired => "scalar binary operator requires scalar operands"
  | .matchingOperandsRequired => "binary operator requires matching operand types"
  | .numericOperandsRequired => "binary operator requires numeric operands"
  | .undeclaredIdentifier name => s!"use of undeclared identifier '{name}'"
  | .reluArity => "relu expects exactly 1 argument"
  | .matmulArity => "matmul expects exactly 2 arguments"
  | .matmulRank => "matmul requires rank-2 tensors"
  | .matmulElementType => "matmul requires matching element types"
  | .matmulDimensions rows inner otherInner columns =>
    s!"incompatible tensor dimensions for matmul: lhs is [{rows},{inner}], " ++
      s!"rhs is [{otherInner},{columns}]"
  | .unknownOperation callee => s!"unknown operation '{callee}'"

/-- The rule for a binary operator whose operands have these types. -/
def analyzeBinary (op : BinaryOperator) (lhs rhs : TensorType) : Except SemanticError TensorType :=
  if lhs.shape ≠ [] ∨ rhs.shape ≠ [] then throw .scalarOperandsRequired
  else if lhs.elementType ≠ rhs.elementType then throw .matchingOperandsRequired
  else if lhs.elementType ≠ "i64" ∧ lhs.elementType ≠ "f64" then throw .numericOperandsRequired
  else match op with
    | .add | .subtract | .multiply | .divide => return lhs
    | .equal | .notEqual | .less | .lessEqual | .greater | .greaterEqual => return .scalar "i1"

/-- The rule for a matrix product: `[M, K]` by `[K, N]` gives `[M, N]`. -/
def analyzeMatmul (lhs rhs : TensorType) : Except SemanticError TensorType :=
  match lhs.shape, rhs.shape with
  | [rows, inner], [otherInner, columns] =>
    if lhs.elementType ≠ rhs.elementType then throw .matmulElementType
    else if inner ≠ otherInner then throw (.matmulDimensions rows inner otherInner columns)
    else return ⟨lhs.elementType, [rows, columns]⟩
  | _, _ => throw .matmulRank

def analyzeIdentifier (symbols : SymbolTable) (name : String) : Except SemanticError TensorType :=
  match symbols.lookup name with
  | some symbol => return symbol.type
  | none => throw (.undeclaredIdentifier name)

/-- The type of an expression. No expression changes the symbol table. -/
def analyzeExpression (symbols : SymbolTable) : Expression → Except SemanticError TensorType
  | .identifier name _ => analyzeIdentifier symbols name
  | .integer _ _ => return .scalar "i64"
  | .float _ _ => return .scalar "f64"
  | .nullCall => throw .nullCall
  | .nullBinary => throw .nullBinary
  | .binary op lhs rhs _ => do
    let lhsType ← analyzeExpression symbols lhs
    let rhsType ← analyzeExpression symbols rhs
    analyzeBinary op lhsType rhsType
  | .call callee arguments _ =>
    if callee = "relu" then
      match arguments with
      | [argument] => analyzeExpression symbols argument
      | _ => throw .reluArity
    else if callee = "matmul" then
      match arguments with
      | [lhs, rhs] => do
        let lhsType ← analyzeExpression symbols lhs
        let rhsType ← analyzeExpression symbols rhs
        analyzeMatmul lhsType rhsType
      | _ => throw .matmulArity
    else throw (.unknownOperation callee)

structure SemanticAnalyzer where
  symbols : SymbolTable := .empty
  returnType : Option TensorType := none
  /-- How many merges were made. It only names the next traversal of a hash
  map, whose order the source leaves open. -/
  merges : Nat := 0

abbrev Analysis := EStateM SemanticError SemanticAnalyzer

def declareSymbol (symbol : Symbol) : Analysis Bool :=
  modifyGet fun analyzer =>
    ((analyzer.symbols.declare symbol).1,
      { analyzer with symbols := (analyzer.symbols.declare symbol).2 })

def analyzeTensorDeclaration (declaration : TensorDecl) : Analysis Unit := do
  let inserted ← declareSymbol ⟨declaration.name, declaration.type, declaration.location⟩
  if inserted then pure () else throw (.redeclaration declaration.location declaration.name)

/-- The value is analysed first, so that a rejected value does not introduce the target. -/
def analyzeAssignment (assignment : Assignment) : Analysis Unit := do
  let analyzer ← get
  let inferredType ← ofExcept (analyzeExpression analyzer.symbols assignment.value)
  match analyzer.symbols.lookup assignment.target with
  | some existing =>
    if existing.type.elementType ≠ inferredType.elementType then
      throw (.assignmentTypeMismatch assignment.target)
    else if existing.type.shape ≠ inferredType.shape then
      throw (.assignmentShapeMismatch assignment.target)
    else pure ()
  | none => do
    let inserted ← declareSymbol ⟨assignment.target, inferredType, {}⟩
    if inserted then pure () else throw (.notIntroduced assignment.target)

def analyzeReturn (returnStatement : ReturnStmt) : Analysis Unit := do
  let analyzer ← get
  let type ← ofExcept (analyzeExpression analyzer.symbols returnStatement.value)
  if analyzer.returnType.any fun returnType =>
      returnType.elementType ≠ type.elementType ∨ returnType.shape ≠ type.shape then
    throw .returnTypeMismatch
  else if type.elementType ≠ "i64" ∨ type.shape ≠ [] then
    throw (.returnNotScalarI64 returnStatement.location)
  else modify fun analyzer => { analyzer with returnType := some type }

/-- The loop at the end of `analyzeIf`, over the entries of the then-branch table. -/
def mergeBranches (before elseSymbols : SymbolTable) : List (String × Symbol) → Analysis Unit
  | [] => pure ()
  | (name, thenSymbol) :: entries =>
    if before.contains name then mergeBranches before elseSymbols entries
    else match elseSymbols.lookup name with
      | none => mergeBranches before elseSymbols entries
      | some elseSymbol =>
        if thenSymbol.type.elementType ≠ elseSymbol.type.elementType ∨
            thenSymbol.type.shape ≠ elseSymbol.type.shape then
          throw (.branchTypeMismatch name)
        else do
          let _ ← declareSymbol thenSymbol
          mergeBranches before elseSymbols entries

def setSymbols (symbols : SymbolTable) : Analysis Unit :=
  modify fun analyzer => { analyzer with symbols := symbols }

def nextTraversal : Analysis Nat :=
  modifyGet fun analyzer => (analyzer.merges, { analyzer with merges := analyzer.merges + 1 })

variable (order : TraversalOrder)

mutual

def analyzeStatement : Statement → Analysis Unit
  | .tensorDecl declaration => analyzeTensorDeclaration declaration
  | .assignment assignment => analyzeAssignment assignment
  | .returnStmt returnStatement => analyzeReturn returnStatement
  | .nullIf => throw .nullIf
  | .ifStmt condition thenStatements elseStatements location => do
    let start ← get
    let conditionType ← ofExcept (analyzeExpression start.symbols condition)
    if conditionType.elementType ≠ "i1" ∨ conditionType.shape ≠ [] then
      throw (.conditionNotI1 location)
    else do
      let before := start.symbols
      analyzeStatements thenStatements
      let thenSymbols := (← get).symbols
      setSymbols before
      analyzeStatements elseStatements
      let elseSymbols := (← get).symbols
      setSymbols before
      let traversal ← nextTraversal
      mergeBranches before elseSymbols (order.traverse traversal thenSymbols.entries)

def analyzeStatements : List Statement → Analysis Unit
  | [] => pure ()
  | statement :: statements => do
    analyzeStatement statement
    analyzeStatements statements

end

/-- Analysis of a whole program, from a fresh table. -/
def analyze (program : Program) : Except SemanticError SemanticAnalyzer :=
  match analyzeStatements order program.statements {} with
  | .ok _ analyzer => .ok analyzer
  | .error error _ => .error error

end Ocelotl.Semantic
