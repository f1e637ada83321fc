import Ocelotl.Ast

namespace Ocelotl.IR

abbrev ValueId := Nat
abbrev BlockId := Nat

inductive BinaryKind where
  | add | subtract | multiply | divide
  deriving DecidableEq, Repr

inductive CompareKind where
  | equal | notEqual | less | lessEqual | greater | greaterEqual
  deriving DecidableEq, Repr

structure PhiIncoming where
  predecessor : BlockId
  value : ValueId
  deriving DecidableEq, Repr

inductive Operation where
  | tensorDecl (result : ValueId) (name : String) (type : TensorType)
  | constantInt (result : ValueId) (value : BitVec 64) (type : TensorType)
  | constantFloat (result : ValueId) (value : Double) (type : TensorType)
  | binary (result : ValueId) (kind : BinaryKind) (lhs rhs : ValueId) (type : TensorType)
  | compare (result : ValueId) (kind : CompareKind) (lhs rhs : ValueId) (operandType : TensorType)
  | phi (result : ValueId) (type : TensorType) (incoming : List PhiIncoming)
  | matMul (result : ValueId) (lhs rhs : ValueId) (type : TensorType)
  | relu (result : ValueId) (input : ValueId) (type : TensorType)
  deriving DecidableEq, Repr

inductive Terminator where
  | branch (target : BlockId)
  | condBranch (condition : ValueId) (trueTarget falseTarget : BlockId)
  | returnOp (value : ValueId)
  deriving DecidableEq, Repr

structure BasicBlock where
  id : BlockId
  name : String
  operations : List Operation := []
  terminator : Option Terminator := none
  deriving DecidableEq, Repr

structure Module where
  entry : BlockId := 0
  blocks : List BasicBlock := []
  deriving DecidableEq, Repr

def resultOf : Operation → ValueId
  | .tensorDecl result _ _ | .constantInt result _ _ | .constantFloat result _ _
  | .binary result _ _ _ _ | .compare result _ _ _ _ | .phi result _ _
  | .matMul result _ _ _ | .relu result _ _ => result

def typeOf : Operation → TensorType
  | .compare _ _ _ _ _ => .scalar "i1"
  | .tensorDecl _ _ type | .constantInt _ _ type | .constantFloat _ _ type
  | .binary _ _ _ _ type | .phi _ type _ | .matMul _ _ _ type | .relu _ _ type => type

/-- The values an operation reads where it stands. A phi reads its values at
the end of its predecessors instead. -/
def Operation.operands : Operation → List ValueId
  | .tensorDecl .. | .constantInt .. | .constantFloat .. | .phi .. => []
  | .binary _ _ lhs rhs _ | .compare _ _ lhs rhs _ | .matMul _ lhs rhs _ => [lhs, rhs]
  | .relu _ input _ => [input]

def Operation.incoming : Operation → List PhiIncoming
  | .phi _ _ incoming => incoming
  | _ => []

def Operation.isPhi : Operation → Bool
  | .phi .. => true
  | _ => false

def Terminator.operands : Terminator → List ValueId
  | .branch _ => []
  | .condBranch condition _ _ => [condition]
  | .returnOp value => [value]

def Terminator.targets : Terminator → List BlockId
  | .branch target => [target]
  | .condBranch _ trueTarget falseTarget => [trueTarget, falseTarget]
  | .returnOp _ => []

namespace Terminator

@[simp] theorem targets_branch : (branch target).targets = [target] := rfl

@[simp] theorem targets_condBranch :
    (condBranch condition trueTarget falseTarget).targets = [trueTarget, falseTarget] := rfl

@[simp] theorem targets_returnOp : (returnOp value).targets = [] := rfl

@[simp] theorem operands_branch : (branch target).operands = [] := rfl

@[simp] theorem operands_condBranch :
    (condBranch condition trueTarget falseTarget).operands = [condition] := rfl

@[simp] theorem operands_returnOp : (returnOp value).operands = [value] := rfl

end Terminator

namespace BasicBlock

/-- The blocks that control can move to from the end of this one. -/
def targets (block : BasicBlock) : List BlockId := block.terminator.elim [] Terminator.targets

def append (block : BasicBlock) (operation : Operation) : BasicBlock :=
  { block with operations := block.operations ++ [operation] }

def terminate (block : BasicBlock) (terminator : Terminator) : BasicBlock :=
  { block with terminator := some terminator }

@[simp] theorem append_id (block : BasicBlock) (operation : Operation) :
    (block.append operation).id = block.id := rfl

@[simp] theorem append_name (block : BasicBlock) (operation : Operation) :
    (block.append operation).name = block.name := rfl

@[simp] theorem append_operations (block : BasicBlock) (operation : Operation) :
    (block.append operation).operations = block.operations ++ [operation] := rfl

@[simp] theorem append_terminator (block : BasicBlock) (operation : Operation) :
    (block.append operation).terminator = block.terminator := rfl

@[simp] theorem append_targets (block : BasicBlock) (operation : Operation) :
    (block.append operation).targets = block.targets := rfl

@[simp] theorem terminate_id (block : BasicBlock) (terminator : Terminator) :
    (block.terminate terminator).id = block.id := rfl

@[simp] theorem terminate_name (block : BasicBlock) (terminator : Terminator) :
    (block.terminate terminator).name = block.name := rfl

@[simp] theorem terminate_operations (block : BasicBlock) (terminator : Terminator) :
    (block.terminate terminator).operations = block.operations := rfl

@[simp] theorem terminate_terminator (block : BasicBlock) (terminator : Terminator) :
    (block.terminate terminator).terminator = some terminator := rfl

@[simp] theorem terminate_targets (block : BasicBlock) (terminator : Terminator) :
    (block.terminate terminator).targets = terminator.targets := rfl

theorem targets_of_unterminated {block : BasicBlock} (unterminated : block.terminator = none) :
    block.targets = [] := by simp [targets, unterminated]

theorem targets_of_terminator {block : BasicBlock} {last : Terminator}
    (ends : block.terminator = some last) : block.targets = last.targets := by
  simp [targets, ends]

end BasicBlock

end Ocelotl.IR
