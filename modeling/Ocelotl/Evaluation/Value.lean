import Ocelotl.Ast

namespace Ocelotl.Evaluation

/-- The types whose values are numbers or truth values. Every other type is a
type of tensors. -/
def IsScalarType (type : TensorType) : Prop :=
  type = .scalar "i1" ∨ type = .scalar "i64" ∨ type = .scalar "f64"

instance : DecidablePred IsScalarType := fun type => by unfold IsScalarType; infer_instance

variable {Contents : Type}

inductive Value (Contents : Type) where
  | i1 (truth : Bool)
  | i64 (bits : BitVec 64)
  | f64 (number : Double)
  | tensor (type : TensorType) (isTensor : ¬ IsScalarType type) (contents : Contents)
  deriving DecidableEq

namespace Value

def type : Value Contents → TensorType
  | i1 _ => .scalar "i1"
  | i64 _ => .scalar "i64"
  | f64 _ => .scalar "f64"
  | tensor type _ _ => type

@[simp] theorem type_i1 (truth : Bool) : (i1 truth : Value Contents).type = .scalar "i1" := rfl

@[simp] theorem type_i64 (bits : BitVec 64) :
    (i64 bits : Value Contents).type = .scalar "i64" := rfl

@[simp] theorem type_f64 (number : Double) :
    (f64 number : Value Contents).type = .scalar "f64" := rfl

theorem type_eq_i1 {value : Value Contents} :
    value.type = .scalar "i1" ↔ ∃ truth, value = i1 truth := by
  cases value with
  | tensor type isTensor contents =>
    constructor
    · intro same
      exact absurd (.inl same) isTensor
    · intro ⟨_, different⟩
      cases different
  | i1 _ | i64 _ | f64 _ => simp [TensorType.scalar]

theorem type_eq_i64 {value : Value Contents} :
    value.type = .scalar "i64" ↔ ∃ bits, value = i64 bits := by
  cases value with
  | tensor type isTensor contents =>
    constructor
    · intro same
      exact absurd (.inr (.inl same)) isTensor
    · intro ⟨_, different⟩
      cases different
  | i1 _ | i64 _ | f64 _ => simp [TensorType.scalar]

theorem type_eq_f64 {value : Value Contents} :
    value.type = .scalar "f64" ↔ ∃ number, value = f64 number := by
  cases value with
  | tensor type isTensor contents =>
    constructor
    · intro same
      exact absurd (.inr (.inr same)) isTensor
    · intro ⟨_, different⟩
      cases different
  | i1 _ | i64 _ | f64 _ => simp [TensorType.scalar]

/-- Some value of a type. -/
def ofType [Inhabited Contents] (type : TensorType) : Value Contents :=
  if type = .scalar "i1" then i1 false
  else if type = .scalar "i64" then i64 0
  else if type = .scalar "f64" then f64 ⟨0⟩
  else if isTensor : ¬ IsScalarType type then tensor type isTensor default
  else i1 false

private theorem type_ofType [Inhabited Contents] (type : TensorType) :
    (ofType type : Value Contents).type = type := by
  unfold ofType
  split
  · rename_i same
    exact same.symm
  · split
    · rename_i same
      exact same.symm
    · split
      · rename_i same
        exact same.symm
      · rw [dif_pos (by simp [IsScalarType, *])]
        rfl

end Value

/-- The product of two matrices of these types, where it is defined. -/
def productType (lhs rhs : TensorType) : Option TensorType :=
  match lhs.shape, rhs.shape with
  | [rows, inner], [otherInner, columns] =>
    if lhs.elementType = rhs.elementType ∧ inner = otherInner then
      some ⟨lhs.elementType, [rows, columns]⟩
    else none
  | _, _ => none

/-- Interpretations of the operations that no phase of the compiler looks into.
The results of tensor operations have the types that their operands ask for. -/
structure Operations (Contents : Type) where
  add : Double → Double → Double
  subtract : Double → Double → Double
  multiply : Double → Double → Double
  divide : Double → Double → Double
  equal : Double → Double → Bool
  notEqual : Double → Double → Bool
  less : Double → Double → Bool
  lessEqual : Double → Double → Bool
  greater : Double → Double → Bool
  greaterEqual : Double → Double → Bool
  tensor : String → TensorType → Value Contents
  relu : Value Contents → Value Contents
  matmul : Value Contents → Value Contents → Value Contents
  tensor_type : ∀ name type, (tensor name type).type = type
  relu_type : ∀ input, (relu input).type = input.type
  matmul_type : ∀ lhs rhs type, productType lhs.type rhs.type = some type →
    (matmul lhs rhs).type = type

/-- Operations that answer with a fixed value of the type asked for. -/
def Operations.fixed [Inhabited Contents] : Operations Contents where
  add lhs _ := lhs
  subtract lhs _ := lhs
  multiply lhs _ := lhs
  divide lhs _ := lhs
  equal _ _ := false
  notEqual _ _ := false
  less _ _ := false
  lessEqual _ _ := false
  greater _ _ := false
  greaterEqual _ _ := false
  tensor _ type := .ofType type
  relu input := input
  matmul lhs rhs := .ofType ((productType lhs.type rhs.type).getD lhs.type)
  tensor_type _ type := Value.type_ofType type
  relu_type _ := rfl
  matmul_type lhs rhs type known := by rw [known]; exact Value.type_ofType type

/-- Signed division that truncates. There is no quotient by zero, and none
where it does not fit. -/
def quotient (lhs rhs : BitVec 64) : Option (BitVec 64) :=
  if rhs = 0 ∨ lhs = BitVec.intMin 64 ∧ rhs = -1 then none else some (lhs.sdiv rhs)

end Ocelotl.Evaluation
