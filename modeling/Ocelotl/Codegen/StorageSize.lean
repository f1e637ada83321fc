import Mathlib.Algebra.Order.BigOperators.GroupWithZero.List
import Mathlib.Algebra.Order.Ring.Nat
import Ocelotl.Codegen.Lowering

namespace Ocelotl.Codegen

variable {size result dimension elementSize : Nat} {dimensions shape rest : List Nat}
  {type : TensorType}

/-- The bytes of an element, for the elements that can be stored. -/
def elementBytes (elementType : String) : Option Nat :=
  if elementType = "f32" then some 4
  else if elementType = "f64" then some 8
  else if elementType = "i64" then some 8
  else none

/-- The loop gets to these dimensions with this size. -/
inductive Reached (elementSize : Nat) (shape : List Nat) : Nat → List Nat → Prop where
  | start : Reached elementSize shape elementSize shape
  | next {size dimension : Nat} {rest : List Nat}
    (reached : Reached elementSize shape size (dimension :: rest))
    (passes : ¬ (dimension = 0 ∨ dimension > (2 ^ 64 - 1) / size)) :
    Reached elementSize shape (size * dimension % 2 ^ 64) rest

/-- The check by division is the one by multiplication, which does not wrap. -/
theorem passes_iff (positive : 0 < size) :
    ¬ (dimension = 0 ∨ dimension > (2 ^ 64 - 1) / size) ↔
      0 < dimension ∧ size * dimension ≤ 2 ^ 64 - 1 := by
  rw [not_or, gt_iff_lt, Nat.not_lt, Nat.le_div_iff_mul_le positive, Nat.mul_comm,
    Nat.pos_iff_ne_zero]

private theorem mod_of_fits (fits : size ≤ 2 ^ 64 - 1) : size % 2 ^ 64 = size :=
  Nat.mod_eq_of_lt (by omega)

private theorem prod_pos_of_nonzero (nonzero : ∀ dimension ∈ dimensions, dimension ≠ 0) :
    0 < dimensions.prod :=
  List.prod_pos fun dimension member => Nat.pos_of_ne_zero (nonzero dimension member)

/-- The loop gives the product exactly when it fits. -/
theorem multiplyDimensions_ok (positive : 0 < size) (fits : size ≤ 2 ^ 64 - 1) :
    multiplyDimensions size dimensions = .ok result ↔
      (∀ dimension ∈ dimensions, dimension ≠ 0) ∧ result = size * dimensions.prod ∧
        result ≤ 2 ^ 64 - 1 := by
  induction dimensions generalizing size with
  | nil =>
    rw [multiplyDimensions, List.prod_nil, Nat.mul_one]
    constructor
    · intro same
      cases same
      exact ⟨List.forall_mem_nil _, rfl, fits⟩
    · intro exact
      rw [exact.2.1]
      rfl
  | cons dimension dimensions ih =>
    rw [multiplyDimensions, List.forall_mem_cons, List.prod_cons, ← Nat.mul_assoc]
    by_cases passes : dimension = 0 ∨ dimension > (2 ^ 64 - 1) / size
    · rw [if_pos passes]
      constructor
      · intro success
        cases success
      intro exact
      obtain ⟨⟨nonzero, others⟩, same, small⟩ := exact
      have larger : size * dimension ≤ size * dimension * dimensions.prod :=
        Nat.le_mul_of_pos_right _ (prod_pos_of_nonzero others)
      exact absurd passes ((passes_iff positive).mpr ⟨Nat.pos_of_ne_zero nonzero, by omega⟩)
    · obtain ⟨nonzero, small⟩ := (passes_iff positive).mp passes
      rw [if_neg passes, mod_of_fits small, ih (Nat.mul_pos positive nonzero) small]
      exact and_congr_left fun _ => (and_iff_right (Nat.pos_iff_ne_zero.mp nonzero)).symm

/-- The invariant of the loop: the size is the product of the element size and the
dimensions that were read, and it is positive. -/
theorem Reached.invariant (positive : 0 < elementSize) (fits : elementSize ≤ 2 ^ 64 - 1)
    (reached : Reached elementSize shape size rest) :
    ∃ read, shape = read ++ rest ∧ size = elementSize * read.prod ∧ 0 < size ∧ size ≤ 2 ^ 64 - 1 ∧
      multiplyDimensions elementSize shape = multiplyDimensions size rest := by
  induction reached with
  | start => exact ⟨[], rfl, (Nat.mul_one _).symm, positive, fits, rfl⟩
  | @next size dimension rest reached passes ih =>
    obtain ⟨read, rfl, same, positive, fits, follows⟩ := ih
    obtain ⟨nonzero, small⟩ := (passes_iff positive).mp passes
    rw [mod_of_fits small]
    refine ⟨read ++ [dimension], by simp, ?_, Nat.mul_pos positive nonzero, small, ?_⟩
    · rw [List.prod_append, List.prod_singleton, ← Nat.mul_assoc, ← same]
    · rw [follows, multiplyDimensions, if_neg passes, mod_of_fits small]

private theorem elementBytes_bounds {elementType : String} {bytes : Nat}
    (found : elementBytes elementType = some bytes) :
    0 < bytes ∧ bytes ≤ 2 ^ 64 - 1 := by
  unfold elementBytes at found
  split at found
  · cases found
    decide
  split at found
  · cases found
    decide
  split at found
  · cases found
    decide
  · cases found

/-- Zero stands for elements that cannot be stored. -/
theorem elementSize_eq (elementType : String) :
    (if elementType = "f32" then 4 else if elementType = "f64" ∨
      elementType = "i64" then 8 else 0) =
      (elementBytes elementType).getD 0 := by
  unfold elementBytes
  by_cases f32 : elementType = "f32"
  · simp [f32]
  by_cases f64 : elementType = "f64"
  · simp [f64]
  by_cases i64 : elementType = "i64"
  · simp [i64]
  · simp [f32, f64, i64]

private theorem tensorStorageSize_of_bytes {bytes : Nat}
    (found : elementBytes type.elementType = some bytes) (ranked : type.shape ≠ []) :
    tensorStorageSize type = multiplyDimensions bytes type.shape := by
  have positive := (elementBytes_bounds found).1
  dsimp only [tensorStorageSize]
  rw [elementSize_eq, found, Option.getD_some,
    if_neg (not_or.mpr ⟨Nat.pos_iff_ne_zero.mp positive, ranked⟩)]

private theorem tensorStorageSize_unsupported
    (unsupported : elementBytes type.elementType = none ∨ type.shape = []) :
    tensorStorageSize type = .error .unsupportedStorage := by
  dsimp only [tensorStorageSize]
  rw [elementSize_eq]
  refine if_pos (unsupported.imp_left fun none => ?_)
  rw [none, Option.getD_none]

theorem tensorStorageSize_bounds (sized : tensorStorageSize type = .ok size) :
    0 < size ∧ size ≤ 2 ^ 64 - 1 := by
  cases found : elementBytes type.elementType with
  | none =>
    rw [tensorStorageSize_unsupported (.inl found)] at sized
    cases sized
  | some bytes =>
    by_cases scalar : type.shape = []
    · rw [tensorStorageSize_unsupported (.inr scalar)] at sized
      cases sized
    obtain ⟨positive, fits⟩ := elementBytes_bounds found
    rw [tensorStorageSize_of_bytes found scalar] at sized
    obtain ⟨nonzero, same, small⟩ := (multiplyDimensions_ok positive fits).mp sized
    exact ⟨same ▸ Nat.mul_pos positive (prod_pos_of_nonzero nonzero), small⟩

/-- The size of a tensor's storage is the product of the bytes of an element and the
dimensions, where this is a product of positive numbers that fits into 64 bits. In
every round of the loop the divisor is positive and the product does not wrap. -/
theorem tensorStorageSize_exact (type : TensorType) :
    (∀ size, tensorStorageSize type = .ok size ↔
      ∃ bytes, elementBytes type.elementType = some bytes ∧ type.shape ≠ [] ∧
        (∀ dimension ∈ type.shape, dimension ≠ 0) ∧ size = bytes * type.shape.prod ∧
          size ≤ 2 ^ 64 - 1) ∧
      ∀ bytes, elementBytes type.elementType = some bytes → type.shape ≠ [] →
        tensorStorageSize type = multiplyDimensions bytes type.shape ∧
          ∀ size rest, Reached bytes type.shape size rest →
            multiplyDimensions bytes type.shape = multiplyDimensions size rest ∧ 0 < size ∧
              ∀ dimension later, rest = dimension :: later →
                ¬ (dimension = 0 ∨ dimension > (2 ^ 64 - 1) / size) →
                size * dimension % 2 ^ 64 = size * dimension := by
  constructor
  · intro size
    constructor
    · intro success
      cases found : elementBytes type.elementType with
      | none =>
        rw [tensorStorageSize_unsupported (.inl found)] at success
        cases success
      | some bytes =>
        have ranked : type.shape ≠ [] := by
          intro scalar
          rw [tensorStorageSize_unsupported (.inr scalar)] at success
          cases success
        obtain ⟨positive, fits⟩ := elementBytes_bounds found
        rw [tensorStorageSize_of_bytes found ranked] at success
        exact ⟨bytes, rfl, ranked, (multiplyDimensions_ok positive fits).mp success⟩
    · intro exact
      obtain ⟨bytes, found, ranked, product⟩ := exact
      obtain ⟨positive, fits⟩ := elementBytes_bounds found
      rw [tensorStorageSize_of_bytes found ranked]
      exact (multiplyDimensions_ok positive fits).mpr product
  · intro bytes found ranked
    obtain ⟨positive, fits⟩ := elementBytes_bounds found
    refine ⟨tensorStorageSize_of_bytes found ranked, fun size rest reached => ?_⟩
    obtain ⟨read, _, _, divisor, _, follows⟩ := reached.invariant positive fits
    refine ⟨follows, divisor, fun dimension later _ passes => ?_⟩
    exact mod_of_fits ((passes_iff divisor).mp passes).2

end Ocelotl.Codegen
