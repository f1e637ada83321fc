import Mathlib.Algebra.Ring.Nat
import Ocelotl.Library.Trace

/-! The allocator of the runtime, ABI version 1. The heap itself belongs to the C
library: `posix_memalign` is a parameter, and `free` leaves nothing that is seen
here. -/

namespace Ocelotl.Runtime

open Library

/-- What the C implementation of the target fixes: the width of `size_t`,
`sizeof(void *)` and `ENOMEM`. -/
structure Target where
  sizeBits : Nat
  pointerSize : Nat
  enomem : Int := 12
  pointer : pointerSize ∈ [1, 2, 4, 8]

/-- `SIZE_MAX` -/
def Target.sizeMax (target : Target) : Nat := 2 ^ target.sizeBits - 1

/-- An address. -/
abbrev Pointer := Nat

def Pointer.null : Pointer := 0

/-- What a call of `posix_memalign` returns, and the pointer that it stores. -/
structure Memalign where
  result : Int
  pointer : Pointer := .null

/-- `posix_memalign(&pointer, alignment, size)` -/
abbrev PosixMemalign (target : Target) := BitVec target.sizeBits → BitVec target.sizeBits → Memalign

/-- Zero is success, and success stores the address of aligned storage, which is no
null pointer unless the size is zero. -/
def FollowsPosix {target : Target} (posixMemalign : PosixMemalign target) : Prop :=
  ∀ alignment size, (posixMemalign alignment size).result = 0 → size ≠ 0 →
    (posixMemalign alignment size).pointer ≠ .null ∧
      alignment.toNat ∣ (posixMemalign alignment size).pointer

/-- The state of a thread: the diagnostic, and the calls of `posix_memalign` with
the arguments that it was given. -/
structure Thread (target : Target) where
  ocelotlRtError : String := ""
  calls : List (BitVec target.sizeBits × BitVec target.sizeBits) := []

section Functions

variable {target : Target}

def setError (error : String) : StateM (Thread target) Unit :=
  modify fun thread => { thread with ocelotlRtError := error }

/-- The call, with a record of it. -/
def callMemalign (posixMemalign : PosixMemalign target) (alignment size : BitVec target.sizeBits) :
    StateM (Thread target) Memalign := do
  modify fun thread => { thread with calls := thread.calls ++ [(alignment, size)] }
  return posixMemalign alignment size

def ocelotlRtV1Alloc (posixMemalign : PosixMemalign target) (size alignment : BitVec 64) :
    StateM (Thread target) Pointer := do
  if size = 0 then do
    setError "allocation size must be greater than zero"
    return .null
  else if size > BitVec.ofNat 64 target.sizeMax then do
    setError "allocation size exceeds the target address space"
    return .null
  else if alignment.toNat < target.pointerSize ∨ alignment &&& (alignment - 1) ≠ 0 ∨
      alignment > BitVec.ofNat 64 target.sizeMax then do
    setError "alignment must be a power of two and at least pointer-sized"
    return .null
  else do
    let memalign ← callMemalign posixMemalign (alignment.setWidth _) (size.setWidth _)
    if memalign.result ≠ 0 then do
      setError (if memalign.result = target.enomem then "runtime allocation failed: out of memory"
        else "runtime allocation failed")
      return .null
    else do
      setError ""
      return memalign.pointer

/-- `free(pointer)` -/
def ocelotlRtV1Free (_pointer : Pointer) : StateM (Thread target) Unit := return ()

def ocelotlRtV1LastError : StateM (Thread target) String := do
  let thread ← get
  return thread.ocelotlRtError

end Functions

/-- The arguments that the ABI asks for, in the range of `size_t`. -/
structure Admissible (target : Target) (size alignment : BitVec 64) : Prop where
  positive : 0 < size.toNat
  fits : size.toNat ≤ target.sizeMax
  power : alignment.toNat.isPowerOfTwo
  multiple : target.pointerSize ∣ alignment.toNat
  inRange : alignment.toNat ≤ target.sizeMax

variable {target : Target} {posixMemalign : PosixMemalign target} {size alignment word : BitVec 64}
  {thread : Thread target}

/-- The bit test for a power of two. -/
theorem and_sub_one_eq_zero_iff {width : Nat} {word : BitVec width} (nonzero : word.toNat ≠ 0) :
    word &&& (word - 1) = 0 ↔ word.toNat.isPowerOfTwo := by
  have bound := word.isLt
  have one : (1 : BitVec width).toNat = 1 := by
    show (BitVec.ofNat width 1).toNat = 1
    rw [BitVec.toNat_ofNat, Nat.mod_eq_of_lt (by omega)]
  have lower : (word - 1).toNat = word.toNat - 1 := by
    rw [BitVec.toNat_sub_of_le, one]
    rw [BitVec.le_def, one]
    omega
  rw [← Nat.and_sub_one_eq_zero_iff_isPowerOfTwo nonzero, ← lower, ← BitVec.toNat_and]
  exact BitVec.toNat_inj.symm

private theorem sizeMax_mod (target : Target) :
    target.sizeMax < 2 ^ 64 ∧ target.sizeMax % 2 ^ 64 = target.sizeMax ∨
      2 ^ 64 - 1 ≤ target.sizeMax ∧ target.sizeMax % 2 ^ 64 = 2 ^ 64 - 1 := by
  unfold Target.sizeMax
  by_cases narrow : target.sizeBits ≤ 64
  · have within : 2 ^ target.sizeBits ≤ 2 ^ 64 := Nat.pow_le_pow_right Nat.two_pos narrow
    exact .inl ⟨by omega, Nat.mod_eq_of_lt (by omega)⟩
  · obtain ⟨more, wide⟩ := Nat.exists_eq_add_of_le (Nat.le_of_not_le narrow)
    have positive : 0 < 2 ^ more := Nat.two_pow_pos more
    have split : 2 ^ target.sizeBits - 1 = 2 ^ 64 * (2 ^ more - 1) + (2 ^ 64 - 1) := by
      rw [wide, Nat.pow_add]
      omega
    rw [split]
    exact .inr ⟨by omega, Nat.mul_add_mod _ _ _⟩

/-- The cast of `SIZE_MAX` to 64 bits does not change what the comparisons say. -/
theorem not_exceeds_iff :
    ¬ word > BitVec.ofNat 64 target.sizeMax ↔ word.toNat ≤ target.sizeMax := by
  have bound := word.isLt
  rw [gt_iff_lt, BitVec.lt_def, BitVec.toNat_ofNat, Nat.not_lt]
  rcases sizeMax_mod target with ⟨_, same⟩ | ⟨wide, same⟩
  · rw [same]
  · rw [same]
    omega

private theorem toNat_setWidth_of_fits (fits : word.toNat ≤ target.sizeMax) :
    (word.setWidth target.sizeBits).toNat = word.toNat := by
  have positive : 0 < 2 ^ target.sizeBits := Nat.two_pow_pos _
  unfold Target.sizeMax at fits
  rw [BitVec.toNat_setWidth, Nat.mod_eq_of_lt (by omega)]

/-- A power of two that is not less than the size of a pointer is a multiple of it. -/
theorem pointerSize_dvd_iff (power : alignment.toNat.isPowerOfTwo) :
    target.pointerSize ∣ alignment.toNat ↔ ¬ alignment.toNat < target.pointerSize := by
  obtain ⟨exponent, same⟩ := power
  have pointer : ∃ exponent, target.pointerSize = 2 ^ exponent := by
    have all : ∀ size ∈ [1, 2, 4, 8], ∃ exponent, size = 2 ^ exponent := by
      simp only [List.forall_mem_cons]
      exact ⟨⟨0, rfl⟩, ⟨1, rfl⟩, ⟨2, rfl⟩, ⟨3, rfl⟩, List.forall_mem_nil _⟩
    exact all _ target.pointer
  obtain ⟨pointerExponent, pointer⟩ := pointer
  rw [same, pointer, Nat.not_lt, Nat.pow_dvd_pow_iff_le_right (Nat.lt_succ_self 1),
    Nat.pow_le_pow_iff_right (Nat.lt_succ_self 1)]

private theorem pointerSize_pos (target : Target) : 0 < target.pointerSize := by
  have all : ∀ size ∈ [1, 2, 4, 8], 0 < size := by decide
  exact all _ target.pointer

/-- The checks before the call let exactly the admissible arguments through. -/
theorem admissible_iff : Admissible target size alignment ↔
    ¬ size = 0 ∧ ¬ size > BitVec.ofNat 64 target.sizeMax ∧
      ¬ (alignment.toNat < target.pointerSize ∨ alignment &&& (alignment - 1) ≠ 0 ∨
        alignment > BitVec.ofNat 64 target.sizeMax) := by
  have zero : size = 0 ↔ size.toNat = 0 := BitVec.toNat_inj.symm
  have pointer := pointerSize_pos target
  rw [not_or, not_or, not_not, zero, not_exceeds_iff, not_exceeds_iff]
  constructor
  · intro admissible
    have nonzero : alignment.toNat ≠ 0 :=
      Nat.pos_iff_ne_zero.mp (Nat.pos_of_isPowerOfTwo admissible.power)
    exact ⟨Nat.pos_iff_ne_zero.mp admissible.positive, admissible.fits,
      (pointerSize_dvd_iff admissible.power).mp admissible.multiple,
      (and_sub_one_eq_zero_iff nonzero).mpr admissible.power, admissible.inRange⟩
  · intro passed
    obtain ⟨positive, fits, atLeast, bits, inRange⟩ := passed
    have power := (and_sub_one_eq_zero_iff (by omega)).mp bits
    exact ⟨Nat.pos_iff_ne_zero.mpr positive, fits, power, (pointerSize_dvd_iff power).mpr atLeast,
      inRange⟩

/-- Where the arguments are not admissible, nothing is called. -/
theorem alloc_rejected (rejected : ¬ Admissible target size alignment) :
    ∃ error, error ≠ "" ∧ (ocelotlRtV1Alloc posixMemalign size alignment).run thread =
      (.null, { thread with ocelotlRtError := error }) := by
  unfold ocelotlRtV1Alloc
  by_cases zero : size = 0
  · rw [if_pos zero]
    exact ⟨_, by decide, rfl⟩
  by_cases exceeds : size > BitVec.ofNat 64 target.sizeMax
  · rw [if_neg zero, if_pos exceeds]
    exact ⟨_, by decide, rfl⟩
  by_cases misaligned : alignment.toNat < target.pointerSize ∨ alignment &&& (alignment - 1) ≠ 0 ∨
      alignment > BitVec.ofNat 64 target.sizeMax
  · rw [if_neg zero, if_neg exceeds, if_pos misaligned]
    exact ⟨_, by decide, rfl⟩
  · exact absurd (admissible_iff.mpr ⟨zero, exceeds, misaligned⟩) rejected

/-- Where they are, `posix_memalign` is called with them, and its result decides. -/
theorem alloc_admissible (admissible : Admissible target size alignment) :
    ∃ pointer error, (ocelotlRtV1Alloc posixMemalign size alignment).run thread =
        (pointer, ⟨error, thread.calls ++ [(alignment.setWidth _, size.setWidth _)]⟩) ∧
      ((posixMemalign (alignment.setWidth _) (size.setWidth _)).result = 0 ∧ error = "" ∧
          pointer = (posixMemalign (alignment.setWidth _) (size.setWidth _)).pointer ∨
        error ≠ "" ∧ pointer = .null) := by
  obtain ⟨zero, exceeds, misaligned⟩ := admissible_iff.mp admissible
  by_cases failed : (posixMemalign (alignment.setWidth _) (size.setWidth _)).result ≠ 0
  · refine ⟨.null, if (posixMemalign (alignment.setWidth _) (size.setWidth _)).result =
      target.enomem
      then "runtime allocation failed: out of memory" else "runtime allocation failed", ?_,
        .inr ⟨?_, rfl⟩⟩
    · rw [ocelotlRtV1Alloc, if_neg zero, if_neg exceeds, if_neg misaligned]
      exact congrFun (if_pos failed) _
    · split <;> decide
  · refine ⟨_, "", ?_, .inl ⟨not_not.mp failed, rfl, rfl⟩⟩
    rw [ocelotlRtV1Alloc, if_neg zero, if_neg exceeds, if_neg misaligned]
    exact congrFun (if_neg failed) _

/-- The diagnostic is empty exactly where the allocation succeeded. -/
theorem alloc_error_iff (posix : FollowsPosix posixMemalign) :
    ((ocelotlRtV1Alloc posixMemalign size alignment).run thread).2.ocelotlRtError = "" ↔
      ((ocelotlRtV1Alloc posixMemalign size alignment).run thread).1 ≠ .null := by
  by_cases admissible : Admissible target size alignment
  · obtain ⟨pointer, error, run, outcome⟩ :=
      @alloc_admissible target posixMemalign size alignment thread admissible
    rw [run]
    rcases outcome with ⟨success, rfl, rfl⟩ | ⟨failed, rfl⟩
    · have kept := toNat_setWidth_of_fits admissible.fits
      have positive := admissible.positive
      refine iff_of_true rfl (posix _ _ success fun zero => ?_).1
      rw [zero] at kept
      exact absurd kept.symm (Nat.pos_iff_ne_zero.mp positive)
    · exact iff_of_false failed (not_not_intro rfl)
  · obtain ⟨error, failed, run⟩ :=
      @alloc_rejected target posixMemalign size alignment thread admissible
    rw [run]
    exact iff_of_false failed (not_not_intro rfl)

/-- A call on the thread, and what it returned. -/
inductive Event where
  | alloc (size alignment : BitVec 64) (pointer : Pointer)
  | free (pointer : Pointer)
  | lastError (text : String)

/-- What an allocation returned. -/
def Event.allocated : Event → Option Pointer
  | .alloc _ _ pointer => some pointer
  | .free _ | .lastError _ => none

/-- One call. What `posix_memalign` does may be different each time. -/
inductive Step (target : Target) : Thread target → Event → Thread target → Prop where
  | alloc {thread final : Thread target} {posixMemalign : PosixMemalign target}
    {size alignment : BitVec 64}
    {pointer : Pointer} (posix : FollowsPosix posixMemalign)
    (run : (ocelotlRtV1Alloc posixMemalign size alignment).run thread = (pointer, final)) :
    Step target thread (.alloc size alignment pointer) final
  | free {thread final : Thread target} {pointer : Pointer}
    (run : (ocelotlRtV1Free pointer).run thread = ((), final)) :
      Step target thread (.free pointer) final
  | lastError {thread final : Thread target} {text : String}
    (run : ocelotlRtV1LastError.run thread = (text, final)) :
      Step target thread (.lastError text) final

/-- The last allocation did not fail, if there was one. -/
def LastSucceeded (events : List Event) : Prop :=
  ∀ pointer ∈ (events.filterMap Event.allocated).getLast?, pointer ≠ .null

/-- The diagnostic tells of the last allocation. -/
def Diagnosed (events : List Event) (thread : Thread target) : Prop :=
  thread.ocelotlRtError = "" ↔ LastSucceeded events

private theorem lastSucceeded_alloc {events : List Event} {pointer : Pointer} :
    LastSucceeded (events ++ [.alloc size alignment pointer]) ↔ pointer ≠ .null := by
  simp [LastSucceeded, Event.allocated]

private theorem lastSucceeded_other {events : List Event} {event : Event} (other : event.allocated = none) :
    LastSucceeded (events ++ [event]) ↔ LastSucceeded events := by
  simp [LastSucceeded, other]

/-- Each call keeps the diagnostic up to date. -/
theorem Diagnosed.step {events : List Event} {event : Event} {final : Thread target}
    (diagnosed : Diagnosed events thread) (step : Step target thread event final) :
    Diagnosed (events ++ [event]) final := by
  unfold Diagnosed
  cases step with
  | @alloc _ posixMemalign size alignment pointer posix run =>
    have outcome := @alloc_error_iff target posixMemalign size alignment thread posix
    rw [run] at outcome
    exact outcome.trans lastSucceeded_alloc.symm
  | free run =>
    cases run
    exact diagnosed.trans (lastSucceeded_other rfl).symm
  | lastError run =>
    cases run
    exact diagnosed.trans (lastSucceeded_other rfl).symm

theorem diagnosed {events : List Event} (trace : Trace (Step target) {} events thread) :
    Diagnosed events thread := by
  have start : @Diagnosed target [] {} := by
    refine iff_of_true rfl fun pointer member => ?_
    cases member
  exact trace.invariant start Diagnosed.step

/-- The allocator keeps to its ABI. It calls `posix_memalign` with admissible arguments
that no cast changed, and returns a null pointer without a call for all others.
After any calls on a thread, the diagnostic is the empty string exactly where the
last allocation, if there was one, returned storage. -/
theorem alloc_honours_abi (target : Target) :
    (∀ (posixMemalign : PosixMemalign target) size alignment (thread : Thread target),
      (Admissible target size alignment →
        ∃ alignment' size', ((ocelotlRtV1Alloc posixMemalign size alignment).run thread).2.calls =
            thread.calls ++ [(alignment', size')] ∧
          alignment'.toNat = alignment.toNat ∧ size'.toNat = size.toNat) ∧
      (¬ Admissible target size alignment →
        ((ocelotlRtV1Alloc posixMemalign size alignment).run thread).1 = .null ∧
          ((ocelotlRtV1Alloc posixMemalign size alignment).run thread).2.calls = thread.calls)) ∧
    ∀ events text final, Trace (Step target) {} (events ++ [.lastError text]) final →
      (text = "" ↔ LastSucceeded events) := by
  refine ⟨fun posixMemalign size alignment thread => ⟨fun admissible => ?_, fun rejected => ?_⟩, ?_⟩
  · obtain ⟨pointer, error, run, _⟩ :=
      @alloc_admissible target posixMemalign size alignment thread admissible
    rw [run]
    exact ⟨_, _, rfl, toNat_setWidth_of_fits admissible.inRange,
      toNat_setWidth_of_fits admissible.fits⟩
  · obtain ⟨error, _, run⟩ := @alloc_rejected target posixMemalign size alignment thread rejected
    rw [run]
    exact ⟨rfl, rfl⟩
  · intro events text final trace
    obtain ⟨thread, before, last⟩ := trace.exists_of_snoc
    cases last with
    | lastError run =>
      cases run
      exact diagnosed before

/-- 64-bit addresses and sizes. -/
def Target.lp64 : Target where
  sizeBits := 64
  pointerSize := 8
  pointer := by decide

/-- Room for one block. -/
def memalignAt (address : Pointer) : PosixMemalign .lp64 :=
  fun alignment _ => if alignment = 64 then ⟨0, address⟩ else ⟨12, .null⟩

theorem followsPosix_memalignAt {address : Pointer} (nonnull : address ≠ .null)
    (aligned : 64 ∣ address) :
    FollowsPosix (memalignAt address) := by
  intro alignment size success _
  by_cases same : alignment = 64
  · subst same
    exact ⟨nonnull, aligned⟩
  · have failed : (memalignAt address alignment size).result = 12 := by
      unfold memalignAt
      rw [if_neg same]
    rw [failed] at success
    cases success

/-- An allocation that fails after one that did not. -/
def failedLast : List Event := [.alloc 24 64 4096, .alloc 8 8 .null, .free 4096]

theorem alloc_honours_abi_failedLast : ∃ text final,
    Trace (Step .lp64) {} (failedLast ++ [.lastError text]) final ∧ text ≠ "" := by
  have posix : FollowsPosix (memalignAt 4096) := followsPosix_memalignAt (by decide) (by decide)
  have one : Trace (Step .lp64) {} [.alloc 24 64 4096] _ := Trace.nil.snoc (.alloc posix rfl)
  have two : Trace (Step .lp64) {} [.alloc 24 64 4096, .alloc 8 8 .null] _ :=
    one.snoc (.alloc posix rfl)
  have three : Trace (Step .lp64) {} failedLast _ := two.snoc (.free rfl)
  have four := three.snoc (.lastError rfl)
  refine ⟨_, _, four, fun empty => ?_⟩
  exact ((alloc_honours_abi .lp64).2 _ _ _ four).mp empty .null (by decide) rfl

end Ocelotl.Runtime
