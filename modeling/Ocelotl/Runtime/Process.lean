import Ocelotl.Library.Heap
import Ocelotl.Runtime.Allocator

/-! A process that uses the runtime. Its threads call in any order, share the heap of
the C library, and have diagnostics of their own. -/

namespace Ocelotl.Runtime

open Library

variable {Id Handle : Type}

/-- A call and what it returned. Storage is known by handles, and null has none. -/
inductive Call (Handle : Type) where
  | alloc (size alignment : BitVec 64) (answer : Option Handle)
  | free (argument : Option Handle)
  | lastError (text : String)

namespace Call

/-- What the heap sees of a call. -/
def heapEvent : Call Handle → Option (HeapEvent Handle)
  | .alloc size _ answer => some (.alloc size.toNat answer)
  | .free argument => some (.free argument)
  | .lastError _ => none

/-- What an allocation returned. -/
def answered : Call Handle → Option (Option Handle)
  | .alloc _ _ answer => some answer
  | .free _ | .lastError _ => none

end Call

/-- The calls of all threads, as the heap sees them. -/
def heapEvents (calls : List (Id × Call Handle)) :
    List (HeapEvent Handle) := calls.filterMap fun call => call.2.heapEvent

/-- The threads, and the heap that they share. -/
structure Process (target : Target) (Id Handle : Type) where
  threads : Id → Thread target
  use : HeapUse Handle

variable [DecidableEq Id] [DecidableEq Handle]

/-- What the allocations of one thread returned. -/
def answersOf (id : Id) (calls : List (Id × Call Handle)) : List (Option Handle) :=
  calls.filterMap fun call => if call.1 = id then call.2.answered else none

/-- The runtime serves a call of a thread. What `posix_memalign` gives out is apart
from all that is in use. -/
inductive Serves (target : Target) :
    Process target Id Handle → Id × Call Handle → Process target Id Handle → Prop where
  | refused {process : Process target Id Handle} {id : Id} {thread : Thread target}
    {posixMemalign : PosixMemalign target}
    {size alignment : BitVec 64} (posix : FollowsPosix posixMemalign)
    (run : (ocelotlRtV1Alloc posixMemalign size alignment).run (process.threads id) =
      (.null, thread)) :
    Serves target process (id, .alloc size alignment none)
      ⟨Function.update process.threads id thread, process.use⟩
  | served {process : Process target Id Handle} {id : Id} {thread : Thread target}
    {posixMemalign : PosixMemalign target}
    {size alignment : BitVec 64} {address : Pointer} {handle : Handle}
    (posix : FollowsPosix posixMemalign)
    (run : (ocelotlRtV1Alloc posixMemalign size alignment).run (process.threads id) =
      (address, thread))
    (fits : process.use.heap.Fits ⟨address, size.toNat⟩) :
    Serves target process (id, .alloc size alignment (some handle))
      ⟨Function.update process.threads id thread,
      process.use.heap.allocate _ fits, Function.update process.use.address handle address⟩
  | released {process : Process target Id Handle} {id : Id} {thread : Thread target}
    {argument : Option Handle} {heap : Heap}
    (run : (ocelotlRtV1Free (process.use.argument argument)).run (process.threads id) =
      ((), thread))
    (defined : process.use.heap.release (process.use.argument argument) = some heap) :
    Serves target process (id, .free argument)
      ⟨Function.update process.threads id thread, heap, process.use.address⟩
  | diagnosed {process : Process target Id Handle} {id : Id} {thread : Thread target}
    {text : String}
    (run : ocelotlRtV1LastError.run (process.threads id) = (text, thread)) :
    Serves target process (id, .lastError text) ⟨Function.update process.threads id thread,
      process.use⟩

variable {target : Target} {start process next final : Process target Id Handle}
  {call : Id × Call Handle} {calls before after : List (Id × Call Handle)} {id : Id}

theorem serves_heap (trace : Trace (Serves target) start calls process) :
    Trace HeapUse.Step start.use (heapEvents calls) process.use := by
  induction trace with
  | nil => exact .nil
  | snoc _ serves ih =>
    unfold heapEvents at ih ⊢
    rw [List.filterMap_append]
    cases serves with
    | refused => exact ih.snoc .refused
    | served _ _ fits => exact ih.snoc (.served fits)
    | released _ defined => exact ih.snoc (.released defined)
    | diagnosed =>
      show Trace _ _ (_ ++ []) _
      rw [List.append_nil]
      exact ih

/-- A release by a process that keeps the contract is defined. -/
theorem exists_serves_free {argument : Option Handle}
    (disciplined : Disciplined (heapEvents (before ++ (id, .free argument) :: after)))
    (trace : Trace (Serves target) start before process) :
    ∃ next, Serves target process (id, .free argument) next := by
  have split : heapEvents (before ++ (id, .free argument) :: after) =
      heapEvents before ++ .free argument :: heapEvents after := List.filterMap_append
  obtain ⟨heap, defined⟩ := disciplined.exists_release (serves_heap trace) split
  exact ⟨_, .released rfl defined⟩

/-- The last of these answers, if there is one, is storage. -/
def EndsServed (answers : List (Option Handle)) : Prop := ∀ answer ∈ answers.getLast?, answer ≠ none

/-- The diagnostic of each thread tells of its own last allocation. -/
def Reports (calls : List (Id × Call Handle)) (process : Process target Id Handle) : Prop :=
  ∀ id, (process.threads id).ocelotlRtError = "" ↔ EndsServed (answersOf id calls)

omit [DecidableEq Handle] in
private theorem answersOf_other (different : id ≠ call.1) :
    answersOf id (calls ++ [call]) = answersOf id calls := by
  unfold answersOf
  rw [List.filterMap_append, List.filterMap_cons, if_neg different.symm]
  exact List.append_nil _

omit [DecidableEq Handle] in
private theorem answersOf_alloc {size alignment : BitVec 64} {answer : Option Handle} :
    answersOf id (calls ++ [(id, .alloc size alignment answer)]) = answersOf id calls ++
      [answer] := by
  unfold answersOf
  rw [List.filterMap_append]
  simp [Call.answered]

omit [DecidableEq Handle] in
private theorem answersOf_silent {silent : Call Handle} (unanswered : silent.answered = none) :
    answersOf id (calls ++ [(id, silent)]) = answersOf id calls := by
  unfold answersOf
  rw [List.filterMap_append]
  simp [unanswered]

omit [DecidableEq Handle] in
private theorem endsServed_snoc {answers : List (Option Handle)} {answer : Option Handle} :
    EndsServed (answers ++ [answer]) ↔ answer ≠ none := by
  unfold EndsServed
  rw [List.getLast?_concat]
  exact ⟨fun each => each answer rfl, fun served other last => Option.some.inj last ▸ served⟩

/-- A call changes nothing for the other threads. -/
theorem Serves.other (serves : Serves target process call next) (different : id ≠ call.1) :
    next.threads id = process.threads id := by
  cases serves with
  | refused => exact Function.update_of_ne different _ _
  | served => exact Function.update_of_ne different _ _
  | released => exact Function.update_of_ne different _ _
  | diagnosed => exact Function.update_of_ne different _ _

/-- An allocation reports whether it succeeded, and the other calls keep the report. -/
theorem Serves.own (serves : Serves target process (id, call.2) next)
    (reports : (process.threads id).ocelotlRtError = "" ↔ EndsServed (answersOf id calls)) :
    (next.threads id).ocelotlRtError = "" ↔
      EndsServed (answersOf id (calls ++ [(id, call.2)])) := by
  generalize call.2 = asked at serves
  cases serves with
  | @refused _ thread posixMemalign size alignment posix run =>
    have outcome := @alloc_error_iff target posixMemalign size alignment (process.threads id) posix
    rw [run] at outcome
    rw [answersOf_alloc, endsServed_snoc]
    show (Function.update process.threads id thread id).ocelotlRtError = "" ↔ _
    rw [Function.update_self]
    exact iff_of_false (fun empty => outcome.mp empty rfl) (not_not_intro rfl)
  | @served _ thread posixMemalign size alignment address handle posix run fits =>
    have outcome := @alloc_error_iff target posixMemalign size alignment (process.threads id) posix
    rw [run] at outcome
    rw [answersOf_alloc, endsServed_snoc]
    show (Function.update process.threads id thread id).ocelotlRtError = "" ↔ _
    rw [Function.update_self]
    exact iff_of_true (outcome.mpr fits.nonnull) (Option.some_ne_none handle)
  | @released _ thread _ _ run _ =>
    cases run
    rw [answersOf_silent rfl]
    show (Function.update process.threads id _ id).ocelotlRtError = "" ↔ _
    rw [Function.update_self]
    exact reports
  | @diagnosed _ thread _ run =>
    cases run
    rw [answersOf_silent rfl]
    show (Function.update process.threads id _ id).ocelotlRtError = "" ↔ _
    rw [Function.update_self]
    exact reports

theorem Reports.step (reports : Reports calls process) (serves : Serves target process call next) :
    Reports (calls ++ [call]) next := by
  intro id
  by_cases same : id = call.1
  · subst same
    exact serves.own (reports _)
  · rw [answersOf_other same, serves.other same]
    exact reports id

private theorem reports_of_trace (fresh : ∀ id, (start.threads id).ocelotlRtError = "")
    (trace : Trace (Serves target) start calls process) : Reports calls process := by
  have initial : Reports [] start := by
    intro id
    refine iff_of_true (fresh id) fun answer member => ?_
    cases member
  exact trace.invariant initial Reports.step

/-- Threads that keep the contract together are served safely, in any order of their
calls: every release is defined, in the end the heap is as it was, and the
diagnostic that a thread reads is about its own last allocation. -/
theorem interleaved_safe (disciplined : Disciplined (heapEvents calls))
    (fresh : ∀ id, (start.threads id).ocelotlRtError = "") :
    (∀ before id argument after, calls = before ++ (id, .free argument) :: after → ∀ process,
      Trace (Serves target) start before process →
        ∃ next, Serves target process (id, .free argument) next) ∧
    (∀ before id text after, calls = before ++ (id, .lastError text) :: after → ∀ final,
      Trace (Serves target) start (before ++ [(id, .lastError text)]) final →
        (text = "" ↔ EndsServed (answersOf id before))) ∧
    ∀ final, Trace (Serves target) start calls final → final.use.heap = start.use.heap := by
  refine ⟨?_, ?_, ?_⟩
  · intro before id argument after split process trace
    subst split
    exact exists_serves_free disciplined trace
  · intro before id text after _ final trace
    obtain ⟨process, earlier, last⟩ := trace.exists_of_snoc
    cases last with
    | diagnosed run =>
      cases run
      exact reports_of_trace fresh earlier id
  · intro final trace
    exact disciplined.restores (serves_heap trace)

/-- One thread allocates, another one fails to and releases the storage of the first. -/
def handedOver : List (Bool × Call Nat) :=
  [(false, .alloc 24 64 (some 0)), (true, .alloc 8 8 none), (true, .free (some 0)),
    (false, .lastError "")]

def Process.fresh : Process .lp64 Bool Nat := ⟨fun _ => {}, .empty, fun _ => 0⟩

theorem interleaved_safe_handedOver :
    ∃ final, Trace (Serves .lp64) Process.fresh handedOver final ∧ final.use.heap = .empty := by
  have posix : FollowsPosix (memalignAt 4096) := followsPosix_memalignAt (by decide) (by decide)
  have fits : Heap.empty.Fits ⟨4096, 24⟩ := ⟨by decide, by decide, List.forall_mem_nil _⟩
  have disciplined : Disciplined (heapEvents handedOver) := by
    have events : heapEvents handedOver = [.alloc 24 (some 0), .alloc 8 none, .free (some 0)] := rfl
    rw [events]
    refine ⟨?_, ?_, by decide⟩
    · intro before size handle after split
      rcases before with _ | ⟨first, _ | ⟨second, _ | ⟨third, before⟩⟩⟩
      · exact List.not_mem_nil
      · cases split
      · cases split
      · simp at split
    · intro before handle after split
      rcases before with _ | ⟨first, _ | ⟨second, _ | ⟨third, before⟩⟩⟩
      · cases split
      · cases split
      · cases split
        decide
      · simp at split
  have one := Trace.nil.snoc (@Serves.served Bool Nat _ _ .lp64 Process.fresh false _ _ 24 64 4096 0
      posix rfl fits)
  have two := one.snoc (@Serves.refused Bool Nat _ _ .lp64 _ true _ _ 8 8 posix rfl)
  have three := two.snoc (@Serves.released Bool Nat _ _ .lp64 _ true _ (some 0) _ rfl rfl)
  have four := three.snoc (@Serves.diagnosed Bool Nat _ _ .lp64 _ false _ "" rfl)
  exact ⟨_, four, (interleaved_safe disciplined fun _ => rfl).2.2 _ four⟩

end Ocelotl.Runtime
