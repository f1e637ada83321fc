import Ocelotl.Codegen.LLVMVerifier
import Ocelotl.Codegen.Release
import Ocelotl.Codegen.Steps
import Ocelotl.Codegen.StorageSize
import Ocelotl.Driver.Compile
import Ocelotl.Runtime.Process

namespace Ocelotl.Runtime

open Ast Semantic Library Evaluation

variable {Contents : Type} {environment : LLVM.Environment Contents} {blocks : List LLVM.BasicBlock}
  {config next : LLVM.Config} {instruction : LLVM.Instruction} {exit : LLVM.Exit}
  {events : List LLVM.Event}

/-- Allocations are known by the number of their call. -/
def handle : LLVM.Pointer → Option Nat
  | .null => none
  | .allocation call => some call

def heapEvent : LLVM.Event → HeapEvent Nat
  | .alloc size _ pointer => .alloc size.toNat (handle pointer)
  | .free pointer => .free (handle pointer)

/-- Every call of the allocator has a number of its own, and a request that the code contains. -/
structure Recorded (requests : BitVec 64 → BitVec 64 → Prop) (config : LLVM.Config) : Prop where
  older : ∀ call ∈ obtainedIn (config.events.map heapEvent), call < config.calls
  distinct : (obtainedIn (config.events.map heapEvent)).Nodup
  requested : ∀ size alignment pointer, .alloc size alignment pointer ∈ config.events →
    requests size alignment

theorem Recorded.of_same {requests : BitVec 64 → BitVec 64 → Prop}
    (recorded : Recorded requests config) (calls : next.calls = config.calls)
    (events : next.events = config.events) : Recorded requests next where
  older := calls ▸ events ▸ recorded.older
  distinct := events ▸ recorded.distinct
  requested := events ▸ recorded.requested

theorem Recorded.free {requests : BitVec 64 → BitVec 64 → Prop} {pointer : LLVM.Pointer}
    (recorded : Recorded requests config) (calls : next.calls = config.calls)
    (events : next.events = config.events ++ [.free pointer]) :
    Recorded requests next := by
  have obtained :
      obtainedIn (next.events.map heapEvent) = obtainedIn (config.events.map heapEvent) := by
    rw [events, List.map_append, List.map_singleton, obtainedIn_snoc]
    exact List.append_nil _
  refine ⟨?_, ?_, ?_⟩
  · rw [obtained, calls]
    exact recorded.older
  · rw [obtained]
    exact recorded.distinct
  · intro size alignment pointer member
    rw [events] at member
    rcases List.mem_append.mp member with old | new
    · exact recorded.requested size alignment pointer old
    · cases List.mem_singleton.mp new

theorem Recorded.alloc {requests : BitVec 64 → BitVec 64 → Prop} {size alignment : BitVec 64}
    (recorded : Recorded requests config) (request : requests size alignment)
    (calls : next.calls = config.calls + 1)
    (events : next.events = config.events ++
      [.alloc size alignment (Codegen.answer environment config)]) :
    Recorded requests next := by
  have obtained : obtainedIn (next.events.map heapEvent) =
      obtainedIn (config.events.map heapEvent) ++
        (handle (Codegen.answer environment config)).toList := by
    rw [events, List.map_append, List.map_singleton, obtainedIn_snoc]
    rfl
  have new : ∀ call ∈ (handle (Codegen.answer environment config)).toList, call = config.calls := by
    unfold Codegen.answer
    split
    · exact fun call member => List.mem_singleton.mp member
    · exact fun call member => absurd member List.not_mem_nil
  refine ⟨?_, ?_, ?_⟩
  · intro call member
    rw [obtained] at member
    rw [calls]
    rcases List.mem_append.mp member with old | here
    · exact Nat.lt_succ_of_lt (recorded.older call old)
    · rw [new call here]
      exact Nat.lt_succ_self _
  · rw [obtained]
    apply List.nodup_append.mpr
    refine ⟨recorded.distinct, ?_, ?_⟩
    · cases handle (Codegen.answer environment config) with
      | none => exact .nil
      | some call => exact List.nodup_singleton call
    · intro call old other here same
      have less := recorded.older call old
      rw [same, new other here] at less
      exact Nat.lt_irrefl _ less
  · intro other otherAlignment pointer member
    rw [events] at member
    rcases List.mem_append.mp member with old | here
    · exact recorded.requested other otherAlignment pointer old
    · cases List.mem_singleton.mp here
      exact request

/-- What the code can ask for. -/
def Requests (blocks : List LLVM.BasicBlock) (size alignment : BitVec 64) : Prop :=
  ∃ body ∈ blocks, ∃ register, .callAlloc register size alignment ∈ body.instructions

theorem Recorded.step (recorded : Recorded (Requests blocks) config)
    (steps : (LLVM.machine environment blocks).step config = .inl next) :
    Recorded (Requests blocks) next := by
  rcases Codegen.step_cases steps with
    ⟨body, instruction, found, present, success⟩ | ⟨_, _, target, _, _, _, _, rfl⟩
  · rcases Codegen.execute_calls success with ⟨calls, events⟩ | ⟨pointer, calls, events⟩ |
      ⟨register, size, alignment, rfl, calls, events⟩
    · exact recorded.of_same calls events
    · exact recorded.free calls events
    · exact recorded.alloc ⟨body, List.mem_of_getElem? found, register,
        List.mem_of_getElem? present⟩ calls events
  · exact recorded.of_same rfl rfl

/-- After every run. -/
theorem recorded_of_executes {function : LLVM.Function}
    (executes : function.Executes environment (.ok exit)) :
    (obtainedIn (exit.events.map heapEvent)).Nodup ∧
      ∀ size alignment pointer, .alloc size alignment pointer ∈ exit.events →
        Requests function.blocks size alignment := by
  have start : Recorded (Requests function.blocks) .initial :=
    ⟨fun _ member => absurd member List.not_mem_nil, .nil,
      fun _ _ _ member => absurd member List.not_mem_nil⟩
  obtain ⟨last, recorded, stops⟩ := executes.invariant start Recorded.step
  rw [Codegen.exit_events stops]
  exact ⟨recorded.distinct, recorded.requested⟩

variable {order : TraversalOrder} {verifyModule : LLVM.Function → Except String Unit}
  {module : IR.Module} {function : LLVM.Function} {size alignment : BitVec 64}

/-- The code of a module only asks for the storage of its tensors. -/
theorem requests_declared (lowers : Codegen.generate order verifyModule module = .ok function)
    (requests : Requests function.blocks size alignment) :
    ∃ type, Codegen.tensorStorageSize type = .ok size.toNat ∧ alignment = 64 := by
  obtain ⟨accepted, _, builder, lowered, rfl, _⟩ := Codegen.generate_ok.mp lowers
  have verified := IR.verify_ok_iff.mp accepted
  obtain ⟨labels, code⟩ := Codegen.lowerModule_lowered verified lowered
  obtain ⟨body, member, register, inside⟩ := requests
  obtain ⟨label, filled⟩ := List.getElem?_of_mem member
  obtain ⟨position, present⟩ := List.getElem?_of_mem inside
  obtain ⟨block, found⟩ := Codegen.lowerModule_bodies verified lowered filled
  cases code.origin found ⟨body, filled, present⟩ with
  | prologue here =>
    unfold Codegen.prologue at here
    split at here
    · rw [List.range_eq_range'] at here
      obtain ⟨_, _, ⟨_, same⟩ | ⟨_, same⟩⟩ := Codegen.slotCode_origin here
      · cases same
      · cases same
    · cases here
  | operation index operation piece step here lowers present same placed =>
    have inPiece := List.mem_of_getElem? present
    cases lowers with
    | @tensorDecl type bytes result slot register' name sized slotted looked =>
      have bound := (Codegen.tensorStorageSize_bounds sized).2
      rcases List.mem_pair.mp inPiece with alloc | store
      · cases alloc
        refine ⟨type, ?_, rfl⟩
        rw [BitVec.toNat_ofNat, Nat.mod_eq_of_lt (by omega)]
        exact sized
      · cases store
    | constantInt _ => cases inPiece
    | constantFloat _ => cases inPiece
    | binary _ _ _ => cases List.mem_singleton.mp inPiece
    | compare _ _ _ =>
      have pure := congrArg Codegen.computes (List.mem_singleton.mp inPiece)
      rw [Codegen.computes_compareInstruction] at pure
      cases pure
    | phi _ _ _ => cases List.mem_singleton.mp inPiece
  | tail last terminator tail step ends lowers present same placed =>
    rcases lowers.origin present with
      ⟨_, _, _, _, load⟩ | ⟨_, _, _, _, _, free⟩ | ⟨_, _, _, _, _, trunc⟩
    · cases load
    · cases free
    · cases trunc

/-- The alignment of tensors suits every target. -/
theorem admissible_of_declared {type : TensorType} {target : Target}
    (sized : Codegen.tensorStorageSize type = .ok size.toNat) (fits : size.toNat ≤ target.sizeMax)
    (wide : 64 ≤ target.sizeMax) : Admissible target size 64 where
  positive := (Codegen.tensorStorageSize_bounds sized).1
  fits := fits
  power := ⟨6, rfl⟩
  multiple := by
    have all : ∀ size ∈ [1, 2, 4, 8], size ∣ 64 := by decide
    exact all _ target.pointer
  inRange := wide

variable {call : Nat}

private theorem mem_obtainedIn :
    call ∈ obtainedIn (events.map heapEvent) ↔ .allocation call ∈ Codegen.allocated events := by
  unfold obtainedIn Codegen.allocated
  rw [List.filterMap_map, List.mem_filterMap, List.mem_filterMap]
  apply exists_congr
  intro event
  apply and_congr_right
  intro _
  cases event with
  | alloc size alignment pointer =>
    cases pointer <;> simp [heapEvent, HeapEvent.allocated, handle, Codegen.allocatedPointer]
  | free pointer => simp [heapEvent, HeapEvent.allocated, Codegen.allocatedPointer]

private theorem mem_returnedIn :
    call ∈ returnedIn (events.map heapEvent) ↔ .allocation call ∈ Codegen.freed events := by
  unfold returnedIn Codegen.freed
  rw [List.filterMap_map, List.mem_filterMap, List.mem_filterMap]
  apply exists_congr
  intro event
  apply and_congr_right
  intro _
  cases event with
  | alloc size alignment pointer => simp [heapEvent, HeapEvent.freed, Codegen.freedPointer]
  | free pointer =>
    cases pointer <;> simp [heapEvent, HeapEvent.freed, handle, Codegen.freedPointer]

/-- Nothing is allocated after a release. -/
theorem allocated_of_free {before after : List LLVM.Event} {pointer : LLVM.Pointer}
    (released : Codegen.ReleasedOnce (before ++ .free pointer :: after)) :
    Codegen.allocated after = [] := by
  obtain ⟨allocations, releases, split, unfreed, unallocated⟩ := released.ordered
  have inReleases : ∃ earlier, releases = earlier ++ .free pointer :: after := by
    rcases List.append_eq_append_iff.mp split with ⟨middle, first, second⟩ | ⟨middle, first, second⟩
    · cases middle with
      | nil => exact ⟨[], second.symm⟩
      | cons event middle =>
        obtain ⟨same, _⟩ := List.cons.inj second
        subst same
        rw [first, Codegen.freed_append] at unfreed
        exact absurd (List.append_eq_nil_iff.mp unfreed).2 (List.cons_ne_nil _ _)
    · exact ⟨middle, second⟩
  obtain ⟨earlier, rfl⟩ := inReleases
  rw [Codegen.allocated_append] at unallocated
  exact (List.append_eq_nil_iff.mp unallocated).2

/-- A run that releases each pointer once, and gets each one once, is disciplined. -/
theorem disciplined_of_released (released : Codegen.ReleasedOnce events)
    (distinct : (obtainedIn (events.map heapEvent)).Nodup) :
    Disciplined (events.map heapEvent) where
  fresh before size call after split := by
    rw [split, obtainedIn, List.filterMap_append] at distinct
    have apart := (List.nodup_append.mp distinct).2.2
    exact fun old => apart call old call List.mem_cons_self rfl
  held before call after split := by
    obtain ⟨before, rest, rfl, rfl, tail⟩ := List.map_eq_append_iff.mp split
    obtain ⟨event, after, rfl, same, rfl⟩ := List.map_eq_cons_iff.mp tail
    have free : event = .free (.allocation call) := by
      cases event with
      | alloc size alignment pointer => cases same
      | free pointer =>
        cases pointer with
        | null => cases same
        | allocation call' =>
          cases same
          rfl
    subst free
    have given :
        .allocation call ∈ Codegen.freed (before ++ .free (.allocation call) :: after) := by
      rw [Codegen.freed_append]
      exact List.mem_append_right _ List.mem_cons_self
    have obtained :
        .allocation call ∈ Codegen.allocated (before ++ .free (.allocation call) :: after) := by
      by_contra absent
      cases released.others _ given absent
    have once := released.once _ obtained LLVM.Pointer.noConfusion
    constructor
    · rw [Codegen.allocated_append] at obtained
      rcases List.mem_append.mp obtained with here | later
      · exact mem_obtainedIn.mpr here
      · have skipped :
            Codegen.allocated (.free (.allocation call) :: after) = Codegen.allocated after := rfl
        rw [skipped, allocated_of_free released] at later
        cases later
    · intro again
      have earlier := List.count_pos_iff.mpr (mem_returnedIn.mp again)
      have now : (Codegen.freed (.free (.allocation call) :: after)).count (.allocation call) =
          (Codegen.freed after).count (.allocation call) + 1 := List.count_cons_self
      rw [Codegen.freed_append, List.count_append, now] at once
      omega
  returned call obtained := by
    have once := released.once _ (mem_obtainedIn.mp obtained) LLVM.Pointer.noConfusion
    apply mem_returnedIn.mpr
    apply List.count_pos_iff.mp
    omega

/-- Runs of compiled code release what they allocated. -/
theorem releasedOnce_of_generate {irOrder : TraversalOrder} {program : Program}
    {analyzer : SemanticAnalyzer} (generated : IR.generate irOrder analyzer program = .ok module)
    (lowers : Codegen.generate order verifyModule module = .ok function)
    (executes : function.Executes environment (.ok exit)) :
    Codegen.ReleasedOnce exit.events := by
  obtain ⟨verified, labels, values, slots, lowered⟩ := Codegen.generate_lowered lowers
  have first := lowered.entry_first generated
  obtain ⟨block, found, sameId⟩ := (lowered.labelled _ _).mp first
  obtain ⟨body, present, last, terminator, code, ends, rest, instructions, closes⟩ :=
    lowered.filled _ block found
  rw [Codegen.prologue, if_pos sameId] at instructions
  have here : Codegen.At function.blocks
      (Codegen.slotCode (List.range
        (Codegen.declaredTensors (Codegen.operationsOf module)).length) ++ code) terminator
      LLVM.Config.initial := ⟨body, present, instructions, closes⟩
  obtain ⟨next, leads, there, prepared⟩ := Codegen.prologue_runs environment here
  have null (id slot) (slotted : slots.lookup id = some slot) : next.slots slot = .holds .null := by
    rw [prepared.cells, if_pos]
    apply List.mem_range.mpr
    exact (List.getElem?_eq_some_iff.mp ((lowered.slotted id slot).mp slotted)).1
  exact lowered.releases verified first (lowered.forward generated) (prepared.label.symm ▸ found)
    ends rest there
    (.prepared null prepared.events) (executes.of_leads leads)

/-- The call of the runtime, by the only thread. -/
def runtimeCall : LLVM.Event → Unit × Call Nat
  | .alloc size alignment pointer => ((), .alloc size alignment (handle pointer))
  | .free pointer => ((), .free (handle pointer))

private theorem heapEvents_runtimeCall : heapEvents (events.map runtimeCall) = events.map heapEvent := by
  unfold heapEvents
  rw [List.filterMap_map, ← List.filterMap_eq_map]
  apply List.filterMap_congr
  intro event _
  cases event <;> rfl

/-- The calls keep to the ABI of the runtime, whatever the answers: requests pass its
checks, releases are defined, and the heap is left as it was. -/
structure Safe (target : Target) (events : List LLVM.Event) : Prop where
  requests : ∀ size alignment pointer, .alloc size alignment pointer ∈ events →
    size.toNat ≤ target.sizeMax →
    Admissible target size alignment
  releases : ∀ before pointer after, events = before ++ .free pointer :: after → ∀ start process,
    Trace (Serves target) start (before.map runtimeCall) process →
      ∃ next, Serves target process (runtimeCall (.free pointer)) next
  restores : ∀ start final, Trace (Serves target) start (events.map runtimeCall) final →
    final.use.heap = start.use.heap

open Driver in
/-- Every run of an executable that returns is safe on every target. -/
theorem compiled_safe {host : Host} {source : List Char}
    (compiled : compileToLLVM host source = .ok function)
    (executes : function.Executes environment (.ok exit)) (target : Target)
    (wide : 64 ≤ target.sizeMax) :
    Safe target exit.events := by
  obtain ⟨program, analyzer, module, _, _, generated, lowers⟩ := compileToLLVM_ok.mp compiled
  obtain ⟨distinct, requested⟩ := recorded_of_executes executes
  have disciplined :=
    disciplined_of_released (releasedOnce_of_generate generated lowers executes) distinct
  rw [← heapEvents_runtimeCall] at disciplined
  refine ⟨?_, ?_, ?_⟩
  · intro size alignment pointer member fits
    obtain ⟨type, sized, rfl⟩ := requests_declared lowers (requested size alignment pointer member)
    exact admissible_of_declared sized fits wide
  · intro before pointer after split start process trace
    rw [split, List.map_append] at disciplined
    exact exists_serves_free disciplined trace
  · intro start final trace
    exact disciplined.restores (serves_heap trace)

/-- A tensor on a path that is not taken, and one that is stored. -/
def scratchSource : List Char :=
  "X = 7 if X < 2 \x7btensor A: f32[2,3] return 1\x7d else \x7bY = 0\x7d tensor A: f32[2,3] return X".toList

open Driver in
theorem compiled_safe_scratch :
    ∃ function exit, compileToLLVM Host.fixed scratchSource = .ok function ∧
    function.Executes Codegen.Environment.fixed (.ok exit) ∧
    exit.events = [.alloc 24 64 (.allocation 0), .free (.allocation 0), .free .null] ∧
      Safe .lp64 exit.events := by
  have computed : (compileToLLVM Host.fixed scratchSource).toOption.any (fun function =>
      decide ((LLVM.machine Codegen.Environment.fixed function.blocks).run 60 .initial =
        some (.ok ⟨7,
        [.alloc 24 64 (.allocation 0), .free (.allocation 0), .free .null]⟩))) = true := by
    decide +kernel
  obtain ⟨function, compiled, result⟩ := (Option.any_eq_true _ _).mp computed
  have executes : function.Executes Codegen.Environment.fixed (.ok ⟨7,
      [.alloc 24 64 (.allocation 0), .free (.allocation 0), .free .null]⟩) :=
    .of_run (of_decide_eq_true result)
  exact ⟨function, _, toOption_eq_some.mp compiled, executes, rfl,
    compiled_safe (toOption_eq_some.mp compiled) executes .lp64 (by decide)⟩

end Ocelotl.Runtime
