import Ocelotl.Library.Trace
import Mathlib.Data.List.Nodup
import Mathlib.Logic.Function.Basic

/-! A heap that gives out storage and takes it back, and the clients that use it as
they should: no storage is released twice, and none is kept. -/

namespace Ocelotl.Library

structure Block where
  address : Nat
  size : Nat

/-- No byte is in both blocks. -/
def Block.Apart (block other : Block) : Prop :=
  block.address + block.size ≤ other.address ∨ other.address + other.size ≤ block.address

/-- The blocks that are in use. -/
@[ext]
structure Heap where
  live : List Block
  nonnull : ∀ block ∈ live, block.address ≠ 0
  nonempty : ∀ block ∈ live, 0 < block.size
  apart : live.Pairwise Block.Apart

namespace Heap

variable {heap next : Heap} {block : Block} {address : Nat}

def empty : Heap where
  live := []
  nonnull := List.forall_mem_nil _
  nonempty := List.forall_mem_nil _
  apart := .nil

/-- A new block, apart from those in use. -/
structure Fits (heap : Heap) (block : Block) : Prop where
  nonnull : block.address ≠ 0
  nonempty : 0 < block.size
  apart : ∀ other ∈ heap.live, other.Apart block

def allocate (heap : Heap) (block : Block) (fits : heap.Fits block) : Heap where
  live := heap.live ++ [block]
  nonnull := List.forall_mem_append.mpr ⟨heap.nonnull, List.forall_mem_singleton.mpr fits.nonnull⟩
  nonempty := List.forall_mem_append.mpr ⟨heap.nonempty,
    List.forall_mem_singleton.mpr fits.nonempty⟩
  apart := List.pairwise_append.mpr ⟨heap.apart, List.pairwise_singleton _ _,
    fun other member _ new =>
    List.mem_singleton.mp new ▸ fits.apart other member⟩

/-- Without the block at this address. -/
def without (heap : Heap) (address : Nat) : Heap where
  live := heap.live.filter fun block => block.address ≠ address
  nonnull block member := heap.nonnull block (List.mem_of_mem_filter member)
  nonempty block member := heap.nonempty block (List.mem_of_mem_filter member)
  apart := heap.apart.filter _

/-- The release of null does nothing, and that of an address at which no block
starts is undefined. -/
def release (heap : Heap) (address : Nat) : Option Heap :=
  if address = 0 then some heap
  else if address ∈ heap.live.map Block.address then some (heap.without address)
  else none

theorem release_null : heap.release 0 = some heap := if_pos rfl

theorem release_live (member : block ∈ heap.live) :
    heap.release block.address = some (heap.without block.address) := by
  unfold release
  rw [if_neg (heap.nonnull block member), if_pos (List.mem_map_of_mem member)]

theorem eq_without_of_release (nonnull : address ≠ 0)
    (released : heap.release address = some next) :
    next = heap.without address := by
  unfold release at released
  rw [if_neg nonnull] at released
  split at released
  · exact (Option.some.inj released).symm
  · cases released

/-- Blocks in use start at different addresses. -/
theorem nodup_addresses (heap : Heap) : (heap.live.map Block.address).Nodup := by
  apply List.pairwise_map.mpr
  apply heap.apart.imp_of_mem
  intro block other member member' apart same
  have positive := heap.nonempty block member
  have positive' := heap.nonempty other member'
  unfold Block.Apart at apart
  omega

end Heap

variable {Handle : Type}

/-- What a client asks the heap for. It knows blocks by handles, and a request that
failed has none. -/
inductive HeapEvent (Handle : Type) where
  | alloc (size : Nat) (answer : Option Handle)
  | free (argument : Option Handle)

namespace HeapEvent

def allocated : HeapEvent Handle → Option Handle
  | alloc _ answer => answer
  | free _ => none

def freed : HeapEvent Handle → Option Handle
  | alloc _ _ => none
  | free argument => argument

end HeapEvent

/-- The blocks that were obtained. -/
def obtainedIn (events : List (HeapEvent Handle)) : List Handle :=
  events.filterMap HeapEvent.allocated

/-- The blocks that were given back. -/
def returnedIn (events : List (HeapEvent Handle)) : List Handle := events.filterMap HeapEvent.freed

/-- New blocks have new handles, only what is held is given back, and in the end
everything is. -/
structure Disciplined (events : List (HeapEvent Handle)) : Prop where
  fresh : ∀ before size handle after, events = before ++ .alloc size (some handle) ::
    after → handle ∉ obtainedIn before
  held : ∀ before handle after, events = before ++ .free (some handle) :: after →
    handle ∈ obtainedIn before ∧ handle ∉ returnedIn before
  returned : ∀ handle ∈ obtainedIn events, handle ∈ returnedIn events

/-- The heap, and where the blocks of the handles are. -/
structure HeapUse (Handle : Type) where
  heap : Heap
  address : Handle → Nat

def HeapUse.argument (use : HeapUse Handle) : Option Handle → Nat
  | none => 0
  | some handle => use.address handle

variable [DecidableEq Handle]

/-- The heap answers a client. -/
inductive HeapUse.Step : HeapUse Handle → HeapEvent Handle → HeapUse Handle → Prop where
  | refused {use : HeapUse Handle} {size : Nat} : Step use (.alloc size none) use
  | served {use : HeapUse Handle} {size address : Nat} {handle : Handle}
    (fits : use.heap.Fits ⟨address, size⟩) :
    Step use (.alloc size (some handle)) ⟨use.heap.allocate _ fits,
      Function.update use.address handle address⟩
  | released {use : HeapUse Handle} {argument : Option Handle} {heap : Heap}
    (defined : use.heap.release (use.argument argument) = some heap) :
      Step use (.free argument) ⟨heap, use.address⟩

variable {events all rest : List (HeapEvent Handle)} {event : HeapEvent Handle}
  {start use next : HeapUse Handle} {handle : Handle}

def outstanding (events : List (HeapEvent Handle)) : List Handle :=
  (obtainedIn events).filter fun handle => handle ∉ returnedIn events

theorem mem_outstanding :
    handle ∈ outstanding events ↔ handle ∈ obtainedIn events ∧ handle ∉ returnedIn events := by
  rw [outstanding, List.mem_filter, decide_eq_true_iff]

omit [DecidableEq Handle] in
/-- What was given back before was obtained before. -/
theorem Disciplined.returned_obtained (disciplined : Disciplined all)
    (split : all = events ++ rest) :
    ∀ handle ∈ returnedIn events, handle ∈ obtainedIn events := by
  intro handle member
  obtain ⟨event, inside, given⟩ := List.mem_filterMap.mp member
  obtain ⟨before, after, rfl⟩ := List.append_of_mem inside
  cases event with
  | alloc size answer => cases given
  | free argument =>
    cases given
    rw [List.append_assoc, List.cons_append] at split
    have held := (disciplined.held _ _ _ split).1
    unfold obtainedIn at held ⊢
    rw [List.filterMap_append]
    exact List.mem_append_left _ held

omit [DecidableEq Handle] in
theorem obtainedIn_snoc :
    obtainedIn (events ++ [event]) = obtainedIn events ++ event.allocated.toList := by
  cases event with
  | alloc size answer => cases answer <;> simp [obtainedIn, HeapEvent.allocated]
  | free argument => simp [obtainedIn, HeapEvent.allocated]

omit [DecidableEq Handle] in
theorem returnedIn_snoc :
    returnedIn (events ++ [event]) = returnedIn events ++ event.freed.toList := by
  cases event with
  | alloc size answer => simp [returnedIn, HeapEvent.freed]
  | free argument => cases argument <;> simp [returnedIn, HeapEvent.freed]

theorem outstanding_refused {size : Nat} :
    outstanding (events ++ [.alloc size none]) = outstanding events := by
  simp [outstanding, obtainedIn_snoc, returnedIn_snoc, HeapEvent.allocated, HeapEvent.freed]

theorem outstanding_free_null : outstanding (events ++ [.free none]) = outstanding events := by
  simp [outstanding, obtainedIn_snoc, returnedIn_snoc, HeapEvent.allocated, HeapEvent.freed]

theorem outstanding_served {size : Nat} (unreturned : handle ∉ returnedIn events) :
    outstanding (events ++ [.alloc size (some handle)]) = outstanding events ++ [handle] := by
  simp [outstanding, obtainedIn_snoc, returnedIn_snoc, HeapEvent.allocated, HeapEvent.freed,
    List.filter_append, unreturned]

theorem outstanding_free :
    outstanding (events ++ [.free (some handle)]) = (outstanding events).filter (· ≠ handle) := by
  simp only [outstanding, obtainedIn_snoc, returnedIn_snoc, HeapEvent.allocated, HeapEvent.freed,
    Option.toList_none,
    Option.toList_some, List.append_nil, List.filter_filter]
  apply List.filter_congr
  intro other _
  simp [and_comm]

/-- The blocks of what is outstanding are all that the heap has more than at the start. -/
def Owns (start use : HeapUse Handle) (events : List (HeapEvent Handle)) : Prop :=
  ∃ blocks, use.heap.live = start.heap.live ++ blocks ∧
    blocks.map Block.address = (outstanding events).map use.address

theorem Owns.exists_block (owns : Owns start use events) (member : handle ∈ outstanding events) :
    ∃ block ∈ use.heap.live, block.address = use.address handle := by
  obtain ⟨blocks, live, addresses⟩ := owns
  have present : use.address handle ∈ blocks.map Block.address :=
    addresses ▸ List.mem_map_of_mem member
  obtain ⟨block, inside, same⟩ := List.mem_map.mp present
  exact ⟨block, live ▸ List.mem_append_right _ inside, same⟩

/-- Releasing one block takes it out of the blocks that are owned. -/
theorem Owns.release (owns : Owns start use events) (member : handle ∈ outstanding events) :
    Owns start ⟨use.heap.without (use.address handle), use.address⟩ (events ++
      [.free (some handle)]) := by
  obtain ⟨blocks, live, addresses⟩ := owns
  have distinct := use.heap.nodup_addresses
  rw [live, List.map_append, addresses] at distinct
  obtain ⟨_, injective, disjoint⟩ := List.nodup_append.mp distinct
  refine ⟨blocks.filter fun block => block.address ≠ use.address handle, ?_, ?_⟩
  · show (use.heap.live.filter fun block => block.address ≠ use.address handle) = _
    rw [live, List.filter_append]
    congr 1
    apply List.filter_eq_self.mpr
    intro block old
    have other := disjoint _ (List.mem_map_of_mem old) _ (List.mem_map_of_mem member)
    exact decide_eq_true other
  · show _ = (outstanding _).map use.address
    have commute :
        (blocks.filter fun block => block.address ≠ use.address handle).map Block.address =
        (blocks.map Block.address).filter (· ≠ use.address handle) := by
      rw [List.filter_map]
      rfl
    rw [outstanding_free, commute, addresses, List.filter_map]
    congr 1
    apply List.filter_congr
    intro other inside
    have different : use.address other = use.address handle ↔ other = handle :=
      ⟨fun same => List.inj_on_of_nodup_map injective inside member same, congrArg _⟩
    simp [different]

theorem Owns.step (disciplined : Disciplined all) (split : all = events ++ event :: rest)
    (owns : Owns start use events) (step : HeapUse.Step use event next) :
    Owns start next (events ++ [event]) := by
  cases step with
  | refused =>
    obtain ⟨blocks, live, addresses⟩ := owns
    refine ⟨blocks, live, ?_⟩
    rw [outstanding_refused]
    exact addresses
  | @served size address handle fits =>
    obtain ⟨blocks, live, addresses⟩ := owns
    have new := disciplined.fresh _ _ _ _ split
    have unreturned : handle ∉ returnedIn events :=
      fun member => new (disciplined.returned_obtained split _ member)
    refine ⟨blocks ++ [⟨address, size⟩], ?_, ?_⟩
    · show use.heap.live ++ [_] = _
      rw [live, List.append_assoc]
    · show _ = (outstanding _).map (Function.update use.address handle address)
      rw [outstanding_served unreturned, List.map_append, List.map_append, addresses,
        List.map_singleton,
        List.map_singleton, Function.update_self]
      congr 1
      apply List.map_congr_left
      intro other inside
      have different : other ≠ handle := fun same => new (same ▸ (mem_outstanding.mp inside).1)
      rw [Function.update_of_ne different]
  | @released argument heap defined =>
    cases argument with
    | none =>
      obtain ⟨blocks, live, addresses⟩ := owns
      cases Heap.release_null.symm.trans defined
      refine ⟨blocks, live, ?_⟩
      rw [outstanding_free_null]
      exact addresses
    | some handle =>
      have member := mem_outstanding.mpr (disciplined.held _ _ _ split)
      obtain ⟨block, inside, same⟩ := owns.exists_block member
      have nonnull : use.address handle ≠ 0 := same ▸ use.heap.nonnull block inside
      rw [Heap.eq_without_of_release nonnull defined]
      exact owns.release member

theorem Disciplined.owns (disciplined : Disciplined all)
    (trace : Trace HeapUse.Step start events use) (split : all = events ++ rest) :
    Owns start use events := by
  induction trace generalizing rest with
  | nil => exact ⟨[], (List.append_nil _).symm, rfl⟩
  | snoc _ taken ih =>
    rw [List.append_assoc, List.singleton_append] at split
    exact (ih split).step disciplined split taken

/-- A disciplined client never releases what it may not. -/
theorem Disciplined.exists_release {argument : Option Handle} (disciplined : Disciplined all)
    (trace : Trace HeapUse.Step start events use) (split : all = events ++ .free argument :: rest) :
    ∃ heap, use.heap.release (use.argument argument) = some heap := by
  cases argument with
  | none => exact ⟨_, Heap.release_null⟩
  | some handle =>
    obtain ⟨block, inside, same⟩ :=
      (disciplined.owns trace split).exists_block
        (mem_outstanding.mpr (disciplined.held _ _ _ split))
    refine ⟨use.heap.without block.address, ?_⟩
    show use.heap.release (use.address handle) = _
    rw [← same]
    exact Heap.release_live inside

/-- A disciplined client leaves the heap as it was. -/
theorem Disciplined.restores (disciplined : Disciplined events)
    (trace : Trace HeapUse.Step start events use) :
    use.heap = start.heap := by
  obtain ⟨blocks, live, addresses⟩ := disciplined.owns trace (List.append_nil _).symm
  have none : outstanding events = [] := by
    apply List.eq_nil_iff_forall_not_mem.mpr
    intro handle member
    obtain ⟨obtained, kept⟩ := mem_outstanding.mp member
    exact kept (disciplined.returned handle obtained)
  rw [none, List.map_nil, List.map_eq_nil_iff] at addresses
  apply Heap.ext
  rw [live, addresses, List.append_nil]

end Ocelotl.Library
