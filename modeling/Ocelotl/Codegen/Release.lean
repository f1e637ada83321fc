import Ocelotl.Codegen.Refinement

namespace Ocelotl.Codegen

open Ast Semantic IR Library LLVM Evaluation

variable {Contents : Type} {environment : Environment Contents} {blocks : List LLVM.BasicBlock}
  {slots : CleanupSlots} {config next : LLVM.Config} {pending pending' : ValueId → Prop}

def allocatedPointer : Event → Option Pointer
  | .alloc _ _ pointer => some pointer
  | .free _ => none

def freedPointer : Event → Option Pointer
  | .alloc _ _ _ => none
  | .free pointer => some pointer

/-- What the allocator returned, in order. -/
def allocated (events : List Event) : List Pointer := events.filterMap allocatedPointer

/-- What was passed to the release function, in order. -/
def freed (events : List Event) : List Pointer := events.filterMap freedPointer

/-- Frees come after all allocations, every pointer that was obtained is freed
exactly once, and null is all else that is freed. -/
structure ReleasedOnce (events : List Event) : Prop where
  ordered : ∃ allocations releases, events = allocations ++ releases ∧ freed allocations = [] ∧
    allocated releases = []
  once : ∀ pointer ∈ allocated events, pointer ≠ .null → (freed events).count pointer = 1
  others : ∀ pointer ∈ freed events, pointer ∉ allocated events → pointer = .null

/-- The pointers in the slots. -/
def contents (slots : CleanupSlots) (cells : SlotId → Cell) : List Pointer :=
  slots.pairs.map fun entry => pointerIn (cells entry.2)

/-- The pointers other than null. -/
def obtained (pointers : List Pointer) : List Pointer :=
  pointers.filter fun pointer => pointer ≠ .null

theorem allocated_append (events events' : List Event) :
    allocated (events ++ events') = allocated events ++ allocated events' := List.filterMap_append

theorem freed_append (events events' : List Event) :
    freed (events ++ events') = freed events ++ freed events' := List.filterMap_append

private theorem obtained_append (pointers pointers' : List Pointer) :
    obtained (pointers ++ pointers') = obtained pointers ++ obtained pointers' :=
  List.filter_append _ _

private theorem freed_releases (pointers : List Pointer) :
    freed (pointers.map Event.free) = pointers ∧ allocated (pointers.map Event.free) = [] := by
  constructor
  · simp [freed, List.filterMap_map, Function.comp_def, freedPointer]
  · simp [allocated, allocatedPointer]

/-- Writing a pointer into the slot of one tensor, which held null. -/
theorem contents_update {id : ValueId} {slot : SlotId} {cells : SlotId → Cell} (pointer : Pointer)
    (injective : ∀ {id id' slot}, slots.lookup id = some slot → slots.lookup id' = some slot →
      id = id')
    (found : slots.lookup id = some slot) (empty : cells slot = .holds .null) :
    (obtained (contents slots (Function.update cells slot (.holds pointer)))).Perm
      (obtained (pointer :: contents slots cells)) := by
  have member := UnorderedMap.mem_pairs.mpr found
  have distinct : (slots.pairs.map Prod.snd).Nodup := by
    apply List.Nodup.map_on _ (List.Nodup.of_map _ slots.nodup_pairs)
    intro first here second there same
    obtain ⟨id, slot⟩ := first
    obtain ⟨id', slot'⟩ := second
    cases same
    cases injective (UnorderedMap.mem_pairs.mp here) (UnorderedMap.mem_pairs.mp there)
    rfl
  obtain ⟨before, after, split⟩ := List.append_of_mem member
  have kept (entries : List (ValueId × SlotId)) (absent : slot ∉ entries.map Prod.snd) :
      entries.map (fun entry => pointerIn (Function.update cells slot (.holds pointer) entry.2)) =
        entries.map fun entry => pointerIn (cells entry.2) := by
    apply List.map_congr_left
    intro entry member
    have other : entry.2 ≠ slot := fun same => absent (same ▸ List.mem_map_of_mem member)
    rw [Function.update_of_ne other]
  rw [split, List.map_append, List.map_cons, List.nodup_middle, List.nodup_cons, List.mem_append,
    not_or] at distinct
  obtain ⟨⟨absentBefore, absentAfter⟩, _⟩ := distinct
  unfold contents
  simp only [split, List.map_append, List.map_cons, kept before absentBefore,
    kept after absentAfter,
    Function.update_self, empty, pointerIn_holds]
  have dropped (before after : List Pointer) :
      obtained (pointer :: (before ++ .null :: after)) =
        obtained (pointer :: (before ++ after)) := by
    simp [obtained, List.filter_cons]
  rw [dropped]
  exact List.perm_middle.filter _

/-- What is true between two instructions that come from different operations:
the slots own what was allocated, and those of pending tensors hold null. -/
structure Accounted (slots : CleanupSlots) (pending : ValueId → Prop)
    (config : LLVM.Config) : Prop where
  ready : ∀ id slot, slots.lookup id = some slot → ∃ pointer, config.slots slot = .holds pointer
  waiting : ∀ id slot, slots.lookup id = some slot → pending id → config.slots slot = .holds .null
  unfreed : freed config.events = []
  owned : (obtained (contents slots config.slots)).Perm (obtained (allocated config.events))
  fresh : ∀ call, .allocation call ∈ allocated config.events → call < config.calls
  distinct : (obtained (allocated config.events)).Nodup

theorem Accounted.mono (accounted : Accounted slots pending config)
    (fewer : ∀ id, pending' id → pending id) : Accounted slots pending' config :=
  { accounted with waiting := fun id slot found waits => accounted.waiting id slot found (fewer id waits) }

/-- Only the slots, the calls and the events matter. -/
theorem Accounted.of_same (accounted : Accounted slots pending config)
    (cells : next.slots = config.slots) (calls : next.calls = config.calls)
    (events : next.events = config.events) : Accounted slots pending next where
  ready := cells ▸ accounted.ready
  waiting := cells ▸ accounted.waiting
  unfreed := events ▸ accounted.unfreed
  owned := cells ▸ events ▸ accounted.owned
  fresh := calls ▸ events ▸ accounted.fresh
  distinct := events ▸ accounted.distinct

/-- Before the first allocation. -/
theorem Accounted.prepared
    (null : ∀ id slot, slots.lookup id = some slot → config.slots slot = .holds .null)
    (events : config.events = []) : Accounted slots pending config where
  ready id slot found := ⟨.null, null id slot found⟩
  waiting id slot found _ := null id slot found
  unfreed := by rw [events]; rfl
  owned := by
    have empty : obtained (contents slots config.slots) = [] := by
      apply List.filter_eq_nil_iff.mpr
      intro pointer member
      obtain ⟨entry, present, same⟩ := List.mem_map.mp member
      rw [null entry.1 entry.2 (UnorderedMap.mem_pairs.mp present)] at same
      simp [← same]
    rw [empty, events]
    exact .nil
  fresh call member := by rw [events] at member; cases member
  distinct := by rw [events]; exact .nil

/-- The allocation of a pending tensor, which is pending no longer. -/
theorem Accounted.allocate {id : ValueId} {slot : SlotId} {register : RegisterId}
    {size alignment : BitVec 64} (accounted : Accounted slots pending config)
    (injective : ∀ {id id' slot}, slots.lookup id = some slot → slots.lookup id' = some slot →
      id = id')
    (found : slots.lookup id = some slot) (waits : pending id)
    (allocates : Allocated register slot size alignment (answer environment config) config next)
    (fewer : ∀ other, pending' other → pending other ∧ other ≠ id) :
    Accounted slots pending' next := by
  have recorded :
      allocated next.events = allocated config.events ++ [answer environment config] := by
    rw [allocates.events, allocated_append]
    rfl
  have new : answer environment config ≠ .null →
      answer environment config ∉ allocated config.events := by
    unfold answer
    split
    · intro _ member
      exact Nat.lt_irrefl _ (accounted.fresh _ member)
    · intro absurd
      exact (absurd rfl).elim
  refine ⟨fun other slot' there => ?_, fun other slot' there waits' => ?_, ?_, ?_, ?_, ?_⟩
  · rw [allocates.cells]
    by_cases same : slot' = slot
    · exact ⟨_, by rw [same, Function.update_self]⟩
    · rw [Function.update_of_ne same]
      exact accounted.ready other slot' there
  · obtain ⟨waited, different⟩ := fewer other waits'
    have otherSlot : slot' ≠ slot := fun same => different (injective there (same ▸ found))
    rw [allocates.cells, Function.update_of_ne otherSlot]
    exact accounted.waiting other slot' there waited
  · rw [allocates.events, freed_append, accounted.unfreed]
    rfl
  · rw [allocates.cells, recorded]
    apply (contents_update _ injective found (accounted.waiting id slot found waits)).trans
    have both : (obtained ([answer environment config] ++ contents slots config.slots)).Perm
        (obtained ([answer environment config] ++ allocated config.events)) := by
      rw [obtained_append, obtained_append]
      exact accounted.owned.append_left _
    exact both.trans (List.perm_append_comm.filter _)
  · intro call member
    rw [allocates.calls]
    rw [recorded, List.mem_append, List.mem_singleton] at member
    rcases member with old | same
    · exact Nat.lt_succ_of_lt (accounted.fresh call old)
    · unfold answer at same
      split at same
      · cases same
        exact Nat.lt_succ_self _
      · cases same
  · rw [recorded, obtained_append]
    by_cases failed : answer environment config = .null
    · simpa [failed, obtained] using accounted.distinct
    · have kept : obtained [answer environment config] = [answer environment config] := by
        simp [obtained, failed]
      rw [kept]
      apply List.nodup_append.mpr ⟨accounted.distinct, List.nodup_singleton _, _⟩
      intro pointer old other member same
      rw [List.mem_singleton] at member
      exact new failed (member ▸ same ▸ List.mem_of_mem_filter old)

/-- When all slots have been freed, the account is settled. -/
theorem Accounted.released {register : RegisterId} {order : TraversalOrder} {traversal : Nat}
    (accounted : Accounted slots pending config)
    (releases : Released register (order.traverse traversal slots) config next) :
    ReleasedOnce next.events := by
  let pointers := (order.traverse traversal slots).map fun entry => pointerIn (config.slots entry.2)
  have events : next.events = config.events ++ pointers.map Event.free := by
    rw [releases.events, List.map_map]
    rfl
  obtain ⟨released, noneAllocated⟩ := freed_releases pointers
  have allocations : allocated next.events = allocated config.events := by
    rw [events, allocated_append, noneAllocated, List.append_nil]
  have releases' : freed next.events = pointers := by
    rw [events, freed_append, accounted.unfreed, List.nil_append, released]
  have balanced : (obtained pointers).Perm (obtained (allocated config.events)) :=
    (((order.perm _ _).map _).filter _).trans accounted.owned
  refine ⟨⟨config.events, _, events, accounted.unfreed, noneAllocated⟩, ?_, ?_⟩
  · intro pointer member other
    rw [allocations] at member
    have kept : pointer ∈ obtained (allocated config.events) :=
      List.mem_filter.mpr ⟨member, decide_eq_true other⟩
    have filtered : (obtained pointers).count pointer = pointers.count pointer :=
      List.count_filter (decide_eq_true other)
    rw [releases', ← filtered, balanced.count_eq]
    exact List.count_eq_one_of_mem accounted.distinct kept
  · intro pointer member absent
    by_contra other
    rw [releases'] at member
    rw [allocations] at absent
    have kept := balanced.mem_iff.mp (List.mem_filter.mpr ⟨member, decide_eq_true other⟩)
    exact absent (List.mem_of_mem_filter kept)

section Runs

variable {order : TraversalOrder} {module : IR.Module} {labels : Labels} {values : Operands}
  {function : LLVM.Function} {exit : Exit}

/-- The tensors declared from these operations on, or in a later block. -/
def Pending (module : IR.Module) (label : Label) (operations : List Operation)
    (id : ValueId) : Prop :=
  id ∈ operations.map resultOf ∨
    ∃ (later : Label) (block : IR.BasicBlock), label < later ∧ module.blocks[later]? = some block ∧
      id ∈ block.results

private theorem exit_of_return {status : RegisterId} {operand : Operand}
    (here : At blocks [.trunc status operand] (.ret (.register status)) config)
    (evaluates : (machine environment blocks).Evaluates config (.ok exit)) :
    exit.events = config.events := by
  cases success : execute environment config (.trunc status operand) with
  | error reason => cases evaluates.unique (.halt (here.stuck success))
  | ok next =>
    obtain ⟨steps, there⟩ := here.step success
    obtain ⟨registers, same⟩ := execute_computes rfl success
    have rest := evaluates.of_leads (.one steps)
    have stops := there.transfer environment
    simp only [LLVM.transfer] at stops
    split at stops
    · cases rest.unique (.halt stops)
      rw [same]
      rfl
    · cases rest.unique (.halt stops)
    · cases rest.unique (.halt stops)

/-- A run that returns goes on after an instruction that only computes. -/
theorem computes_next {instruction : Instruction} {code : List Instruction} {last : LLVM.Terminator}
    (pure : computes instruction = true) (here : At blocks (instruction :: code) last config)
    (evaluates : (machine environment blocks).Evaluates config (.ok exit)) :
    ∃ next, At blocks code last next ∧ next.label = config.label ∧
      (machine environment blocks).Evaluates next (.ok exit) ∧
      ∀ pending, Accounted slots pending config → Accounted slots pending next := by
  cases success : execute environment config instruction with
  | error reason => cases evaluates.unique (.halt (here.stuck success))
  | ok next =>
    obtain ⟨steps, there⟩ := here.step success
    obtain ⟨registers, same⟩ := execute_computes pure success
    subst same
    exact ⟨_, there, rfl, evaluates.of_leads (.one steps),
      fun _ accounted => accounted.of_same rfl rfl rfl⟩

theorem computes_compareInstruction (kind : CompareKind) (operandType : TensorType)
    (lhs rhs : Operand) (result : RegisterId) :
    computes (compareInstruction kind operandType lhs rhs result) = true := by
  unfold compareInstruction
  split <;> rfl

theorem Pending.tail {label : Label} {operation : Operation} {operations : List Operation}
    {id : ValueId} (waits : Pending module label operations id) :
    Pending module label (operation :: operations) id := by
  rcases waits with here | later
  · exact .inl (List.mem_cons_of_mem _ here)
  · exact .inr later

/-- From an operation on, a run that returns gives every pointer back, provided
it does so from the start of each block that the code can jump to. -/
theorem LowersRest.releases {id : BlockId} {label : Label} {last : IR.Terminator}
    {terminator : LLVM.Terminator} {operations : List Operation} {code : List Instruction}
    (injective : ∀ {id id' slot}, slots.lookup id = some slot → slots.lookup id' = some slot →
      id = id')
    (jumps : ∀ target ∈ last.targets, ∀ label', labels.lookup target = some label' → ∀ next,
      next.label = label' → next.index = 0 → Accounted slots (Pending module label []) next →
      (machine environment blocks).Evaluates next (.ok exit) → ReleasedOnce exit.events)
    (lowers : LowersRest order labels values slots id last terminator operations code)
    (distinct : (operations.map resultOf).Nodup)
    (later : ∀ value ∈ operations.map resultOf, ¬ Pending module label [] value)
    (here : At blocks code terminator config)
    (accounted : Accounted slots (Pending module label operations) config)
    (evaluates : (machine environment blocks).Evaluates config (.ok exit)) :
    ReleasedOnce exit.events := by
  induction lowers generalizing config with
  | terminator final =>
    cases final with
    | branch labelled =>
      exact jumps _ List.mem_cons_self _ labelled (config.jump _) rfl rfl
        (accounted.of_same rfl rfl rfl) (evaluates.of_leads (.one (here.transfer environment)))
    | condBranch tested first second =>
      have stops := here.transfer environment
      simp only [LLVM.transfer] at stops
      split at stops
      · rename_i truth _
        have rest := evaluates.of_leads (.one stops)
        cases truth with
        | true =>
          exact jumps _ List.mem_cons_self _ first (config.jump _) rfl rfl
            (accounted.of_same rfl rfl rfl) rest
        | false =>
          exact jumps _ (List.mem_cons_of_mem _ List.mem_cons_self) _ second (config.jump _) rfl rfl
            (accounted.of_same rfl rfl rfl) rest
      · cases evaluates.unique (.halt stops)
      · cases evaluates.unique (.halt stops)
    | returnOp returned older =>
      obtain ⟨next, leads, there, releases⟩ := release_runs environment here
        fun entry member => accounted.ready entry.1 entry.2 (order.mem_traverse.mp member)
      rw [exit_of_return there (evaluates.of_leads leads)]
      exact accounted.released releases
  | @operation operation code operations after lowers rest ih =>
    obtain ⟨new, distinct'⟩ := List.nodup_cons.mp distinct
    have later' (value) (member : value ∈ operations.map resultOf) :
        ¬ Pending module label [] value :=
      later value (List.mem_cons_of_mem _ member)
    have fewer : Accounted slots (Pending module label operations) config :=
      accounted.mono fun _ => Pending.tail
    have computed {instruction : Instruction} (pure : computes instruction = true)
        (here : At blocks (instruction :: after) terminator config) : ReleasedOnce exit.events := by
      obtain ⟨next, there, _, evaluates', keeps⟩ := computes_next pure here evaluates
      exact ih distinct' later' there (keeps _ fewer) evaluates'
    cases lowers with
    | @tensorDecl type size result slot register name sized slotted lowered =>
      obtain ⟨pointer, holds⟩ := accounted.ready _ _ slotted
      obtain ⟨next, leads, there, allocates⟩ := allocation_runs environment here
        (by simp [holds])
      apply ih distinct' later' there _ (evaluates.of_leads leads)
      apply accounted.allocate injective slotted (.inl List.mem_cons_self) allocates
      intro other waits
      refine ⟨waits.tail, fun same => ?_⟩
      rcases waits with here | after
      · exact new (same ▸ here)
      · exact later result List.mem_cons_self (same ▸ .inr after)
    | constantInt _ => exact ih distinct' later' here fewer evaluates
    | constantFloat _ => exact ih distinct' later' here fewer evaluates
    | binary _ _ _ => exact computed rfl here
    | compare _ _ _ => exact computed (computes_compareInstruction _ _ _ _ _) here
    | phi _ _ _ => exact computed rfl here

theorem Lowered.slot_injective (lowered : Lowered order module labels values slots function)
    {id id' : ValueId} {slot : SlotId} (first : slots.lookup id = some slot)
    (second : slots.lookup id' = some slot) : id = id' := by
  have here := (lowered.slotted id slot).mp first
  have there := (lowered.slotted id' slot).mp second
  exact Option.some.inj (here.symm.trans there)

/-- A block defines each of its values once, and no later block defines it again. -/
theorem verified_results (verified : Verified module) {index : Label} {block : IR.BasicBlock}
    (found : module.blocks[index]? = some block) :
    block.results.Nodup ∧ ∀ value ∈ block.results, ¬ Pending module index [] value := by
  obtain ⟨each, disjoint⟩ := List.nodup_flatMap.mp verified.results
  refine ⟨each block (List.mem_of_getElem? found), fun value member waits => ?_⟩
  rcases waits with here | ⟨later, block', after, found', member'⟩
  · cases here
  · obtain ⟨within, same⟩ := List.getElem?_eq_some_iff.mp found
    obtain ⟨within', same'⟩ := List.getElem?_eq_some_iff.mp found'
    have apart := List.pairwise_iff_getElem.mp disjoint index later within within' after
    rw [same, same'] at apart
    exact apart member member'

/-- Where edges lead forward from the first block, a run from the start of a
block that returns gives every pointer back. -/
theorem Lowered.releases {block : IR.BasicBlock} {last : IR.Terminator}
    {terminator : LLVM.Terminator} {code : List Instruction}
    (lowered : Lowered order module labels values slots function) (verified : Verified module)
    (first : labels.lookup module.entry = some 0)
    (forward : ∀ {index : Label} {block : IR.BasicBlock}, module.blocks[index]? = some block →
      ∀ target ∈ block.targets, ∀ label, labels.lookup target = some label → index < label)
    (found : module.blocks[config.label]? = some block) (ends : block.terminator = some last)
    (lowers : LowersRest order labels values slots block.id last terminator block.operations code)
    (here : At function.blocks code terminator config)
    (accounted : Accounted slots (Pending module config.label block.operations) config)
    (evaluates : (LLVM.machine environment function.blocks).Evaluates config (.ok exit)) :
    ReleasedOnce exit.events := by
  induction remaining : module.blocks.length - config.label using Nat.strong_induction_on
    generalizing config block last terminator code with
  | _ remaining ih =>
    obtain ⟨distinct, later⟩ := verified_results verified found
    refine lowers.releases lowered.slot_injective ?_ distinct later here accounted evaluates
    intro target member label labelled next atLabel start accounted' evaluates'
    subst atLabel
    have after := forward found target (by rwa [BasicBlock.targets_of_terminator ends]) _ labelled
    obtain ⟨block', found', sameId⟩ := (lowered.labelled target next.label).mp labelled
    obtain ⟨body, present, last', terminator', code', ends', lowers', instructions, closes⟩ :=
      lowered.filled _ block' found'
    have other : block'.id ≠ module.entry := by
      intro entry
      rw [← sameId, entry, first] at labelled
      have atStart := Option.some.inj labelled
      lia
    rw [prologue, if_neg other, List.nil_append] at instructions
    have there : At function.blocks code' terminator' next :=
      ⟨body, present, by rw [start, List.drop_zero, instructions], closes⟩
    have within := (List.getElem?_eq_some_iff.mp found').1
    refine ih (module.blocks.length - next.label) (by lia) found' ends' lowers' there ?_
      evaluates' rfl
    apply accounted'.mono
    intro id waits
    rcases waits with here | ⟨later, block, after', found, member⟩
    · exact .inr ⟨next.label, block', after, found', here⟩
    · exact .inr ⟨later, block, after.trans after', found, member⟩

end Runs

/-- Every tensor that a run of the executable allocates is released exactly
once, at its return, and nothing else but null is. -/
theorem generate_releasesOnce {analysisOrder irOrder order : TraversalOrder} {program : Program}
    {analyzer : SemanticAnalyzer} {module : IR.Module} {function : LLVM.Function}
    {verifyModule : LLVM.Function → Except String Unit} {exit : Exit}
    (_accepted : analyze analysisOrder program = .ok analyzer)
    (generated : IR.generate irOrder analyzer program = .ok module)
    (lowers : Codegen.generate order verifyModule module = .ok function)
    (executes : function.Executes environment (.ok exit)) : ReleasedOnce exit.events := by
  obtain ⟨verified, labels, values, slots, lowered⟩ := generate_lowered lowers
  have first := lowered.entry_first generated
  obtain ⟨block, found, sameId⟩ := (lowered.labelled _ _).mp first
  obtain ⟨body, present, last, terminator, code, ends, rest, instructions, closes⟩ :=
    lowered.filled _ block found
  rw [prologue, if_pos sameId] at instructions
  have here : At function.blocks
      (slotCode (List.range (declaredTensors (operationsOf module)).length) ++ code) terminator
      LLVM.Config.initial := ⟨body, present, instructions, closes⟩
  obtain ⟨next, leads, there, prepared⟩ := prologue_runs environment here
  have null (id slot) (slotted : slots.lookup id = some slot) : next.slots slot = .holds .null := by
    rw [prepared.cells, if_pos]
    apply List.mem_range.mpr
    exact (List.getElem?_eq_some_iff.mp ((lowered.slotted id slot).mp slotted)).1
  exact lowered.releases verified first (lowered.forward generated)
    (prepared.label.symm ▸ found) ends
    rest there (.prepared null prepared.events) (executes.of_leads leads)

theorem generate_releasesOnce_declaredOnPaths : ∃ analyzer module function exit,
    analyze .stored declaredOnPaths = .ok analyzer ∧
      IR.generate .stored analyzer declaredOnPaths = .ok module ∧
      Codegen.generate .stored (fun _ => .ok ()) module = .ok function ∧
      function.Executes Environment.fixed (.ok exit) ∧
      exit.events = [.alloc 24 64 (.allocation 0), .free (.allocation 0), .free .null] ∧
      ReleasedOnce exit.events := by
  have computed : (analyze .stored declaredOnPaths).toOption.any (fun analyzer =>
      (IR.generate .stored analyzer declaredOnPaths).toOption.any fun module =>
        (Codegen.generate .stored (fun _ => .ok ()) module).toOption.any fun function =>
          decide ((LLVM.machine Environment.fixed function.blocks).run 60 .initial = some (.ok ⟨2,
            [.alloc 24 64 (.allocation 0), .free (.allocation 0), .free .null]⟩))) = true := by
    decide +kernel
  obtain ⟨analyzer, accepted, computed⟩ := (Option.any_eq_true _ _).mp computed
  obtain ⟨module, generated, computed⟩ := (Option.any_eq_true _ _).mp computed
  obtain ⟨function, lowers, result⟩ := (Option.any_eq_true _ _).mp computed
  have executes : function.Executes Environment.fixed (.ok ⟨2,
      [.alloc 24 64 (.allocation 0), .free (.allocation 0), .free .null]⟩) :=
    .of_run (of_decide_eq_true result)
  exact ⟨analyzer, module, function, _, toOption_eq_some.mp accepted, toOption_eq_some.mp generated,
    toOption_eq_some.mp lowers, executes, rfl, generate_releasesOnce (toOption_eq_some.mp accepted)
      (toOption_eq_some.mp generated) (toOption_eq_some.mp lowers) executes⟩

end Ocelotl.Codegen
