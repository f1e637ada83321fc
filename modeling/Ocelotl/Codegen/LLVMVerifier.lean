import Ocelotl.Codegen.Translatable

namespace Ocelotl.Codegen

open IR Library LLVM

variable {order : TraversalOrder} {module : IR.Module} {labels : Labels} {values : Operands}
  {slots : CleanupSlots} {function : LLVM.Function} {id : BlockId} {label : Label}
  {index position : Nat} {operation : Operation} {operations : List Operation}
  {code : List Instruction} {last : IR.Terminator} {terminator : LLVM.Terminator}
  {instruction : Instruction} {block : IR.BasicBlock} {value : ValueId} {operand : Operand}

/-- The code of a slot starts at twice its place. -/
theorem slotCode_at {first count step : Nat} (less : step < count) :
    (slotCode (List.range' first count))[2 * step]? = some (.alloca (first + step)) := by
  induction count generalizing first step with
  | zero => exact absurd less (Nat.not_lt_zero _)
  | succ count ih =>
    cases step with
    | zero => simp [slotCode, List.range'_succ]
    | succ step =>
      have rest : (slotCode (List.range' (first + 1) count))[2 * step]? =
          some (.alloca (first + 1 + step)) :=
        ih (Nat.lt_of_succ_lt_succ less)
      rw [List.range'_succ, slotCode, List.flatMap_cons, Nat.mul_succ]
      rw [slotCode, Nat.succ_add_eq_add_succ] at rest
      exact rest

theorem slotCode_origin {first count : Nat}
    (present : (slotCode (List.range' first count))[position]? = some instruction) :
    ∃ step, step < count ∧ (position = 2 * step ∧ instruction = .alloca (first + step) ∨
      position = 2 * step + 1 ∧ instruction = .store .null (.slot (first + step))) := by
  induction count generalizing first position with
  | zero => simp [slotCode] at present
  | succ count ih =>
    rw [List.range'_succ, slotCode, List.flatMap_cons] at present
    rcases position with _ | _ | position
    · cases present
      exact ⟨0, Nat.zero_lt_succ _, .inl ⟨rfl, rfl⟩⟩
    · cases present
      exact ⟨0, Nat.zero_lt_succ _, .inr ⟨rfl, rfl⟩⟩
    · obtain ⟨step, less, place⟩ := ih present
      refine ⟨step + 1, Nat.succ_lt_succ less, ?_⟩
      have same : first + 1 + step = first + (step + 1) := by omega
      rw [same] at place
      rcases place with ⟨at', equal⟩ | ⟨at', equal⟩
      · exact .inl ⟨by omega, equal⟩
      · exact .inr ⟨by omega, equal⟩

private theorem releaseCode_at {register : RegisterId} {entries : List (ValueId × SlotId)}
    {entry : ValueId × SlotId} {step : Nat} (here : entries[step]? = some entry) :
    (releaseCode register entries)[2 * step]? = some (.load (register + step) (.slot entry.2)) := by
  induction entries generalizing register step with
  | nil => cases here
  | cons other entries ih =>
    cases step with
    | zero =>
      cases here
      simp [releaseCode]
    | succ step =>
      have rest : (releaseCode (register + 1) entries)[2 * step]? =
          some (.load (register + 1 + step) (.slot entry.2)) := ih here
      rw [Nat.succ_add_eq_add_succ] at rest
      exact rest

private theorem releaseCode_origin {register : RegisterId} {entries : List (ValueId × SlotId)}
    (present : (releaseCode register entries)[position]? = some instruction) :
    ∃ step entry, entries[step]? = some entry ∧
      (position = 2 * step ∧ instruction = .load (register + step) (.slot entry.2) ∨
        position = 2 * step + 1 ∧ instruction = .callFree (.register (register + step))) := by
  induction entries generalizing register position with
  | nil => simp [releaseCode] at present
  | cons other entries ih =>
    rw [releaseCode] at present
    rcases position with _ | _ | position
    · cases present
      exact ⟨0, other, rfl, .inl ⟨rfl, rfl⟩⟩
    · cases present
      exact ⟨0, other, rfl, .inr ⟨rfl, rfl⟩⟩
    · obtain ⟨step, entry, here, place⟩ := ih present
      refine ⟨step + 1, entry, here, ?_⟩
      have same : register + 1 + step = register + (step + 1) := by lia
      rw [same] at place
      rcases place with ⟨at', equal⟩ | ⟨at', equal⟩
      · exact .inl ⟨by omega, equal⟩
      · exact .inr ⟨by omega, equal⟩

private theorem isFloat_binaryOpcode (kind : BinaryKind) (floating : Bool) :
    (binaryOpcode kind floating).isFloat = floating := by
  cases kind <;> cases floating <;> rfl

/-- The types of values are those of the operands that they become. -/
def TypesAgree (values : Operands) (types : ValueId → ValueType)
    (registers : RegisterId → ValueType) : Prop :=
  ∀ value operand, values.lookup value = some operand → types value = operand.typeIn registers

variable {types : ValueId → ValueType} {registers : RegisterId → ValueType}

private theorem typed_incoming {incoming : List PhiIncoming} {sources : List (Operand × Label)}
    {type : ValueType} (agree : TypesAgree values types registers)
    (each : List.Forall₂ (LowersIncoming labels values) incoming sources) :
    (∀ source ∈ incoming, types source.value = type) ↔
      ∀ source ∈ sources, source.1.typeIn registers = type := by
  induction each with
  | nil => simp
  | cons here _ ih =>
    simp only [List.forall_mem_cons, ih]
    rw [agree _ _ here.1]

theorem LowersOperation.typed_iff (agree : TypesAgree values types registers)
    (lowers : LowersOperation labels values slots operation code) :
    OperationTyped types operation ↔ ∀ instruction ∈ code, instruction.Typed registers := by
  cases lowers with
  | tensorDecl sized slotted result =>
    simp [OperationTyped, agree _ _ result, Instruction.Typed, Operand.typeIn]
  | constantInt result | constantFloat result =>
    simp [OperationTyped, agree _ _ result, Operand.typeIn]
  | binary left right result =>
    simp [OperationTyped, agree _ _ result, agree _ _ left, agree _ _ right, Instruction.Typed,
      isFloat_binaryOpcode, Operand.typeIn]
  | compare left right result =>
    rw [OperationTyped, agree _ _ result, agree _ _ left, agree _ _ right, compareInstruction]
    split <;> simp [Instruction.Typed, Operand.typeIn]
  | phi scalar each result =>
    simp [OperationTyped, agree _ _ result, Instruction.Typed, scalar, typed_incoming agree each,
      Operand.typeIn]

/-- The status of a return is computed from an integer. -/
theorem LowersTerminator.typed (agree : TypesAgree values types registers)
    (lowers : LowersTerminator order labels values slots id last code terminator)
    (each : ∀ instruction ∈ code, instruction.Typed registers) (ends : terminator.Typed registers) :
    TerminatorTyped types last := by
  cases lowers with
  | branch _ => trivial
  | condBranch tested _ _ =>
    rw [TerminatorTyped, agree _ _ tested]
    exact ends
  | returnOp found _ =>
    rw [TerminatorTyped, agree _ _ found]
    exact (each _ (List.mem_append_right _ List.mem_cons_self)).2

private theorem operands_compareInstruction (kind : CompareKind) (type : TensorType) (lhs rhs : Operand)
    (result : RegisterId) :
    (compareInstruction kind type lhs rhs result).operands = [lhs, rhs] := by
  rw [compareInstruction]
  split <;> rfl

/-- The first instruction of an operation reads its operands. -/
theorem LowersOperation.reads (lowers : LowersOperation labels values slots operation code)
    (member : value ∈ operation.operands) :
    ∃ instruction operand, code[0]? = some instruction ∧ values.lookup value = some operand ∧
      operand ∈ instruction.operands := by
  cases lowers with
  | tensorDecl | constantInt | constantFloat | phi => cases member
  | binary left right result =>
    rcases List.mem_pair.mp member with rfl | rfl
    · exact ⟨_, _, rfl, left, List.mem_cons_self⟩
    · exact ⟨_, _, rfl, right, List.mem_cons_of_mem _ List.mem_cons_self⟩
  | compare left right result =>
    rcases List.mem_pair.mp member with rfl | rfl
    · exact ⟨_, _, rfl, left, by simp [operands_compareInstruction]⟩
    · exact ⟨_, _, rfl, right, by simp [operands_compareInstruction]⟩

theorem LowersIncoming.mem {incoming : List PhiIncoming} {sources : List (Operand × Label)}
    {source : PhiIncoming} (each : List.Forall₂ (LowersIncoming labels values) incoming sources)
    (member : source ∈ incoming) :
    ∃ lowered ∈ sources, LowersIncoming labels values source lowered := by
  induction each with
  | nil => cases member
  | cons here _ ih =>
    rcases List.mem_cons.mp member with rfl | later
    · exact ⟨_, List.mem_cons_self, here⟩
    · obtain ⟨lowered, present, lowers⟩ := ih later
      exact ⟨lowered, List.mem_cons_of_mem _ present, lowers⟩

theorem LowersIncoming.mem_lowered {incoming : List PhiIncoming} {sources : List (Operand × Label)}
    {source : Operand × Label} (each : List.Forall₂ (LowersIncoming labels values) incoming sources)
    (member : source ∈ sources) :
    ∃ listed ∈ incoming, LowersIncoming labels values listed source := by
  induction each with
  | nil => cases member
  | cons here _ ih =>
    rcases List.mem_cons.mp member with rfl | later
    · exact ⟨_, List.mem_cons_self, here⟩
    · obtain ⟨listed, present, lowers⟩ := ih later
      exact ⟨listed, List.mem_cons_of_mem _ present, lowers⟩

/-- Types of registers are types of the values that they stand for. -/
theorem Lowered.typed (lowered : Lowered order module labels values slots function)
    (wellFormed : LLVM.WellFormed function) : WellTyped module := by
  obtain ⟨registers, instructions, terminators⟩ := wellFormed.typed
  have agree : TypesAgree values (fun value => (values.lookup value).elim .i64 (·.typeIn registers))
      registers := by
    intro value operand looked
    simp only [looked, Option.elim_some]
  refine ⟨fun value => (values.lookup value).elim .i64 (·.typeIn registers), ?_, ?_⟩
  · intro operation member
    obtain ⟨block, present, inside⟩ := List.mem_flatMap.mp member
    obtain ⟨label, found⟩ := List.getElem?_of_mem present
    obtain ⟨index, here⟩ := List.getElem?_of_mem inside
    obtain ⟨piece, lowers, at'⟩ := lowered.code_at found here
    apply (lowers.typed_iff agree).mpr
    intro instruction member
    obtain ⟨step, there⟩ := List.getElem?_of_mem member
    exact instructions _ _ _ (at' step instruction there)
  · intro block member last ends
    obtain ⟨label, found⟩ := List.getElem?_of_mem member
    obtain ⟨last', terminator, tail, ends', lowers, ended, at'⟩ := lowered.tail_at found
    cases ends.symm.trans ends'
    refine lowers.typed agree (fun instruction member => ?_) (terminators _ _ ended)
    obtain ⟨step, there⟩ := List.getElem?_of_mem member
    exact instructions _ _ _ (at' step instruction there)

theorem Lowered.prologue_at (lowered : Lowered order module labels values slots function)
    (found : module.blocks[label]? = some block)
    (present : (prologue module block)[position]? = some instruction) :
    function.InstructionAt label position instruction := by
  obtain ⟨body, filled, last, terminator, code, _, _, same, _⟩ := lowered.filled label block found
  refine ⟨body, filled, ?_⟩
  rw [same, List.getElem?_append_left (List.getElem?_eq_some_iff.mp present).1]
  exact present

/-- A phi after the slots would not be among the first instructions of its block. -/
theorem Lowered.slotsFirst (lowered : Lowered order module labels values slots function)
    (wellFormed : LLVM.WellFormed function) : SlotsFirst module := by
  intro ⟨declaration, inside, declares⟩ block member isEntry operation here
  have declared : 0 < (declaredTensors (operationsOf module)).length := by
    rw [declaredTensors, List.length_map, List.length_filter_pos_iff]
    exact ⟨declaration, inside, declares⟩
  obtain ⟨label, found⟩ := List.getElem?_of_mem member
  obtain ⟨index, at'⟩ := List.getElem?_of_mem here
  obtain ⟨piece, lowers, placed⟩ := lowered.code_at found at'
  have slots : (prologue module block)[0]? = some (.alloca 0) := by
    rw [prologue, if_pos isEntry, List.range_eq_range']
    exact slotCode_at declared
  have allocated := lowered.prologue_at found slots
  have late : 0 < start module block := (List.getElem?_eq_some_iff.mp slots).1
  cases lowers with
  | phi _ _ _ =>
    have grouped := wellFormed.phisFirst _ _ _ _ _ (placed 0 _ rfl) allocated
      (Nat.lt_of_lt_of_le late (Nat.le_add_right _ _)) rfl
    cases grouped
  | tensorDecl | constantInt | constantFloat | binary | compare => rfl

namespace Translated

variable (translated : Translated order module labels values slots function)
include translated

/-- The rules of LLVM, read back as rules for the module. -/
theorem translatable (wellFormed : LLVM.WellFormed function) : Translatable module where
  entry block member edge := by
    obtain ⟨label, found⟩ := List.getElem?_of_mem member
    obtain ⟨labelled, known⟩ := translated.block_at found
    obtain ⟨label', same, edge'⟩ :=
      translated.edge_follow translated.verified labelled ⟨block, known, edge⟩
    cases translated.first.symm.trans same
    exact wellFormed.entry label edge'
  phis := (translated.entriesMatchEdges_iff translated.verified translated.bodies).mp
    wellFormed.phis
  slotsFirst := translated.slotsFirst wellFormed
  typed := translated.typed wellFormed
  operands block member index operation here value used := by
    obtain ⟨label, found⟩ := List.getElem?_of_mem member
    obtain ⟨piece, lowers, at'⟩ := translated.code_at found here
    obtain ⟨instruction, operand, first, looked, read⟩ := lowers.reads used
    exact (translated.definedBefore_iff found looked).mp
      (wellFormed.operands _ _ _ (at' 0 instruction first) operand read)
  terminators block member last ends value used := by
    obtain ⟨label, found⟩ := List.getElem?_of_mem member
    obtain ⟨labelled, _⟩ := translated.block_at found
    obtain ⟨last', terminator, tail, ends', lowers, ended, at'⟩ := translated.tail_at found
    cases ends.symm.trans ends'
    cases lowers with
    | branch _ => cases used
    | condBranch tested _ _ =>
      cases List.mem_singleton.mp used
      exact (translated.definedAtEnd_iff labelled tested).mp
        (wellFormed.terminators _ _ ended _ List.mem_cons_self)
    | returnOp looked _ =>
      cases List.mem_singleton.mp used
      have status := at' _ _ List.getElem?_concat_length
      exact (translated.definedAtEnd_iff labelled looked).mp
        (wellFormed.operands _ _ _ status _ List.mem_cons_self).atEnd
  incoming block member operation here source listed := by
    obtain ⟨label, found⟩ := List.getElem?_of_mem member
    obtain ⟨index, present⟩ := List.getElem?_of_mem here
    obtain ⟨piece, lowers, at'⟩ := translated.code_at found present
    cases lowers with
    | phi _ each _ =>
      obtain ⟨lowered, member, looked, labelled⟩ := LowersIncoming.mem each listed
      exact (translated.definedAtEnd_iff labelled looked).mp
        (wellFormed.incoming _ _ _ _ _ (at' 0 _ rfl) lowered member)
    | tensorDecl | constantInt | constantFloat | binary | compare => cases listed

end Translated

theorem LowersOperation.of_phi {register : RegisterId} {scalar : ScalarType}
    {sources : List (Operand × Label)} {step : Nat}
    (lowers : LowersOperation labels values slots operation code)
    (present : code[step]? = some (.phi register scalar sources)) :
    step = 0 ∧ ∃ result type incoming, operation = .phi result type incoming ∧
      List.Forall₂ (LowersIncoming labels values) incoming sources := by
  have less := (List.getElem?_eq_some_iff.mp present).1
  cases lowers with
  | phi _ each _ =>
    have first : step = 0 := Nat.lt_one_iff.mp less
    subst first
    cases present
    exact ⟨rfl, _, _, _, rfl, each⟩
  | compare _ _ _ =>
    have first : step = 0 := Nat.lt_one_iff.mp less
    subst first
    rw [compareInstruction] at present
    split at present <;> cases present
  | binary _ _ _ =>
    have first : step = 0 := Nat.lt_one_iff.mp less
    subst first
    cases present
  | tensorDecl _ _ _ =>
    rcases step with _ | _ | step
    · cases present
    · cases present
    · cases present
  | constantInt _ | constantFloat _ => cases less

/-- The instructions at the end of a block: loads from the slots, releases of
what was just loaded, and the status. -/
theorem LowersTerminator.origin {step : Nat}
    (lowers : LowersTerminator order labels values slots id last code terminator)
    (present : code[step]? = some instruction) :
    (∃ value slot register, slots.lookup value = some slot ∧
      instruction = .load register (.slot slot)) ∨
        (∃ before register slot, step = before + 1 ∧ code[before]? = some (.load register slot) ∧
      instruction = .callFree (.register register)) ∨
    ∃ value operand register, last = .returnOp value ∧ values.lookup value = some operand ∧
      instruction = .trunc register operand := by
  cases lowers with
  | branch | condBranch => cases present
  | @returnOp value operand register looked older =>
    by_cases less : step < (releaseCode register (order.traverse id slots)).length
    · rw [List.getElem?_append_left less] at present
      obtain ⟨place, entry, here, cases'⟩ := releaseCode_origin present
      rcases cases' with ⟨same, equal⟩ | ⟨same, equal⟩
      · exact .inl ⟨entry.1, entry.2, _, order.mem_traverse.mp (List.mem_of_getElem? here), equal⟩
      · refine .inr (.inl ⟨2 * place, _, .slot entry.2, same, ?_, equal⟩)
        rw [List.getElem?_append_left (by omega)]
        exact releaseCode_at here
    · rw [List.getElem?_append_right (Nat.le_of_not_lt less)] at present
      obtain ⟨_, equal⟩ := List.getElem?_eq_some_iff.mp present
      exact .inr (.inr ⟨value, operand, _, rfl, looked, by simpa using equal.symm⟩)

/-- The operands of the code of an operation are its own operands, results of
the code itself, and slots. -/
theorem LowersOperation.operands {step : Nat}
    (lowers : LowersOperation labels values slots operation code)
    (present : code[step]? = some instruction) (member : operand ∈ instruction.operands) :
    (∃ value ∈ operation.operands, values.lookup value = some operand) ∨ (∃ before earlier,
      before < step ∧ code[before]? = some earlier ∧ earlier.result = some operand) ∨
    ∃ value slot, slots.lookup value = some slot ∧ operand = .slot slot := by
  cases lowers with
  | tensorDecl _ slotted _ =>
    rcases step with _ | _ | step
    · cases present
      cases member
    · cases present
      rcases List.mem_pair.mp member with rfl | rfl
      · exact .inr (.inl ⟨0, _, Nat.zero_lt_one, rfl, rfl⟩)
      · exact .inr (.inr ⟨_, _, slotted, rfl⟩)
    · cases present
  | constantInt | constantFloat => cases present
  | binary left right _ =>
    cases List.mem_singleton.mp (List.mem_of_getElem? present)
    rcases List.mem_pair.mp member with rfl | rfl
    · exact .inl ⟨_, List.mem_cons_self, left⟩
    · exact .inl ⟨_, List.mem_cons_of_mem _ List.mem_cons_self, right⟩
  | compare left right _ =>
    rw [List.mem_singleton.mp (List.mem_of_getElem? present), operands_compareInstruction] at member
    rcases List.mem_pair.mp member with rfl | rfl
    · exact .inl ⟨_, List.mem_cons_self, left⟩
    · exact .inl ⟨_, List.mem_cons_of_mem _ List.mem_cons_self, right⟩
  | phi =>
    cases List.mem_singleton.mp (List.mem_of_getElem? present)
    cases member

private theorem start_of_phi (slotsFirst : SlotsFirst module) (member : block ∈ module.blocks)
    (here : operation ∈ block.operations) (phi : operation.isPhi = true) :
    start module block = 0 := by
  by_cases isEntry : block.id = module.entry
  · have none : declaredTensors (operationsOf module) = [] := by
      rw [declaredTensors, List.map_eq_nil_iff, List.filter_eq_nil_iff]
      intro declaration inside declares
      cases phi.symm.trans (slotsFirst ⟨declaration, inside, declares⟩ block member isEntry
        operation here)
    rw [start, prologue, if_pos isEntry, none]
    rfl
  · rw [start, prologue, if_neg isEntry]
    rfl

private theorem slotCode_length {slots : List SlotId} : (slotCode slots).length = 2 * slots.length := by
  induction slots with
  | nil => rfl
  | cons slot slots ih =>
    rw [slotCode, List.flatMap_cons, List.length_append, ← slotCode, ih, List.length_cons]
    simp only [List.length_cons, List.length_nil]
    omega

/-- The register holds the status of a return. -/
def IsStatus (function : LLVM.Function) (register : RegisterId) : Prop :=
  ∃ label index operand, function.InstructionAt label index (.trunc register operand)

open Classical in
/-- The types of the registers: those of the values that they stand for, of
statuses, and of pointers that are released. -/
noncomputable def registerTypes (types : ValueId → ValueType) (values : Operands)
    (function : LLVM.Function) (register : RegisterId) : ValueType :=
  if named : ∃ value, values.lookup value = some (.register register) then types named.choose
  else if IsStatus function register then .i32
  else .ptr

namespace Translated

variable (translated : Translated order module labels values slots function)
include translated

/-- The slots are allocated at the start of the entry. -/
theorem slot_before {slot : SlotId} (bound : slots.lookup value = some slot)
    (found : module.blocks[label]? = some block) (late : start module block ≤ position) :
    function.DefinedBefore (.slot slot) label position := by
  obtain ⟨entry, here, isEntry⟩ := (translated.labelled _ _).mp translated.first
  have less : slot < (declaredTensors (operationsOf module)).length :=
    (List.getElem?_eq_some_iff.mp ((translated.slotted _ _).mp bound)).1
  have first : prologue module entry =
      slotCode (List.range' 0 (declaredTensors (operationsOf module)).length) := by
    rw [prologue, if_pos isEntry, List.range_eq_range']
  have allocated : (prologue module entry)[2 * slot]? = some (.alloca (0 + slot)) := by
    rw [first]
    exact slotCode_at less
  rw [Nat.zero_add] at allocated
  have defines : function.Defines (.slot slot) 0 (2 * slot) :=
    ⟨_, translated.prologue_at here allocated, rfl⟩
  by_cases atEntry : label = 0
  · subst atEntry
    cases here.symm.trans found
    apply defines.before
    rw [start, first, slotCode_length, List.length_range'] at late
    lia
  · exact .inr ⟨0, _, defines, fun _ => .inr ⟨Ne.symm atEntry, .of_root label⟩⟩

/-- The registers of the end of a block stand for no value. -/
theorem tail_unnamed {register : RegisterId} (found : module.blocks[label]? = some block)
    (late : start module block + offset block.operations block.operations.length ≤ position)
    (defines : function.Defines (.register register) label position) :
    values.lookup value ≠ some (.register register) := by
  intro looked
  obtain ⟨source, body, index, origin, place⟩ := translated.place looked
  have ordinary : isConstant origin = false := place.constant.symm
  obtain ⟨rfl, rfl⟩ := translated.single _ _ _ _ _ defines (place.defines ordinary)
  cases found.symm.trans place.found
  have ends := offset_add_le (List.getElem?_eq_some_iff.mp place.here).1 place.here
  have positive := translated.codeLength_pos place ordinary
  omega

private theorem registerTypes_status {register : RegisterId} (found : module.blocks[label]? = some block)
    (late : start module block + offset block.operations block.operations.length ≤ position)
    (here : function.InstructionAt label position (.trunc register operand)) :
    registerTypes types values function register = .i32 := by
  have unnamed : ¬ ∃ value, values.lookup value = some (.register register) :=
    fun ⟨value, looked⟩ => translated.tail_unnamed found late ⟨_, here, rfl⟩ looked
  have status : IsStatus function register := ⟨label, position, operand, here⟩
  rw [registerTypes, dif_neg unnamed, if_pos status]

private theorem registerTypes_loaded {register : RegisterId} {slot : Operand}
    (found : module.blocks[label]? = some block)
    (late : start module block + offset block.operations block.operations.length ≤ position)
    (here : function.InstructionAt label position (.load register slot)) :
    registerTypes types values function register = .ptr := by
  have defines : function.Defines (.register register) label position := ⟨_, here, rfl⟩
  have unnamed : ¬ ∃ value, values.lookup value = some (.register register) :=
    fun ⟨value, looked⟩ => translated.tail_unnamed found late defines looked
  have loaded : ¬ IsStatus function register := by
    intro ⟨label', index, operand, there⟩
    obtain ⟨rfl, rfl⟩ := translated.single _ _ _ _ _ defines ⟨_, there, rfl⟩
    obtain ⟨body, filled, present⟩ := here
    obtain ⟨body', filled', present'⟩ := there
    cases filled.symm.trans filled'
    cases present.symm.trans present'
  rw [registerTypes, dif_neg unnamed, if_neg loaded]

theorem agree (each : ∀ operation ∈ operationsOf module, OperationTyped types operation) :
    TypesAgree values types (registerTypes types values function) := by
  intro value operand looked
  cases operand with
  | register result =>
    have named : ∃ value, values.lookup value = some (.register result) := ⟨value, looked⟩
    rw [Operand.typeIn, registerTypes, dif_pos named]
    exact congrArg types (translated.injective looked named.choose_spec)
  | integer | float | null | slot =>
    obtain ⟨source, body, index, origin, place⟩ := translated.place looked
    have typed := each origin (List.mem_flatMap.mpr
      ⟨body, List.mem_of_getElem? place.found, List.mem_of_getElem? place.here⟩)
    have result := place.result
    subst result
    obtain ⟨piece, lowers, _⟩ := translated.code_at place.found place.here
    cases lowers <;> simp_all [resultOf, OperationTyped, Operand.typeIn]

private theorem typed_at (each : ∀ operation ∈ operationsOf module, OperationTyped types operation)
    (ends : ∀ block ∈ module.blocks, ∀ last, block.terminator = some last →
      TerminatorTyped types last)
    (found : module.blocks[label]? = some block)
    (here : function.InstructionAt label position instruction) :
    instruction.Typed (registerTypes types values function) := by
  have agree := translated.agree each
  have member := List.mem_of_getElem? found
  cases translated.origin found here with
  | prologue present =>
    have code := List.mem_of_getElem? present
    rw [prologue] at code
    split at code
    · obtain ⟨slot, _, code⟩ := List.mem_flatMap.mp code
      rcases List.mem_pair.mp code with rfl | rfl
      · trivial
      · rfl
    · cases code
  | operation index operation piece step at' lowers present same placed =>
    have inside : operation ∈ operationsOf module :=
      List.mem_flatMap.mpr ⟨block, member, List.mem_of_getElem? at'⟩
    exact (lowers.typed_iff agree).mp (each operation inside) _ (List.mem_of_getElem? present)
  | tail last terminator tail step ended lowers present same placed =>
    subst same
    rcases lowers.origin present with ⟨value, slot, register, bound, rfl⟩ |
      ⟨before, register, slot, rfl, loaded, rfl⟩ | ⟨value, operand, register, rfl, looked, rfl⟩
    · exact ⟨rfl, translated.registerTypes_loaded found (Nat.le_add_right _ _) here⟩
    · exact translated.registerTypes_loaded found (Nat.le_add_right _ _) (placed _ _ loaded)
    · refine ⟨translated.registerTypes_status found (Nat.le_add_right _ _) here, ?_⟩
      rw [← agree value operand looked]
      exact ends block member _ ended

private theorem typed_terminator (each : ∀ operation ∈ operationsOf module, OperationTyped types operation)
    (ends : ∀ block ∈ module.blocks, ∀ last, block.terminator = some last →
      TerminatorTyped types last)
    (found : module.blocks[label]? = some block) (ended : function.TerminatorAt label terminator) :
    terminator.Typed (registerTypes types values function) := by
  have agree := translated.agree each
  obtain ⟨last, terminator', tail, ends', lowers, ⟨body, filled, known⟩, placed⟩ :=
    translated.tail_at found
  obtain ⟨body', filled', known'⟩ := ended
  cases filled.symm.trans filled'
  cases known.symm.trans known'
  have typed := ends block (List.mem_of_getElem? found) last ends'
  cases lowers with
  | branch _ => trivial
  | condBranch tested _ _ =>
    rw [LLVM.Terminator.Typed, ← agree _ _ tested]
    exact typed
  | returnOp looked _ =>
    exact translated.registerTypes_status found (Nat.le_add_right _ _)
      (placed _ _ List.getElem?_concat_length)

/-- A value that is defined at the end of its block is defined before the code there. -/
theorem defined_tail (found : module.blocks[label]? = some block)
    (looked : values.lookup value = some operand)
    (defined : Needed module value block.id → DefinedAtEnd module.block module.entry value block.id)
    (late : start module block + offset block.operations block.operations.length ≤ position) :
    function.DefinedBefore operand label position := by
  apply LLVM.Function.DefinedBefore.mono _ late
  apply (translated.definedBefore_iff found looked).mpr
  intro needed
  obtain ⟨source, index, operation, present, result, dominates⟩ := defined needed
  refine ⟨source, index, operation, present, result, ?_⟩
  by_cases same : source = block.id
  · obtain ⟨body, known, here⟩ := present
    rw [same, (translated.block_at found).2] at known
    cases known
    exact .inl ⟨same, (List.getElem?_eq_some_iff.mp here).1⟩
  · exact .inr ⟨same, dominates⟩

variable (holds : Translatable module)
include holds

private theorem defined_at (found : module.blocks[label]? = some block)
    (here : function.InstructionAt label position instruction)
    (member : operand ∈ instruction.operands) :
    function.DefinedBefore operand label position := by
  cases translated.origin found here with
  | prologue present =>
    by_cases atEntry : block.id = module.entry
    · rw [prologue, if_pos atEntry, List.range_eq_range'] at present
      obtain ⟨slot, less, ⟨_, rfl⟩ | ⟨same, rfl⟩⟩ := slotCode_origin present
      · cases member
      · have allocated : (prologue module block)[2 * slot]? = some (.alloca (0 + slot)) := by
          rw [prologue, if_pos atEntry, List.range_eq_range']
          exact slotCode_at less
        rcases List.mem_pair.mp member with rfl | rfl
        · exact .inl rfl
        · have defines : function.Defines (.slot (0 + slot)) label (2 * slot) :=
            ⟨_, translated.prologue_at found allocated, rfl⟩
          exact defines.before (same ▸ Nat.lt_succ_self _)
    · rw [prologue, if_neg atEntry] at present
      cases present
  | operation index operation piece step at' lowers present same placed =>
    subst same
    rcases lowers.operands present member with ⟨value, used, looked⟩ |
      ⟨before, earlier, less, there, result⟩ | ⟨value, slot, bound, rfl⟩
    · have defined := (translated.definedBefore_iff found looked).mpr
        (holds.operands block (List.mem_of_getElem? found) index operation at' value used)
      exact defined.mono (Nat.le_add_right _ _)
    · have defines : function.Defines operand label _ :=
        ⟨earlier, placed before earlier there, result⟩
      exact defines.before (Nat.add_lt_add_left less _)
    · exact translated.slot_before bound found (by lia)
  | tail last terminator tail step ended lowers present same placed =>
    have late : start module block + offset block.operations block.operations.length ≤ position :=
      same ▸ Nat.le_add_right _ _
    rcases lowers.origin present with ⟨value, slot, register, bound, rfl⟩ |
      ⟨before, register, slot, rfl, loaded, rfl⟩ | ⟨value, operand, register, rfl, looked, rfl⟩
    · cases List.mem_singleton.mp member
      exact translated.slot_before bound found (Nat.le_trans (Nat.le_add_right _ _) late)
    · cases List.mem_singleton.mp member
      have defines : function.Defines (.register register) label _ := ⟨_, placed _ _ loaded, rfl⟩
      exact defines.before (by lia)
    · cases List.mem_singleton.mp member
      exact translated.defined_tail found looked
        (holds.terminators block (List.mem_of_getElem? found) _ ended value List.mem_cons_self) late

private theorem defined_terminator (found : module.blocks[label]? = some block)
    (ended : function.TerminatorAt label terminator) (member : operand ∈ terminator.operands) :
    function.DefinedAtEnd operand label := by
  obtain ⟨labelled, _⟩ := translated.block_at found
  obtain ⟨last, terminator', tail, ends, lowers, ⟨body, filled, known⟩, placed⟩ :=
    translated.tail_at found
  obtain ⟨body', filled', known'⟩ := ended
  cases filled.symm.trans filled'
  cases known.symm.trans known'
  cases lowers with
  | branch _ => cases member
  | condBranch tested _ _ =>
    cases List.mem_singleton.mp member
    exact (translated.definedAtEnd_iff labelled tested).mpr
      (holds.terminators block (List.mem_of_getElem? found) _ ends _ List.mem_cons_self)
  | returnOp _ _ =>
    cases List.mem_singleton.mp member
    exact .inr ⟨label, _, ⟨_, placed _ _ List.getElem?_concat_length, rfl⟩, fun _ => .refl label⟩

/-- The phis of a function stand where those of the module do, in blocks that
start with their operations. -/
theorem phi_at {register : RegisterId} {scalar : ScalarType} {sources : List (Operand × Label)}
    (found : module.blocks[label]? = some block)
    (here : function.InstructionAt label position (.phi register scalar sources)) :
    ∃ index result type incoming, block.operations[index]? = some (.phi result type incoming) ∧
      List.Forall₂ (LowersIncoming labels values) incoming sources ∧
      start module block = 0 ∧ position = offset block.operations index := by
  cases translated.origin found here with
  | prologue present => cases prologue_no_phi _ (List.mem_of_getElem? present)
  | operation index operation piece step at' lowers present same placed =>
    obtain ⟨rfl, result, type, incoming, rfl, each⟩ := lowers.of_phi present
    have entered : start module block = 0 :=
      start_of_phi holds.slotsFirst (List.mem_of_getElem? found) (List.mem_of_getElem? at') rfl
    exact ⟨index, result, type, incoming, at', each, entered, by rw [same, entered]; simp⟩
  | tail last terminator tail step ended lowers present same placed =>
    cases lowers.no_phi _ (List.mem_of_getElem? present)

private theorem phis_first (found : module.blocks[label]? = some block)
    {index index' : Nat} {instruction' : Instruction}
    (here : function.InstructionAt label index instruction)
    (there : function.InstructionAt label index' instruction') (less : index' < index)
    (phi : instruction.isPhi = true) : instruction'.isPhi = true := by
  cases instruction with
  | phi register scalar sources =>
    obtain ⟨place, result, type, incoming, at', _, entered, same⟩ :=
      translated.phi_at holds found here
    have within := offset_add_le (List.getElem?_eq_some_iff.mp at').1 at'
    cases translated.origin found there with
    | prologue present =>
      have short := (List.getElem?_eq_some_iff.mp present).1
      rw [← start, entered] at short
      cases short
    | operation place' operation piece step at'' lowers present same' placed =>
      have earlier : place' < place := by
        by_contra late
        have monotone : offset block.operations place ≤ offset block.operations place' :=
          offset_mono (Nat.le_of_not_lt late)
        omega
      have first := translated.verified.phisFirst block (List.mem_of_getElem? found)
      obtain ⟨inside, known⟩ := List.getElem?_eq_some_iff.mp at'
      obtain ⟨inside', known'⟩ := List.getElem?_eq_some_iff.mp at''
      have isPhi := List.pairwise_iff_getElem.mp first place' place inside' inside earlier
      rw [known, known'] at isPhi
      cases lowers with
      | phi _ _ _ =>
        cases List.mem_singleton.mp (List.mem_of_getElem? present)
        rfl
      | tensorDecl | constantInt | constantFloat | binary | compare => cases isPhi rfl
    | tail last terminator tail step ended lowers present same' placed => omega
  | _ => cases phi

private theorem phi_agrees {register : RegisterId} {scalar : ScalarType} {sources : List (Operand × Label)}
    {operand' : Operand} {source : Label} (found : module.blocks[label]? = some block)
    (here : function.InstructionAt label position (.phi register scalar sources))
    (first : (operand, source) ∈ sources) (second : (operand', source) ∈ sources) :
    operand = operand' := by
  obtain ⟨index, result, type, incoming, at', each, _⟩ := translated.phi_at holds found here
  obtain ⟨nodup, _⟩ := translated.verified.predecessors block (List.mem_of_getElem? found) _
    (List.mem_of_getElem? at') rfl
  have labels : (sources.map Prod.snd).Nodup :=
    (List.rel_nodup ⟨translated.leftUnique, Labelled.rightUnique⟩ (LowersIncoming.ids each)).mp
      nodup
  exact congrArg Prod.fst (List.inj_on_of_nodup_map labels first second rfl)

private theorem incoming_at {register : RegisterId} {scalar : ScalarType} {sources : List (Operand × Label)}
    {source : Operand × Label} (found : module.blocks[label]? = some block)
    (here : function.InstructionAt label position (.phi register scalar sources))
    (member : source ∈ sources) : function.DefinedAtEnd source.1 source.2 := by
  obtain ⟨index, result, type, incoming, at', each, _⟩ := translated.phi_at holds found here
  obtain ⟨listed, inside, looked, labelled⟩ := LowersIncoming.mem_lowered each member
  exact (translated.definedAtEnd_iff labelled looked).mpr
    (holds.incoming block (List.mem_of_getElem? found) _ (List.mem_of_getElem? at') listed inside)

/-- The rules for the module, as the rules of LLVM. -/
theorem wellFormed : LLVM.WellFormed function where
  nonempty empty := by
    obtain ⟨entry, here, _⟩ := (translated.labelled _ _).mp translated.first
    obtain ⟨body, filled, _⟩ := translated.filled 0 entry here
    rw [empty] at filled
    cases filled
  terminated label body filled := by
    obtain ⟨block, found⟩ := translated.bodies label body filled
    obtain ⟨_, _, _, _, _, ⟨body', filled', ended⟩, _⟩ := translated.tail_at found
    cases filled.symm.trans filled'
    simp [ended]
  targets label terminator ended target member := by
    obtain ⟨body, filled, ends⟩ := ended
    obtain ⟨block, found⟩ := translated.bodies label body filled
    obtain ⟨_, _, _, _, lowers, ⟨body', filled', ends'⟩, _⟩ := translated.tail_at found
    cases filled.symm.trans filled'
    cases ends.symm.trans ends'
    obtain ⟨id, _, labelled⟩ := lowers.ids.mem member
    obtain ⟨other, found', _⟩ := (translated.labelled id target).mp labelled
    obtain ⟨body', filled', _⟩ := translated.filled target other found'
    exact (List.getElem?_eq_some_iff.mp filled').1
  entry source edge := by
    obtain ⟨block, found⟩ : ∃ block, module.blocks[source]? = some block := by
      cases filled : function.blocks[source]? with
      | none => simp [LLVM.Function.Edge, LLVM.Function.edges, filled] at edge
      | some body => exact translated.bodies source body filled
    obtain ⟨target, same, body, known, member⟩ :=
      translated.edge_back (translated.block_at found).1 edge
    rw [translated.leftUnique same translated.first] at member
    exact holds.entry body (List.mem_of_find?_eq_some known) member
  phisFirst label index index' instruction instruction' here there less phi := by
    obtain ⟨body, filled, _⟩ := id here
    obtain ⟨block, found⟩ := translated.bodies label body filled
    exact translated.phis_first holds found here there less phi
  phis := (translated.entriesMatchEdges_iff translated.verified translated.bodies).mpr holds.phis
  agreement label index result type incoming here operand operand' source first second := by
    obtain ⟨body, filled, _⟩ := id here
    obtain ⟨block, found⟩ := translated.bodies label body filled
    exact translated.phi_agrees holds found here first second
  single := translated.single
  typed := by
    obtain ⟨types, each, ends⟩ := holds.typed
    refine ⟨registerTypes types values function, ?_, ?_⟩
    · intro label index instruction here
      obtain ⟨body, filled, _⟩ := id here
      obtain ⟨block, found⟩ := translated.bodies label body filled
      exact translated.typed_at each ends found here
    · intro label terminator ended
      obtain ⟨body, filled, _⟩ := id ended
      obtain ⟨block, found⟩ := translated.bodies label body filled
      exact translated.typed_terminator each ends found ended
  operands label index instruction here operand member := by
    obtain ⟨body, filled, _⟩ := id here
    obtain ⟨block, found⟩ := translated.bodies label body filled
    exact translated.defined_at holds found here member
  terminators label terminator ended operand member := by
    obtain ⟨body, filled, _⟩ := id ended
    obtain ⟨block, found⟩ := translated.bodies label body filled
    exact translated.defined_terminator holds found ended member
  incoming label index result type incoming here source member := by
    obtain ⟨body, filled, _⟩ := id here
    obtain ⟨block, found⟩ := translated.bodies label body filled
    exact translated.incoming_at holds found here member

end Translated

/-- A function that was lowered entry first passes LLVM's verifier exactly when
its module is translatable. -/
theorem Translated.wellFormed_iff
    (translated : Translated order module labels values slots function) :
    LLVM.WellFormed function ↔ Translatable module :=
  ⟨translated.translatable, translated.wellFormed⟩

theorem lowerModule_translated {builder : Builder} (verified : Verified module)
    (entryFirst : ∃ block, module.blocks[0]? = some block ∧ block.id = module.entry)
    (success : lowerModule order module {} = .ok () builder) :
    ∃ labels, Translated order module labels builder.values builder.cleanupSlots
      builder.function := by
  obtain ⟨labels, code⟩ := lowerModule_lowered verified success
  obtain ⟨entry, found, isEntry⟩ := entryFirst
  refine ⟨labels, code, verified, (code.labelled _ _).mpr ⟨entry, found, isEntry⟩,
    fun _ _ => lowerModule_bodies verified success, lowerModule_single verified success, ?_⟩
  intro value operand looked
  obtain ⟨operation, member, result⟩ := lowerModule_keys verified success looked
  obtain ⟨block, present, inside⟩ := List.mem_flatMap.mp member
  obtain ⟨index, here⟩ := List.getElem?_of_mem inside
  exact ⟨⟨block.id, 0 + index, typeOf operation⟩, block, present, index, operation, here,
    result, rfl⟩

open Classical in
/-- LLVM's verifier, as far as its answer goes. -/
noncomputable def verifyFunction (function : LLVM.Function) : Except String Unit :=
  if LLVM.WellFormed function then .ok () else .error "invalid"

theorem verifyFunction_ok (function : LLVM.Function) :
    verifyFunction function = .ok () ↔ LLVM.WellFormed function := by
  unfold verifyFunction
  split <;> simp [*]

end Ocelotl.Codegen
