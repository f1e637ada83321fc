import Ocelotl.Codegen.Numbering
import Ocelotl.Codegen.Simulation
import Mathlib.Algebra.Ring.Nat

namespace Ocelotl.Codegen

open IR Library LLVM

/-- Constants become operands, without an instruction. -/
def isConstant : Operation → Bool
  | .constantInt _ _ _ | .constantFloat _ _ _ => true
  | .tensorDecl _ _ _ | .binary _ _ _ _ _ | .compare _ _ _ _ _ | .phi _ _ _ | .matMul _ _ _ _
  | .relu _ _ _ => false

/-- The types of the operands that the values of the module become. -/
def OperationTyped (types : ValueId → ValueType) : Operation → Prop
  | .tensorDecl result _ _ => types result = .ptr
  | .constantInt result _ _ => types result = .i64
  | .constantFloat result _ _ => types result = .double
  | .binary result _ lhs rhs type =>
    types result = types lhs ∧ types rhs = types lhs ∧
      if type.elementType = "f64" then types lhs = .double else (types lhs).isInteger = true
  | .compare result _ lhs rhs operandType =>
    types result = .i1 ∧ types rhs = types lhs ∧
      if operandType.elementType = "f64" then types lhs = .double else types lhs ≠ .double
  | .phi result type incoming => ∀ scalar, lowerType type = some scalar →
    types result = scalar.valueType ∧ ∀ source ∈ incoming, types source.value = scalar.valueType
  | .matMul _ _ _ _ | .relu _ _ _ => True

def TerminatorTyped (types : ValueId → ValueType) : IR.Terminator → Prop
  | .branch _ => True
  | .condBranch condition _ _ => types condition = .i1
  | .returnOp value => types value = .i64

def Reaches (module : IR.Module) (id : BlockId) : Prop :=
  ∃ visited, Walk (Edge module.block) module.entry visited id

/-- The value needs a definition there: it is no constant, and the block is reached. -/
def Needed (module : IR.Module) (value : ValueId) (id : BlockId) : Prop :=
  (∀ operation ∈ operationsOf module, resultOf operation = value → isConstant operation = false) ∧
    Reaches module id

/-- Some choice of types suits every operation and terminator. -/
def WellTyped (module : IR.Module) : Prop :=
  ∃ types, (∀ operation ∈ operationsOf module, OperationTyped types operation) ∧
    ∀ block ∈ module.blocks, ∀ last, block.terminator = some last → TerminatorTyped types last

/-- The entry of a module that declares tensors starts with their slots, and
leaves no room for a phi. -/
def SlotsFirst (module : IR.Module) : Prop :=
  (∃ operation ∈ operationsOf module, declaresTensor operation = true) →
    ∀ block ∈ module.blocks, block.id = module.entry →
      ∀ operation ∈ block.operations, operation.isPhi = false

/-- What LLVM's rules ask of a module. -/
structure Translatable (module : IR.Module) : Prop where
  entry : ∀ block ∈ module.blocks, module.entry ∉ block.targets
  phis : PhisBranchedOnce module
  slotsFirst : SlotsFirst module
  typed : WellTyped module
  operands : ∀ block ∈ module.blocks, ∀ (index : Nat) operation,
    block.operations[index]? = some operation → ∀ value ∈ operation.operands,
      Needed module value block.id → DefinedBefore module.block module.entry value block.id index
  terminators : ∀ block ∈ module.blocks, ∀ last, block.terminator = some last →
    ∀ value ∈ last.operands, Needed module value block.id →
      DefinedAtEnd module.block module.entry value block.id
  incoming : ∀ block ∈ module.blocks, ∀ operation ∈ block.operations,
    ∀ incoming ∈ operation.incoming, Needed module incoming.value incoming.predecessor →
      DefinedAtEnd module.block module.entry incoming.value incoming.predecessor

variable {order : TraversalOrder} {module : IR.Module} {labels : Labels} {values : Operands}
  {slots : CleanupSlots} {function : LLVM.Function} {id : BlockId} {label : Label}
  {index position : Nat} {operation : Operation} {operations : List Operation}
  {code : List Instruction} {last : IR.Terminator} {terminator : LLVM.Terminator}
  {instruction : Instruction} {block : IR.BasicBlock} {value : ValueId} {operand : Operand}

def codeLength : Operation → Nat
  | .tensorDecl _ _ _ => 2
  | .binary _ _ _ _ _ | .compare _ _ _ _ _ | .phi _ _ _ => 1
  | .constantInt _ _ _ | .constantFloat _ _ _ | .matMul _ _ _ _ | .relu _ _ _ => 0

theorem LowersOperation.length (lowers : LowersOperation labels values slots operation code) :
    code.length = codeLength operation := by
  cases lowers <;> rfl

/-- The length of the code before an operation. -/
def offset (operations : List Operation) (index : Nat) : Nat :=
  ((operations.take index).map codeLength).sum

@[simp] theorem offset_zero : offset operations 0 = 0 := by simp [offset]

@[simp] theorem offset_cons_succ :
    offset (operation :: operations) (index + 1) =
      codeLength operation + offset operations index := by
  simp [offset]

/-- The code of an operation ends before that of a later one starts. -/
theorem offset_add_le {first second : Nat} (less : first < second)
    (here : operations[first]? = some operation) :
    offset operations first + codeLength operation ≤ offset operations second := by
  induction operations generalizing first second with
  | nil => cases here
  | cons other operations ih =>
    cases second with
    | zero => exact absurd less (Nat.not_lt_zero _)
    | succ second =>
      cases first with
      | zero =>
        cases here
        simp
      | succ first =>
        have later := ih (Nat.lt_of_succ_lt_succ less) here
        simp only [offset_cons_succ]
        omega

theorem LowersRest.code_at
    (lowers : LowersRest order labels values slots id last terminator operations code)
    (here : operations[index]? = some operation) :
    ∃ piece, LowersOperation labels values slots operation piece ∧
      ∀ step, step < piece.length → code[offset operations index + step]? = piece[step]? := by
  induction lowers generalizing index with
  | terminator _ => cases here
  | @operation other first operations after lowers _ ih =>
    cases index with
    | zero =>
      cases here
      refine ⟨first, lowers, fun step less => ?_⟩
      simp [List.getElem?_append_left less]
    | succ index =>
      obtain ⟨piece, lowered, present⟩ := ih here
      refine ⟨piece, lowered, fun step less => ?_⟩
      rw [offset_cons_succ, ← lowers.length, Nat.add_assoc,
        List.getElem?_append_right (Nat.le_add_right _ _), Nat.add_sub_cancel_left]
      exact present step less

/-- Every position is in the code of an operation, or after all of it. -/
theorem offset_cases (operations : List Operation) (position : Nat) :
    (∃ index operation step, operations[index]? = some operation ∧ step < codeLength operation ∧
      position = offset operations index + step) ∨
        offset operations operations.length ≤ position := by
  induction operations generalizing position with
  | nil => exact .inr (by simp)
  | cons operation operations ih =>
    by_cases less : position < codeLength operation
    · exact .inl ⟨0, operation, position, rfl, less, by simp⟩
    · rcases ih (position - codeLength operation) with
        ⟨index, other, step, here, within, same⟩ | after
      · refine .inl ⟨index + 1, other, step, here, within, ?_⟩
        rw [offset_cons_succ]
        omega
      · refine .inr ?_
        rw [List.length_cons, offset_cons_succ]
        omega

theorem LowersRest.tail_at
    (lowers : LowersRest order labels values slots id last terminator operations code) :
    ∃ tail, LowersTerminator order labels values slots id last tail terminator ∧
      ∀ step, tail[step]? = code[offset operations operations.length + step]? := by
  induction lowers with
  | @terminator tail final => exact ⟨tail, final, by simp⟩
  | @operation other first operations after lowers _ ih =>
    obtain ⟨tail, final, at'⟩ := ih
    refine ⟨tail, final, fun step => ?_⟩
    rw [List.length_cons, offset_cons_succ, ← lowers.length, Nat.add_assoc,
      List.getElem?_append_right (Nat.le_add_right _ _), Nat.add_sub_cancel_left]
    exact at' step

/-- The length of the code before the first operation. -/
def start (module : IR.Module) (block : IR.BasicBlock) : Nat := (prologue module block).length

/-- Where an instruction of a lowered block comes from. -/
inductive Origin (order : TraversalOrder) (module : IR.Module) (labels : Labels) (values : Operands)
    (slots : CleanupSlots) (function : LLVM.Function) (label : Label) (block : IR.BasicBlock)
    (position : Nat) (instruction : Instruction) : Prop where
  | prologue (here : (prologue module block)[position]? = some instruction)
  | operation (index : Nat) (operation : Operation) (piece : List Instruction) (step : Nat)
    (here : block.operations[index]? = some operation)
    (lowers : LowersOperation labels values slots operation piece)
    (present : piece[step]? = some instruction)
    (same : position = start module block + offset block.operations index + step)
    (placed : ∀ (step : Nat) instruction, piece[step]? = some instruction →
      function.InstructionAt label
      (start module block + offset block.operations index + step) instruction)
  | tail (last : IR.Terminator) (terminator : LLVM.Terminator) (tail : List Instruction)
    (step : Nat)
    (ends : block.terminator = some last)
    (lowers : LowersTerminator order labels values slots block.id last tail terminator)
    (present : tail[step]? = some instruction)
    (same : position = start module block + offset block.operations block.operations.length + step)
    (placed : ∀ (step : Nat) instruction, tail[step]? = some instruction →
      function.InstructionAt label
      (start module block + offset block.operations block.operations.length + step) instruction)

theorem Lowered.code_at (lowered : Lowered order module labels values slots function)
    (found : module.blocks[label]? = some block)
    (here : block.operations[index]? = some operation) :
    ∃ piece, LowersOperation labels values slots operation piece ∧
      ∀ (step : Nat) instruction, piece[step]? = some instruction → function.InstructionAt label
        (start module block + offset block.operations index + step) instruction := by
  obtain ⟨body, filled, last, terminator, code, _, rest, same, _⟩ :=
    lowered.filled label block found
  obtain ⟨piece, lowers, at'⟩ := rest.code_at here
  refine ⟨piece, lowers, fun step instruction present => ⟨body, filled, ?_⟩⟩
  have less := (List.getElem?_eq_some_iff.mp present).1
  rw [same, start, Nat.add_assoc, List.getElem?_append_right (Nat.le_add_right _ _),
    Nat.add_sub_cancel_left, at' step less, present]

/-- The end of a block, in the code and as a terminator. -/
theorem Lowered.tail_at (lowered : Lowered order module labels values slots function)
    (found : module.blocks[label]? = some block) :
    ∃ last terminator tail, block.terminator = some last ∧
      LowersTerminator order labels values slots block.id last tail terminator ∧
      function.TerminatorAt label terminator ∧
      ∀ (step : Nat) instruction, tail[step]? = some instruction → function.InstructionAt label
        (start module block + offset block.operations block.operations.length + step)
          instruction := by
  obtain ⟨body, filled, last, terminator, code, ends, rest, same, ended⟩ :=
    lowered.filled label block found
  obtain ⟨tail, final, at'⟩ := rest.tail_at
  refine ⟨last, terminator, tail, ends, final, ⟨body, filled, ended⟩,
    fun step instruction present => ?_⟩
  refine ⟨body, filled, ?_⟩
  rw [same, start, Nat.add_assoc, List.getElem?_append_right (Nat.le_add_right _ _),
    Nat.add_sub_cancel_left, ← at' step, present]

theorem Lowered.origin (lowered : Lowered order module labels values slots function)
    (found : module.blocks[label]? = some block)
    (present : function.InstructionAt label position instruction) :
    Origin order module labels values slots function label block position instruction := by
  obtain ⟨body, filled, last, terminator, code, ends, rest, same, _⟩ :=
    lowered.filled label block found
  obtain ⟨other, filled', here⟩ := present
  cases filled.symm.trans filled'
  rw [same] at here
  by_cases less : position < (prologue module block).length
  · rw [List.getElem?_append_left less] at here
    exact .prologue here
  · have large := Nat.le_of_not_lt less
    rw [List.getElem?_append_right large] at here
    rcases offset_cases block.operations (position - (prologue module block).length) with
      ⟨index, operation, step, at', within, place⟩ | after
    · obtain ⟨piece, lowers, suffix⟩ := rest.code_at at'
      rw [← lowers.length] at within
      rw [place, suffix step within] at here
      refine .operation index operation piece step at' lowers here (by rw [start]; omega) ?_
      intro step instruction present
      refine ⟨body, filled, ?_⟩
      rw [same, start, Nat.add_assoc, List.getElem?_append_right (Nat.le_add_right _ _),
        Nat.add_sub_cancel_left, suffix step (List.getElem?_eq_some_iff.mp present).1, present]
    · obtain ⟨tail, lowers, suffix⟩ := rest.tail_at
      obtain ⟨step, place⟩ := Nat.exists_eq_add_of_le after
      rw [place, ← suffix] at here
      refine .tail last terminator tail step ends lowers here (by rw [start]; omega) ?_
      intro step instruction present
      refine ⟨body, filled, ?_⟩
      rw [same, start, Nat.add_assoc, List.getElem?_append_right (Nat.le_add_right _ _),
        Nat.add_sub_cancel_left, ← suffix step, present]

/-- Constants become constants, and other values registers of their own code. -/
theorem Lowered.value_at (lowered : Lowered order module labels values slots function)
    (found : module.blocks[label]? = some block)
    (here : block.operations[index]? = some operation) :
    ∃ operand, values.lookup (resultOf operation) = some operand ∧
      operand.isConstant = isConstant operation ∧ (isConstant operation = false →
        function.Defines operand label (start module block + offset block.operations index)) := by
  obtain ⟨piece, lowers, at'⟩ := lowered.code_at found here
  have first (instruction) (present : piece[0]? = some instruction) := at' 0 instruction present
  simp only [Nat.add_zero] at first
  cases lowers with
  | tensorDecl _ _ result => exact ⟨_, result, rfl, fun _ => ⟨_, first _ rfl, rfl⟩⟩
  | constantInt result => exact ⟨_, result, rfl, nofun⟩
  | constantFloat result => exact ⟨_, result, rfl, nofun⟩
  | binary _ _ result => exact ⟨_, result, rfl, fun _ => ⟨_, first _ rfl, rfl⟩⟩
  | compare _ _ result =>
    exact ⟨_, result, rfl, fun _ => ⟨_, first _ rfl, result_compareInstruction _ _ _ _ _⟩⟩
  | phi _ _ result => exact ⟨_, result, rfl, fun _ => ⟨_, first _ rfl, rfl⟩⟩

/-- The block has this label in the function. -/
def Labelled (labels : Labels) (id : BlockId) (label : Label) : Prop :=
  labels.lookup id = some label

theorem Lowered.leftUnique (lowered : Lowered order module labels values slots function) :
    Relator.LeftUnique (Labelled labels) := fun _ _ _ first second => lowered.unique first second

theorem Labelled.rightUnique : Relator.RightUnique (Labelled labels) :=
  fun _ _ _ first second => Option.some.inj (first.symm.trans second)

theorem Lowered.edge_follow {source target : BlockId}
    (lowered : Lowered order module labels values slots function) (verified : Verified module)
    (here : Labelled labels source label) (edge : Edge module.block source target) :
    ∃ label', Labelled labels target label' ∧ function.Edge label label' := by
  obtain ⟨block, found, known, _⟩ := lowered.body here
  obtain ⟨body, known', member⟩ := edge
  cases known.symm.trans known'
  obtain ⟨other, present, same⟩ := verified.targets block (List.mem_of_getElem? found) target member
  obtain ⟨label', found'⟩ := List.getElem?_of_mem present
  have labelled : labels.lookup other.id = some label' :=
    (lowered.labelled _ _).mpr ⟨other, found', rfl⟩
  refine ⟨label', same ▸ labelled, ?_⟩
  rw [LLVM.Function.Edge, lowered.edges found labelled, same]
  exact List.count_pos_iff.mpr member

theorem Lowered.edge_back {source : BlockId} {label' : Label}
    (lowered : Lowered order module labels values slots function)
    (here : Labelled labels source label) (edge : function.Edge label label') :
    ∃ target, Labelled labels target label' ∧ Edge module.block source target := by
  obtain ⟨block, found, known, _⟩ := lowered.body here
  obtain ⟨last, terminator, tail, ends, lowers, ⟨body, filled, ended⟩, _⟩ := lowered.tail_at found
  rw [LLVM.Function.Edge, LLVM.Function.edges, filled, Option.bind_some, ended,
    Option.elim_some] at edge
  obtain ⟨target, member, labelled⟩ := lowers.ids.mem (List.count_pos_iff.mp edge)
  exact ⟨target, labelled, block, known, by rwa [BasicBlock.targets_of_terminator ends]⟩

theorem Lowered.dominates_iff {dominator vertex : BlockId} {label' : Label}
    (lowered : Lowered order module labels values slots function) (verified : Verified module)
    (first : Labelled labels module.entry 0) (here : Labelled labels dominator label)
    (there : Labelled labels vertex label') :
    BlockDominates module.block module.entry dominator vertex ↔
      Dominates function.Edge 0 label label' := by
  constructor
  · exact Dominates.correspond ⟨lowered.leftUnique, Labelled.rightUnique⟩ first
      lowered.edge_back here there
  · have flipped : Relator.BiUnique (flip (Labelled labels)) :=
      ⟨fun _ _ _ first second => Labelled.rightUnique first second,
        fun _ _ _ first second => lowered.leftUnique first second⟩
    have start : flip (Labelled labels) 0 module.entry := first
    exact Dominates.correspond flipped start (lowered.edge_follow verified) here there

theorem Lowered.reaches_iff {vertex : BlockId}
    (lowered : Lowered order module labels values slots function) (verified : Verified module)
    (first : Labelled labels module.entry 0) (there : Labelled labels vertex label) :
    Reaches module vertex ↔ function.Reaches label := by
  constructor
  · intro ⟨visited, walk⟩
    obtain ⟨visited', other, walk', same, _⟩ :=
      Walk.follow first (lowered.edge_follow verified) walk
    cases there.symm.trans same
    exact ⟨visited', walk'⟩
  · intro ⟨visited, walk⟩
    have start : flip (Labelled labels) 0 module.entry := first
    obtain ⟨visited', other, walk', same, _⟩ := Walk.follow start lowered.edge_back walk
    exact ⟨visited', lowered.unique same there ▸ walk'⟩

/-- A lowered module whose entry is its first block. -/
structure Translated (order : TraversalOrder) (module : IR.Module) (labels : Labels)
    (values : Operands) (slots : CleanupSlots) (function : LLVM.Function) : Prop
    extends Lowered order module labels values slots function where
  verified : Verified module
  first : Labelled labels module.entry 0
  bodies : ∀ (index : Nat) body, function.blocks[index]? = some body →
    ∃ block, module.blocks[index]? = some block
  single : function.SingleDefinitions
  keys : ∀ value operand, values.lookup value = some operand →
    ∃ definition, module.Defines value definition

theorem offset_mono {first second : Nat} (le : first ≤ second) :
    offset operations first ≤ offset operations second := by
  induction operations generalizing first second with
  | nil => simp [offset]
  | cons operation operations ih =>
    cases first with
    | zero => simp
    | succ first =>
      cases second with
      | zero => exact absurd le (Nat.not_succ_le_zero _)
      | succ second =>
        have later := ih (Nat.le_of_succ_le_succ le)
        simp only [offset_cons_succ]
        omega

theorem LowersOperation.codeLength_pos (lowers : LowersOperation labels values slots operation code)
    (ordinary : isConstant operation = false) : 0 < codeLength operation := by
  cases lowers <;> first | exact Nat.zero_lt_succ _ | cases ordinary

/-- Where a value is defined, and what it becomes. -/
structure Place (module : IR.Module) (values : Operands) (function : LLVM.Function)
    (value : ValueId) (operand : Operand) (source : Label) (body : IR.BasicBlock) (position : Nat)
    (operation : Operation) : Prop where
  found : module.blocks[source]? = some body
  here : body.operations[position]? = some operation
  result : resultOf operation = value
  looked : values.lookup value = some operand
  constant : operand.isConstant = isConstant operation
  defines : isConstant operation = false →
    function.Defines operand source (start module body + offset body.operations position)

namespace Translated

variable (translated : Translated order module labels values slots function)
include translated

theorem place (looked : values.lookup value = some operand) :
    ∃ source body position operation,
      Place module values function value operand source body position operation := by
  obtain ⟨definition, defines⟩ := translated.keys value operand looked
  obtain ⟨body, member, position, operation, here, result, _⟩ := defines
  obtain ⟨source, found⟩ := List.getElem?_of_mem member
  obtain ⟨other, known, constant, defined⟩ := translated.value_at found here
  rw [result] at known
  cases known.symm.trans looked
  exact ⟨source, body, position, operation, found, here, result, looked, constant, defined⟩

theorem block_at (found : module.blocks[label]? = some block) :
    Labelled labels block.id label ∧ module.block block.id = some block := by
  have labelled : labels.lookup block.id = some label :=
    (translated.labelled _ _).mpr ⟨block, found, rfl⟩
  obtain ⟨other, found', known, _⟩ := translated.body labelled
  cases found.symm.trans found'
  exact ⟨labelled, known⟩

/-- The only operation that defines the value. -/
theorem operationAt_unique {source : Label} {body : IR.BasicBlock} {other : Operation}
    {block index : Nat}
    (here : Place module values function value operand source body position operation)
    (present : OperationAt module.block block index other) (result : resultOf other = value) :
    block = body.id ∧ index = position ∧ other = operation := by
  obtain ⟨body', known, at'⟩ := present
  have same : body'.id = block := by simpa using List.find?_some known
  have first : module.Defines value ⟨body'.id, index, typeOf other⟩ :=
    ⟨body', List.mem_of_find?_eq_some known, index, other, at', result, by simp⟩
  have second : module.Defines value ⟨body.id, position, typeOf operation⟩ :=
    ⟨body, List.mem_of_getElem? here.found, position, operation, here.here, here.result, by simp⟩
  have equal := translated.verified.defines_unique first second
  simp only [Definition.mk.injEq] at equal
  obtain ⟨ids, positions, _⟩ := equal
  subst same positions
  rw [ids, (translated.block_at here.found).2] at known
  cases known
  exact ⟨rfl, rfl, Option.some.inj (at'.symm.trans here.here)⟩

theorem operationAt
    (here : Place module values function value operand source body position operation) :
    OperationAt module.block body.id position operation :=
  ⟨body, (translated.block_at here.found).2, here.here⟩

theorem codeLength_pos {source : Label} {body : IR.BasicBlock}
    (here : Place module values function value operand source body position operation)
    (ordinary : isConstant operation = false) : 0 < codeLength operation := by
  obtain ⟨piece, lowers, _⟩ := translated.code_at here.found here.here
  exact lowers.codeLength_pos ordinary

/-- A value needs a definition unless its operation is a constant. -/
theorem needed_iff {source : Label} {body : IR.BasicBlock}
    (here : Place module values function value operand source body position operation)
    (there : Labelled labels id label) :
    Needed module value id ↔ isConstant operation = false ∧ function.Reaches label := by
  rw [Needed, translated.reaches_iff translated.verified translated.first there]
  apply and_congr_left'
  constructor
  · intro ordinary
    have member : operation ∈ operationsOf module :=
      List.mem_flatMap.mpr ⟨body, List.mem_of_getElem? here.found, List.mem_of_getElem? here.here⟩
    exact ordinary operation member here.result
  · intro ordinary other member result
    obtain ⟨block, present, inside⟩ := List.mem_flatMap.mp member
    obtain ⟨label', found⟩ := List.getElem?_of_mem present
    obtain ⟨index, at'⟩ := List.getElem?_of_mem inside
    obtain ⟨_, _, same⟩ := translated.operationAt_unique here
      ⟨block, (translated.block_at found).2, at'⟩ result
    rwa [same]

/-- An operand is defined before the code of an operation when its value is
defined before the operation. -/
theorem definedBefore_iff (found : module.blocks[label]? = some block)
    (looked : values.lookup value = some operand) :
    function.DefinedBefore operand label (start module block + offset block.operations index) ↔
      (Needed module value block.id →
        DefinedBefore module.block module.entry value block.id index) := by
  obtain ⟨source, body, position, origin, place⟩ := translated.place looked
  obtain ⟨labelled, _⟩ := translated.block_at found
  obtain ⟨labelled', _⟩ := translated.block_at place.found
  rw [translated.needed_iff place labelled]
  cases constant : isConstant origin with
  | true =>
    rw [LLVM.Function.DefinedBefore, place.constant, constant]
    simp
  | false =>
    have defined := place.defines constant
    have sameBlock : body.id = block.id ↔ source = label := by
      constructor
      · intro same
        exact Labelled.rightUnique labelled' (same ▸ labelled)
      · intro same
        exact translated.leftUnique labelled' (same ▸ labelled)
    have before (same : source = label) : start module body + offset body.operations position <
        start module block + offset block.operations index ↔ position < index := by
      subst same
      cases found.symm.trans place.found
      constructor
      · intro less
        by_contra late
        have monotone : offset block.operations index ≤ offset block.operations position :=
          offset_mono (Nat.le_of_not_lt late)
        omega
      · intro less
        have ends := offset_add_le less place.here
        have positive := translated.codeLength_pos place constant
        omega
    have dominates :=
      translated.dominates_iff translated.verified translated.first labelled' labelled
    constructor
    · intro placed ⟨_, reaches⟩
      refine ⟨body.id, position, origin, translated.operationAt place, place.result, ?_⟩
      rcases placed with impossible | ⟨source', position', there, placed⟩
      · rw [place.constant, constant] at impossible
        cases impossible
      · obtain ⟨rfl, rfl⟩ := translated.single _ _ _ _ _ there defined
        exact (placed reaches).imp (fun ⟨same, less⟩ => ⟨sameBlock.mpr same, (before same).mp less⟩)
          fun ⟨different, dominated⟩ => ⟨different ∘ sameBlock.mp, dominates.mpr dominated⟩
    · intro placed
      refine .inr ⟨source, _, defined, fun reaches => ?_⟩
      obtain ⟨source', position', other, present, result, placed⟩ := placed ⟨rfl, reaches⟩
      obtain ⟨rfl, rfl, _⟩ := translated.operationAt_unique place present result
      exact placed.imp (fun ⟨same, less⟩ => ⟨sameBlock.mp same,
        (before (sameBlock.mp same)).mpr less⟩)
        fun ⟨different, dominated⟩ => ⟨different ∘ sameBlock.mpr, dominates.mp dominated⟩

theorem definedAtEnd_iff (there : Labelled labels id label)
    (looked : values.lookup value = some operand) :
    function.DefinedAtEnd operand label ↔
      (Needed module value id → DefinedAtEnd module.block module.entry value id) := by
  obtain ⟨source, body, position, origin, place⟩ := translated.place looked
  obtain ⟨labelled, _⟩ := translated.block_at place.found
  rw [translated.needed_iff place there]
  cases constant : isConstant origin with
  | true =>
    rw [LLVM.Function.DefinedAtEnd, place.constant, constant]
    simp
  | false =>
    have defined := place.defines constant
    have dominates := translated.dominates_iff translated.verified translated.first labelled there
    constructor
    · intro placed ⟨_, reaches⟩
      refine ⟨body.id, position, origin, translated.operationAt place, place.result, ?_⟩
      rcases placed with impossible | ⟨source', position', there, placed⟩
      · rw [place.constant, constant] at impossible
        cases impossible
      · obtain ⟨rfl, rfl⟩ := translated.single _ _ _ _ _ there defined
        exact dominates.mpr (placed reaches)
    · intro placed
      refine .inr ⟨source, _, defined, fun reaches => ?_⟩
      obtain ⟨source', position', other, present, result, placed⟩ := placed ⟨rfl, reaches⟩
      obtain ⟨rfl, rfl, _⟩ := translated.operationAt_unique place present result
      exact dominates.mp placed

end Translated

end Ocelotl.Codegen
