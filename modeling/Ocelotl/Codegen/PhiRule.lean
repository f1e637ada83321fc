import Ocelotl.Codegen.LoweredCode

/-! The law for phis in LLVM against the rule of the verifier. LLVM counts the
edges into a block, where the verifier compares sets of predecessors. -/

namespace Ocelotl.LLVM

def Instruction.isPhi : Instruction → Bool
  | .phi _ _ _ => true
  | _ => false

def Terminator.targets : Terminator → List Label
  | .br target => [target]
  | .condBr _ trueTarget falseTarget => [trueTarget, falseTarget]
  | .ret _ => []

/-- How many edges of the control flow graph lead from the one block to the other. -/
def Function.edges (function : Function) (source target : Label) : Nat :=
  (((function.blocks[source]?).bind BasicBlock.terminator).elim [] Terminator.targets).count target

/-- Every phi has as many entries for each block as there are edges from that
block. LLVM asks no more: in a block without predecessors a phi may be empty. -/
def EntriesMatchEdges (function : Function) : Prop :=
  ∀ label body, function.blocks[label]? = some body →
    ∀ result type incoming, .phi result type incoming ∈ body.instructions →
      ∀ source, (incoming.map Prod.snd).count source = function.edges source label

end Ocelotl.LLVM

namespace Ocelotl.Codegen

open IR Library LLVM

variable {order : TraversalOrder} {module : IR.Module} {labels : Labels} {values : Operands}
  {slots : CleanupSlots} {function : LLVM.Function} {id : BlockId} {label : Label}

/-- No block branches twice to a block with a phi. -/
def PhisBranchedOnce (module : IR.Module) : Prop :=
  ∀ block ∈ module.blocks, ∀ operation ∈ block.operations, operation.isPhi = true →
    ∀ other ∈ module.blocks, other.targets.count block.id ≤ 1

/-- Each block id is lowered to its label. -/
abbrev LowersIds (labels : Labels) (ids : List BlockId) (lowered : List Label) : Prop :=
  List.Forall₂ (fun id label => labels.lookup id = some label) ids lowered

/-- A label occurs as often as the block id it belongs to. -/
theorem LowersIds.count {ids : List BlockId} {lowered : List Label}
    (each : LowersIds labels ids lowered)
    (injective : ∀ {id id' label}, labels.lookup id = some label →
      labels.lookup id' = some label → id = id')
    (found : labels.lookup id = some label) : lowered.count label = ids.count id := by
  induction each with
  | nil => rfl
  | @cons other otherLabel ids lowered here _ ih =>
    rw [List.count_cons, List.count_cons, ih]
    by_cases same : other = id
    · subst same
      cases here.symm.trans found
      simp
    · have different : otherLabel ≠ label := fun equal => same (injective here (equal ▸ found))
      simp [same, different]

theorem LowersIds.mem {ids : List BlockId} {lowered : List Label}
    (each : LowersIds labels ids lowered) (member : label ∈ lowered) :
    ∃ id ∈ ids, labels.lookup id = some label := by
  induction each with
  | nil => cases member
  | cons here _ ih =>
    rcases List.mem_cons.mp member with rfl | later
    · exact ⟨_, List.mem_cons_self, here⟩
    · obtain ⟨id, member, found⟩ := ih later
      exact ⟨id, List.mem_cons_of_mem _ member, found⟩

/-- The incoming blocks of a phi. -/
theorem LowersIncoming.ids {incoming : List PhiIncoming} {sources : List (Operand × Label)}
    (each : List.Forall₂ (LowersIncoming labels values) incoming sources) :
    LowersIds labels (incoming.map PhiIncoming.predecessor) (sources.map Prod.snd) := by
  induction each with
  | nil => exact .nil
  | cons here _ ih => exact .cons here.2 ih

theorem LowersTerminator.ids {last : IR.Terminator} {tail : List Instruction}
    {terminator : LLVM.Terminator}
    (lowers : LowersTerminator order labels values slots id last tail terminator) :
    LowersIds labels last.targets terminator.targets := by
  cases lowers with
  | branch found => exact .cons found .nil
  | condBranch _ first second => exact .cons first (.cons second .nil)
  | returnOp _ _ => exact .nil

private theorem slotCode_no_phi {slots : List SlotId} :
    ∀ instruction ∈ slotCode slots, instruction.isPhi = false := by
  intro instruction member
  obtain ⟨slot, _, here⟩ := List.mem_flatMap.mp member
  simp only [List.mem_cons, List.not_mem_nil, or_false] at here
  rcases here with rfl | rfl <;> rfl

private theorem releaseCode_no_phi {register : RegisterId} {entries : List (ValueId × SlotId)} :
    ∀ instruction ∈ releaseCode register entries, instruction.isPhi = false := by
  induction entries generalizing register with
  | nil => simp [releaseCode]
  | cons entry entries ih => simpa [releaseCode, Instruction.isPhi] using ih

variable {operations : List Operation} {code tail : List Instruction} {last : IR.Terminator}
  {terminator : LLVM.Terminator} {register : RegisterId} {scalar : ScalarType}
  {sources : List (Operand × Label)}

theorem LowersTerminator.no_phi
    (lowers : LowersTerminator order labels values slots id last tail terminator) :
    ∀ instruction ∈ tail, instruction.isPhi = false := by
  cases lowers with
  | branch | condBranch => simp
  | returnOp _ _ =>
    intro instruction member
    rcases List.mem_append.mp member with release | status
    · exact releaseCode_no_phi instruction release
    · cases List.mem_singleton.mp status
      rfl

/-- The phis of the code are those of the operations. -/
theorem LowersRest.phi_of_mem
    (lowers : LowersRest order labels values slots id last terminator operations code)
    (member : .phi register scalar sources ∈ code) :
    ∃ result type incoming, .phi result type incoming ∈ operations ∧
      List.Forall₂ (LowersIncoming labels values) incoming sources := by
  induction lowers with
  | terminator final => cases final.no_phi _ member
  | operation here _ ih =>
    rcases List.mem_append.mp member with first | later
    · cases here with
      | phi _ each _ =>
        cases List.mem_singleton.mp first
        exact ⟨_, _, _, List.mem_cons_self, each⟩
      | compare _ _ _ =>
        have same := List.mem_singleton.mp first
        rw [compareInstruction] at same
        split at same <;> cases same
      | tensorDecl | constantInt | constantFloat | binary => simp at first
    · obtain ⟨result, type, incoming, present, each⟩ := ih later
      exact ⟨result, type, incoming, List.mem_cons_of_mem _ present, each⟩

theorem LowersRest.mem_of_phi {result : ValueId} {type : TensorType} {incoming : List PhiIncoming}
    (lowers : LowersRest order labels values slots id last terminator operations code)
    (present : .phi result type incoming ∈ operations) :
    ∃ register scalar sources, .phi register scalar sources ∈ code ∧
      List.Forall₂ (LowersIncoming labels values) incoming sources := by
  induction lowers with
  | terminator _ => cases present
  | operation here _ ih =>
    rcases List.mem_cons.mp present with same | later
    · subst same
      cases here with
      | phi _ each _ => exact ⟨_, _, _, List.mem_append_left _ List.mem_cons_self, each⟩
    · obtain ⟨register, scalar, sources, member, each⟩ := ih later
      exact ⟨register, scalar, sources, List.mem_append_right _ member, each⟩

theorem LowersRest.exists_terminator
    (lowers : LowersRest order labels values slots id last terminator operations code) :
    ∃ tail, LowersTerminator order labels values slots id last tail terminator := by
  induction lowers with
  | terminator final => exact ⟨_, final⟩
  | operation _ _ ih => exact ih

theorem prologue_no_phi {block : IR.BasicBlock} :
    ∀ instruction ∈ prologue module block, instruction.isPhi = false := by
  rw [prologue]
  split
  · exact slotCode_no_phi
  · simp

/-- The edges of the function are those of the module. -/
theorem Lowered.edges (lowered : Lowered order module labels values slots function)
    {source target : IR.BasicBlock} {sourceLabel targetLabel : Label}
    (found : module.blocks[sourceLabel]? = some source)
    (here : labels.lookup target.id = some targetLabel) :
    function.edges sourceLabel targetLabel = source.targets.count target.id := by
  obtain ⟨body, filled, last, terminator, code, ends, rest, _, ended⟩ :=
    lowered.filled sourceLabel source found
  rw [Function.edges, filled, Option.bind_some, ended, Option.elim_some,
    BasicBlock.targets_of_terminator ends]
  obtain ⟨tail, final⟩ := rest.exists_terminator
  exact final.ids.count (label_unique lowered.labelled) here

/-- A phi of a verified module lists a block as often as it is a predecessor. -/
theorem count_predecessor (verified : Verified module) {block source : IR.BasicBlock}
    {operation : Operation} (member : block ∈ module.blocks) (here : operation ∈ block.operations)
    (phi : operation.isPhi = true) (member' : source ∈ module.blocks) :
    (operation.incoming.map PhiIncoming.predecessor).count source.id =
      if block.id ∈ source.targets then 1 else 0 := by
  obtain ⟨nodup, sources⟩ := verified.predecessors block member operation here phi
  have listed : source.id ∈ operation.incoming.map PhiIncoming.predecessor ↔
      block.id ∈ source.targets := by
    rw [sources source.id]
    constructor
    · intro ⟨other, present, same, edge⟩
      rwa [List.inj_on_of_nodup_map verified.ids present member' same] at edge
    · intro edge
      exact ⟨source, member', rfl, edge⟩
  rw [nodup.count]
  simp only [listed]

/-- The entries of a phi match the edges when no block branches to it twice. -/
theorem Lowered.entries_iff (verified : Verified module)
    (lowered : Lowered order module labels values slots function)
    (bodies : ∀ (index : Nat) body, function.blocks[index]? = some body →
      ∃ block, module.blocks[index]? = some block)
    {block : IR.BasicBlock} (found : module.blocks[label]? = some block) {result : ValueId}
    {type : TensorType} {incoming : List PhiIncoming}
    (here : .phi result type incoming ∈ block.operations)
    (each : List.Forall₂ (LowersIncoming labels values) incoming sources) :
    (∀ source, (sources.map Prod.snd).count source = function.edges source label) ↔
      ∀ other ∈ module.blocks, other.targets.count block.id ≤ 1 := by
  have member := List.mem_of_getElem? found
  have labelled : labels.lookup block.id = some label :=
    (lowered.labelled _ _).mpr ⟨block, found, rfl⟩
  have count {other : IR.BasicBlock} {index : Nat} (at' : module.blocks[index]? = some other) :
      (sources.map Prod.snd).count index = if block.id ∈ other.targets then 1 else 0 := by
    have present := List.mem_of_getElem? at'
    rw [(LowersIncoming.ids each).count (label_unique lowered.labelled)
      ((lowered.labelled _ _).mpr ⟨other, at', rfl⟩)]
    exact count_predecessor verified member here rfl present
  have edges {other : IR.BasicBlock} {index : Nat} (at' : module.blocks[index]? = some other) :
      function.edges index label = other.targets.count block.id := lowered.edges at' labelled
  constructor
  · intro same other present
    obtain ⟨index, at'⟩ := List.getElem?_of_mem present
    rw [← edges at', ← same index, count at']
    split <;> omega
  · intro single index
    cases at' : module.blocks[index]? with
    | some source =>
      rw [edges at', count at']
      have least := single source (List.mem_of_getElem? at')
      split
      · rename_i edge
        have some := List.count_pos_iff.mpr edge
        omega
      · rename_i none
        exact (List.count_eq_zero_of_not_mem none).symm
    | none =>
      have missing : function.blocks[index]? = none := by
        cases body : function.blocks[index]? with
        | none => rfl
        | some _ =>
          obtain ⟨_, found⟩ := bodies index _ body
          simp [at'] at found
      have unlisted : index ∉ sources.map Prod.snd := by
        intro listed
        obtain ⟨id, _, same⟩ := (LowersIncoming.ids each).mem listed
        obtain ⟨_, found, _⟩ := (lowered.labelled _ _).mp same
        simp [at'] at found
      rw [List.count_eq_zero_of_not_mem unlisted]
      simp [Function.edges, missing]

/-- The phis of the function are those of the module, with their entries. -/
theorem Lowered.phi_back (lowered : Lowered order module labels values slots function)
    (bodies : ∀ (index : Nat) body, function.blocks[index]? = some body →
      ∃ block, module.blocks[index]? = some block)
    {body : LLVM.BasicBlock} (filled : function.blocks[label]? = some body)
    (present : .phi register scalar sources ∈ body.instructions) :
    ∃ block, module.blocks[label]? = some block ∧ ∃ result type incoming,
      .phi result type incoming ∈ block.operations ∧
        List.Forall₂ (LowersIncoming labels values) incoming sources := by
  obtain ⟨block, found⟩ := bodies label body filled
  obtain ⟨body', filled', last, terminator, instructions, _, rest, same, _⟩ :=
    lowered.filled label block found
  cases filled.symm.trans filled'
  rw [same] at present
  rcases List.mem_append.mp present with before | after
  · cases prologue_no_phi _ before
  · exact ⟨block, found, rest.phi_of_mem after⟩

theorem Lowered.phi_forth (lowered : Lowered order module labels values slots function)
    {block : IR.BasicBlock} (found : module.blocks[label]? = some block) {result : ValueId}
    {type : TensorType} {incoming : List PhiIncoming}
    (here : .phi result type incoming ∈ block.operations) :
    ∃ body, function.blocks[label]? = some body ∧ ∃ register scalar sources,
      .phi register scalar sources ∈ body.instructions ∧
        List.Forall₂ (LowersIncoming labels values) incoming sources := by
  obtain ⟨body, filled, last, terminator, instructions, _, rest, same, _⟩ :=
    lowered.filled label block found
  obtain ⟨register, scalar, sources, present, each⟩ := rest.mem_of_phi here
  refine ⟨body, filled, register, scalar, sources, ?_, each⟩
  rw [same]
  exact List.mem_append_right _ present

/-- LLVM's own rule. -/
theorem Lowered.entriesMatchEdges_iff (verified : Verified module)
    (code : Lowered order module labels values slots function)
    (bodies : ∀ (index : Nat) body, function.blocks[index]? = some body →
      ∃ block, module.blocks[index]? = some block) :
    EntriesMatchEdges function ↔ PhisBranchedOnce module := by
  constructor
  · intro rule block member operation here phi
    obtain ⟨label, found⟩ := List.getElem?_of_mem member
    cases operation with
    | phi result type incoming =>
      obtain ⟨body, filled, register, scalar, sources, present, each⟩ := code.phi_forth found here
      exact (code.entries_iff verified bodies found here each).mp
        (rule label body filled _ _ _ present)
    | _ => cases phi
  · intro once label body filled register scalar sources present
    obtain ⟨block, found, result, type, incoming, here, each⟩ := code.phi_back bodies filled present
    exact (code.entries_iff verified bodies found here each).mpr
      (once block (List.mem_of_getElem? found) _ here rfl)

/-- A phi after a plain branch. -/
def branchedOnce : IR.Module where
  entry := 0
  blocks := [
    { id := 0, name := "entry", operations := [.constantInt 0 1 (.scalar "i64")],
      terminator := some (.branch 1) },
    { id := 1, name := "next", operations := [.phi 1 (.scalar "i64") [⟨0, 0⟩]],
      terminator := some (.returnOp 1) }]

end Ocelotl.Codegen
