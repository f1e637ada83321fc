import Ocelotl.Codegen.Halting
import Ocelotl.IR.Size

namespace Ocelotl.Codegen

open Ast Frontend Semantic IR Library LLVM Driver IRGenerator

variable {order : TraversalOrder} {module : IR.Module} {labels : Labels} {values : Operands}
  {slots : CleanupSlots} {function : LLVM.Function} {id : BlockId} {last : IR.Terminator}
  {terminator : LLVM.Terminator} {operations : List Operation} {code : List Instruction}
  {block : IR.BasicBlock} {body : LLVM.BasicBlock}

/-- The number of tensors that a module declares. -/
def tensorsOf (module : IR.Module) : Nat := (declaredTensors (operationsOf module)).length

/-- What the instructions of a function with so many cleanup slots count for. -/
def codeWeights (tensors : Nat) : Weights where
  declaration := 2
  arithmetic := 1
  phi := 1
  returns := 2 * tensors + 1
  block := 1

private theorem length_releaseCode (register : RegisterId) (released : List (ValueId × SlotId)) :
    (releaseCode register released).length = 2 * released.length := by
  induction released generalizing register with
  | nil => rfl
  | cons entry released ih =>
    rw [releaseCode, List.length_cons, List.length_cons, ih, List.length_cons]
    omega

private theorem length_slotCode (count : Nat) : (slotCode (List.range count)).length = 2 * count := by
  simp [slotCode, List.length_flatMap, Nat.mul_comm]

/-- There is no more than one slot for each declared tensor. -/
theorem Lowered.slots_length (lowered : Lowered order module labels values slots function) :
    (order.traverse id slots).length ≤ tensorsOf module := by
  rw [← List.length_map Prod.fst]
  refine (List.Nodup.subperm (order.nodup_traverse id slots) fun tensor member => ?_).length_le
  obtain ⟨entry, listed, rfl⟩ := List.mem_map.mp member
  exact List.mem_of_getElem? ((lowered.slotted entry.1 entry.2).mp (order.mem_traverse.mp listed))

private theorem weight_codeLength {tensors : Nat} (operation : Operation) :
    (codeWeights tensors).operation operation = codeLength operation := by
  cases operation <;> rfl

theorem LowersRest.length_le {tensors : Nat} (few : (order.traverse id slots).length ≤ tensors)
    (lowers : LowersRest order labels values slots id last terminator operations code) :
    code.length ≤ (operations.map (codeWeights tensors).operation).sum +
      (codeWeights tensors).terminator last := by
  induction lowers with
  | terminator tail =>
    cases tail with
    | branch | condBranch => exact Nat.zero_le _
    | returnOp _ _ =>
      rw [List.length_append, length_releaseCode]
      simp only [List.map_nil, List.sum_nil, Weights.terminator, codeWeights, List.length_cons,
        List.length_nil]
      omega
  | operation lowers _ ih =>
    rw [List.length_append, lowers.length, List.map_cons, List.sum_cons, weight_codeLength]
    omega

/-- The code of a block, without the slots of the entry. -/
theorem Lowered.body_length (lowered : Lowered order module labels values slots function)
    (lowers : LowersBlock order labels values slots block (prologue module block) body) :
    body.instructions.length + 1 ≤
      (prologue module block).length + (codeWeights (tensorsOf module)).body block := by
  obtain ⟨last, terminator, code, ends, rest, instructions, _⟩ := lowers
  have bound := rest.length_le lowered.slots_length
  rw [instructions, List.length_append, Weights.body, ends]
  have one : (codeWeights (tensorsOf module)).block = 1 := rfl
  simp only [Option.elim_some]
  omega

/-- Only one block has the slots. -/
theorem sum_prologue (distinct : (module.blocks.map IR.BasicBlock.id).Nodup) :
    (module.blocks.map fun block => (prologue module block).length).sum ≤ 2 * tensorsOf module := by
  suffices bounded : ∀ blocks : List IR.BasicBlock, (blocks.map IR.BasicBlock.id).Nodup →
      (blocks.map fun block => (prologue module block).length).sum ≤
        if module.entry ∈ blocks.map IR.BasicBlock.id then 2 * tensorsOf module else 0 by
    refine (bounded module.blocks distinct).trans ?_
    split
    · exact Nat.le_refl _
    · exact Nat.zero_le _
  intro blocks distinct
  induction blocks with
  | nil => simp
  | cons block blocks ih =>
    obtain ⟨fresh, distinct⟩ := List.nodup_cons.mp distinct
    have rest := ih distinct
    rw [List.map_cons, List.sum_cons, List.map_cons]
    by_cases isEntry : block.id = module.entry
    · rw [if_neg (isEntry ▸ fresh)] at rest
      rw [prologue, if_pos isEntry, length_slotCode, if_pos (isEntry ▸ List.mem_cons_self)]
      exact Nat.add_le_add_left rest _
    · rw [prologue, if_neg isEntry, List.length_nil, Nat.zero_add]
      refine rest.trans ?_
      split
      · rename_i later
        rw [if_pos (List.mem_cons_of_mem _ later)]
      · exact Nat.zero_le _

private theorem sum_le_of_forall₂ {α β : Type} {items : List α} {others : List β} {size : β → Nat}
    {more weight : α → Nat}
    (each : List.Forall₂ (fun item other => size other ≤ more item + weight item) items others) :
    (others.map size).sum ≤ (items.map more).sum + (items.map weight).sum := by
  induction each with
  | nil => exact Nat.zero_le _
  | cons here _ ih =>
    simp only [List.map_cons, List.sum_cons]
    omega

/-- A lowered function is as long as its module weighs, and the slots of its entry. -/
theorem codeSize_lowered {final : Builder} (verified : Verified module)
    (success : lowerModule order module {} = .ok () final) : codeSize final.function.blocks ≤
      2 * tensorsOf module + (codeWeights (tensorsOf module)).module module.blocks := by
  obtain ⟨labels, lowered⟩ := lowerModule_lowered verified success
  have filled (index : Nat) {body} (found : final.function.blocks[index]? = some body) :
      ∃ block, module.blocks[index]? = some block ∧
        LowersBlock order labels final.values final.cleanupSlots block
        (prologue module block) body := by
    obtain ⟨block, there⟩ := lowerModule_bodies verified success found
    obtain ⟨body', found', lowers⟩ := lowered.filled index block there
    cases found.symm.trans found'
    exact ⟨block, there, lowers⟩
  have same : module.blocks.length = final.function.blocks.length := by
    refine Nat.le_antisymm (Nat.le_of_not_lt fun less => ?_) (Nat.le_of_not_lt fun less => ?_)
    · obtain ⟨body, found, _⟩ := lowered.filled _ _ (List.getElem?_eq_getElem less)
      exact Nat.lt_irrefl _ (List.getElem?_eq_some_iff.mp found).1
    · obtain ⟨block, found, _⟩ := filled _ (List.getElem?_eq_getElem less)
      exact Nat.lt_irrefl _ (List.getElem?_eq_some_iff.mp found).1
  have each : List.Forall₂ (fun block body => body.instructions.length + 1 ≤
      (prologue module block).length + (codeWeights (tensorsOf module)).body block)
      module.blocks final.function.blocks := by
    refine List.forall₂_iff_get.mpr ⟨same, fun index within within' => ?_⟩
    obtain ⟨block, there, lowers⟩ := filled index (List.getElem?_eq_getElem within')
    have here := (List.getElem?_eq_some_iff.mp there).2
    rw [List.get_eq_getElem, List.get_eq_getElem, here]
    exact lowered.body_length lowers
  exact (sum_le_of_forall₂ each).trans (Nat.add_le_add_right (sum_prologue verified.ids) _)

/-- What only counts declarations. -/
def declarationWeights : Weights where
  declaration := 1
  arithmetic := 0
  phi := 0
  returns := 0
  block := 0

private theorem length_filter_declaresTensor (operations : List Operation) :
    (operations.filter declaresTensor).length =
      (operations.map declarationWeights.operation).sum := by
  induction operations with
  | nil => rfl
  | cons operation operations ih =>
    rw [List.map_cons, List.sum_cons, ← ih]
    cases operation
    case tensorDecl result name type =>
      rw [List.filter_cons_of_pos rfl, List.length_cons]
      exact Nat.add_comm _ _
    all_goals
      rw [List.filter_cons_of_neg (by simp [declaresTensor])]
      exact (Nat.zero_add _).symm

private theorem tensorsOf_eq : tensorsOf module = declarationWeights.module module.blocks := by
  rw [tensorsOf, declaredTensors, List.length_map, operationsOf]
  unfold Weights.module
  induction module.blocks with
  | nil => rfl
  | cons block blocks ih =>
    rw [List.flatMap_cons, List.filter_append, List.length_append, ih, List.map_cons, List.sum_cons,
      length_filter_declaresTensor, Weights.body]
    have unweighted : block.terminator.elim 0 declarationWeights.terminator = 0 := by
      rcases block.terminator with _ | (_ | _ | _) <;> rfl
    rw [unweighted]
    exact congrArg (· + _) (Nat.zero_add _).symm

private theorem budget_codeWeights {tensors names : Nat} {tally : Tally} :
    (codeWeights tensors).budget names tally =
    2 * tally.declarations + tally.operators + (2 * tensors + 1) * tally.returns + (3 + names) *
      tally.conditionals := by
  simp [Weights.budget, codeWeights]

private theorem budget_declarationWeights {names : Nat} {tally : Tally} :
    declarationWeights.budget names tally = tally.declarations := by
  simp [Weights.budget, declarationWeights]

/-- A bound on the length of the code of a program. -/
def codeBound (tally : Tally) : Nat :=
  4 * tally.declarations + tally.operators + (2 * tally.declarations + 1) * tally.returns +
    (3 + tally.bindings) * tally.conditionals + 1

/-- The length of the code in terms of the program. -/
theorem codeSize_le {irOrder : TraversalOrder} {verifyModule : LLVM.Function → Except String Unit}
    {program : Program} {analyzer : SemanticAnalyzer}
    (generated : IR.generate irOrder analyzer program = .ok module)
    (lowers : Codegen.generate order verifyModule module = .ok function) :
    codeSize function.blocks ≤ codeBound (tallyIn program.statements) := by
  obtain ⟨accepted, _, builder, lowered, rfl, _⟩ := generate_ok.mp lowers
  obtain ⟨final, success, _, rfl⟩ := IR.generate_ok.mp generated
  have size := codeSize_lowered (verify_ok_iff.mp accepted) lowered
  have weighs : (codeWeights (tensorsOf final.module)).module final.module.blocks ≤ 1 + _ :=
    generateUnverified_weight success
  have few : declarationWeights.module final.module.blocks ≤ 0 + _ :=
    generateUnverified_weight success
  rw [← tensorsOf_eq] at few
  rw [budget_declarationWeights, Nat.zero_add] at few
  rw [budget_codeWeights] at weighs
  have released : (2 * tensorsOf final.module + 1) * (tallyIn program.statements).returns ≤
      (2 * (tallyIn program.statements).declarations + 1) * (tallyIn program.statements).returns :=
    Nat.mul_le_mul_right _ (Nat.add_le_add_right (Nat.mul_le_mul_left 2 few) 1)
  rw [codeBound]
  omega

end Ocelotl.Codegen
