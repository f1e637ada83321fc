import Ocelotl.Codegen.LLVMVerifier
import Ocelotl.Codegen.SinglePass

namespace Ocelotl.Codegen

open IR Library LLVM

variable {builder middle final : Builder} {labels : Labels} {needsRuntime : Bool}
  {order : TraversalOrder} {operation : Operation} {operations : List Operation}
  {module : IR.Module} {value : ValueId} {index : Nat}

/-- Everything that the lowering of an operation looks up. -/
def reads (operation : Operation) : List ValueId :=
  operation.operands ++ operation.incoming.map PhiIncoming.value

private theorem mem_of_lookup {values : Operands} {operand : Operand}
    (looked : values.lookup value = some operand) :
    value ∈ values := AList.lookup_isSome.mp (by rw [looked]; rfl)

/-- Only a phi finds its own value. -/
theorem lowerOperation_reads
    (success : lowerOperation needsRuntime labels operation builder = .ok () final)
    (read : value ∈ reads operation) :
    value ∈ builder.values ∨ value = resultOf operation ∧ operation.isPhi = true := by
  cases operation with
  | tensorDecl | constantInt | constantFloat => cases read
  | binary result kind lhs rhs type | compare result kind lhs rhs type =>
    simp only [lowerOperation, bind_ok, valueAt_ok] at success
    obtain ⟨lhsOperand, _, ⟨left, same⟩, rhsOperand, _, ⟨right, same'⟩, _⟩ := success
    subst same same'
    rcases List.mem_pair.mp read with rfl | rfl
    · exact .inl (mem_of_lookup left)
    · exact .inl (mem_of_lookup right)
  | phi result type incoming =>
    rw [lowerOperation] at success
    cases scalar : lowerType type with
    | none => simp [scalar] at success
    | some scalarType =>
      simp only [scalar] at success
      split at success
      · cases success
      · simp only [bind_ok, lowerIncoming_ok] at success
        obtain ⟨register, created, creates, _, named, names, sources, _, ⟨each, _⟩, _⟩ := success
        cases creates
        cases names
        obtain ⟨source, member, same⟩ := List.mem_map.mp read
        obtain ⟨_, _, looked, _⟩ := LowersIncoming.mem each member
        rcases UnorderedMap.mem_emplace.mp (mem_of_lookup looked) with old | self
        · exact .inl (same ▸ old)
        · exact .inr ⟨same ▸ self, rfl⟩
  | matMul _ _ _ _ | relu _ _ _ => simp [lowerOperation] at success

private theorem lowerOperations_reads
    (success : lowerOperations needsRuntime labels operations builder = .ok () final)
    (here : operations[index]? = some operation) (read : value ∈ reads operation) :
    value ∈ builder.values ∨ (∃ (position : Nat) (earlier : Operation), position < index ∧
        operations[position]? = some earlier ∧ resultOf earlier = value) ∨
      value = resultOf operation ∧ operation.isPhi = true := by
  induction operations generalizing builder index with
  | nil => cases here
  | cons first operations ih =>
    obtain ⟨middle, lowered, rest⟩ := then_ok.mp success
    cases index with
    | zero =>
      cases here
      exact (lowerOperation_reads lowered read).imp_right .inr
    | succ index =>
      rcases ih rest here with present | ⟨position, earlier, less, at', result⟩ | self
      · obtain ⟨⟨operand, values⟩, _⟩ := lowerOperation_values lowered
        rw [values] at present
        rcases UnorderedMap.mem_emplace.mp present with old | same
        · exact .inl old
        · exact .inr (.inl ⟨0, first, Nat.zero_lt_succ _, rfl, same.symm⟩)
      · exact .inr (.inl ⟨position + 1, earlier, Nat.succ_lt_succ less, at', result⟩)
      · exact .inr (.inr self)

private theorem lowerTerminator_reads {id : BlockId} {last : IR.Terminator}
    (success : lowerTerminator needsRuntime labels order id last builder = .ok () final)
    (read : value ∈ last.operands) : value ∈ builder.values := by
  cases last with
  | branch target => cases read
  | condBranch condition trueTarget falseTarget =>
    simp only [lowerTerminator, bind_ok, valueAt_ok] at success
    obtain ⟨operand, _, ⟨tested, _⟩, _⟩ := success
    cases List.mem_singleton.mp read
    exact mem_of_lookup tested
  | returnOp returned =>
    simp only [lowerTerminator, bind_ok, get_apply, valueAt_ok] at success
    obtain ⟨_, start, same, _, released, releases, operand, _, ⟨looked, _⟩, _⟩ := success
    cases same
    have same := releaseSlots_ok releases
    subst same
    cases List.mem_singleton.mp read
    exact mem_of_lookup looked

/-- Whatever a block reads is defined earlier, unless it is the value of the
phi that reads it. -/
theorem lowerBlocks_reads {done blocks : List IR.BasicBlock}
    (split : module.blocks = done ++ blocks)
    (defined : ∀ value, value ∈ builder.values → value ∈ done.flatMap IR.BasicBlock.results)
    (success : lowerBlocks needsRuntime labels order blocks builder = .ok () final) {place : Nat}
    {block : IR.BasicBlock} (found : blocks[place]? = some block) :
    (∀ (index : Nat) operation, block.operations[index]? = some operation →
      ∀ value ∈ reads operation,
      DefinedEarlier module value (done.length + place) index ∨
        value = resultOf operation ∧ operation.isPhi = true) ∧
    ∀ last, block.terminator = some last → ∀ value ∈ last.operands,
      DefinedEarlier module value (done.length + place) block.operations.length := by
  induction blocks generalizing builder done place with
  | nil => cases found
  | cons first blocks ih =>
    obtain ⟨middle, lowered, rest⟩ := then_ok.mp success
    cases place with
    | zero =>
      cases found
      have here : module.blocks[done.length]? = some block := by simp [split]
      have older {value index} (present : value ∈ builder.values) :
          DefinedEarlier module value done.length index := by
        obtain ⟨body, member, listed⟩ := List.mem_flatMap.mp (defined value present)
        obtain ⟨operation, inside, result⟩ := List.mem_map.mp listed
        obtain ⟨source, at'⟩ := List.getElem?_of_mem member
        obtain ⟨position, at''⟩ := List.getElem?_of_mem inside
        have less := (List.getElem?_eq_some_iff.mp at').1
        refine ⟨source, position, body, operation, ?_, at'', result, .inl less⟩
        rw [split, List.getElem?_append_left less, at']
      simp only [lowerBlock, bind_ok, labelAt_ok] at lowered
      obtain ⟨label, _, ⟨_, same⟩, _, moved, moves, _, filled, lowers, lowered⟩ := lowered
      subst same
      cases moves
      constructor
      · intro index operation at' value read
        rcases lowerOperations_reads lowers at' read with
          old | ⟨position, earlier, less, at'', result⟩ | self
        · exact .inl (older old)
        · exact .inl ⟨done.length, position, block, earlier, here, at'', result, .inr ⟨rfl, less⟩⟩
        · exact .inr self
      · intro last ends value read
        simp only [ends] at lowered
        obtain ⟨members, _⟩ := lowerOperations_values lowers
        rcases (members value).mp (lowerTerminator_reads lowered read) with old | new
        · exact older old
        · obtain ⟨operation, inside, result⟩ := List.mem_map.mp new
          obtain ⟨position, at'⟩ := List.getElem?_of_mem inside
          exact ⟨done.length, position, block, operation, here, at', result,
            .inr ⟨rfl, (List.getElem?_eq_some_iff.mp at').1⟩⟩
    | succ place =>
      obtain ⟨members, _⟩ := lowerBlock_values lowered
      have split' : module.blocks = (done ++ [first]) ++ blocks := by simp [split]
      have shift : (done ++ [first]).length + place = done.length + (place + 1) := by
        rw [List.length_append, List.length_singleton]
        omega
      rw [← shift]
      refine ih split' (fun value present => ?_) rest found
      rw [List.flatMap_append, List.mem_append]
      rcases (members value).mp present with old | new
      · exact .inl (defined value old)
      · exact .inr (by simpa using new)

/-- A module that is lowered has every definition before its uses. -/
theorem lowerModule_ordered (verified : Verified module)
    (success : lowerModule order module {} = .ok () final) : DefinitionOrdered module := by
  obtain ⟨labels, entry, started, labelled, _, slotted, same⟩ := lowerModule_eq order verified
  rw [same] at success
  have none (value) : value ∉ started.values := by simp [slotted.values, Builder.created]
  have each {place block} (found : module.blocks[place]? = some block) :=
    lowerBlocks_reads (List.nil_append module.blocks).symm
      (fun value present => absurd present (none value))
      success found
  simp only [List.length_nil, Nat.zero_add] at each
  constructor
  · intro place index block operation found here value read
    rcases (each found).1 index operation here value read with earlier | ⟨self, phi⟩
    · exact earlier
    · have member := List.mem_of_getElem? found
      have listed : ∃ incoming ∈ operation.incoming, incoming.value = value := by
        cases operation with
        | phi result type incoming => simpa [Operation.operands, Operation.incoming] using read
        | _ => cases phi
      obtain ⟨incoming, inside, same⟩ := listed
      obtain ⟨definition, defines, _, before⟩ :=
        verified.incoming block member index operation here incoming inside
      have own : module.Defines value ⟨block.id, 0 + index, typeOf operation⟩ :=
        ⟨block, member, index, operation, here, self.symm, rfl⟩
      cases verified.defines_unique (same ▸ defines) own
      exact absurd ⟨rfl, by simp⟩ before
  · exact fun place block last found => (each found).2 last

/-- The back end supports every operation. -/
def Supported (module : IR.Module) : Prop :=
  ∀ operation ∈ operationsOf module, supported operation = .ok ()

/-- The module returns integers. -/
def ReturnsInteger (module : IR.Module) : Prop :=
  ∃ block ∈ module.blocks, ∃ value definition, block.terminator = some (.returnOp value) ∧
    module.Defines value definition ∧ definition.type = .scalar "i64"

/-- Lowering succeeds exactly when definitions come first and every operation is supported. -/
theorem lowerModule_ok_iff (verified : Verified module) :
    (∃ final, lowerModule order module {} = .ok () final) ↔
      DefinitionOrdered module ∧ Supported module := by
  constructor
  · intro lowered
    obtain ⟨final, success⟩ := lowered
    have ordered := lowerModule_ordered verified success
    have decided : outcome (lowerModule order module) {} = forM (operationsOf module) supported :=
      lowerModule_outcome verified ordered
    refine ⟨ordered, forM_eq_ok.mp ?_⟩
    rw [← decided, outcome, success]
  · intro holds
    obtain ⟨ordered, each⟩ := holds
    have decided : outcome (lowerModule order module) {} = forM (operationsOf module) supported :=
      lowerModule_outcome verified ordered
    rw [forM_eq_ok.mpr each] at decided
    exact outcome_eq_ok.mp decided

theorem firstReturnType_iff (verified : Verified module) :
    firstReturnType (valueTypes (operationsOf module)) module.blocks = .ok (some (.scalar "i64")) ↔
      ReturnsInteger module := by
  obtain ⟨type, computed, typed⟩ := firstReturnType_of_verified verified
  obtain ⟨_, ⟨block, member, value, ends⟩, _⟩ := verified.returns
  rw [computed]
  constructor
  · intro same
    cases same
    obtain ⟨definition, defines, same⟩ := typed block member value ends
    exact ⟨block, member, value, definition, ends, defines, same⟩
  · intro ⟨other, present, value, definition, ends, defines, same⟩
    obtain ⟨definition', defines', same'⟩ := typed other present value ends
    cases verified.defines_unique defines defines'
    rw [← same', same]

/-- The function starts with the entry of the module. -/
def EntryFirst (module : IR.Module) : Prop :=
  ∃ block, module.blocks[0]? = some block ∧ block.id = module.entry

/-- Code generation succeeds for a module whose entry comes first, when LLVM's
verifier accepts what its rules allow. -/
theorem generate_succeeds {verifyModule : LLVM.Function → Except String Unit}
    (verifier : ∀ function, LLVM.WellFormed function → verifyModule function = .ok ())
    (verified : Verified module) (entryFirst : EntryFirst module)
    (ordered : DefinitionOrdered module) (supported : Supported module)
    (integer : ReturnsInteger module) (translatable : Translatable module) :
    ∃ function, generate order verifyModule module = .ok function := by
  have lowerable : ∃ builder, lowerModule order module {} = .ok () builder :=
    (lowerModule_ok_iff verified).mpr ⟨ordered, supported⟩
  obtain ⟨builder, lowered⟩ := lowerable
  obtain ⟨labels, translated⟩ := lowerModule_translated verified entryFirst lowered
  have accepted := verifier _ (translated.wellFormed_iff.mpr translatable)
  exact ⟨builder.function, generate_ok.mpr ⟨verify_ok_iff.mpr verified,
    (firstReturnType_iff verified).mpr integer, builder, lowered, rfl, accepted⟩⟩

end Ocelotl.Codegen
