import Ocelotl.IR.Equations

namespace Ocelotl.IR

open Ast Semantic Library IRGenerator

variable {generator middle final : IRGenerator} {block thenEnd elseEnd source : BlockId}
  {name : String} {info thenValue : ValueInfo} {order : TraversalOrder} {symbols : SymbolTable}
  {values : Environment}

/-- The generator before a statement, about to write to this block. -/
structure Valid (generator : IRGenerator) (block : BlockId) : Prop extends
    Active generator block where
  built : generator.WellBuilt
  available : ∀ {name info}, generator.values.lookup name = some info →
    Available generator.blocks 0 info.value info.type block

/-- The generator after a statement: unless every path has returned, it can go on. -/
structure Settled (generator : IRGenerator) : Prop where
  built : generator.WellBuilt
  valid : ∀ block, generator.currentBlockId = some block → Valid generator block

theorem Valid.settled (valid : Valid generator block) : Settled generator :=
  ⟨valid.built, fun other current => by
    cases valid.current.symm.trans current
    exact valid⟩

theorem Valid.lt_next (valid : Valid generator block) : block < generator.nextBlockId :=
  valid.isOpen.lt_next valid.built

/-- The effect of generating an expression in a block. -/
structure Computed (generator : IRGenerator) (block : BlockId) (info : ValueInfo)
    (final : IRGenerator) : Prop where
  valid : Valid final block
  grows : Grows {block} ∅ generator final
  values : final.values = generator.values
  count : final.nextBlockId = generator.nextBlockId
  available : Available final.blocks 0 info.value info.type block

theorem Computed.trans (first : Computed generator block lhs middle)
    (second : Computed middle block info final) : Computed generator block info final where
  valid := second.valid
  grows := first.grows.append second.grows
  values := second.values.trans first.values
  count := second.count.trans first.count
  available := second.available

theorem Computed.keeps (computed : Computed generator block info final)
    (valid : Valid generator block) (available : Available generator.blocks 0 value type block) :
    Available final.blocks 0 value type block :=
  computed.grows.available valid.built valid.lt_next available

/-- Emitting an operation other than a phi, with operands that are available. -/
theorem Valid.appendTo (valid : Valid generator block) (operation : Operation)
    (result : resultOf operation = generator.nextValueId) (ordinary : operation.isPhi = false)
    (typed : ∀ value type, (value, type) ∈ operation.typedOperands →
      Available generator.blocks 0 value type block)
    (operands : ∀ value ∈ operation.operands,
      ∃ type, Available generator.blocks 0 value type block) :
    Computed generator block ⟨generator.nextValueId, typeOf operation⟩
      (generator.appendTo block operation) := by
  obtain ⟨body, found, unterminated⟩ := valid.isOpen
  have grows := Grows.appendTo valid.isOpen operation
  have keeps {value type} (available : Available generator.blocks 0 value type block) :=
    grows.available valid.built valid.lt_next available
  have noIncoming : operation.incoming = [] := by
    cases operation <;> first | rfl | cases ordinary
  refine ⟨⟨⟨valid.current, open_appendTo.mpr valid.isOpen⟩, ?_, ?_⟩, grows, rfl, rfl, ?_⟩
  · refine valid.built.appendTo found result operands ?_ ?_ ?_ ?_
    · exact fun value type member => (typed value type member).hasDefinition
    · exact fun isPhi => absurd (ordinary.symm.trans isPhi) Bool.false_ne_true
    · exact fun isPhi => absurd (ordinary.symm.trans isPhi) Bool.false_ne_true
    · exact fun incoming member => absurd (noIncoming ▸ member) List.not_mem_nil
  · exact fun found => keeps (valid.available found)
  · exact ⟨block, body.operations.length, operation,
      (operationAt_appendTo found _ _ _ _).mpr (.inr ⟨rfl, rfl, rfl⟩), result, rfl,
        Nat.le_refl _, .refl _⟩

theorem Valid.binary {lhs rhs : ValueInfo} (op : BinaryOperator) (valid : Valid generator block)
    (left : Available generator.blocks 0 lhs.value lhs.type block)
    (right : Available generator.blocks 0 rhs.value rhs.type block)
    (same : lhs.type = rhs.type) :
    Computed generator block
      ⟨generator.nextValueId, (binaryOperation op generator.nextValueId lhs rhs).2⟩
      (generator.appendTo block (binaryOperation op generator.nextValueId lhs rhs).1) := by
  have operands : (binaryOperation op generator.nextValueId lhs rhs).1.typedOperands =
      [(lhs.value, lhs.type), (rhs.value, lhs.type)] := by cases op <;> rfl
  have untyped : (binaryOperation op generator.nextValueId lhs rhs).1.operands =
      [lhs.value, rhs.value] := by cases op <;> rfl
  rw [binaryOperation_type]
  refine valid.appendTo _ (by cases op <;> rfl) (by cases op <;> rfl) ?_ ?_
  · intro value type member
    rw [operands] at member
    simp only [List.mem_cons, Prod.mk.injEq, List.not_mem_nil, or_false] at member
    rcases member with ⟨rfl, rfl⟩ | ⟨rfl, rfl⟩
    · exact left
    · exact same ▸ right
  · intro value member
    rw [untyped] at member
    simp only [List.mem_cons, List.not_mem_nil, or_false] at member
    rcases member with rfl | rfl
    · exact ⟨_, left⟩
    · exact ⟨_, right⟩

theorem generateExpression_valid (valid : Valid generator block)
    (success : generateExpression expression generator = .ok info final) :
    Computed generator block info final := by
  induction expression generalizing generator info final with
  | identifier name location =>
    obtain ⟨found, rfl⟩ := generateIdentifier_ok.mp success
    exact ⟨valid, .refl _, rfl, rfl, valid.available found⟩
  | integer value location =>
    rw [generateExpression, generateInteger_apply valid.toActive] at success
    cases success
    exact valid.appendTo (.constantInt _ value (.scalar "i64")) rfl rfl
      (by simp [Operation.typedOperands]) (by simp [Operation.operands])
  | float value location =>
    rw [generateExpression, generateFloat_apply valid.toActive] at success
    cases success
    exact valid.appendTo (.constantFloat _ value (.scalar "f64")) rfl rfl
      (by simp [Operation.typedOperands]) (by simp [Operation.operands])
  | call callee arguments location ih =>
    rcases generateExpression_call_ok.mp success with
      ⟨argument, input, middle, _, rfl, first, rest⟩ |
      ⟨lhsExpression, rhsExpression, lhs, middle, rhs, later, _, rfl, first, second, rest⟩
    · have computed := ih argument (by simp) valid first
      rw [generateRelu_apply computed.valid.toActive] at rest
      cases rest
      refine computed.trans (computed.valid.appendTo (.relu _ input.value input.type) rfl rfl
        (by simp [Operation.typedOperands]) ?_)
      simpa [Operation.operands] using ⟨_, computed.available⟩
    · have left := ih lhsExpression (by simp) valid first
      have right := ih rhsExpression (by simp) left.valid second
      have leftStill := right.keeps left.valid left.available
      obtain ⟨m, n, _, _, rfl, rfl⟩ := (generateMatmul_ok right.valid.toActive).mp rest
      refine (left.trans right).trans (right.valid.appendTo
        (.matMul _ lhs.value rhs.value ⟨lhs.type.elementType, [m, n]⟩) rfl rfl
        (by simp [Operation.typedOperands]) ?_)
      simpa [Operation.operands] using ⟨⟨_, leftStill⟩, ⟨_, right.available⟩⟩
  | nullCall => cases success
  | nullBinary => cases success
  | binary op lhsExpression rhsExpression location lhsIH rhsIH =>
    obtain ⟨lhs, middle, rhs, later, first, second, rest⟩ :=
      generateExpression_binary_ok.mp success
    have left := lhsIH valid first
    have right := rhsIH left.valid second
    obtain ⟨same, rfl, rfl⟩ := (generateBinary_ok right.valid.toActive).mp rest
    exact (left.trans right).trans (right.valid.binary op
      (right.keeps left.valid left.available) right.available same)

/-- The effect of generating statements from a block. -/
structure Advanced (generator : IRGenerator) (block : BlockId) (final : IRGenerator) : Prop where
  settled : Settled final
  grows : Grows {block} ∅ generator final
  moved : ∀ id, final.currentBlockId = some id → id = block ∨ generator.nextBlockId ≤ id
  opened : ∀ id, Open final id → final.currentBlockId = some id ∨
    id ≠ block ∧ id < generator.nextBlockId

theorem Computed.advanced (computed : Computed generator block info final) :
    Advanced generator block final where
  settled := computed.valid.settled
  grows := computed.grows
  moved := fun id current => .inl (Option.some.inj (current.symm.trans computed.valid.current))
  opened := fun id isOpen => by
    by_cases same : id = block
    · exact .inl (same ▸ computed.valid.current)
    · exact .inr ⟨same, computed.count ▸ isOpen.lt_next computed.valid.built⟩

theorem Advanced.refl (valid : Valid generator block) : Advanced generator block generator where
  settled := valid.settled
  grows := .refl _
  moved := fun id current => .inl (Option.some.inj (current.symm.trans valid.current))
  opened := fun id isOpen => by
    by_cases same : id = block
    · exact .inl (same ▸ valid.current)
    · exact .inr ⟨same, isOpen.lt_next valid.built⟩

theorem Advanced.trans (first : Advanced generator block middle)
    (current : middle.currentBlockId = some source) (second : Advanced middle source final) :
    Advanced generator block final where
  settled := second.settled
  grows := by
    refine first.grows.trans second.grows ?_ (by simp)
    intro id old member
    rcases first.moved source current with same | new
    · simpa [same] using member
    · refine member.elim (·) fun here => ?_
      have here : id = source := here
      lia
  moved := by
    intro id moved
    have longer := first.grows.count
    rcases second.moved id moved with rfl | new
    · exact first.moved id current
    · exact .inr (longer.trans new)
  opened := by
    intro id isOpen
    rcases second.opened id isOpen with here | ⟨other, old⟩
    · exact .inl here
    · have before : Open middle id := by
        obtain ⟨body, found, unterminated⟩ := isOpen
        exact ⟨body, (second.grows.frame id old other).symm.trans found, unterminated⟩
      rcases first.opened id before with here | outside
      · exact absurd (Option.some.inj (here.symm.trans current)) other
      · exact .inr outside

/-- Changing the environment after an advance. -/
theorem Advanced.rebind (advanced : Advanced generator block final)
    (available : ∀ id, final.currentBlockId = some id → ∀ {name info},
      AList.lookup name values = some info → Available final.blocks 0 info.value info.type id) :
    Advanced generator block { final with values := values } where
  settled := ⟨{ advanced.settled.built with }, fun id current =>
    ⟨⟨current, (advanced.settled.valid id current).isOpen⟩, { advanced.settled.built with },
      fun found => available id current found⟩⟩
  grows := { advanced.grows with }
  moved := advanced.moved
  opened := advanced.opened

theorem Computed.rebind (computed : Computed generator block info final) (name : String) :
    Advanced generator block (final.rebind name info) := by
  refine computed.advanced.rebind fun id current other bound found => ?_
  cases current.symm.trans computed.valid.current
  rw [UnorderedMap.lookup_insert_eq] at found
  split at found
  · cases found
    exact computed.available
  · exact computed.valid.available found

theorem generateReturn_valid {returnStatement : ReturnStmt} (valid : Valid generator block)
    (success : generateReturn returnStatement generator = .ok () final) :
    Advanced generator block final ∧ final.currentBlockId = none := by
  obtain ⟨info, middle, first, rfl⟩ := (generateReturn_ok fun _ _ first =>
    (generateExpression_valid valid first).valid.toActive).mp success
  have computed := generateExpression_valid valid first
  obtain ⟨body, found, unterminated⟩ := computed.valid.isOpen
  have built : (middle.terminate block (.returnOp info.value)).WellBuilt := by
    refine computed.valid.built.terminate found unterminated (by simp) ?_ (by simp)
    intro value member
    cases List.mem_singleton.mp member
    exact ⟨_, computed.available⟩
  refine ⟨⟨⟨built.enter _ _, nofun⟩, ?_, nofun, ?_⟩, rfl⟩
  · have ended := Grows.terminate computed.valid.isOpen (.returnOp info.value)
    have ended : Grows {block} ∅ middle (middle.terminate block (.returnOp info.value)) := by
      simpa using ended
    exact (computed.grows.append ended).append (.enter _ _ _)
  · intro id isOpen
    obtain ⟨other, isOpen⟩ := open_terminate.mp (open_enter.mp isOpen)
    exact .inr ⟨other, computed.count ▸ isOpen.lt_next computed.valid.built⟩

private theorem generateTensorDeclaration_valid {declaration : TensorDecl} (valid : Valid generator block)
    (success : generateTensorDeclaration symbols declaration generator = .ok () final) :
    Advanced generator block final := by
  obtain ⟨type, _, _, rfl⟩ := (generateTensorDeclaration_ok valid.toActive).mp success
  have computed := valid.appendTo (.tensorDecl _ declaration.name type) rfl rfl
    (by simp [Operation.typedOperands]) (by simp [Operation.operands])
  exact computed.rebind declaration.name

/-- The merge block of two continuing branches, while its phis are emitted. -/
structure Merging (generator : IRGenerator) (merge thenEnd elseEnd : BlockId) : Prop where
  valid : Valid generator merge
  phis : ∀ {index operation}, OperationAt generator.blocks merge index operation →
    operation.isPhi = true
  sources : ∀ source, Edge generator.blocks source merge ↔ source = thenEnd ∨ source = elseEnd
  distinct : thenEnd ≠ elseEnd

/-- What a merge does to the module. -/
structure Merged (generator : IRGenerator) (merge thenEnd elseEnd : BlockId)
    (final : IRGenerator) : Prop where
  merging : Merging final merge thenEnd elseEnd
  grows : Grows {merge} ∅ generator final
  count : final.nextBlockId = generator.nextBlockId

theorem Merging.offer (merging : Merging generator merge thenEnd elseEnd) (name : String)
    (info : ValueInfo)
    (available : Available generator.blocks 0 info.value info.type merge) :
    Merging (generator.offer name info) merge thenEnd elseEnd where
  valid := by
    refine ⟨⟨merging.valid.current, merging.valid.isOpen⟩, { merging.valid.built with },
      fun {other bound} found => ?_⟩
    by_cases present : name ∈ generator.values
    · rw [IRGenerator.offer, UnorderedMap.emplace_present present] at found
      exact merging.valid.available found
    · simp only [IRGenerator.offer, UnorderedMap.lookup_emplace_absent present] at found
      split at found
      · cases found
        exact available
      · exact merging.valid.available found
  phis := merging.phis
  sources := merging.sources
  distinct := merging.distinct

theorem Merging.joinPhi {merge : BlockId} {elseValue : ValueInfo}
    (merging : Merging generator merge thenEnd elseEnd) (typed : thenValue.type = elseValue.type)
    (fromThen : Available generator.blocks 0 thenValue.value thenValue.type thenEnd)
    (fromElse : Available generator.blocks 0 elseValue.value elseValue.type elseEnd) :
    Merged generator merge thenEnd elseEnd (generator.appendTo merge
        (joinPhi generator.nextValueId thenEnd elseEnd thenValue elseValue)) ∧
      Available (generator.appendTo merge
        (joinPhi generator.nextValueId thenEnd elseEnd thenValue elseValue)).blocks 0
          generator.nextValueId thenValue.type merge := by
  obtain ⟨body, found, unterminated⟩ := merging.valid.isOpen
  have grows := Grows.appendTo merging.valid.isOpen
    (IR.joinPhi generator.nextValueId thenEnd elseEnd thenValue elseValue)
  have present := operationAt_appendTo found
    (IR.joinPhi generator.nextValueId thenEnd elseEnd thenValue elseValue)
  have built : (generator.appendTo merge
      (IR.joinPhi generator.nextValueId thenEnd elseEnd thenValue elseValue)).WellBuilt := by
    refine merging.valid.built.appendTo found rfl (by simp [IR.joinPhi, Operation.operands])
      (by simp [IR.joinPhi, Operation.typedOperands])
      (fun _ _ _ => merging.phis) (fun _ => ⟨?_, ?_⟩) ?_
    · simpa [IR.joinPhi, Operation.incoming] using merging.distinct
    · intro source edge
      simpa [IR.joinPhi, Operation.incoming] using (merging.sources source).mp edge
    · intro incoming member
      simp only [IR.joinPhi, Operation.incoming, List.mem_cons, List.not_mem_nil,
        or_false] at member
      rcases member with rfl | rfl
      · exact ⟨(merging.sources _).mpr (.inl rfl), fromThen⟩
      · refine ⟨(merging.sources _).mpr (.inr rfl), ?_⟩
        rw [IR.joinPhi, typeOf, typed]
        exact fromElse
  refine ⟨⟨⟨⟨⟨merging.valid.current, open_appendTo.mpr merging.valid.isOpen⟩, built, ?_⟩, ?_, ?_,
    merging.distinct⟩, grows, rfl⟩, ?_⟩
  · exact fun found => grows.available merging.valid.built merging.valid.lt_next
      (merging.valid.available found)
  · intro index operation here
    rcases (present _ _ _).mp here with old | ⟨_, _, rfl⟩
    · exact merging.phis old
    · rfl
  · rw [edge_appendTo]
    exact merging.sources
  · exact ⟨merge, body.operations.length, _, (present _ _ _).mpr (.inr ⟨rfl, rfl, rfl⟩), rfl, rfl,
      Nat.le_refl _, .refl _⟩

private theorem mergeValues_valid {merge : BlockId} {elseValues : Environment}
    {entries : List (String × ValueInfo)} (merging : Merging generator merge thenEnd elseEnd)
    (fromThen : ∀ entry ∈ entries,
      Available generator.blocks 0 entry.2.value entry.2.type thenEnd)
    (fromElse : ∀ {name info}, elseValues.lookup name = some info →
      Available generator.blocks 0 info.value info.type elseEnd)
    (success : mergeValues thenEnd elseEnd elseValues entries generator = .ok () final) :
    Merged generator merge thenEnd elseEnd final := by
  induction entries generalizing generator with
  | nil =>
    cases success
    exact ⟨merging, .refl _, rfl⟩
  | cons entry entries ih =>
    obtain ⟨name, thenValue⟩ := entry
    have built := merging.valid.built
    have thenEdge := (merging.sources thenEnd).mpr (.inl rfl)
    have elseEdge := (merging.sources elseEnd).mpr (.inr rfl)
    have thenOld := (built.forward thenEdge).1.trans (built.forward thenEdge).2
    have elseOld := (built.forward elseEdge).1.trans (built.forward elseEdge).2
    have here := fromThen _ List.mem_cons_self
    have rest entry (member : entry ∈ entries) := fromThen entry (List.mem_cons_of_mem _ member)
    rcases (mergeValues_cons_ok merging.valid.toActive).mp success with
      ⟨_, success⟩ | ⟨elseValue, found, typed, ⟨same, success⟩ | ⟨_, success⟩⟩
    · exact ih merging rest fromElse success
    · -- One value reaches both ends, so it dominates the merge block.
      have joined : Available generator.blocks 0 thenValue.value thenValue.type merge := by
        refine built.available_of_predecessors thenEdge fun source edge => ?_
        rcases (merging.sources source).mp edge with rfl | rfl
        · exact here
        · rw [typed, same]
          exact fromElse found
      have later := ih (merging.offer name thenValue joined) rest fromElse success
      exact ⟨later.merging, { later.grows with }, later.count⟩
    · obtain ⟨merged, joined⟩ := merging.joinPhi typed here (fromElse found)
      have later := ih (merged.merging.offer name ⟨generator.nextValueId, thenValue.type⟩ joined)
        (fun entry member => merged.grows.available built thenOld (rest entry member))
        (fun found => merged.grows.available built elseOld (fromElse found)) success
      exact ⟨later.merging, merged.grows.append { later.grows with },
        later.count.trans merged.count⟩

section Conditionals

variable {tested thenGenerator elseGenerator : IRGenerator} {condition : ValueId}

theorem IRGenerator.Forked.available {forked : IRGenerator} (fork : Forked generator block forked)
    (valid : Valid generator block)
    (new : target = generator.nextBlockId ∨ target = generator.nextBlockId + 1)
    (available : Available generator.blocks 0 value type block) :
    Available forked.blocks 0 value type target := by
  refine fork.built.available_of_predecessors ((fork.edges block target).mpr (.inr ⟨rfl, new⟩)) ?_
  intro source edge
  rcases (fork.edges source target).mp edge with old | ⟨rfl, _⟩
  · have within := (valid.built.forward old).2
    lia
  · exact fork.grows.available valid.built valid.lt_next available

/-- Where the then-branch starts. -/
theorem IRGenerator.Forked.thenValid
    (fork : Forked generator block (generator.fork block condition))
    (valid : Valid generator block) : Valid ((generator.fork block condition).enter
      (some generator.nextBlockId) generator.values) generator.nextBlockId where
  current := rfl
  isOpen := fork.thenUntouched.isOpen
  built := fork.built.enter _ _
  available := fun found => fork.available valid (.inl rfl) (valid.available found)

/-- Where the else-branch starts. -/
theorem IRGenerator.Forked.elseValid
    (fork : Forked generator block (generator.fork block condition)) (valid : Valid generator block)
    (thenBranch : Advanced ((generator.fork block condition).enter (some generator.nextBlockId)
      generator.values) generator.nextBlockId thenGenerator) :
    Valid (thenGenerator.enter (some (generator.nextBlockId + 1)) generator.values)
      (generator.nextBlockId + 1) where
  current := rfl
  isOpen := by
    refine thenBranch.grows.isOpen ?_ fork.elseUntouched.isOpen (by simp)
    simp
  built := thenBranch.settled.built.enter _ _
  available := fun found => by
    refine thenBranch.grows.available (fork.built.enter _ _) (by simp) ?_
    exact fork.available valid (.inr rfl) (valid.available found)

/-- Both branches are generated, and their ends wait to be joined. -/
structure Branched (tested : IRGenerator) (block : BlockId)
    (thenGenerator elseGenerator : IRGenerator) : Prop where
  built : elseGenerator.WellBuilt
  grows : Grows {block} ∅ tested elseGenerator
  thenEnd : ∀ id, thenGenerator.currentBlockId = some id →
    tested.nextBlockId ≤ id ∧ Open elseGenerator id ∧
      ∀ {name info}, thenGenerator.values.lookup name = some info →
        Available elseGenerator.blocks 0 info.value info.type id
  elseEnd : ∀ id, elseGenerator.currentBlockId = some id →
    tested.nextBlockId ≤ id ∧ Open elseGenerator id ∧
      ∀ {name info}, elseGenerator.values.lookup name = some info →
        Available elseGenerator.blocks 0 info.value info.type id
  distinct : ∀ thenEnd elseEnd, thenGenerator.currentBlockId = some thenEnd →
    elseGenerator.currentBlockId = some elseEnd → thenEnd ≠ elseEnd
  opened : ∀ id, Open elseGenerator id → thenGenerator.currentBlockId = some id ∨
    elseGenerator.currentBlockId = some id ∨ id ≠ block ∧ id < tested.nextBlockId

theorem IRGenerator.Forked.branched (fork : Forked tested block (tested.fork block condition))
    (valid : Valid tested block)
    (thenBranch : Advanced ((tested.fork block condition).enter (some tested.nextBlockId)
      tested.values) tested.nextBlockId thenGenerator)
    (elseBranch : Advanced (thenGenerator.enter (some (tested.nextBlockId + 1)) tested.values)
      (tested.nextBlockId + 1) elseGenerator) :
    Branched tested block thenGenerator elseGenerator := by
  have started : tested.nextBlockId + 2 ≤ thenGenerator.nextBlockId := thenBranch.grows.count
  -- The end of the then-branch is a block the else-branch does not write to.
  have ended (id) (current : thenGenerator.currentBlockId = some id) :
      Open thenGenerator id ∧ id < thenGenerator.nextBlockId ∧ tested.nextBlockId ≤ id ∧
        id ≠ tested.nextBlockId + 1 := by
    have valid := thenBranch.settled.valid id current
    refine ⟨valid.isOpen, valid.lt_next, ?_⟩
    rcases thenBranch.moved id current with rfl | new
    · lia
    · simp only [enter_nextBlockId, fork_nextBlockId] at new
      lia
  refine ⟨elseBranch.settled.built, ?_, ?_, ?_, ?_, ?_⟩
  · have entered : Grows {block} ∅ tested ((tested.fork block condition).enter
        (some tested.nextBlockId) tested.values) := fork.grows.append (.enter _ _ _)
    have thenGrows : Grows {block} ∅ tested thenGenerator := by
      refine entered.trans thenBranch.grows ?_ (by simp)
      intro id old member
      refine member.elim (·) fun here => ?_
      exact absurd here (Nat.ne_of_lt old)
    refine (thenGrows.append (.enter _ _ _)).trans elseBranch.grows ?_ (by simp)
    intro id old member
    refine member.elim (·) fun here => ?_
    have here : id = tested.nextBlockId + 1 := here
    lia
  · intro id current
    obtain ⟨isOpen, old, new, other⟩ := ended id current
    refine ⟨new, elseBranch.grows.isOpen (by simpa using other) isOpen old, fun found => ?_⟩
    exact elseBranch.grows.available (thenBranch.settled.built.enter _ _) old
      ((thenBranch.settled.valid id current).available found)
  · intro id current
    have valid := elseBranch.settled.valid id current
    refine ⟨?_, valid.isOpen, valid.available⟩
    rcases elseBranch.moved id current with rfl | new
    · exact Nat.le_succ _
    · simp only [enter_nextBlockId] at new
      lia
  · intro thenEnd elseEnd current current'
    obtain ⟨_, old, _, other⟩ := ended thenEnd current
    rcases elseBranch.moved elseEnd current' with rfl | new
    · exact other
    · simp only [enter_nextBlockId] at new
      lia
  · intro id isOpen
    rcases elseBranch.opened id isOpen with here | ⟨other, old⟩
    · exact .inr (.inl here)
    have before : Open thenGenerator id := by
      obtain ⟨body, found, unterminated⟩ := isOpen
      exact ⟨body, (elseBranch.grows.frame id old (by simpa using other)).symm.trans found,
        unterminated⟩
    rcases thenBranch.opened id before with here | ⟨other', old'⟩
    · exact .inl here
    have earlier : Open (tested.fork block condition) id := by
      obtain ⟨body, found, unterminated⟩ := before
      exact ⟨body, (thenBranch.grows.frame id old' (by simpa using other')).symm.trans found,
        unterminated⟩
    rcases (fork.opened id).mp earlier with ⟨outside, isOpen⟩ | same | same
    · exact .inr (.inr ⟨outside, isOpen.lt_next valid.built⟩)
    · exact absurd same other'
    · exact absurd same other

/-- The generator once the block that joins these ends is the current one. -/
theorem IRGenerator.Joined.valid {ends : List BlockId} {current : BlockId}
    (built : generator.WellBuilt) (joined : Joined generator ends (generator.join ends))
    (member : current ∈ ends) (each : ∀ source ∈ ends, Open generator source ∧ ∀ {name info},
      AList.lookup name values = some info →
        Available generator.blocks 0 info.value info.type source) :
    Valid ((generator.join ends).enter (some generator.nextBlockId) values)
      generator.nextBlockId where
  current := rfl
  isOpen := joined.untouched.isOpen
  built := joined.built.enter _ _
  available := fun found => by
    refine joined.built.available_of_predecessors ((joined.edges current).mpr member) ?_
    intro source edge
    obtain ⟨isOpen, available⟩ := each source ((joined.edges source).mp edge)
    exact joined.grows.available built (isOpen.lt_next built) (available found)

/-- Advancing by joining the ends of two branches. -/
theorem Branched.advanced {ends : List BlockId}
    (branched : Branched tested block thenGenerator elseGenerator)
    (joined : Joined elseGenerator ends (elseGenerator.join ends))
    (new : ∀ id ∈ ends, tested.nextBlockId ≤ id)
    (all : ∀ id, thenGenerator.currentBlockId = some id ∨
      elseGenerator.currentBlockId = some id → id ∈ ends)
    (valid : Valid final elseGenerator.nextBlockId)
    (grows : Grows {elseGenerator.nextBlockId} ∅ (elseGenerator.join ends) final)
    (count : final.nextBlockId = elseGenerator.nextBlockId + 1) :
    Advanced tested block final where
  settled := valid.settled
  grows := by
    have longer := branched.grows.count
    have both : Grows {block} ∅ tested (elseGenerator.join ends) := by
      refine branched.grows.trans joined.grows ?_ (by simp)
      intro id old member
      refine member.elim (·) fun here => ?_
      exact absurd (new id here) (Nat.not_le_of_lt old)
    refine both.trans grows ?_ (by simp)
    intro id old member
    refine member.elim (·) fun here => ?_
    have here : id = elseGenerator.nextBlockId := here
    lia
  moved := fun id current => by
    cases current.symm.trans valid.current
    exact .inr branched.grows.count
  opened := by
    intro id isOpen
    by_cases here : id = elseGenerator.nextBlockId
    · exact .inl (here ▸ valid.current)
    have within : id < (elseGenerator.join ends).nextBlockId := by
      rw [join_nextBlockId, ← count]
      exact isOpen.lt_next valid.built
    have before : Open (elseGenerator.join ends) id := by
      obtain ⟨body, found, unterminated⟩ := isOpen
      exact ⟨body, (grows.frame id within (by simpa using here)).symm.trans found, unterminated⟩
    rcases (joined.opened id).mp before with same | ⟨outside, isOpen⟩
    · exact absurd same here
    rcases branched.opened id isOpen with ended | ended | old
    · exact absurd (all id (.inl ended)) outside
    · exact absurd (all id (.inr ended)) outside
    · exact .inr old

/-- How two branches are joined, by which of them continue. -/
inductive JoinRun (order : TraversalOrder) (before : Environment)
    (thenGenerator elseGenerator final : IRGenerator) : Prop where
  | neither (thenCurrent : thenGenerator.currentBlockId = none)
    (elseCurrent : elseGenerator.currentBlockId = none)
    (same : final = elseGenerator.enter none before)
  | elseOnly (elseEnd : BlockId) (thenCurrent : thenGenerator.currentBlockId = none)
    (elseCurrent : elseGenerator.currentBlockId = some elseEnd)
    (joined : Joined elseGenerator [elseEnd] (elseGenerator.join [elseEnd]))
    (same : final = (elseGenerator.join [elseEnd]).enter (some elseGenerator.nextBlockId)
      elseGenerator.values)
  | thenOnly (thenEnd : BlockId) (thenCurrent : thenGenerator.currentBlockId = some thenEnd)
    (elseCurrent : elseGenerator.currentBlockId = none)
    (joined : Joined elseGenerator [thenEnd] (elseGenerator.join [thenEnd]))
    (same : final = (elseGenerator.join [thenEnd]).enter (some elseGenerator.nextBlockId)
      thenGenerator.values)
  | both (thenEnd elseEnd : BlockId) (thenCurrent : thenGenerator.currentBlockId = some thenEnd)
    (elseCurrent : elseGenerator.currentBlockId = some elseEnd)
    (joined : Joined elseGenerator [thenEnd, elseEnd] (elseGenerator.join [thenEnd, elseEnd]))
    (merging : Merging ((elseGenerator.join [thenEnd, elseEnd]).enter
      (some elseGenerator.nextBlockId) ∅) elseGenerator.nextBlockId thenEnd elseEnd)
    (success : mergeValues thenEnd elseEnd elseGenerator.values
      (order.traverse elseGenerator.nextBlockId thenGenerator.values)
      ((elseGenerator.join [thenEnd, elseEnd]).enter (some elseGenerator.nextBlockId) ∅) =
        .ok () final)
    (merged : Merged ((elseGenerator.join [thenEnd, elseEnd]).enter
      (some elseGenerator.nextBlockId) ∅) elseGenerator.nextBlockId thenEnd elseEnd final)

theorem Branched.joinRun (branched : Branched tested block thenGenerator elseGenerator)
    (success : joinBranches order values thenGenerator.currentBlockId
      elseGenerator.currentBlockId thenGenerator.values elseGenerator.values elseGenerator =
        .ok () final) : JoinRun order values thenGenerator elseGenerator final := by
  have built := branched.built
  cases thenCurrent : thenGenerator.currentBlockId with
  | none =>
    cases elseCurrent : elseGenerator.currentBlockId with
    | none =>
      rw [thenCurrent, elseCurrent, joinBranches_neither] at success
      cases success
      exact .neither thenCurrent elseCurrent rfl
    | some elseEnd =>
      have isOpen := (branched.elseEnd elseEnd elseCurrent).2.1
      rw [thenCurrent, elseCurrent, joinBranches_else] at success
      cases success
      exact .elseOnly elseEnd thenCurrent elseCurrent
        (built.join (List.nodup_singleton elseEnd) (by simpa using isOpen)) rfl
  | some thenEnd =>
    obtain ⟨_, thenOpen, thenAvailable⟩ := branched.thenEnd thenEnd thenCurrent
    cases elseCurrent : elseGenerator.currentBlockId with
    | none =>
      rw [thenCurrent, elseCurrent, joinBranches_then] at success
      cases success
      exact .thenOnly thenEnd thenCurrent elseCurrent
        (built.join (List.nodup_singleton thenEnd) (by simpa using thenOpen)) rfl
    | some elseEnd =>
      obtain ⟨_, elseOpen, elseAvailable⟩ := branched.elseEnd elseEnd elseCurrent
      have distinct := branched.distinct thenEnd elseEnd thenCurrent elseCurrent
      rw [thenCurrent, elseCurrent, joinBranches_both] at success
      have joined : Joined elseGenerator [thenEnd, elseEnd] _ :=
        built.join (by simpa using distinct) (by simpa using ⟨thenOpen, elseOpen⟩)
      have merging : Merging ((elseGenerator.join [thenEnd, elseEnd]).enter
          (some elseGenerator.nextBlockId) ∅) elseGenerator.nextBlockId thenEnd elseEnd := by
        refine ⟨joined.valid built List.mem_cons_self ?_, ?_, ?_, distinct⟩
        · simpa using ⟨thenOpen, elseOpen⟩
        · exact fun present => (joined.untouched.no_operation present).elim
        · simpa using joined.edges
      have merged := mergeValues_valid merging ?_ ?_ success
      · exact .both thenEnd elseEnd thenCurrent elseCurrent joined merging success merged
      · rintro ⟨name, info⟩ member
        exact joined.grows.available built (thenOpen.lt_next built)
          (thenAvailable (order.mem_traverse.mp member))
      · exact fun found => joined.grows.available built (elseOpen.lt_next built)
          (elseAvailable found)

theorem Branched.joinBranches (branched : Branched tested block thenGenerator elseGenerator)
    (run : JoinRun order values thenGenerator elseGenerator final) :
    Advanced tested block final := by
  have built := branched.built
  cases run with
  | neither thenCurrent elseCurrent same =>
    subst same
    refine ⟨⟨built.enter _ _, nofun⟩, branched.grows.append (.enter _ _ _), nofun, ?_⟩
    intro id isOpen
    rcases branched.opened id isOpen with ended | ended | old
    · rw [thenCurrent] at ended
      cases ended
    · rw [elseCurrent] at ended
      cases ended
    · exact .inr old
  | elseOnly elseEnd thenCurrent elseCurrent joined same =>
    subst same
    obtain ⟨new, isOpen, available⟩ := branched.elseEnd elseEnd elseCurrent
    refine branched.advanced joined (by simpa using new) ?_ ?_ (.enter _ _ _) (by simp)
    · simp [thenCurrent, elseCurrent, eq_comm]
    · refine joined.valid built List.mem_cons_self ?_
      simpa using ⟨isOpen, available⟩
  | thenOnly thenEnd thenCurrent elseCurrent joined same =>
    subst same
    obtain ⟨new, isOpen, available⟩ := branched.thenEnd thenEnd thenCurrent
    refine branched.advanced joined (by simpa using new) ?_ ?_ (.enter _ _ _) (by simp)
    · simp [thenCurrent, elseCurrent, eq_comm]
    · refine joined.valid built List.mem_cons_self ?_
      simpa using ⟨isOpen, available⟩
  | both thenEnd elseEnd thenCurrent elseCurrent joined merging success merged =>
    obtain ⟨thenNew, _⟩ := branched.thenEnd thenEnd thenCurrent
    obtain ⟨elseNew, _⟩ := branched.elseEnd elseEnd elseCurrent
    refine branched.advanced joined ?_ ?_ merged.merging.valid { merged.grows with } ?_
    · simpa using ⟨thenNew, elseNew⟩
    · simp [thenCurrent, elseCurrent, eq_comm]
    · simpa using merged.count

end Conditionals

section Programs

variable {statement : Statement} {statements : List Statement}

/-- The branches of an `if` keep the invariant when their statements do. -/
theorem generateBranch_valid_of
    (each : ∀ statement ∈ statements, ∀ {generator final block}, Valid generator block →
      generateStatement order symbols statement generator = .ok () final →
        Advanced generator block final)
    (valid : Valid generator block)
    (success : generateBranch order symbols statements generator = .ok () final) :
    Advanced generator block final := by
  induction statements generalizing generator block with
  | nil =>
    cases success
    exact .refl valid
  | cons statement statements ih =>
    rw [generateBranch_cons valid.current] at success
    obtain ⟨_, middle, first, rest⟩ := bind_ok.mp success
    have advanced := each statement List.mem_cons_self valid first
    cases current : middle.currentBlockId with
    | none =>
      rw [generateBranch_stopped current] at rest
      cases rest
      exact advanced
    | some next =>
      refine advanced.trans current (ih ?_ (advanced.settled.valid next current) rest)
      exact fun other member => each other (List.mem_cons_of_mem _ member)

theorem generateStatement_valid (valid : Valid generator block)
    (success : generateStatement order symbols statement generator = .ok () final) :
    Advanced generator block final := by
  induction statement generalizing generator final block with
  | tensorDecl declaration =>
    rw [generateStatement] at success
    exact generateTensorDeclaration_valid valid success
  | assignment assignment =>
    rw [generateStatement] at success
    obtain ⟨info, middle, first, rfl⟩ := generateAssignment_ok.mp success
    exact (generateExpression_valid valid first).rebind assignment.target
  | returnStmt returnStatement =>
    rw [generateStatement] at success
    exact (generateReturn_valid valid success).1
  | ifStmt condition thenStatements elseStatements location thenIH elseIH =>
    obtain ⟨info, tested, here, thenGenerator, elseGenerator, first, typed, current, thenRun,
      elseRun, joined⟩ := generateStatement_if_ok.mp success
    have computed := generateExpression_valid valid first
    cases current.symm.trans computed.valid.current
    have fork := computed.valid.built.fork computed.valid.isOpen (typed ▸ computed.available)
    have thenBranch := generateBranch_valid_of thenIH (fork.thenValid computed.valid) thenRun
    have elseBranch := generateBranch_valid_of elseIH
      (fork.elseValid computed.valid thenBranch) elseRun
    have branched := fork.branched computed.valid thenBranch elseBranch
    exact computed.advanced.trans computed.valid.current
      (branched.joinBranches (branched.joinRun joined))
  | nullIf =>
    rw [generateStatement] at success
    cases success

theorem generateBranch_valid (valid : Valid generator block)
    (success : generateBranch order symbols statements generator = .ok () final) :
    Advanced generator block final :=
  generateBranch_valid_of (fun _ _ => generateStatement_valid) valid success

/-- The start of the then-branch. -/
abbrev IRGenerator.enterThen (tested : IRGenerator) (block : BlockId) (condition : ValueId) :
    IRGenerator :=
  (tested.fork block condition).enter (some tested.nextBlockId) tested.values

/-- The start of the else-branch, after the then-branch. -/
abbrev IRGenerator.enterElse (thenGenerator tested : IRGenerator) : IRGenerator :=
  thenGenerator.enter (some (tested.nextBlockId + 1)) tested.values

/-- The parts of a generated `if`, and what each of them did. -/
structure Conditional (order : TraversalOrder) (symbols : SymbolTable) (condition : Expression)
    (thenStatements elseStatements : List Statement) (generator : IRGenerator) (block : BlockId)
    (info : ValueInfo) (tested thenGenerator elseGenerator final : IRGenerator) : Prop where
  first : generateExpression condition generator = .ok info tested
  computed : Computed generator block info tested
  typed : info.type = .scalar "i1"
  fork : Forked tested block (tested.fork block info.value)
  thenValid : Valid (tested.enterThen block info.value) tested.nextBlockId
  thenRun : generateBranch order symbols thenStatements (tested.enterThen block info.value) =
    .ok () thenGenerator
  thenBranch : Advanced (tested.enterThen block info.value) tested.nextBlockId thenGenerator
  elseValid : Valid (thenGenerator.enterElse tested) (tested.nextBlockId + 1)
  elseRun : generateBranch order symbols elseStatements (thenGenerator.enterElse tested) =
    .ok () elseGenerator
  elseBranch : Advanced (thenGenerator.enterElse tested) (tested.nextBlockId + 1) elseGenerator
  branched : Branched tested block thenGenerator elseGenerator
  joined : JoinRun order tested.values thenGenerator elseGenerator final

theorem generateStatement_conditional {condition : Expression}
    {thenStatements elseStatements : List Statement} {location : SourceLocation}
    (valid : Valid generator block)
    (success : generateStatement order symbols
      (.ifStmt condition thenStatements elseStatements location) generator = .ok () final) :
    ∃ info tested thenGenerator elseGenerator, Conditional order symbols condition thenStatements
      elseStatements generator block info tested thenGenerator elseGenerator final := by
  obtain ⟨info, tested, here, thenGenerator, elseGenerator, first, typed, current, thenRun,
    elseRun, joined⟩ := generateStatement_if_ok.mp success
  have computed := generateExpression_valid valid first
  cases current.symm.trans computed.valid.current
  have fork := computed.valid.built.fork computed.valid.isOpen (typed ▸ computed.available)
  have thenValid := fork.thenValid computed.valid
  have thenBranch := generateBranch_valid thenValid thenRun
  have elseValid := fork.elseValid computed.valid thenBranch
  have elseBranch := generateBranch_valid elseValid elseRun
  have branched := fork.branched computed.valid thenBranch elseBranch
  exact ⟨info, tested, thenGenerator, elseGenerator, first, computed, typed, fork, thenValid,
    thenRun, thenBranch, elseValid, elseRun, elseBranch, branched, branched.joinRun joined⟩

theorem generateTopLevel_valid (valid : Valid generator block)
    (success : generateTopLevel order symbols statements generator = .ok () final) :
    Advanced generator block final := by
  induction statements generalizing generator block with
  | nil =>
    cases success
    exact .refl valid
  | cons statement statements ih =>
    rw [generateTopLevel_cons valid.current] at success
    obtain ⟨_, middle, first, rest⟩ := bind_ok.mp success
    have advanced := generateStatement_valid valid first
    cases current : middle.currentBlockId with
    | none =>
      cases statements with
      | nil =>
        cases rest
        exact advanced
      | cons next statements =>
        rw [generateTopLevel_stopped current] at rest
        cases rest
    | some next => exact advanced.trans current (ih (advanced.settled.valid next current) rest)

theorem Valid.started : Valid started 0 where
  current := rfl
  isOpen := ⟨{ id := 0, name := "entry" }, blocks_started, rfl⟩
  built := .initial
  available := fun found => by simp [IRGenerator.started] at found

/-- What is handed to the verifier: every statement is generated, and every path returns. -/
theorem generateUnverified_ok {program : Program} :
    generateUnverified order symbols program {} = .ok () final ↔
      generateTopLevel order symbols program.statements started = .ok () final ∧
        final.currentBlockId = none := by
  rw [generateUnverified_eq, then_ok]
  constructor
  · intro ⟨middle, first, rest⟩
    cases current : middle.currentBlockId with
    | some block =>
      have active := ((generateTopLevel_valid .started first).settled.valid block current).toActive
      rw [requireReturn_active active] at rest
      cases rest
    | none =>
      rw [requireReturn_stopped current] at rest
      cases rest
      exact ⟨first, current⟩
  · intro ⟨success, stopped⟩
    exact ⟨final, success, requireReturn_stopped stopped⟩

/-- The module that is handed to the verifier is well built and has no open block. -/
theorem generateUnverified_valid {program : Program}
    (success : generateUnverified order symbols program {} = .ok () final) :
    final.WellBuilt ∧ final.currentBlockId = none ∧ ∀ id, ¬ Open final id := by
  obtain ⟨run, stopped⟩ := generateUnverified_ok.mp success
  have advanced := generateTopLevel_valid .started run
  refine ⟨advanced.settled.built, stopped, fun id isOpen => ?_⟩
  rcases advanced.opened id isOpen with here | ⟨other, old⟩
  · rw [stopped] at here
    cases here
  · exact other (Nat.lt_one_iff.mp old)

theorem generate_ok {analyzer : SemanticAnalyzer} {program : Program} {module : Module} :
    generate order analyzer program = .ok module ↔
      ∃ final, generateUnverified order analyzer.symbols program {} = .ok () final ∧
        verify final.module = .ok () ∧ module = final.module := by
  rw [generate]
  cases generateUnverified order analyzer.symbols program {} with
  | error error state => simp
  | ok value final =>
    cases verified : verify final.module with
    | error error => simp [verified]
    | ok value => simp [verified, eq_comm]

theorem IRGenerator.WellBuilt.block_eq (built : generator.WellBuilt) :
    generator.module.block = generator.blocks := by
  funext id
  cases found : generator.blocks id with
  | none =>
    refine List.find?_eq_none.mpr fun body member => ?_
    obtain ⟨index, present⟩ := List.getElem?_of_mem member
    have same := built.ids present
    intro equal
    have equal : body.id = id := by simpa using equal
    rw [← equal, same] at found
    rw [IRGenerator.blocks, present] at found
    cases found
  | some body =>
    have same := built.ids found
    obtain ⟨within, here⟩ := List.getElem?_eq_some_iff.mp found
    refine List.find?_eq_some_iff_getElem.mpr ⟨by simpa using same, id, within, here, ?_⟩
    intro index less
    have other := built.ids (List.getElem?_eq_getElem (less.trans within))
    simpa [other] using Nat.ne_of_lt less

theorem IRGenerator.WellBuilt.strictSSA (built : generator.WellBuilt) :
    StrictSSA generator.module.block generator.module.entry := by
  rw [built.block_eq, built.entry]
  refine ⟨built.unique, ?_, ?_, ?_⟩
  · intro block index operation value present member
    obtain ⟨source, position, definition, defined, result, place⟩ := built.operands present member
    refine ⟨source, position, definition, defined, result, ?_⟩
    exact place.imp_right fun ⟨before, dominates⟩ => ⟨Nat.ne_of_lt before, dominates⟩
  · intro block last value ends member
    obtain ⟨_, source, position, definition, defined, result, _, _, dominates⟩ :=
      built.terminators ends member
    exact ⟨source, position, definition, defined, result, dominates⟩
  · intro block index operation incoming present member
    obtain ⟨_, source, position, definition, defined, result, _, _, dominates⟩ :=
      built.incoming present member
    exact ⟨source, position, definition, defined, result, dominates⟩

/-- Every module the generator returns is in strict SSA form. -/
theorem generate_strictSSA {analysisOrder : TraversalOrder} {analyzer : SemanticAnalyzer}
    {program : Program} {module : Module}
    (_accepted : analyze analysisOrder program = .ok analyzer)
    (generated : generate order analyzer program = .ok module) :
    StrictSSA module.block module.entry := by
  obtain ⟨final, success, _, rfl⟩ := generate_ok.mp generated
  exact (generateUnverified_valid success).1.strictSSA

/-- A conditional inside a branch, each binding the name that is returned. -/
def nestedConditional : Program where
  statements := [
    .assignment ⟨"X", .integer 5 {}, {}⟩,
    .ifStmt (.binary .greater (.identifier "X" {}) (.integer 0 {}) {})
      [.ifStmt (.binary .less (.identifier "X" {}) (.integer 10 {}) {})
        [.assignment ⟨"Y", .binary .add (.identifier "X" {}) (.integer 1 {}) {}, {}⟩]
        [.assignment ⟨"Y", .binary .subtract (.identifier "X" {}) (.integer 1 {}) {}, {}⟩] {}]
      [.assignment ⟨"Y", .integer 0 {}, {}⟩] {},
    .returnStmt ⟨.identifier "Y" {}, {}⟩]

theorem generate_strictSSA_nestedConditional : ∃ analyzer module,
    analyze .stored nestedConditional = .ok analyzer ∧
      generate .stored analyzer nestedConditional = .ok module ∧
      StrictSSA module.block module.entry := by
  obtain ⟨analyzer, module, accepted, generated⟩ :
      ∃ analyzer module, analyze .stored nestedConditional = .ok analyzer ∧
        generate .stored analyzer nestedConditional = .ok module :=
    exists_of_compile (by decide +kernel)
  exact ⟨analyzer, module, accepted, generated, generate_strictSSA accepted generated⟩

end Programs

end Ocelotl.IR
