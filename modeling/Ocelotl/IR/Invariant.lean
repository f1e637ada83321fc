import Ocelotl.IR.Growth

namespace Ocelotl.IR

open Ast Semantic Library

namespace IRGenerator

variable {generator generator' : IRGenerator} {id block conditionBlock : BlockId}

theorem Open.lt (isOpen : Open generator id) : id < generator.module.blocks.length := by
  obtain ⟨body, found, _⟩ := isOpen
  exact (List.getElem?_eq_some_iff.mp found).1

theorem Untouched.isOpen (untouched : Untouched generator id) : Open generator id := by
  obtain ⟨body, found, _, unterminated⟩ := untouched
  exact ⟨body, found, unterminated⟩

theorem Open.lt_next (built : generator.WellBuilt) (isOpen : Open generator id) :
    id < generator.nextBlockId := built.sized ▸ isOpen.lt

theorem open_appendTo : Open (generator.appendTo block operation) id ↔ Open generator id := by
  simp only [Open, blocks_appendTo]
  by_cases same : id = block
  · simp [same]
  · simp [same]

theorem open_terminate :
    Open (generator.terminate block last) id ↔ id ≠ block ∧ Open generator id := by
  simp only [Open, blocks_terminate]
  by_cases same : id = block
  · subst same
    cases found : generator.blocks id <;> simp
  · simp [same]

private theorem open_addBlock (built : generator.WellBuilt) : Open (generator.addBlock name) id ↔
    id = generator.nextBlockId ∨ Open generator id := by
  simp only [Open, blocks_addBlock _ built.sized]
  by_cases same : id = generator.nextBlockId
  · simp [same]
  · simp [same]

@[simp] theorem open_enter {values : Environment} :
    Open (generator.enter current values) id ↔ Open generator id := Iff.rfl

theorem WellBuilt.enter (built : generator.WellBuilt) (current : Option BlockId)
    (values : Environment) : (generator.enter current values).WellBuilt :=
  { built with }

/-- What is available at the end of every predecessor is available in the block. -/
theorem WellBuilt.available_of_predecessors (built : generator.WellBuilt)
    (entered : Edge generator.blocks source block)
    (each : ∀ source, Edge generator.blocks source block →
      Available generator.blocks 0 value type source) :
    Available generator.blocks 0 value type block := by
  obtain ⟨origin, position, operation, present, result, typed, before, dominates⟩ :=
    each source entered
  have later := (built.forward entered).1
  refine ⟨origin, position, operation, present, result, typed, by lia, ?_⟩
  refine Dominates.of_predecessors (by lia) fun other edge => ?_
  obtain ⟨origin', position', operation', present', result', _, _, dominates'⟩ := each other edge
  have same := (built.unique present present' (result.trans result'.symm)).1
  subst same
  exact dominates'

/-- End a block in a conditional branch to two new blocks. -/
def fork (generator : IRGenerator) (block : BlockId) (condition : ValueId) : IRGenerator :=
  ((generator.addBlock "if.then").addBlock "if.else").terminate block
    (.condBranch condition generator.nextBlockId (generator.nextBlockId + 1))

@[simp] theorem fork_currentBlockId :
    (generator.fork block condition).currentBlockId = generator.currentBlockId := rfl

@[simp] theorem fork_values : (generator.fork block condition).values = generator.values := rfl

@[simp] theorem fork_nextValueId :
    (generator.fork block condition).nextValueId = generator.nextValueId := rfl

@[simp] theorem fork_nextBlockId :
    (generator.fork block condition).nextBlockId = generator.nextBlockId + 2 := rfl

structure Forked (generator : IRGenerator) (block : BlockId) (forked : IRGenerator) : Prop where
  built : forked.WellBuilt
  grows : Grows {block} ∅ generator forked
  thenUntouched : Untouched forked generator.nextBlockId
  elseUntouched : Untouched forked (generator.nextBlockId + 1)
  edges : ∀ source target, Edge forked.blocks source target ↔
    Edge generator.blocks source target ∨
      source = block ∧ (target = generator.nextBlockId ∨ target = generator.nextBlockId + 1)
  opened : ∀ id, Open forked id ↔ id ≠ block ∧ Open generator id ∨
    id = generator.nextBlockId ∨ id = generator.nextBlockId + 1

theorem WellBuilt.fork (built : generator.WellBuilt) (isOpen : Open generator block)
    (available : Available generator.blocks 0 condition (.scalar "i1") block) :
    Forked generator block (generator.fork block condition) := by
  have old := isOpen.lt_next built
  have built₁ := built.addBlock "if.then"
  have built₂ := built₁.addBlock "if.else"
  have grows₁ := Grows.addBlock built "if.then"
  have grows₂ := Grows.addBlock built₁ "if.else"
  have open₂ := grows₂.isOpen (Set.notMem_empty _)
    (grows₁.isOpen (Set.notMem_empty _) isOpen old) (Nat.lt_succ_of_lt old)
  have available₂ := grows₂.available built₁ (Nat.lt_succ_of_lt old)
    (grows₁.available built old available)
  have thenUntouched := grows₂.untouched (Set.notMem_empty _)
    (built.untouched_addBlock "if.then") (Nat.lt_succ_self _)
  have elseUntouched := built₁.untouched_addBlock "if.else"
  have grows₃ : Grows {block} {id | id = generator.nextBlockId ∨ id = generator.nextBlockId + 1}
      ((generator.addBlock "if.then").addBlock "if.else") (generator.fork block condition) := by
    have grows := Grows.terminate open₂ (.condBranch condition generator.nextBlockId
      (generator.nextBlockId + 1))
    simpa [IRGenerator.fork] using grows
  refine ⟨?_, ?_, ?_, ?_, ?_, ?_⟩
  · obtain ⟨body, found, unterminated⟩ := open₂
    refine built₂.terminate found unterminated ?_ ?_ ?_
    · intro target member
      simp only [Terminator.targets, List.mem_cons, List.not_mem_nil, or_false] at member
      rcases member with rfl | rfl
      · exact ⟨old, thenUntouched⟩
      · exact ⟨Nat.lt_succ_of_lt old, elseUntouched⟩
    · intro value member
      cases List.mem_singleton.mp member
      exact ⟨_, available₂⟩
    · rintro _ _ _ ⟨⟩
      exact available₂.hasDefinition
  · have created : Grows ∅ ∅ generator ((generator.addBlock "if.then").addBlock "if.else") :=
      grows₁.trans grows₂ (fun _ _ => or_self_iff.mp) (fun _ _ => or_self_iff.mp)
    refine created.trans grows₃ ?_ ?_
    · simp
    · intro id older member
      simp at member
      lia
  · exact grows₃.untouched (by simpa using (Nat.ne_of_lt old).symm) thenUntouched
      (by simp only [addBlock_nextBlockId]; lia)
  · exact grows₃.untouched (by simpa using (Nat.ne_of_lt (Nat.lt_succ_of_lt old)).symm)
      elseUntouched (by simp)
  · intro source target
    obtain ⟨body, found, unterminated⟩ := open₂
    rw [IRGenerator.fork, edge_terminate found unterminated, edge_addBlock built₁.sized,
      edge_addBlock built.sized]
    simp
  · intro id
    rw [IRGenerator.fork, open_terminate, open_addBlock built₁, open_addBlock built]
    simp only [addBlock_nextBlockId]
    constructor
    · rintro ⟨other, rfl | rfl | opened⟩
      · exact .inr (.inr rfl)
      · exact .inr (.inl rfl)
      · exact .inl ⟨other, opened⟩
    · rintro (⟨other, opened⟩ | rfl | rfl)
      · exact ⟨other, .inr (.inr opened)⟩
      · exact ⟨Nat.ne_of_gt old, .inr (.inl rfl)⟩
      · exact ⟨Nat.ne_of_gt (Nat.lt_succ_of_lt old), .inl rfl⟩

/-- End each of these blocks in a branch to the target. -/
def closeInto (target : BlockId) : List BlockId → IRGenerator → IRGenerator
  | [], generator => generator
  | block :: blocks, generator =>
    closeInto target blocks (generator.terminate block (.branch target))

/-- Create a block that all these blocks branch to. -/
def join (generator : IRGenerator) (ends : List BlockId) : IRGenerator :=
  closeInto generator.nextBlockId ends (generator.addBlock "if.end")

private theorem closeInto_fields (target : BlockId) (ends : List BlockId) (generator : IRGenerator) :
    (closeInto target ends generator).currentBlockId = generator.currentBlockId ∧
    (closeInto target ends generator).values = generator.values ∧
    (closeInto target ends generator).nextValueId = generator.nextValueId ∧
    (closeInto target ends generator).nextBlockId = generator.nextBlockId := by
  induction ends generalizing generator with
  | nil => exact ⟨rfl, rfl, rfl, rfl⟩
  | cons block ends ih => exact ih _

@[simp] theorem join_nextValueId : (generator.join ends).nextValueId = generator.nextValueId :=
  (closeInto_fields _ _ _).2.2.1

@[simp] theorem join_nextBlockId : (generator.join ends).nextBlockId = generator.nextBlockId + 1 :=
  (closeInto_fields _ _ _).2.2.2

structure Closed (generator : IRGenerator) (ends : List BlockId) (target : BlockId)
    (closed : IRGenerator) : Prop where
  built : closed.WellBuilt
  grows : Grows {id | id ∈ ends} {target} generator closed
  untouched : Untouched closed target
  edges : ∀ source other, Edge closed.blocks source other ↔
    Edge generator.blocks source other ∨ source ∈ ends ∧ other = target
  opened : ∀ id, Open closed id ↔ id ∉ ends ∧ Open generator id

theorem WellBuilt.closeInto {target : BlockId} (built : generator.WellBuilt)
    (untouched : Untouched generator target) (distinct : ends.Nodup)
    (isOpen : ∀ block ∈ ends, block < target ∧ Open generator block) :
    Closed generator ends target (closeInto target ends generator) := by
  induction ends generalizing generator with
  | nil =>
    exact ⟨built, .refl _, untouched, by simp [IRGenerator.closeInto],
      by simp [IRGenerator.closeInto]⟩
  | cons block ends ih =>
    obtain ⟨earlier, open₀⟩ := isOpen block List.mem_cons_self
    obtain ⟨absent, distinct⟩ := List.nodup_cons.mp distinct
    have grows := Grows.terminate open₀ (.branch target)
    have later := untouched.isOpen.lt_next built
    have built' : (generator.terminate block (.branch target)).WellBuilt := by
      obtain ⟨body, found, unterminated⟩ := open₀
      refine built.terminate found unterminated ?_ (by simp) (by simp)
      intro other member
      cases List.mem_singleton.mp member
      exact ⟨earlier, untouched⟩
    have untouched' := grows.untouched (by simpa using Nat.ne_of_gt earlier) untouched later
    have closed := ih built' untouched' distinct fun other member => by
      obtain ⟨earlier', open'⟩ := isOpen other (List.mem_cons_of_mem _ member)
      exact ⟨earlier', open_terminate.mpr ⟨fun same => absent (same ▸ member), open'⟩⟩
    refine ⟨closed.built, ?_, closed.untouched, ?_, ?_⟩
    · refine grows.trans closed.grows ?_ ?_
      · simp +contextual
      · simp +contextual
    · intro source other
      obtain ⟨body, found, unterminated⟩ := open₀
      rw [IRGenerator.closeInto, closed.edges, edge_terminate found unterminated]
      simp only [Terminator.targets, List.mem_cons]
      tauto
    · intro id
      rw [IRGenerator.closeInto, closed.opened, open_terminate]
      simp only [List.mem_cons, not_or]
      tauto

structure Joined (generator : IRGenerator) (ends : List BlockId) (joined : IRGenerator) :
    Prop where
  built : joined.WellBuilt
  grows : Grows {id | id ∈ ends} ∅ generator joined
  untouched : Untouched joined generator.nextBlockId
  edges : ∀ source, Edge joined.blocks source generator.nextBlockId ↔ source ∈ ends
  opened : ∀ id, Open joined id ↔
    id = generator.nextBlockId ∨ id ∉ ends ∧ Open generator id

theorem WellBuilt.join (built : generator.WellBuilt) (distinct : ends.Nodup)
    (isOpen : ∀ block ∈ ends, Open generator block) :
    Joined generator ends (generator.join ends) := by
  have grows := Grows.addBlock built "if.end"
  have old (block) (member : block ∈ ends) := (isOpen block member).lt_next built
  have closed := (built.addBlock "if.end").closeInto (built.untouched_addBlock "if.end") distinct
    fun block member => ⟨old block member,
      grows.isOpen (Set.notMem_empty _) (isOpen block member) (old block member)⟩
  refine ⟨closed.built, ?_, closed.untouched, ?_, ?_⟩
  · refine grows.trans closed.grows ?_ ?_
    · simp
    · intro id older member
      simp at member
      lia
  · intro source
    rw [IRGenerator.join, closed.edges, edge_addBlock built.sized]
    constructor
    · rintro (edge | ⟨member, _⟩)
      · exact absurd (built.forward edge).2 (Nat.lt_irrefl _)
      · exact member
    · exact fun member => .inr ⟨member, rfl⟩
  · intro id
    rw [IRGenerator.join, closed.opened, open_addBlock built]
    constructor
    · rintro ⟨outside, same | opened⟩
      · exact .inl same
      · exact .inr ⟨outside, opened⟩
    · rintro (rfl | ⟨outside, opened⟩)
      · exact ⟨fun member => Nat.lt_irrefl _ (old _ member), .inl rfl⟩
      · exact ⟨outside, .inr opened⟩

end IRGenerator

end Ocelotl.IR
