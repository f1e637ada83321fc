import Ocelotl.IR.Construction

namespace Ocelotl.IR

open Library

namespace IRGenerator

/-- A block without a terminator. -/
def Open (generator : IRGenerator) (id : BlockId) : Prop :=
  ∃ body, generator.blocks id = some body ∧ body.terminator = none

/-- Everything a part of the generator can do to the module: of the old blocks
it writes only to some, and it adds edges into some only. -/
structure Grows (written targeted : Set BlockId) (generator generator' : IRGenerator) : Prop where
  values : generator.nextValueId ≤ generator'.nextValueId
  count : generator.nextBlockId ≤ generator'.nextBlockId
  frame : ∀ id, id < generator.nextBlockId → id ∉ written →
    generator'.blocks id = generator.blocks id
  kept : ∀ id body, generator.blocks id = some body →
    ∃ body', generator'.blocks id = some body' ∧ body.operations <+: body'.operations ∧
      (body.terminator ≠ none → body' = body)
  edges : ∀ source target, target < generator.nextBlockId → target ∉ targeted →
    Edge generator'.blocks source target → Edge generator.blocks source target

namespace Grows

variable {written targeted : Set BlockId} {generator generator' : IRGenerator} {id : BlockId}

theorem refl (generator : IRGenerator) : Grows written targeted generator generator :=
  ⟨Nat.le_refl _, Nat.le_refl _, fun _ _ _ => rfl,
    fun _ body found => ⟨body, found, List.prefix_rfl, fun _ => rfl⟩, fun _ _ _ _ edge => edge⟩

/-- What the second part touches must be new, or touched by the whole. -/
theorem trans (first : Grows written' targeted' generator generator')
    (second : Grows written'' targeted'' generator' generator'')
    (writes : ∀ id, id < generator.nextBlockId → id ∈ written' ∨ id ∈ written'' → id ∈ written)
    (aims : ∀ id, id < generator.nextBlockId → id ∈ targeted' ∨ id ∈ targeted'' → id ∈ targeted) :
    Grows written targeted generator generator'' where
  values := first.values.trans second.values
  count := first.count.trans second.count
  frame := by
    intro id old outside
    have outside' : id ∉ written' := fun member => outside (writes id old (.inl member))
    have outside'' : id ∉ written'' := fun member => outside (writes id old (.inr member))
    rw [second.frame id (Nat.lt_of_lt_of_le old first.count) outside'', first.frame id old outside']
  kept := by
    intro id body found
    obtain ⟨body', found', longer, closed⟩ := first.kept id body found
    obtain ⟨body'', found'', longer', closed'⟩ := second.kept id body' found'
    refine ⟨body'', found'', longer.trans longer', fun ends => ?_⟩
    have same := closed ends
    subst same
    exact closed' ends
  edges := by
    intro source target old outside edge
    refine first.edges source target old (fun member => outside (aims _ old (.inl member))) ?_
    exact second.edges source target (Nat.lt_of_lt_of_le old first.count)
      (fun member => outside (aims _ old (.inr member))) edge

/-- Parts that touch the same blocks. -/
theorem append (first : Grows written targeted generator generator')
    (second : Grows written targeted generator' generator'') :
    Grows written targeted generator generator'' :=
  first.trans second (fun _ _ => or_self_iff.mp) (fun _ _ => or_self_iff.mp)

theorem operationAt (grows : Grows written targeted generator generator')
    (present : OperationAt generator.blocks id index operation) :
    OperationAt generator'.blocks id index operation := by
  obtain ⟨body, found, here⟩ := present
  obtain ⟨body', found', ⟨added, same⟩, _⟩ := grows.kept id body found
  refine ⟨body', found', ?_⟩
  have within := (List.getElem?_eq_some_iff.mp here).1
  rw [← same, List.getElem?_append_left within, here]

private theorem terminatorAt (grows : Grows written targeted generator generator')
    (present : TerminatorAt generator.blocks id last) : TerminatorAt generator'.blocks id last := by
  obtain ⟨body, found, ends⟩ := present
  obtain ⟨body', found', _, closed⟩ := grows.kept id body found
  have same := closed (by simp [ends])
  subst same
  exact ⟨body', found', ends⟩

theorem edge (grows : Grows written targeted generator generator')
    (present : Edge generator.blocks source target) : Edge generator'.blocks source target := by
  obtain ⟨last, ends, member⟩ := edge_iff.mp present
  exact edge_iff.mpr ⟨last, grows.terminatorAt ends, member⟩

/-- Where no edge into an old block is added, old values stay available in old blocks. -/
theorem available (grows : Grows written ∅ generator generator') (built : generator.WellBuilt)
    (old : id < generator.nextBlockId) (available : Available generator.blocks 0 value type id) :
    Available generator'.blocks 0 value type id := by
  refine available.mono (fun _ _ _ present => grows.operationAt present) fun source dominates => ?_
  refine Dominates.grow (· < generator.nextBlockId) ?_ dominates old
  intro source target old edge
  have present := grows.edges source target old (Set.notMem_empty _) edge
  exact ⟨present, (built.forward present).1.trans old⟩

theorem isOpen (grows : Grows written targeted generator generator')
    (outside : id ∉ written) (isOpen : Open generator id) (old : id < generator.nextBlockId) :
    Open generator' id := by
  obtain ⟨body, found, unterminated⟩ := isOpen
  exact ⟨body, (grows.frame id old outside).trans found, unterminated⟩

theorem untouched (grows : Grows written targeted generator generator')
    (outside : id ∉ written) (untouched : Untouched generator id)
    (old : id < generator.nextBlockId) : Untouched generator' id := by
  obtain ⟨body, found, rest⟩ := untouched
  exact ⟨body, (grows.frame id old outside).trans found, rest⟩

theorem enter (generator : IRGenerator) (block : Option BlockId) (values : Environment) :
    Grows written targeted generator (generator.enter block values) :=
  ⟨Nat.le_refl _, Nat.le_refl _, fun _ _ _ => rfl,
    fun _ body found => ⟨body, found, List.prefix_rfl, fun _ => rfl⟩, fun _ _ _ _ edge => edge⟩

theorem appendTo (isOpen : Open generator block) (operation : Operation) :
    Grows {block} ∅ generator (generator.appendTo block operation) where
  values := Nat.le_succ _
  count := Nat.le_refl _
  frame := fun id _ outside => by
    rw [blocks_appendTo, if_neg (by simpa using outside)]
  kept := by
    intro id body found
    rw [blocks_appendTo]
    split
    · rename_i same
      obtain ⟨other, found', unterminated⟩ := isOpen
      rw [← same, found] at found'
      cases found'
      exact ⟨body.append operation, by simp [found], List.prefix_append _ _,
        fun ends => absurd unterminated ends⟩
    · exact ⟨body, found, List.prefix_rfl, fun _ => rfl⟩
  edges := fun source target _ _ edge => by simpa only [edge_appendTo] using edge

theorem terminate (isOpen : Open generator block) (last : Terminator) :
    Grows {block} {id | id ∈ last.targets} generator (generator.terminate block last) where
  values := Nat.le_refl _
  count := Nat.le_refl _
  frame := fun id _ outside => by
    rw [blocks_terminate, if_neg (by simpa using outside)]
  kept := by
    obtain ⟨other, found', unterminated⟩ := isOpen
    intro id body found
    rw [blocks_terminate]
    split
    · rename_i same
      rw [← same, found] at found'
      cases found'
      exact ⟨other.terminate last, by simp [found], List.prefix_rfl,
        fun ends => absurd unterminated ends⟩
    · exact ⟨body, found, List.prefix_rfl, fun _ => rfl⟩
  edges := by
    obtain ⟨other, found, unterminated⟩ := isOpen
    intro source target _ outside edge
    rcases (edge_terminate found unterminated last source target).mp edge with old | ⟨_, member⟩
    · exact old
    · exact absurd member outside

theorem addBlock (built : generator.WellBuilt) (name : String) :
    Grows ∅ ∅ generator (generator.addBlock name) where
  values := Nat.le_refl _
  count := Nat.le_succ _
  frame := fun id old _ => by rw [blocks_addBlock _ built.sized, if_neg (Nat.ne_of_lt old)]
  kept := fun id body found => by
    refine ⟨body, ?_, List.prefix_rfl, fun _ => rfl⟩
    rw [blocks_addBlock _ built.sized, if_neg (Nat.ne_of_lt (built.lt_next found)), found]
  edges := fun source target _ _ edge => by
    simpa only [edge_addBlock built.sized] using edge

end Grows

theorem WellBuilt.untouched_addBlock {generator : IRGenerator} (built : generator.WellBuilt)
    (name : String) : Untouched (generator.addBlock name) generator.nextBlockId :=
  ⟨{ id := generator.nextBlockId, name := name },
    by rw [blocks_addBlock _ built.sized, if_pos rfl], rfl, rfl⟩

end IRGenerator

end Ocelotl.IR
