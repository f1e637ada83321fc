import Mathlib.Data.List.Forall2
import Mathlib.Logic.Relation

namespace Ocelotl.Library

universe u v

variable {Vertex : Type u}

/-- A walk from the root. The vertices it has visited are listed last first. -/
inductive Walk (edge : Vertex → Vertex → Prop) (root : Vertex) : List Vertex → Vertex → Prop where
  | start : Walk edge root [root] root
  | step (walk : Walk edge root visited source) (next : edge source target) :
      Walk edge root (target :: visited) target

/-- Every walk from the root to the vertex passes through the dominator. -/
def Dominates (edge : Vertex → Vertex → Prop) (root dominator vertex : Vertex) : Prop :=
  ∀ visited, Walk edge root visited vertex → dominator ∈ visited

variable {edge edge' : Vertex → Vertex → Prop} {root : Vertex}

theorem Walk.target_mem (walk : Walk edge root visited vertex) : vertex ∈ visited := by
  cases walk <;> simp

theorem Walk.root_mem (walk : Walk edge root visited vertex) : root ∈ visited := by
  induction walk with
  | start => simp
  | step _ _ ih => exact List.mem_cons_of_mem _ ih

theorem Dominates.refl (vertex : Vertex) : Dominates edge root vertex vertex :=
  fun _ walk => walk.target_mem

theorem Dominates.of_root (vertex : Vertex) : Dominates edge root root vertex :=
  fun _ walk => walk.root_mem

/-- A vertex is dominated by whatever dominates all its predecessors. -/
theorem Dominates.of_predecessors (notRoot : vertex ≠ root)
    (each : ∀ source, edge source vertex → Dominates edge root dominator source) :
    Dominates edge root dominator vertex := by
  intro visited walk
  cases walk with
  | start => exact absurd rfl notRoot
  | step walk next => exact List.mem_cons_of_mem _ (each _ next _ walk)

/-- When the larger graph adds no edge into the old part, walks that end in
the old part stay in it. -/
theorem Walk.restrict (old : Vertex → Prop)
    (closed : ∀ source target, old target → edge' source target →
      edge source target ∧ old source)
    (walk : Walk edge' root visited vertex) (member : old vertex) :
    Walk edge root visited vertex := by
  induction walk with
  | start => exact .start
  | step walk next ih =>
    obtain ⟨same, earlier⟩ := closed _ _ member next
    exact .step (ih earlier) same

/-- Dominance of an old vertex is kept by such a growth. -/
theorem Dominates.grow (old : Vertex → Prop)
    (closed : ∀ source target, old target → edge' source target →
      edge source target ∧ old source)
    (dominates : Dominates edge root dominator vertex) (member : old vertex) :
    Dominates edge' root dominator vertex :=
  fun visited walk => dominates visited (walk.restrict old closed member)

section Correspondence

variable {Vertex' : Type v} {edge' : Vertex' → Vertex' → Prop} {root' : Vertex'}
  {related : Vertex → Vertex' → Prop}

/-- A walk is followed by a walk through the corresponding vertices. -/
theorem Walk.follow (start : related root root')
    (steps : ∀ {source source' target}, related source source' → edge source target →
      ∃ target', related target target' ∧ edge' source' target')
    (walk : Walk edge root visited vertex) :
    ∃ visited' vertex', Walk edge' root' visited' vertex' ∧ related vertex vertex' ∧
      List.Forall₂ related visited visited' := by
  induction walk with
  | start => exact ⟨[root'], root', .start, start, .cons start .nil⟩
  | step _ next ih =>
    obtain ⟨visited', source', walk', here, each⟩ := ih
    obtain ⟨target', there, next'⟩ := steps here next
    exact ⟨target' :: visited', target', .step walk' next', there, .cons there each⟩

/-- Dominance is that of the corresponding vertices, when every edge of the
other graph comes from this one. -/
theorem Dominates.correspond (unique : Relator.BiUnique related) (start : related root root')
    (steps : ∀ {source source' target'}, related source source' → edge' source' target' →
      ∃ target, related target target' ∧ edge source target)
    (dominator : related d d') (vertex : related v v') (dominates : Dominates edge root d v) :
    Dominates edge' root' d' v' := by
  intro visited' walk'
  have start' : flip related root' root := start
  have steps' {source source' target} (here : flip related source source')
    (next : edge' source target) :
      ∃ target', flip related target target' ∧ edge source' target' := steps here next
  obtain ⟨visited, other, walk, same, each⟩ := Walk.follow start' steps' walk'
  have member := dominates visited (unique.1 same vertex ▸ walk)
  exact (List.rel_mem unique dominator each.flip).mp member

end Correspondence

end Ocelotl.Library
