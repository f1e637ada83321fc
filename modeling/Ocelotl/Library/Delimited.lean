import Mathlib.Data.List.Basic

namespace Ocelotl.Library

variable {α β : Type} {separator : β} {first first' rest rest' : List β}

/-- A text is cut at its first separator. -/
theorem cut_unique (absent : separator ∉ first) (absent' : separator ∉ first')
    (same : first ++ separator :: rest = first' ++ separator :: rest') :
    first = first' ∧ rest = rest' := by
  induction first generalizing first' with
  | nil =>
    cases first' with
    | nil => exact ⟨rfl, List.tail_eq_of_cons_eq same⟩
    | cons other first' =>
      have here := List.head_eq_of_cons_eq same
      exact absurd (here ▸ List.mem_cons_self) absent'
  | cons current first ih =>
    cases first' with
    | nil =>
      have here := List.head_eq_of_cons_eq same
      exact absurd (here ▸ List.mem_cons_self) absent
    | cons other first' =>
      obtain ⟨rfl, later⟩ := List.cons.inj same
      obtain ⟨rfl, sameRest⟩ :=
        ih (List.not_mem_of_not_mem_cons absent) (List.not_mem_of_not_mem_cons absent') later
      exact ⟨rfl, sameRest⟩

/-- Items written one after the other, each ended by the separator. -/
def terminated (separator : β) (write : α → List β) (items : List α) : List β :=
  items.flatMap fun item => write item ++ [separator]

theorem terminated_cons (write : α → List β) (item : α) (items : List α) :
    terminated separator write (item :: items) = write item ++ separator ::
      terminated separator write items := by
  unfold terminated
  rw [List.flatMap_cons, List.append_assoc]
  rfl

/-- What is written can be taken apart again, if no item contains the separator. -/
theorem map_eq_of_terminated {write : α → List β} {items items' : List α}
    (absent : ∀ item ∈ items, separator ∉ write item)
    (absent' : ∀ item ∈ items', separator ∉ write item)
    (same : terminated separator write items = terminated separator write items') :
    items.map write = items'.map write := by
  induction items generalizing items' with
  | nil =>
    cases items' with
    | nil => rfl
    | cons item' items' =>
      rw [terminated_cons] at same
      exact absurd same.symm (List.append_ne_nil_of_right_ne_nil _ (List.cons_ne_nil _ _))
  | cons item items ih =>
    cases items' with
    | nil =>
      rw [terminated_cons] at same
      exact absurd same (List.append_ne_nil_of_right_ne_nil _ (List.cons_ne_nil _ _))
    | cons item' items' =>
      rw [terminated_cons, terminated_cons] at same
      obtain ⟨here, later⟩ := List.forall_mem_cons.mp absent
      obtain ⟨here', later'⟩ := List.forall_mem_cons.mp absent'
      obtain ⟨first, rest⟩ := cut_unique here here' same
      rw [List.map_cons, List.map_cons, first, ih later later' rest]

end Ocelotl.Library
