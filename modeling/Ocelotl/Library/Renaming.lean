import Mathlib.Data.List.Forall2
import Mathlib.Data.List.Perm.Basic
import Mathlib.Data.List.Nodup

namespace Ocelotl.Library

/-- The images of the numbers below its length, in order. -/
structure Renaming where
  images : List Nat
  perm : images.Perm (List.range images.length)

namespace Renaming

variable {ids ids' ids'' : Renaming} {a a' b b' : Nat} {added : List Nat}

def size (ids : Renaming) : Nat := ids.images.length

def Sends (ids : Renaming) (a b : Nat) : Prop := ids.images[a]? = some b

theorem mem_images : b ∈ ids.images ↔ b < ids.size := by
  rw [ids.perm.mem_iff, List.mem_range, size]

theorem nodup_images (ids : Renaming) : ids.images.Nodup :=
  ids.perm.nodup_iff.mpr List.nodup_range

theorem Sends.lt (sends : ids.Sends a b) : a < ids.size ∧ b < ids.size :=
  ⟨(List.getElem?_eq_some_iff.mp sends).1, mem_images.mp (List.mem_of_getElem? sends)⟩

theorem Sends.unique (sends : ids.Sends a b) (sends' : ids.Sends a b') : b = b' :=
  Option.some.inj (sends.symm.trans sends')

theorem Sends.injective (sends : ids.Sends a b) (sends' : ids.Sends a' b) : a = a' :=
  (List.getElem?_inj sends.lt.1 ids.nodup_images).mp (sends.trans sends'.symm)

theorem Sends.eq_iff (sends : ids.Sends a b) (sends' : ids.Sends a' b') : a = a' ↔ b = b' := by
  constructor
  · rintro rfl
    exact sends.unique sends'
  · rintro rfl
    exact sends.injective sends'

/-- The other one goes on from this one. -/
def Extends (ids ids' : Renaming) : Prop := ids.images <+: ids'.images

theorem Extends.refl (ids : Renaming) : Extends ids ids := List.prefix_refl _

theorem Extends.trans (first : Extends ids ids') (second : Extends ids' ids'') :
    Extends ids ids'' := List.IsPrefix.trans first second

theorem Sends.mono (sends : ids.Sends a b) (longer : Extends ids ids') :
    ids'.Sends a b := by
  obtain ⟨rest, same⟩ := longer
  rw [Sends, ← same, List.getElem?_append_left sends.lt.1]
  exact sends

def empty : Renaming := ⟨[], .refl _⟩

/-- The next numbers are sent to each other, in any order. -/
def append (ids : Renaming) (added : List Nat)
    (perm : added.Perm (List.range' ids.size added.length)) : Renaming where
  images := ids.images ++ added
  perm := by
    rw [List.length_append, List.range_add]
    refine ids.perm.append (perm.trans ?_)
    rw [List.range'_eq_map_range, size]

section Append

variable {perm : added.Perm (List.range' ids.size added.length)}

theorem size_append : (ids.append added perm).size = ids.size + added.length :=
  List.length_append

theorem extends_append : Extends ids (ids.append added perm) := List.prefix_append _ _

theorem sends_append {index : Nat} (found : added[index]? = some b) :
    (ids.append added perm).Sends (ids.size + index) b := by
  have here : (ids.images ++ added)[ids.images.length + index]? = some b := by
    rw [List.getElem?_append_right (Nat.le_add_right _ _), Nat.add_sub_cancel_left]
    exact found
  exact here

theorem forall₂_append :
    List.Forall₂ (ids.append added perm).Sends (List.range' ids.size added.length) added := by
  refine List.forall₂_iff_get.mpr ⟨List.length_range', fun index within within' => ?_⟩
  rw [List.get_eq_getElem, List.getElem_range', Nat.one_mul]
  exact sends_append (List.getElem?_eq_getElem within')

end Append

/-- The next number is sent to itself. -/
def fresh (ids : Renaming) : Renaming := ids.append [ids.size] (.refl _)

theorem size_fresh : ids.fresh.size = ids.size + 1 := size_append

theorem extends_fresh : Extends ids ids.fresh := extends_append

theorem sends_fresh : ids.fresh.Sends ids.size ids.size := by
  have sends : (ids.append [ids.size] (.refl _)).Sends (ids.size + 0) ids.size := sends_append rfl
  exact sends

/-- Other numbers are sent to themselves. -/
def apply (ids : Renaming) (a : Nat) : Nat := ids.images[a]?.getD a

theorem Sends.apply_eq (sends : ids.Sends a b) : ids.apply a = b := by
  rw [apply, sends, Option.getD_some]

theorem sends_apply (within : a < ids.size) : ids.Sends a (ids.apply a) := by
  have found : ids.images[a]? = some ids.images[a] := List.getElem?_eq_getElem within
  rw [Sends, apply, found, Option.getD_some]

theorem apply_of_le (beyond : ids.size ≤ a) : ids.apply a = a := by
  rw [apply, List.getElem?_eq_none beyond, Option.getD_none]

theorem apply_lt_iff : ids.apply a < ids.size ↔ a < ids.size := by
  by_cases within : a < ids.size
  · exact iff_of_true (sends_apply within).lt.2 within
  · rw [apply_of_le (Nat.le_of_not_lt within)]

theorem apply_bijective (ids : Renaming) : Function.Bijective ids.apply := by
  constructor
  · intro a a' same
    by_cases within : a < ids.size
    · have within' : a' < ids.size := apply_lt_iff.mp (same ▸ apply_lt_iff.mpr within)
      exact (sends_apply within).injective (same ▸ sends_apply within')
    · have beyond : ¬ a' < ids.size := fun within' =>
        within (apply_lt_iff.mp (same ▸ apply_lt_iff.mpr within'))
      rwa [apply_of_le (Nat.le_of_not_lt within), apply_of_le (Nat.le_of_not_lt beyond)] at same
  · intro b
    by_cases within : b < ids.size
    · obtain ⟨a, sends⟩ := List.getElem?_of_mem (mem_images.mpr within)
      exact ⟨a, Sends.apply_eq sends⟩
    · exact ⟨b, apply_of_le (Nat.le_of_not_lt within)⟩

end Renaming

end Ocelotl.Library
