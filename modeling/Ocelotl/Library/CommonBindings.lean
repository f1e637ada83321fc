import Mathlib.Data.Set.Image

namespace Ocelotl.Library

abbrev Store (κ ν : Type) := κ → Option ν

variable {κ ν : Type} {stores first second : Set (Store κ ν)} {known known' : Store κ ν} {key : κ}
  {value other : ν}

/-- Every store of the set binds the key to the value. -/
def Common (stores : Set (Store κ ν)) (key : κ) (value : ν) : Prop :=
  ∀ store ∈ stores, store key = some value

/-- No key is common to both sets with two values. A set without stores has no say. -/
def Compatible (first second : Set (Store κ ν)) : Prop :=
  first.Nonempty → second.Nonempty → ∀ key value other,
    Common first key value → Common second key other → value = other

/-- One store binds exactly what is common to the set. -/
def Describes (known : Store κ ν) (stores : Set (Store κ ν)) : Prop :=
  ∀ key value, known key = some value ↔ Common stores key value

theorem common_union :
    Common (first ∪ second) key value ↔ Common first key value ∧ Common second key value := by
  simp only [Common, Set.mem_union]
  constructor
  · intro all
    exact ⟨fun store member => all store (.inl member), fun store member => all store (.inr member)⟩
  · intro ⟨left, right⟩ store member
    exact member.elim (left store) (right store)

theorem compatible_empty_left : Compatible ∅ second :=
  fun inhabited => absurd inhabited Set.not_nonempty_empty

theorem compatible_empty_right : Compatible first ∅ :=
  fun _ inhabited => absurd inhabited Set.not_nonempty_empty

theorem describes_singleton (store : Store κ ν) : Describes store {store} := by
  intro key value
  simp [Common]

/-- What is known on both sides with one value is known of their union. -/
theorem Describes.union {left right : Store κ ν} (describes : Describes left first)
    (describes' : Describes right second)
    (joined : ∀ key value, known key = some value ↔
      left key = some value ∧ right key = some value) : Describes known (first ∪ second) := by
  intro key value
  rw [joined, common_union, describes key value, describes' key value]

section Binding

variable [DecidableEq κ] {bound : Store κ ν → Option ν}

/-- Bind a key in every store, to a value that depends on the store. -/
def bindAll (key : κ) (bound : Store κ ν → Option ν) (stores : Set (Store κ ν)) :
    Set (Store κ ν) := (fun store => Function.update store key (bound store)) '' stores

theorem nonempty_bindAll : (bindAll key bound stores).Nonempty ↔ stores.Nonempty :=
  Set.image_nonempty

/-- When all stores agree on what is bound, it is common to them afterwards. -/
theorem common_bindAll (inhabited : stores.Nonempty)
    (agree : ∀ store ∈ stores, bound store = some value) (name : κ) :
    Common (bindAll key bound stores) name other ↔
      if name = key then value = other else Common stores name other := by
  simp only [Common, bindAll, Set.forall_mem_image]
  by_cases same : name = key
  · subst same
    simp only [Function.update_self, ↓reduceIte]
    constructor
    · intro all
      obtain ⟨store, member⟩ := inhabited
      exact Option.some.inj ((agree store member).symm.trans (all member))
    · intro equal store member
      rw [agree store member, equal]
  · simp only [Function.update_of_ne same, same, ↓reduceIte]

theorem Describes.bind (describes : Describes known stores) (inhabited : stores.Nonempty)
    (agree : ∀ store ∈ stores, bound store = some value)
    (updated : ∀ name, known' name = if name = key then some value else known name) :
    Describes known' (bindAll key bound stores) := by
  intro name other
  rw [updated, common_bindAll inhabited agree]
  by_cases same : name = key
  · rw [if_pos same, if_pos same, Option.some.injEq]
  · rw [if_neg same, if_neg same, describes name other]

end Binding

end Ocelotl.Library
