import Mathlib.Data.List.AList

/-! A map whose traversal order is not specified. Every traversal asks an order
chosen from outside, which may be any permutation of the entries. -/

namespace Ocelotl.Library

/-- Association lists with distinct keys, read as hash maps. -/
abbrev UnorderedMap (κ ν : Type) := AList fun _ : κ => ν

namespace UnorderedMap

variable {κ ν : Type} [DecidableEq κ]

/-- Insert unless the key is present, and tell whether the entry was inserted. -/
def emplace (map : UnorderedMap κ ν) (key : κ) (value : ν) : Bool × UnorderedMap κ ν :=
  if key ∈ map then (false, map) else (true, map.insert key value)

omit [DecidableEq κ] in
def pairs (map : UnorderedMap κ ν) : List (κ × ν) := map.entries.map fun entry => (entry.1, entry.2)

theorem mem_pairs {map : UnorderedMap κ ν} : (key, value) ∈ map.pairs ↔
    map.lookup key = some value := by
  rw [← Option.mem_def, AList.mem_lookup_iff]
  constructor
  · intro member
    obtain ⟨entry, present, same⟩ := List.mem_map.mp member
    cases same
    exact present
  · intro present
    exact List.mem_map.mpr ⟨_, present, rfl⟩

omit [DecidableEq κ] in
theorem nodup_pairs (map : UnorderedMap κ ν) : (map.pairs.map Prod.fst).Nodup := by
  have keys := map.keys_nodup
  simpa [pairs, AList.keys, List.keys, Function.comp_def] using keys

theorem emplace_present {map : UnorderedMap κ ν} (present : key ∈ map) :
    map.emplace key value = (false, map) := by simp [emplace, present]

theorem emplace_absent {map : UnorderedMap κ ν} (absent : key ∉ map) :
    map.emplace key value = (true, map.insert key value) := by simp [emplace, absent]

theorem pairs_emplace_absent {map : UnorderedMap κ ν} (absent : key ∉ map) :
    (map.emplace key value).2.pairs = (key, value) :: map.pairs := by
  rw [emplace_absent absent, pairs, AList.insert_of_notMem absent]
  rfl

theorem mem_emplace {map : UnorderedMap κ ν} :
    other ∈ (map.emplace key value).2 ↔ other ∈ map ∨ other = key := by
  by_cases present : key ∈ map
  · rw [emplace_present present]
    constructor
    · exact .inl
    · intro member
      rcases member with old | same
      · exact old
      · exact same ▸ present
  · rw [emplace_absent present, AList.mem_insert, or_comm]

theorem lookup_emplace_absent {map : UnorderedMap κ ν} (absent : key ∉ map) (other : κ) :
    (map.emplace key value).2.lookup other =
      if other = key then some value else map.lookup other := by
  rw [emplace_absent absent]
  by_cases same : other = key
  · subst same; simp
  · simp [same]

theorem lookup_insert_eq (map : UnorderedMap κ ν) (key other : κ) (value : ν) :
    AList.lookup other (map.insert key value) =
      if other = key then some value else map.lookup other := by
  by_cases same : other = key
  · subst same; simp
  · simp [same]

/-- A map that numbers keys by their position in a list. -/
theorem lookup_of_zipIdx {map : UnorderedMap κ Nat} {keys : List κ}
    (pairs : map.pairs = keys.zipIdx.reverse) :
    map.lookup key = some index ↔ keys[index]? = some key := by
  rw [← mem_pairs, pairs, List.mem_reverse, List.mem_zipIdx_iff_getElem?]

/-- `emplace` never changes what a present key is bound to. -/
theorem lookup_emplace_of_some {map : UnorderedMap κ ν} (found : map.lookup other = some bound) :
    (map.emplace key value).2.lookup other = some bound := by
  by_cases present : key ∈ map
  · rw [emplace_present present]; exact found
  · rw [lookup_emplace_absent present]
    split
    · rename_i same
      subst same
      rw [AList.lookup_eq_none.mpr present] at found
      cases found
    · exact found

end UnorderedMap

/-- The order in which the entries of a map are visited, for each traversal. -/
structure TraversalOrder where
  visit : {α : Type} → Nat → List α → List α
  perm : ∀ {α : Type} (traversal : Nat) (entries : List α), (visit traversal entries).Perm entries

namespace TraversalOrder

/-- Visit the entries in the order in which they are stored. -/
def stored : TraversalOrder := ⟨fun _ entries => entries, fun _ _ => .refl _⟩

variable {κ ν : Type} [DecidableEq κ] (order : TraversalOrder)

omit [DecidableEq κ] in
def traverse (traversal : Nat) (map : UnorderedMap κ ν) : List (κ × ν) :=
  order.visit traversal map.pairs

theorem mem_traverse {map : UnorderedMap κ ν} :
    (key, value) ∈ order.traverse traversal map ↔ map.lookup key = some value := by
  rw [traverse, (order.perm _ _).mem_iff, UnorderedMap.mem_pairs]

omit [DecidableEq κ] in
theorem nodup_traverse (traversal : Nat) (map : UnorderedMap κ ν) :
    ((order.traverse traversal map).map Prod.fst).Nodup :=
  ((order.perm _ _).map _).nodup_iff.mpr map.nodup_pairs

end TraversalOrder

end Ocelotl.Library
