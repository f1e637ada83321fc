import Ocelotl.Ast
import Ocelotl.Library.UnorderedMap

namespace Ocelotl.Semantic

open Library

structure Symbol where
  name : String
  type : TensorType
  location : SourceLocation
  deriving DecidableEq, Repr

/-- Every symbol is stored under its own name. -/
structure SymbolTable where
  entries : UnorderedMap String Symbol
  named : ∀ {name symbol}, entries.lookup name = some symbol → symbol.name = name

namespace SymbolTable

def empty : SymbolTable := ⟨∅, by simp⟩

def lookup (symbols : SymbolTable) (name : String) : Option Symbol := symbols.entries.lookup name

def contains (symbols : SymbolTable) (name : String) : Bool := (symbols.lookup name).isSome

private theorem emplace_named (symbols : SymbolTable) (symbol : Symbol)
    (found : (symbols.entries.emplace symbol.name symbol).2.lookup name = some other) :
    other.name = name := by
  by_cases present : symbol.name ∈ symbols.entries
  · rw [UnorderedMap.emplace_present present] at found
    exact symbols.named found
  · rw [UnorderedMap.lookup_emplace_absent present] at found
    split at found
    · rename_i same
      cases found
      exact same.symm
    · exact symbols.named found

/-- Declare a symbol under its own name, unless that name is taken. The flag
tells whether the symbol was inserted. -/
def declare (symbols : SymbolTable) (symbol : Symbol) : Bool × SymbolTable :=
  ((symbols.entries.emplace symbol.name symbol).1,
    ⟨(symbols.entries.emplace symbol.name symbol).2, emplace_named symbols symbol⟩)

/-- The type a name has in the table. -/
def typeOf (symbols : SymbolTable) (name : String) : Option TensorType :=
  (symbols.lookup name).map Symbol.type

theorem typeOf_of_lookup {symbols : SymbolTable} (found : symbols.lookup name = some symbol) :
    symbols.typeOf name = some symbol.type := by simp [typeOf, found]

theorem typeOf_eq_none {symbols : SymbolTable} :
    symbols.typeOf name = none ↔ symbols.lookup name = none := by simp [typeOf]

theorem lookup_of_typeOf {symbols : SymbolTable} (known : symbols.typeOf name = some type) :
    ∃ symbol, symbols.lookup name = some symbol ∧ symbol.type = type := by
  simpa [typeOf] using known

theorem contains_eq_false {symbols : SymbolTable} :
    symbols.contains name = false ↔ symbols.lookup name = none := by simp [contains]

theorem contains_iff {symbols : SymbolTable} :
    symbols.contains name = true ↔ ∃ type, symbols.typeOf name = some type := by
  simp [contains, typeOf, Option.isSome_iff_exists]

@[simp] theorem lookup_empty (name : String) : empty.lookup name = none := by
  simp [empty, lookup]

@[simp] theorem typeOf_empty (name : String) : empty.typeOf name = none := by simp [typeOf]

/-- A name that is taken keeps its symbol, and nothing is inserted. -/
theorem declare_present {symbols : SymbolTable} (present : symbols.lookup symbol.name ≠ none) :
    symbols.declare symbol = (false, symbols) := by
  have member : symbol.name ∈ symbols.entries := by
    by_contra absent
    exact present (AList.lookup_eq_none.mpr absent)
  simp [declare, UnorderedMap.emplace_present member]

theorem declare_absent {symbols : SymbolTable} (absent : symbols.lookup symbol.name = none) :
    (symbols.declare symbol).1 = true := by
  simp [declare, UnorderedMap.emplace_absent (AList.lookup_eq_none.mp absent)]

theorem lookup_declare {symbols : SymbolTable} (absent : symbols.lookup symbol.name = none)
    (other : String) : (symbols.declare symbol).2.lookup other =
      if other = symbol.name then some symbol else symbols.lookup other :=
  UnorderedMap.lookup_emplace_absent (AList.lookup_eq_none.mp absent) other

theorem typeOf_declare {symbols : SymbolTable} (absent : symbols.lookup symbol.name = none)
    (other : String) : (symbols.declare symbol).2.typeOf other =
      if other = symbol.name then some symbol.type else symbols.typeOf other := by
  simp only [typeOf, lookup_declare absent]
  split <;> rfl

/-- Every symbol of the table is in the other one. -/
def Within (symbols symbols' : SymbolTable) : Prop :=
  ∀ name symbol, symbols.lookup name = some symbol → symbols'.lookup name = some symbol

theorem Within.refl (symbols : SymbolTable) : symbols.Within symbols := fun _ _ found => found

theorem Within.trans {symbols symbols' symbols'' : SymbolTable} (first : symbols.Within symbols')
    (second : symbols'.Within symbols'') : symbols.Within symbols'' :=
  fun name symbol found => second name symbol (first name symbol found)

theorem Within.typeOf {symbols symbols' : SymbolTable} (within : symbols.Within symbols')
    (known : symbols.typeOf name = some type) : symbols'.typeOf name = some type := by
  obtain ⟨symbol, found, rfl⟩ := lookup_of_typeOf known
  exact typeOf_of_lookup (within name symbol found)

theorem within_declare (symbols : SymbolTable) (symbol : Symbol) :
    symbols.Within (symbols.declare symbol).2 :=
  fun _ _ found => UnorderedMap.lookup_emplace_of_some found

end SymbolTable

end Ocelotl.Semantic
