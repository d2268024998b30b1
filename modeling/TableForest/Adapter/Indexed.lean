import TableForest.Adapter.Builtin
import TableForest.Dict

/-!
# Registries with an index

How an adapter is found without going through all of them: the adapters of one sort stand in a row, and an
index knows the slot of each name.  A new name gets the next slot.  A name that is taken keeps its slot, and
the adapter in it gives way.
-/

namespace TableForest

/-- Elements in a row, and an index of their names. -/
structure IndexedRow (α : Type) where
  items : List α
  index : Dict Nat
  /-- The index leads nowhere outside the row. -/
  inRow : ∀ entry ∈ index.entries, entry.2 < items.length

namespace IndexedRow

variable {α : Type}

def empty : IndexedRow α := ⟨[], .empty, nofun⟩

theorem lt_of_get? (row : IndexedRow α) {name : String} {i : Nat} (h : row.index.get? name = some i) :
    i < row.items.length := by
  obtain ⟨before, after, heq, -⟩ := List.lookup_eq_some_iff.1 h
  exact row.inRow (name, i) (by simp [heq])

/-- The slot of a name, if the name is taken. -/
def slot? (row : IndexedRow α) (name : String) : Option (Fin row.items.length) :=
  match h : row.index.get? name with
  | some i => some ⟨i, row.lt_of_get? h⟩
  | none => none

def find? (row : IndexedRow α) (name : String) : Option α :=
  (row.slot? name).map fun slot => row.items[slot]

def register (name : α → String) (row : IndexedRow α) (x : α) : IndexedRow α :=
  match row.slot? (name x) with
  | some slot => ⟨row.items.set slot x, row.index, fun entry h => by simpa using row.inRow entry h⟩
  | none =>
    { items := row.items ++ [x]
      index := row.index.insert (name x) row.items.length
      inRow := by
        intro entry h
        rw [List.length_append, List.length_singleton]
        rcases Dict.mem_put h with rfl | h
        · exact Nat.lt_succ_self _
        · exact Nat.lt_succ_of_lt (row.inRow entry h) }

end IndexedRow

/-- Readers and writers, each sort in a row of its own. -/
structure IndexedRegistry where
  readers : IndexedRow Reader
  writers : IndexedRow Writer

namespace IndexedRegistry

def empty : IndexedRegistry := ⟨.empty, .empty⟩

def registerReader (r : IndexedRegistry) (x : Reader) : IndexedRegistry :=
  { r with readers := r.readers.register (·.info.name) x }

def registerWriter (r : IndexedRegistry) (x : Writer) : IndexedRegistry :=
  { r with writers := r.writers.register (·.info.name) x }

def reader? (r : IndexedRegistry) (name : String) : Option Reader :=
  r.readers.find? name

def writer? (r : IndexedRegistry) (name : String) : Option Writer :=
  r.writers.find? name

end IndexedRegistry

/-! ## Registrations -/

/-- A registration of an adapter. -/
inductive Registration where
  | reader (x : Reader)
  | writer (x : Writer)

namespace Registration

def reader? : Registration → Option Reader
  | reader x => some x
  | writer _ => none

def writer? : Registration → Option Writer
  | reader _ => none
  | writer x => some x

/-- The registrations of the built-in adapters. -/
def builtin : List Registration :=
  Builtin.readers.map reader ++ Builtin.writers.map writer

end Registration

def Registry.register (r : Registry) : Registration → Registry
  | .reader x => r.registerReader x
  | .writer x => r.registerWriter x

def IndexedRegistry.register (r : IndexedRegistry) : Registration → IndexedRegistry
  | .reader x => r.registerReader x
  | .writer x => r.registerWriter x

/-- The registry after registrations, one after the other. -/
def Registry.registerAll (r : Registry) (history : List Registration) : Registry :=
  history.foldl register r

def IndexedRegistry.registerAll (r : IndexedRegistry) (history : List Registration) : IndexedRegistry :=
  history.foldl register r

end TableForest
