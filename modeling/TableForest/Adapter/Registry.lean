import TableForest.Adapter.Basic

/-!
# Registries

The readers and the writers that are known, each by its name.  An adapter that is registered under a name
that is taken stands in the place of the one before; all others keep their order.
-/

namespace TableForest

/-- Readers and writers in the order of their names' first registration. -/
structure Registry where
  readers : List Reader
  writers : List Writer

namespace Registry

/-- No adapters. -/
def empty : Registry := ⟨[], []⟩

instance : Inhabited Registry := ⟨empty⟩

/-- Elements in which one stands at the place of its name, or at the end. -/
def place {α : Type} (name : α → String) (x : α) : List α → List α
  | [] => [x]
  | y :: rest => if name y = name x then x :: rest else y :: place name x rest

def registerReader (r : Registry) (x : Reader) : Registry :=
  { r with readers := place (·.info.name) x r.readers }

def registerWriter (r : Registry) (x : Writer) : Registry :=
  { r with writers := place (·.info.name) x r.writers }

def reader? (r : Registry) (name : String) : Option Reader :=
  r.readers.find? (·.info.name = name)

def writer? (r : Registry) (name : String) : Option Writer :=
  r.writers.find? (·.info.name = name)

/-- The readers of cells of a kind and a subtype. -/
def readersFor (r : Registry) (kind : Kind) (subtype : Tag) : List Reader :=
  r.readers.filter (·.info.accepts kind subtype)

def readersProducing (r : Registry) (t : ItemType) : List Reader :=
  r.readers.filter (·.info.type = t)

def writersConsuming (r : Registry) (t : ItemType) : List Writer :=
  r.writers.filter (·.info.type = t)

end Registry
end TableForest
