import TableForest.Table.Basic

/-!
# Forests of tables

Tables stand in an arena and keep their handles for ever: the handle of a removed table stays empty.  A
table knows its parent and its children, and the tables without a parent are the roots.  A table with
children cannot be removed; the children have to be detached or removed first.
-/

namespace TableForest

/-- A table in its place. -/
structure ForestNode where
  table : Table
  parent : Option TableId
  children : List TableId

/-- The arena of all handles, and the roots in the order in which they became roots. -/
structure Forest where
  nodes : List (Option ForestNode)
  roots : List TableId

namespace Forest

def empty : Forest := ⟨[], []⟩

instance : Inhabited Forest := ⟨empty⟩

def node? (f : Forest) (id : TableId) : Option ForestNode :=
  (f.nodes[id.index]?).join

/-- The table of a handle in its place, which has to be there. -/
def node (f : Forest) (id : TableId) : Except TableError ForestNode :=
  match f.node? id with
  | some n => .ok n
  | none => .error (.unknownTable id)

def table (f : Forest) (id : TableId) : Except TableError Table :=
  (f.node id).map ForestNode.table

def size (f : Forest) : Nat :=
  f.nodes.countP Option.isSome

def isEmpty (f : Forest) : Bool :=
  f.roots.isEmpty

def modify (f : Forest) (id : TableId) (g : ForestNode → ForestNode) : Forest :=
  { f with nodes := f.nodes.modify id.index (·.map g) }

def setTable (f : Forest) (id : TableId) (t : Table) : Forest :=
  f.modify id ({ · with table := t })

def nextId (f : Forest) : TableId :=
  ⟨f.nodes.length⟩

/-- The forest with a new node at the end of the arena. -/
def allocate (f : Forest) (t : Table) (parent : Option TableId) : Forest :=
  { f with nodes := f.nodes ++ [some ⟨t, parent, []⟩] }

def insertRoot (f : Forest) (t : Table) : TableId × Forest :=
  let grown := f.allocate t none
  (f.nextId, { grown with roots := f.roots ++ [f.nextId] })

def insertChild (f : Forest) (parent : TableId) (t : Table) : Except TableError (TableId × Forest) := do
  let _ ← f.node parent
  -- the handle is that of the place behind the last, so no handle is given twice
  let grown := f.allocate t (some parent)
  return (f.nextId, grown.modify parent fun n => { n with children := n.children ++ [f.nextId] })

/-- The forest in which a table is no child of its parent any more. -/
def unlink (f : Forest) (parent id : TableId) : Except TableError Forest := do
  let _ ← f.node parent
  return f.modify parent fun n => { n with children := n.children.filter (· ≠ id) }

/-- Makes a child a root; a root stays where it is. -/
def detach (f : Forest) (id : TableId) : Except TableError Forest := do
  match (← f.node id).parent with
  | none => return f
  | some parent =>
    let unlinked ← f.unlink parent id
    let freed := unlinked.modify id fun n => { n with parent := none }
    -- what stands below the table goes with it
    return { freed with roots := freed.roots ++ [id] }

def remove (f : Forest) (id : TableId) : Except TableError (Table × Forest) := do
  let n ← f.node id
  if !n.children.isEmpty then throw (.hasChildren n.table.name n.children.length)
  let unlinked ← match n.parent with
    | some parent => f.unlink parent id
    | none => pure { f with roots := f.roots.filter (· ≠ id) }
  -- the place stays empty, and the handle leads nowhere from now on
  return (n.table, { unlinked with nodes := unlinked.nodes.set id.index none })

/-! ## Walks -/

/-- Visits the tables on a stack, each before its children.  As many steps are taken as `steps` says; a
forest has no more tables than its arena is long. -/
def walkStack (f : Forest) : Nat → List TableId → Except TableError (List TableId)
  | _, [] => .ok []
  | 0, _ :: _ => .ok []
  | steps + 1, id :: stack => do
    let n ← f.node id
    return id :: (← f.walkStack steps (n.children ++ stack))

def walk (f : Forest) (id : TableId) : Except TableError (List TableId) := do
  let _ ← f.node id
  f.walkStack f.nodes.length [id]

def walkAll (f : Forest) : List TableId :=
  f.roots.flatMap fun r => match f.walk r with
    | .ok ids => ids
    | .error _ => []

/-- The tables above a table, the parent first; no chain is longer than the arena. -/
def climb (f : Forest) : Nat → TableId → Except TableError (List TableId)
  | 0, _ => .ok []
  | steps + 1, id => do
    match (← f.node id).parent with
    | none => return []
    | some parent => return parent :: (← f.climb steps parent)

/-- The tables above a table, the parent first. -/
def ancestors (f : Forest) (id : TableId) : Except TableError (List TableId) :=
  do
    let _ ← f.node id
    f.climb f.nodes.length id

def depth (f : Forest) (id : TableId) : Except TableError Nat :=
  (f.ancestors id).map List.length

/-- The names from the root to a table, between slashes. -/
def pathOf (f : Forest) (id : TableId) : Except TableError String := do
  let ids := id :: (← f.ancestors id)
  let names ← ids.reverse.mapM fun i => (f.table i).map Table.name
  return "/".intercalate names

def findNamed? (f : Forest) (ids : List TableId) (name : String) : Option TableId :=
  ids.find? fun id => match f.node? id with
    | some n => n.table.name = name
    | none => false

/-- The table that names lead to, from child to child. -/
def descend? (f : Forest) (current : TableId) : List String → Option TableId
  | [] => some current
  | name :: rest => do
    let n ← f.node? current
    f.descend? (← f.findNamed? n.children name) rest

/-- The table at a path of names between slashes, from a root on. -/
def findPath? (f : Forest) (path : String) : Option TableId :=
  match ((path.toList.splitOn '/').filter (· ≠ [])).map String.ofList with
  | [] => none
  | first :: rest => do f.descend? (← f.findNamed? f.roots first) rest

/-- Sets the working directory of a table and of all below it. -/
def setWorkingDirRecursive (f : Forest) (id : TableId) (dir : Option Path) :
    Except TableError Forest := do
  let ids ← f.walk id
  return ids.foldl (fun f i => f.modify i fun n => { n with table.workingDir := dir }) f

end Forest
end TableForest
