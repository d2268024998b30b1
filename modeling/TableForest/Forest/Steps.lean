import TableForest.Forest.Operation
import TableForest.Steps

/-!
# Operations on forests step by step

A forest is kept as its arena and the list of its roots, and a table hangs in it by the lists of its parent and of
the roots and by what it knows of its parent.  An operation looks tables up and changes these one after the other; a
lookup that finds nothing is a failure, and what has been changed until then stays changed.

`Forest.Operation` says what comes of an operation; here is the order in which it checks and changes things.
-/

namespace TableForest

namespace ForestSteps

open Steps (check fail)

/-- Looks a table up. -/
def find (id : TableId) : Steps Forest TableError ForestNode := do
  check ((← get).node id)

/-- Looks a table up and changes it in its place. -/
def change (id : TableId) (f : ForestNode → ForestNode) : Steps Forest TableError Unit := do
  let n ← find id
  modify fun forest => { forest with nodes := forest.nodes.set id.index (some (f n)) }

def pushRoot (id : TableId) : Steps Forest TableError Unit :=
  modify fun forest => { forest with roots := forest.roots ++ [id] }

/-- A new place at the end of the arena; the answer is its handle. -/
def allocate (t : Table) (parent : Option TableId) : Steps Forest TableError TableId := do
  let id := (← get).nextId
  modify fun forest => { forest with nodes := forest.nodes ++ [some ⟨t, parent, []⟩] }
  return id

/-- Takes a table out of its place.  Past the end of the arena there is no place, which is a panic. -/
def take (id : TableId) : Steps Forest TableError ForestNode := do
  match ← Steps.seek (← get).nodes[id.index]? with
  | some n =>
    modify fun forest => { forest with nodes := forest.nodes.set id.index none }
    return n
  | none => fail (.unknownTable id)

def insertRoot (t : Table) : Steps Forest TableError TableId := do
  let id ← allocate t none
  pushRoot id
  return id

/-- The new table knows its parent before the parent knows it. -/
def insertChild (parent : TableId) (t : Table) : Steps Forest TableError TableId := do
  let _ ← find parent
  let id ← allocate t (some parent)
  change parent fun n => { n with children := n.children ++ [id] }
  return id

def detach (id : TableId) : Steps Forest TableError Unit := do
  match (← find id).parent with
  | none => return
  | some parent =>
    change parent fun n => { n with children := n.children.filter (· ≠ id) }
    change id fun n => { n with parent := none }
    pushRoot id

def remove (id : TableId) : Steps Forest TableError Table := do
  let n ← find id
  if !n.children.isEmpty then
    fail (.hasChildren n.table.name n.children.length)
  else
    match n.parent with
    | some parent => change parent fun n => { n with children := n.children.filter (· ≠ id) }
    | none => modify fun forest => { forest with roots := forest.roots.filter (· ≠ id) }
    return (← take id).table

/-- The tables are found first, and then changed one after the other. -/
def setWorkingDirRecursive (id : TableId) (dir : Option Path) : Steps Forest TableError Unit := do
  let ids ← check ((← get).walk id)
  ids.forM fun i => change i fun n => { n with table.workingDir := dir }

end ForestSteps

/-- An operation step by step. -/
def ForestOperation.steps : ForestOperation → Steps Forest Unit Unit
  | insertRoot name history => (ForestSteps.insertRoot (.made name history)).outcome
  | insertChild parent name history => (ForestSteps.insertChild parent (.made name history)).outcome
  | detach id => (ForestSteps.detach id).outcome
  | remove id => (ForestSteps.remove id).outcome
  | setWorkingDirRecursive id dir => (ForestSteps.setWorkingDirRecursive id dir).outcome
  | edit id history =>
    (ForestSteps.change id fun n => { n with table := n.table.run history }).outcome
  | replace id name history =>
    (ForestSteps.change id fun n => { n with table := .made name history }).outcome

/-- The forest after a history of operations, each of which goes on with what the one before it has left, also by
a failure.  A panic ends the history, and there is nothing any more. -/
def Forest.runSteps? (f : Forest) : List ForestOperation → Option Forest
  | [] => some f
  | op :: rest =>
    match op.steps.execute f with
    | (.error .panicked, _) => none
    | (_, left) => left.runSteps? rest

end TableForest
