import TableForest.Forest.Basic
import TableForest.Table.Operation

/-!
# Operations on forests as data

Every operation that the library offers on a forest, with its arguments, as one value.  New tables come with
the history that made them, so `Forest.run` goes through all forests that can be built.
-/

namespace TableForest

/-- An operation on a forest with its arguments. -/
inductive ForestOperation where
  | insertRoot (name : String) (history : List TableOperation)
  | insertChild (parent : TableId) (name : String) (history : List TableOperation)
  | detach (id : TableId)
  | remove (id : TableId)
  | setWorkingDirRecursive (id : TableId) (dir : Option Path)
  | edit (id : TableId) (history : List TableOperation)
  | replace (id : TableId) (name : String) (history : List TableOperation)

/-- The table that a history makes of a new one. -/
def Table.made (name : String) (history : List TableOperation) : Table :=
  (Table.empty name).run history

namespace Forest

/-- Whether an operation succeeded, and the forest as it left it: a failure changes nothing. -/
def report (f : Forest) : Except TableError Forest → Bool × Forest
  | .ok g => (true, g)
  | .error _ => (false, f)

/-- Performs an operation: whether it succeeds, and the forest afterwards. -/
def perform (f : Forest) : ForestOperation → Bool × Forest
  | .insertRoot name history => (true, (f.insertRoot (.made name history)).2)
  | .insertChild parent name history =>
    f.report ((f.insertChild parent (.made name history)).map Prod.snd)
  | .detach id => f.report (f.detach id)
  | .remove id => f.report ((f.remove id).map Prod.snd)
  | .setWorkingDirRecursive id dir => f.report (f.setWorkingDirRecursive id dir)
  | .edit id history => f.report ((f.table id).map fun t => f.setTable id (t.run history))
  | .replace id name history => f.report ((f.table id).map fun _ => f.setTable id (.made name history))

/-- The forest after a history of operations, of which any may fail. -/
def run (f : Forest) (history : List ForestOperation) : Forest :=
  history.foldl (fun f op => (f.perform op).2) f

end Forest
end TableForest
