import TableForest.Yaml.Lexer
import TableForest.Yaml.Node
import TableForest.Yaml.Schema

/-!
# The content of a document

The value of a node is read with its aliases followed.  An alias may lead into the node that it stands
in, so two limits hold: how deeply collections are nested, and how many aliases are followed in all.
-/

namespace TableForest.Yaml

/-- The greatest number of collections around a value. -/
def maxDepth : Nat := 128

/-- The greatest number of aliases that are followed, for each step in which the nodes are passed. -/
def maxFollowed : Nat := 100

/-- Reading with a count of the aliases that have been followed. -/
abbrev Following := StateT Nat Option

namespace Document

def read? (s : String) : Option Document :=
  (tokens? s).bind ofTokens?

/-- The node itself, or the one that an alias leads to. -/
def follow (d : Document) : Node → Following Node
  | .reference anchor => do
    let followed ← get
    if maxFollowed * d.steps ≤ followed then failure
    set (followed + 1)
    (d.target? anchor : Option Node)
  | n => return n

/-- A local tag means nothing here. -/
def refuseLocalTag (tag : Option Bytes) : Following Unit :=
  if tag.any isLocalTag then failure else return ()

/-- The value of a node that lies in as many collections as leave the given depth. -/
def value (d : Document) : Nat → Node → Following Yaml
  | depth, n => do
    match depth, ← d.follow n with
    | _, .scalar tag plain text => scalarValue? tag plain text
    | depth + 1, .sequence tag items =>
      refuseLocalTag tag
      return .sequence (← items.mapM (d.value depth))
    | depth + 1, .mapping tag entries =>
      refuseLocalTag tag
      return .mapping (← entries.mapM fun (key, value) => do
        return (← d.value depth key, ← d.value depth value))
    | _, _ => failure

/-- The text of a scalar, whatever it stands for. -/
def text (d : Document) (n : Node) : Following String := do
  match ← d.follow n with
  | .scalar _ _ s => return s
  | _ => failure

/-- The entries of a mapping; a scalar that is not written at all has none. -/
def entries (d : Document) (n : Node) : Following (List (Node × Node)) := do
  match ← d.follow n with
  | .mapping _ entries => return entries
  | .scalar _ true "" => return []
  | _ => failure

end Document
end TableForest.Yaml
