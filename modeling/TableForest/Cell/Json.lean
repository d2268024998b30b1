import TableForest.Cell.Value
import TableForest.Json.Decode

/-!
# Values in JSON

A value is an object of its kind and its datum.
-/

namespace TableForest

def Kind.ofExactName? (s : String) : Option Kind :=
  Kind.all.find? (·.name = s)

namespace Value

def datumJson : Value → Json
  | logical b => .bool b
  | integer n => .ofInt n.toInt
  | numeric x => .ofBinary x
  | text s => .ofString s
  | fileLink s => .ofString s

def toJson (v : Value) : Json :=
  .ofMembers [("kind", .ofString v.kind.name), ("value", v.datumJson)]

def ofDatum? (kind : Kind) (j : Json) : Option Value :=
  match kind with
  | .logical => j.asBool?.map logical
  | .integer => j.asInt64?.map integer
  | .numeric => j.asBinary64?.map numeric
  | .text => j.asString?.map text
  | .fileLink => j.asString?.map fileLink

/-- The value that an object of kind and datum describes. -/
def ofJson? (j : Json) : Option Value := do
  match ← j.asRecord? ["kind", "value"] Json.maxDepth with
  | [some kind, some datum] => ofDatum? (← kind.asString?.bind Kind.ofExactName?) datum
  | _ => none

end Value
end TableForest
