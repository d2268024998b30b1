import TableForest.Json.Number
import TableForest.Yaml.Value

/-!
# YAML values and JSON

Every JSON value within the limits of depth and number is a YAML value, and is written as it was.
-/

namespace TableForest.Yaml

def ofAmount : JsonAmount → Yaml
  | .integer n => .integer n
  | .floating x => .floating x

/-- The value that a JSON value is, in as many collections as leave the given depth. -/
def ofJson? : Nat → Json → Option Yaml
  | _, .null => some .null
  | _, .bool b => some (.bool b)
  | _, .number n => n.amount?.map ofAmount
  | _, .string s => s.map .string
  | depth + 1, .array items => (items.mapM (ofJson? depth)).map .sequence
  | depth + 1, .object members => do
    return .mapping (← members.mapM fun (key, value) => do
      return (.string (← key), ← ofJson? depth value))
  | 0, _ => none

/-- A value as JSON; keys of mappings are written as texts. -/
def toJson : Yaml → Json
  | null => .null
  | bool b => .bool b
  | integer n => .ofInt n
  | floating x => .ofBinary x
  | string s => .ofString s
  | sequence items => .array (itemsToJson items)
  | mapping entries => .object (entriesToJson entries)
where
  itemsToJson : List Yaml → List Json
    | [] => []
    | y :: rest => toJson y :: itemsToJson rest
  entriesToJson : List (Yaml × Yaml) → List (Option String × Json)
    | [] => []
    | (key, value) :: rest => (key.scalarText?, toJson value) :: entriesToJson rest

end TableForest.Yaml
