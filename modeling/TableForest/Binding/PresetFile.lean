import TableForest.Adapter.Error
import TableForest.Binding.Preset
import TableForest.Yaml.Content

/-!
# Files of presets

A preset is a mapping that names what it takes; of several names the first in the order of `Preset`
counts, and names that no preset knows are passed over.  A file of presets is a YAML document whose
member `selections` holds presets by parameter.
-/

namespace TableForest

namespace Yaml

/-- The number of the field that a key names; `none` inside if it is no field of these.  A key may also be
the number itself. -/
def fieldIndex? (fields : List String) : Yaml → Option (Option Nat)
  | string s => some (fields.findIdx? (· = s))
  | integer n =>
    if n < 0 then none else some (if n.toNat < fields.length then some n.toNat else none)
  | _ => none

/-- The values of the fields of a mapping, each with its value if it is there.  A field must not be there
twice. -/
def fields? (fields : List String) : Yaml → Option (List (Option Yaml))
  | mapping entries => do
    let found ← entries.mapM fun (key, value) => do return (← fieldIndex? fields key, value)
    (List.range fields.length).mapM fun i =>
      match found.filter (·.1 = some i) with
      | [] => some none
      | [(_, value)] => some (some value)
      | _ => none
  | _ => none

end Yaml

namespace Preset

def readerName? : Option Yaml → Option (Option String)
  | none => some none
  | some .null => some none
  | some (.string s) => some (some s)
  | some _ => none

def columnOf? (y : Yaml) : Option Preset := do
  match ← y.fields? ["column", "reader"] with
  | [some (.string name), reader] => return .column name (← readerName? reader)
  | _ => none

def constantOf? (y : Yaml) : Option Preset := do
  match ← y.fields? ["constant", "reader"] with
  | [some value, reader] =>
    if value.isUnambiguous then return .constant value (← readerName? reader) else none
  | _ => none

def writerOf? (y : Yaml) : Option Preset := do
  match ← y.fields? ["writer"] with
  | [some (.string name)] => return .writer name
  | _ => none

def indexOf? (y : Yaml) : Option Preset := do
  match ← y.fields? ["index"] with
  | [some (.integer n)] => if n < 0 then none else return .index n.toNat
  | _ => none

def cancelOf? (y : Yaml) : Option Preset := do
  match ← y.fields? ["cancel"] with
  | [some (.bool b)] => return .cancel b
  | _ => none

def ofYaml? (y : Yaml) : Option Preset :=
  columnOf? y <|> constantOf? y <|> writerOf? y <|> indexOf? y <|> cancelOf? y

end Preset

abbrev Presets := Dict Preset

namespace Presets

open Yaml (Document Node Following)

/-- The collections around a preset in its document. -/
def nesting : Nat := 2

/-- The presets by parameter; of two for one parameter the later counts. -/
def ofNode (d : Document) (n : Node) : Following Presets := do
  let named ← (← d.entries n).mapM fun (key, value) => do
    let param ← d.text key
    let preset ← Preset.ofYaml? (← d.value (Yaml.maxDepth - nesting) value)
    return (param, preset)
  return .ofList named

/-- The presets in the only member `selections` among some entries. -/
def ofEntries (d : Document) (found : Option Presets) : List (Node × Node) → Following Presets
  | [] => return found.getD .empty
  | (key, value) :: rest => do
    if (← d.text key) = "selections" then
      if found.isSome then failure
      ofEntries d (some (← ofNode d value)) rest
    else ofEntries d found rest

def ofDocument? (d : Document) : Option Presets :=
  match d.root with
  | none => some .empty
  | some root => StateT.run' (do ofEntries d none (← d.entries root)) 0

def ofText (s : String) : Except BindingError Presets :=
  match (Document.read? s).bind ofDocument? with
  | some presets => .ok presets
  | none => .error .selections

def ofFile (fs : FileSystem) (p : Path) : Except BindingError Presets :=
  match fs.readText p with
  | .ok s => ofText s
  | .error e => .error (.files e)

end Presets
end TableForest
