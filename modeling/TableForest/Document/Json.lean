import TableForest.Cell.Json
import TableForest.Document.Basic
import TableForest.Json.Printer
import TableForest.Json.Reader
import TableForest.Moment.Text

/-!
# Documents in JSON

The names of the members, which of them may be missing and what stands for them then.  Members that say
nothing are not written: links, notes, policies, directories and children that are not there.
-/

namespace TableForest

/-- A member that is written only if there is something to write. -/
def optionalMember (name : String) : Option Json → List (String × Json)
  | none => []
  | some j => [(name, j)]

def Dict.toJson (d : Dict String) : Json :=
  .ofMembers (d.entries.map fun (key, value) => (key, .ofString value))

/-- The string of a path; a path that is no text has none. -/
def Path.toJson (p : Path) : Json :=
  .string p.text?

def LinkDefaults.toJson (d : LinkDefaults) : Json :=
  .ofMembers
    (optionalMember "base_dir" (d.baseDir.map Path.toJson)
      ++ optionalMember "prefix" (d.stem.map .ofString)
      ++ optionalMember "extension" (d.extension.map .ofString)
      ++ [("counter", .ofNat d.counter.toNat)])

def LinkPolicy.toJson (p : LinkPolicy) : Json :=
  .ofMembers [("counter_width", .ofNat p.counterWidth.toNat),
    ("separator", .ofString p.separator), ("max_probe", .ofNat p.maxProbe.toNat)]

def Creation.toJson (c : Creation) : Json :=
  .ofMembers [("command", .ofString c.command), ("parameters", c.parameters.toJson),
    ("created", .ofString (c.created.text .letter))]

def ColumnDocument.toJson (c : ColumnDocument) : Json :=
  .ofMembers
    ([("name", .ofString c.name), ("kind", .ofString c.kind.name),
        ("subtype", .ofString c.subtype.text)]
      ++ optionalMember "link" (c.link.map LinkDefaults.toJson)
      ++ (if c.extra.isEmpty then [] else [("extra", c.extra.toJson)])
      ++ [("cells", .array (c.cells.map .ofString))])

mutual

def TableDocument.toJson : TableDocument → Json
  | ⟨name, workingDir, creation, linkPolicy, columns, children⟩ =>
    .ofMembers
      ([("name", .ofString name)]
        ++ optionalMember "working_dir" (workingDir.map Path.toJson)
        ++ optionalMember "creation" (creation.map Creation.toJson)
        ++ optionalMember "link_policy" (linkPolicy.map LinkPolicy.toJson)
        ++ [("columns", .array (columns.map ColumnDocument.toJson))]
        ++ if children.isEmpty then [] else [("children", .array (TableDocument.allToJson children))])

def TableDocument.allToJson : List TableDocument → List Json
  | [] => []
  | d :: rest => d.toJson :: TableDocument.allToJson rest

end

def TreeDocument.toJson (d : TreeDocument) : Json :=
  .ofMembers [("version", .ofNat d.version.toNat),
    ("tables", .array (TableDocument.allToJson d.tables))]

/-! ## Reading -/

def Path.ofJson? (j : Json) : Option Path :=
  j.asString?.map Path.ofText

def Dict.ofJson? (depth : Nat) (j : Json) : Option (Dict String) :=
  (j.asTexts? depth).map Dict.ofList

def LinkDefaults.ofJson? (depth : Nat) (j : Json) : Option LinkDefaults := do
  match ← j.asRecord? ["base_dir", "prefix", "extension", "counter"] depth with
  | [baseDir, stem, extension, counter] =>
    return {
      baseDir := ← Json.orElse? .none (Json.nullable? Path.ofJson?) baseDir
      stem := ← Json.orElse? .none (Json.nullable? Json.asString?) stem
      extension := ← Json.orElse? .none (Json.nullable? Json.asString?) extension
      counter := ← Json.orElse? 0 Json.asUInt32? counter }
  | _ => .none

def LinkPolicy.ofJson? (depth : Nat) (j : Json) : Option LinkPolicy := do
  match ← j.asRecord? ["counter_width", "separator", "max_probe"] depth with
  | [width, separator, probe] =>
    return {
      counterWidth := ← Json.required? Json.asUInt64? width
      separator := ← Json.required? Json.asString? separator
      maxProbe := ← Json.required? Json.asUInt32? probe }
  | _ => none

def Creation.ofJson? (depth : Nat) (j : Json) : Option Creation := do
  match ← j.asRecord? ["command", "parameters", "created"] depth with
  | [command, parameters, created] =>
    return {
      command := ← Json.required? Json.asString? command
      parameters := ← Json.orElse? .empty (Dict.ofJson? (depth - 1)) parameters
      created := ← (← Json.required? Json.asString? created) |> Moment.read? }
  | _ => none

def ColumnDocument.ofJson? (depth : Nat) (j : Json) : Option ColumnDocument := do
  match ← j.asRecord? ["name", "kind", "subtype", "link", "extra", "cells"] depth with
  | [name, kind, subtype, link, extra, cells] =>
    return {
      name := ← Json.required? Json.asString? name
      kind := ← Json.required? (Json.asName? Kind.ofExactName? (depth - 1)) kind
      subtype := ⟨← Json.required? Json.asString? subtype⟩
      link := ← Json.orElse? none (Json.nullable? (LinkDefaults.ofJson? (depth - 1))) link
      extra := ← Json.orElse? .empty (Dict.ofJson? (depth - 1)) extra
      cells := ← Json.orElse? [] (Json.asArray? (fun _ => Json.asString?) (depth - 1)) cells }
  | _ => none

/-- A stored table, given what its children are; the collections around it leave a depth to what is in it. -/
def TableDocument.ofJson? (children? : Json → Option (List TableDocument)) (depth : Nat) (j : Json) :
    Option TableDocument := do
  match ← j.asRecord? ["name", "working_dir", "creation", "link_policy", "columns", "children"]
      (depth + 1) with
  | [name, workingDir, creation, linkPolicy, columns, children] =>
    return {
      name := ← Json.required? Json.asString? name
      workingDir := ← Json.orElse? none (Json.nullable? Path.ofJson?) workingDir
      creation := ← Json.orElse? none (Json.nullable? (Creation.ofJson? depth)) creation
      linkPolicy := ← Json.orElse? none (Json.nullable? (LinkPolicy.ofJson? depth)) linkPolicy
      columns := ← Json.orElse? [] (Json.asArray? ColumnDocument.ofJson? depth) columns
      children := ← Json.orElse? [] children? children }
  | _ => none

/-- Stored tables, of which the collections around them leave a depth. -/
def TableDocument.allOfJson? : Nat → Json → Option (List TableDocument)
  | 0, _ => none
  | 1, j => j.asArray? (fun _ _ => none) 1
  | depth + 2, j => j.asArray? (fun _ => ofJson? (allOfJson? depth) depth) (depth + 2)

def TreeDocument.ofJson? (j : Json) : Option TreeDocument := do
  match ← j.asRecord? ["version", "tables"] Json.maxDepth with
  | [version, tables] =>
    return {
      version := ← Json.orElse? documentVersion Json.asUInt32? version
      tables := ← Json.orElse? [] (TableDocument.allOfJson? (Json.maxDepth - 1)) tables }
  | _ => none

def TreeDocument.read? (bs : Bytes) : Option TreeDocument :=
  (Json.read? bs).bind ofJson?

def TreeDocument.bytes (style : Json.Style) (d : TreeDocument) : Bytes :=
  d.toJson.bytes style

/-- What gets written of a document, and whether that is all of it. -/
def TreeDocument.written (style : Json.Style) (d : TreeDocument) : Bytes × Bool :=
  d.toJson.written style

end TableForest
