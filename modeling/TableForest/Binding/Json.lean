import TableForest.Binding.PresetFile
import TableForest.Json.Decode
import TableForest.Yaml.Json

/-!
# Presets and settings in JSON

Presets are read from JSON as they are from YAML, and written with the members that they have.
-/

namespace TableForest

namespace Preset

def ofJson? (j : Json) : Option Preset :=
  (Yaml.ofJson? Json.maxDepth j).bind ofYaml?

/-- The member that names a reader, if one is named. -/
def readerMember (reader : Option String) : List (String × Json) :=
  match reader with
  | some name => [("reader", .ofString name)]
  | none => []

def toJson : Preset → Json
  | column name reader => .ofMembers (("column", .ofString name) :: readerMember reader)
  | constant value reader => .ofMembers (("constant", value.toJson) :: readerMember reader)
  | writer name => .ofMembers [("writer", .ofString name)]
  | index i => .ofMembers [("index", .ofNat i)]
  | cancel really => .ofMembers [("cancel", .bool really)]

end Preset

namespace ResolverConfig

/-- The settings that a JSON value describes; those that are missing are the standard ones. -/
def ofJson? (j : Json) : Option ResolverConfig := do
  match ← j.asRecord? ["offer_constants", "include_hidden_constants"] Json.maxDepth with
  | [offer, hidden] =>
    return ⟨← Json.orElse? standard.offerConstants Json.asBool? offer,
      ← Json.orElse? standard.includeHiddenConstants Json.asBool? hidden⟩
  | _ => none

def toJson (c : ResolverConfig) : Json :=
  .ofMembers [("offer_constants", .bool c.offerConstants),
    ("include_hidden_constants", .bool c.includeHiddenConstants)]

end ResolverConfig
end TableForest
