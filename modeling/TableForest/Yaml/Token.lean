import TableForest.Text.Utf8

/-!
# YAML tokens

What the text of a YAML stream is made of.  Indentation has become explicit: blocks start and end with
tokens of their own, and every key of a mapping is announced.
-/

namespace TableForest.Yaml

/-- A token of YAML. -/
inductive Token where
  | streamEnd
  | versionDirective (major minor : Nat)
  | tagDirective (handle : String) (expansion : Bytes)
  | documentStart
  | documentEnd
  | blockSequenceStart
  | blockMappingStart
  | blockEnd
  | flowSequenceStart
  | flowSequenceEnd
  | flowMappingStart
  | flowMappingEnd
  | blockEntry
  | flowEntry
  | key
  | value
  | reference (name : String)
  | anchor (name : String)
  | tag (handle : String) (suffix : Bytes)
  | scalar (text : String) (plain : Bool)
  deriving DecidableEq

end TableForest.Yaml
