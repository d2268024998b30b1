import TableForest.Yaml.Token

/-!
# YAML nodes

What the tokens of a stream say: a document is a tree of scalars, sequences and mappings, some of them
with a tag, and aliases for nodes that have an anchor.  An anchor is numbered by the distinct names of
anchors before it, and an alias leads to the last node of its number.  A stream holds at most one
document here.
-/

namespace TableForest.Yaml

/-- A node of a document. -/
inductive Node where
  | scalar (tag : Option Bytes) (plain : Bool) (text : String)
  | sequence (tag : Option Bytes) (items : List Node)
  | mapping (tag : Option Bytes) (entries : List (Node × Node))
  | reference (anchor : Nat)

instance : Inhabited Node := ⟨.reference 0⟩

/-- An anchor that has been met: its number, and its node once that is complete. -/
structure Anchored where
  number : Nat
  node : Option Node

/-- A document: its root, unless it is empty, and what its aliases lead to. -/
structure Document where
  root : Option Node
  anchored : List Anchored
  /-- The number of steps in which the nodes are passed: one for a scalar or alias, two for a collection. -/
  steps : Nat

def Document.target? (d : Document) (anchor : Nat) : Option Node :=
  (d.anchored.reverse.find? (·.number = anchor)).bind Anchored.node

/-- The grammar after some tokens. -/
structure Parsing where
  tokens : List Token
  handles : List (String × Bytes)
  names : List (String × Nat)
  anchored : List Anchored
  steps : Nat

abbrev Phrase := StateT Parsing Option

namespace Phrase

/-- The next token; behind the last one the stream ends. -/
def peek : Phrase Token := do
  return ((← get).tokens.head?).getD .streamEnd

def skip : Phrase Unit :=
  modify fun p => { p with tokens := p.tokens.drop 1 }

/-- Passes the next token if it is the given one. -/
def accept (t : Token) : Phrase Bool := do
  if (← peek) = t then
    skip
    return true
  return false

def sees (ts : List Token) : Phrase Bool := do
  return ts.contains (← peek)

/-- Counts steps. -/
def count (n : Nat) : Phrase Unit :=
  modify fun p => { p with steps := p.steps + n }

/-- A node that is not written at all. -/
def emptyNode : Phrase Node := do
  count 1
  return .scalar none true ""

def expandTag (handle : String) (suffix : Bytes) : Phrase Bytes := do
  if handle = "" then return suffix
  match (← get).handles.lookup handle with
  | some expansion => return expansion ++ suffix
  | none => failure

/-- Passes the anchor that is next, if there is one. -/
def anchorName : Phrase (Option String) := do
  match ← peek with
  | .anchor name =>
    skip
    return some name
  | _ => return none

/-- Passes the tag that is next, if there is one. -/
def tag : Phrase (Option Bytes) := do
  match ← peek with
  | .tag handle suffix =>
    skip
    return some (← expandTag handle suffix)
  | _ => return none

/-- Passes the anchor and the tag that are next, in either order. -/
def properties : Phrase (Option String × Option Bytes) := do
  match ← anchorName with
  | some name => return (some name, ← tag)
  | none =>
    let t ← tag
    if t.isSome then return (← anchorName, t) else return (none, none)

/-- Numbers an anchor whose node begins; gives its place among the anchors. -/
def beginAnchor (name : Option String) : Phrase (Option Nat) := do
  match name with
  | none => return none
  | some name =>
    let p ← get
    let number := p.names.length
    set { p with
      -- a later anchor of the same name takes the name over
      names := (name, number) :: p.names.filter (·.1 ≠ name)
      anchored := p.anchored ++ [Anchored.mk number none] }
    return some p.anchored.length

def endAnchor (place : Option Nat) (n : Node) : Phrase Node := do
  match place with
  | none => return n
  | some i =>
    modify fun p => { p with anchored := p.anchored.modify i ({ · with node := some n }) }
    return n

/-- The node of an alias; the name has to be that of an anchor before. -/
def reference (name : String) : Phrase Node := do
  skip
  count 1
  match (← get).names.lookup name with
  | some number => return .reference number
  | none => failure

/-- A scalar; the tag of a lone exclamation mark means nothing here. -/
def scalar (tag : Option Bytes) (text : String) (plain : Bool) : Phrase Node := do
  skip
  count 1
  let tag := if tag = some (Utf8.ascii "!") then none else tag
  return .scalar tag plain text

/-- The elements of a collection cost a step at either end. -/
def collection {α : Type} (make : α → Node) (content : Phrase α) : Phrase Node := do
  count 2
  return make (← content)

mutual

/-- A node.  Block collections only stand in blocks, and a sequence whose hyphens are not indented only
where a mapping's key or value is. -/
def node (inBlock unindented : Bool) : Nat → Phrase Node
  | 0 => failure
  | fuel + 1 => do
    match ← peek with
    | .reference name => reference name
    | _ =>
      let (name, tag) ← properties
      let place ← beginAnchor name
      match ← peek with
      | .blockEntry =>
        if unindented then
          endAnchor place (← collection (.sequence tag) (unindentedItems fuel))
        -- an anchor or a tag alone stands for an empty scalar
        else if name.isSome || tag.isSome then
          count 1
          endAnchor place (.scalar tag true "")
        else failure
      | .scalar text plain => endAnchor place (← scalar tag text plain)
      | .flowSequenceStart =>
        skip
        endAnchor place (← collection (.sequence tag) (flowItems true fuel))
      | .flowMappingStart =>
        skip
        endAnchor place (← collection (.mapping tag) (flowEntries true fuel))
      | t =>
        if inBlock && t = .blockSequenceStart then
          skip
          endAnchor place (← collection (.sequence tag) (blockItems fuel))
        else if inBlock && t = .blockMappingStart then
          skip
          endAnchor place (← collection (.mapping tag) (blockEntries fuel))
        else if name.isSome || tag.isSome then
          count 1
          endAnchor place (.scalar tag true "")
        else failure

/-- A node of a collection, which is empty if one of some tokens is next. -/
def nodeUnless (ends : List Token) (inBlock unindented : Bool) : Nat → Phrase Node
  | 0 => failure
  | fuel + 1 => do
    if ← sees ends then emptyNode else node inBlock unindented fuel

/-- The items of a block sequence from a hyphen on. -/
def blockItems : Nat → Phrase (List Node)
  | 0 => failure
  | fuel + 1 => do
    if ← accept .blockEntry then
      let item ← nodeUnless [.blockEntry, .blockEnd] true false fuel
      return item :: (← blockItems fuel)
    else if ← accept .blockEnd then return []
    else failure

def unindentedItems : Nat → Phrase (List Node)
  | 0 => failure
  | fuel + 1 => do
    if ← accept .blockEntry then
      let item ← nodeUnless [.blockEntry, .key, .value, .blockEnd] true false fuel
      return item :: (← unindentedItems fuel)
    else return []

def blockEntries : Nat → Phrase (List (Node × Node))
  | 0 => failure
  | fuel + 1 => do
    if ← accept .key then
      let key ← nodeUnless [.key, .value, .blockEnd] true true fuel
      let value ← optionalValue [.key, .value, .blockEnd] true fuel
      return (key, value) :: (← blockEntries fuel)
    else if ← accept .blockEnd then return []
    else failure

/-- The value behind a colon, or an empty one if there is no colon. -/
def optionalValue (ends : List Token) (inBlock : Bool) : Nat → Phrase Node
  | 0 => failure
  | fuel + 1 => do
    if ← accept .value then nodeUnless ends inBlock inBlock fuel else emptyNode

/-- The items of a sequence in brackets, with the commas before all but the first. -/
def flowItems (first : Bool) : Nat → Phrase (List Node)
  | 0 => failure
  | fuel + 1 => do
    if ← accept .flowSequenceEnd then return []
    if !first && !(← accept .flowEntry) then failure
    if ← accept .flowSequenceEnd then return []
    -- a key in brackets is a mapping of one entry
    let item ← if ← accept .key then
        collection (.mapping none) (do return [← pair fuel])
      else node false false fuel
    return item :: (← flowItems false fuel)

/-- The single entry of a mapping without braces.  A token that ends an empty key is passed with it. -/
def pair : Nat → Phrase (Node × Node)
  | 0 => failure
  | fuel + 1 => do
    if ← sees [.value, .flowEntry, .flowSequenceEnd] then
      skip
      let key ← emptyNode
      return (key, ← optionalValue [.flowEntry, .flowSequenceEnd] false fuel)
    else
      let key ← node false false fuel
      return (key, ← optionalValue [.flowEntry, .flowSequenceEnd] false fuel)

/-- The entries of a mapping in braces, with the commas before all but the first. -/
def flowEntries (first : Bool) : Nat → Phrase (List (Node × Node))
  | 0 => failure
  | fuel + 1 => do
    if ← accept .flowMappingEnd then return []
    if !first && !(← accept .flowEntry) then failure
    if ← accept .flowMappingEnd then return []
    let entry ← if ← accept .key then do
        let key ← nodeUnless [.value, .flowEntry, .flowMappingEnd] false false fuel
        let value ← optionalValue [.flowEntry, .flowMappingEnd] false fuel
        pure (key, value)
      else do
        let key ← node false false fuel
        let value ← emptyNode
        pure (key, value)
    return entry :: (← flowEntries false fuel)

end

/-- The handles that have a meaning without a directive. -/
def commonHandles : List (String × Bytes) :=
  [("!", Utf8.ascii "!"), ("!!", Utf8.ascii "tag:yaml.org,2002:")]

/-- The directives in front of a document.  The version is given at most once, and so is the meaning of a
handle; the common handles may be given another. -/
def directives (version : Bool) (given : List (String × Bytes)) : Nat → Phrase Unit
  | 0 => failure
  | fuel + 1 => do
    match ← peek with
    | .versionDirective major minor =>
      if version || major ≠ 1 || !(minor = 1 || minor = 2) then failure
      skip
      directives true given fuel
    | .tagDirective handle expansion =>
      if given.any (·.1 = handle) then failure
      skip
      directives version ((handle, expansion) :: given) fuel
    | _ => modify fun p => { p with handles := given ++ commonHandles }

def documentContent (fuel : Nat) : Phrase Node := do
  match ← peek with
  | .versionDirective _ _ => emptyNode
  | .tagDirective _ _ => emptyNode
  | .documentStart => emptyNode
  | .documentEnd => emptyNode
  | .streamEnd => emptyNode
  | _ => node true false fuel

/-- The root of the first document; there is none in an empty stream. -/
def firstDocument (fuel : Nat) : Phrase (Option Node) := do
  match ← peek with
  | .streamEnd => return none
  | .versionDirective _ _ | .tagDirective _ _ | .documentStart =>
    directives false [] fuel
    if !(← accept .documentStart) then failure
    return some (← documentContent fuel)
  | _ => return some (← node true false fuel)

def documentEnds : Nat → Phrase Unit
  | 0 => failure
  | fuel + 1 => do
    if ← accept .documentEnd then documentEnds fuel

def stream (fuel : Nat) : Phrase Document := do
  let root ← firstDocument fuel
  documentEnds fuel
  if (← peek) = .streamEnd then
    let p ← get
    return ⟨root, p.anchored, p.steps⟩
  failure

end Phrase

/-- The document that tokens describe.  No phrase is nested deeper than four times their number. -/
def Document.ofTokens? (ts : List Token) : Option Document :=
  (Phrase.stream (4 * ts.length + 4) |>.run ⟨ts, Phrase.commonHandles, [], [], 0⟩).map (·.1)

end TableForest.Yaml
