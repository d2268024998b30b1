import TableForest.Yaml.Cursor

/-!
# Plain scalars

A scalar without quotes ends before a colon with space, before a comment, before a mark of a document,
where a line is not indented enough, and inside brackets also before a comma or a bracket.  Its lines are
folded as those of quoted scalars are.
-/

namespace TableForest.Yaml

/-- A bracket or a comma, which have a meaning inside brackets. -/
def isFlowMark (c : Char) : Bool :=
  c == ',' || c == '[' || c == ']' || c == '\x7b' || c == '\x7d'

def startsPlain (inFlow : Bool) (c : Cursor) : Bool :=
  match c.peek? with
  | none => false
  | some x =>
    if x = '-' then !(c.at? 1).any isBlank
    else if x = '?' ∨ x = ':' then !inFlow && !c.spaceAt 1
    else !isBlank x && !isBreak x && !isFlowMark x && !"#&*!|>'\"%@".toList.contains x && x != '\x60'

/-- A colon inside brackets before something that cannot follow it. -/
def hasStrayColon (inFlow : Bool) (c : Cursor) : Bool :=
  inFlow && c.sees ':' && (c.at? 1).any fun x => x == '?' || isFlowMark x

def endsPlain (inFlow : Bool) (c : Cursor) : Bool :=
  c.spaceAt 0 || (c.sees ':' && c.spaceAt 1) || (inFlow && c.seesAny isFlowMark)

/-- The content up to the next blank, line break or end of the scalar, in reverse after `seen`, and the
place behind it. -/
def plainRun? (inFlow : Bool) : Nat → List Char → Cursor → Option (List Char × Cursor)
  | 0, _, _ => none
  | fuel + 1, seen, c =>
    if hasStrayColon inFlow c then none
    else if endsPlain inFlow c then some (seen, c)
    else
      match c.peek? with
      | some x => plainRun? inFlow fuel (x :: seen) (c.skip 1)
      | none => some (seen, c)

/-- What a plain scalar and what follows it have been read to. -/
structure PlainScalar where
  /-- The content, in reverse. -/
  seen : List Char
  /-- The place behind the scalar and the blanks and line breaks after it. -/
  after : Cursor
  broken : Bool

/-- The plain scalar whose content so far is `seen` and goes on after `gap` if it does not end there. -/
def plainRest? (inFlow : Bool) (indent : Nat) :
    Nat → List Char → Gap → Cursor → Option PlainScalar
  | 0, _, _, _ => none
  | fuel + 1, seen, gap, c => do
    if c.atDocumentMark || c.sees '#' then return ⟨seen, c, gap.broken⟩
    let (run, next) ← plainRun? inFlow (c.rest.length + 1) [] c
    if run.isEmpty then return ⟨seen, c, gap.broken⟩
    let seen := run ++ (gap.text.reverse ++ seen)
    if next.atEnd || !next.spaceAt 0 then return ⟨seen, next, false⟩
    let (gap, next) ← Gap.none.read? indent next
    if !inFlow && next.column < indent then return ⟨seen, next, gap.broken⟩
    plainRest? inFlow indent fuel seen gap next

/-- The text of the plain scalar that starts at a place, the place behind it and what follows it, and
whether a line break is before that place. -/
def plainScalar? (inFlow : Bool) (indent : Nat) (c : Cursor) : Option (String × Cursor × Bool) := do
  let p ← plainRest? inFlow indent (c.rest.length + 1) [] .none c
  return (String.ofList p.seen.reverse, p.after, p.broken)

end TableForest.Yaml
