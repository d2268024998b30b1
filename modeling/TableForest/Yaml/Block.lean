import TableForest.Yaml.Cursor

/-!
# Block scalars

A literal scalar keeps its line breaks and a folded one joins lines that start with no blank.  The header
says how many columns the content is indented, or the first line that is not empty does, and what becomes
of the line breaks at the end.
-/

namespace TableForest.Yaml

/-- Whether lines are joined. -/
inductive BlockStyle where
  | literal
  | folded
  deriving DecidableEq, Repr

/-- What becomes of the line breaks at the end: none is kept, one, or all. -/
inductive Chomping where
  | strip
  | clip
  | keep
  deriving DecidableEq, Repr

/-- The first line of a block scalar. -/
structure BlockHeader where
  chomping : Chomping
  /-- The columns of indentation after those around the scalar, if they are given. -/
  indentation : Option Nat

namespace BlockHeader

def chomping? (c : Cursor) : Option (Chomping × Cursor) :=
  if c.sees '+' then some (.keep, c.skip 1)
  else if c.sees '-' then some (.strip, c.skip 1)
  else none

/-- The indentation indicator at a place, if there is one; it must not be zero. -/
def indentation? (c : Cursor) : Option (Option Nat × Cursor) :=
  match c.peek? with
  | some x =>
    if x.isDigit then
      if x = '0' then none else some (some (x.toNat - 48), c.skip 1)
    else some (none, c)
  | none => some (none, c)

/-- The header after the style indicator, and the place on the line after it.  The two indicators may come
in either order. -/
def read? (c : Cursor) : Option (BlockHeader × Cursor) :=
  match chomping? c with
  | some (chomping, c) => do
    let (indentation, c) ← indentation? c
    return (⟨chomping, indentation⟩, ← c.endLine?)
  | none => do
    let (indentation, c) ← indentation? c
    match (if indentation.isSome then chomping? c else none) with
    | some (chomping, c) => return (⟨chomping, indentation⟩, ← c.endLine?)
    | none => return (⟨.clip, indentation⟩, ← c.endLine?)

end BlockHeader

/-- Empty lines with at most `limit` columns of indentation, or any if there is no limit: what the line
breaks stand for after `breaks`, the greatest indentation after `greatest`, and the place at the content
that follows.  A tab must not stand in the indentation. -/
def emptyLines? (limit : Option Nat) :
    Nat → List Char → Nat → Cursor → Option (List Char × Nat × Cursor)
  | 0, _, _, _ => none
  | fuel + 1, breaks, greatest, c =>
    let spaces := (c.rest.takeWhile (· == ' ')).length
    let c := c.skip (match limit with
      | some n => min spaces (n - c.column)
      | none => spaces)
    let greatest := max greatest c.column
    if c.sees '\t' && limit.all (c.column < ·) then none
    else if c.seesAny isBreak then
      let (lineBreak, next) := c.lineBreak
      emptyLines? limit fuel (breaks ++ lineBreak) greatest next
    else some (breaks, greatest, c)

/-- What lies between two lines of content. -/
structure BlockGap where
  /-- What the line break of the line before stands for. -/
  first : List Char
  others : List Char

/-- What a gap in a scalar stands for.  A folded one loses its first line feed, or has a space for it, if
neither of the lines around it starts with a blank. -/
def BlockGap.text (style : BlockStyle) (g : BlockGap) (blankBefore blankAfter : Bool) : List Char :=
  if style = .folded && g.first == ['\n'] && !blankBefore && !blankAfter then
    if g.others.isEmpty then [' '] else g.others
  else g.first ++ g.others

/-- What a gap at the end of a scalar stands for. -/
def BlockGap.tail (chomping : Chomping) (g : BlockGap) : List Char :=
  match chomping with
  | .strip => []
  | .clip => g.first
  | .keep => g.first ++ g.others

/-- The lines of content from a place on, in reverse after `seen`, with the gap after them and the place
behind it. -/
def contentLines? (style : BlockStyle) (indent : Nat) :
    Nat → List Char → BlockGap → Bool → Cursor → Option (List Char × BlockGap × Cursor)
  | 0, _, _, _, _ => none
  | fuel + 1, seen, gap, blankBefore, c =>
    if c.column = indent && !c.atEnd then do
      let blankHere := c.seesAny isBlank
      let seen := (gap.text style blankBefore blankHere).reverse ++ seen
      let (line, c) := c.span (!isBreak ·)
      let (first, c) := c.lineBreak
      let (others, _, c) ← emptyLines? (some indent) (c.rest.length + 1) [] 0 c
      contentLines? style indent fuel (line.reverse ++ seen) ⟨first, others⟩ blankHere c
    else some (seen, gap, c)

/-- The text of the block scalar whose indicator is at a place, inside a block that is indented by
`around` columns if it is indented at all, and the place behind it. -/
def blockScalar? (style : BlockStyle) (around : Option Nat) (c : Cursor) :
    Option (String × Cursor) := do
  let (header, c) ← BlockHeader.read? (c.skip 1)
  let limit := header.indentation.map (around.getD 0 + ·)
  let (breaks, greatest, c) ← emptyLines? limit (c.rest.length + 1) [] 0 c
  let indent := limit.getD (max greatest (max (match around with
    | some n => n + 1
    | none => 0) 1))
  let (seen, gap, c) ←
    contentLines? style indent (c.rest.length + 1) [] ⟨[], breaks⟩ false c
  return (String.ofList (seen.reverse ++ gap.tail header.chomping), c)

end TableForest.Yaml
