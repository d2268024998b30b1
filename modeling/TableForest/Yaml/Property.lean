import TableForest.Json.Token
import TableForest.Yaml.Cursor
import TableForest.Yaml.Token

/-!
# Properties of nodes and directives

A node may have an anchor and a tag, and an alias stands for an anchored node.  A tag is a handle and a
suffix; directives in front of a document say what a handle stands for.  The text of a tag may escape
bytes by `%` and two hexadecimal digits.
-/

namespace TableForest.Yaml

/-- The name of an anchor or alias after its indicator, and the place behind it. -/
def anchorName? (c : Cursor) : Option (String × Cursor) :=
  let (name, c) := (c.skip 1).span isWordChar
  if !name.isEmpty && (c.spaceAt 0 || c.seesAny ("?:,]\x7d%@\x60".toList.contains ·)) then
    some (String.ofList name, c)
  else none

/-- A character of the text of a tag; inside angle brackets there are more. -/
def isTagChar (verbatim : Bool) (c : Char) : Bool :=
  isWordChar c || ";/?:@&=+$.%!~*'()".toList.contains c || (verbatim && ",[]".toList.contains c)

/-- The byte that a percent escape at a place names. -/
def escapedByte? (c : Cursor) : Option UInt8 :=
  match c.rest with
  | '%' :: a :: b :: _ => do
    return UInt8.ofNat (16 * (← Json.hexValue? a) + (← Json.hexValue? b))
  | _ => none

/-- The number of bytes of the character that a byte starts. -/
def leadingByteWidth? (b : UInt8) : Option Nat :=
  if b < 0x80 then some 1
  else if b < 0xC0 then none
  else if b < 0xE0 then some 2
  else if b < 0xF0 then some 3
  else if b < 0xF8 then some 4
  else none

def continuationBytes? : Nat → Cursor → Option (Bytes × Cursor)
  | 0, c => some ([], c)
  | n + 1, c => do
    let b ← escapedByte? c
    if b < 0x80 || 0xC0 ≤ b then none
    let (bs, c) ← continuationBytes? n (c.skip 3)
    return (b :: bs, c)

/-- The escaped bytes of one character, and the place behind them. -/
def escapedChar? (c : Cursor) : Option (Bytes × Cursor) := do
  let b ← escapedByte? c
  let (bs, c) ← continuationBytes? ((← leadingByteWidth? b) - 1) (c.skip 3)
  return (b :: bs, c)

/-- The bytes of the text of a tag from a place on, and the place behind it. -/
def tagBytes? (verbatim : Bool) : Nat → Cursor → Option (Bytes × Cursor)
  | 0, c => some ([], c)
  | fuel + 1, c =>
    match c.peek? with
    | some x =>
      if !isTagChar verbatim x then some ([], c)
      else do
        let (bs, c) ← if x = '%' then escapedChar? c else some (Utf8.encode (String.singleton x), c.skip 1)
        let (rest, c) ← tagBytes? verbatim fuel c
        return (bs ++ rest, c)
    | none => some ([], c)

/-- The text of a tag up to its first zero byte. -/
def tagText? (verbatim : Bool) (c : Cursor) : Option (Bytes × Cursor) :=
  (tagBytes? verbatim c.rest.length c).map fun (bs, c) => (bs.takeWhile (· != 0), c)

/-- A handle at a place: an exclamation mark, and perhaps a name and another one. -/
def tagHandle? (c : Cursor) : Option (List Char × Cursor) :=
  if c.sees '!' then
    let (name, next) := (c.skip 1).span isWordChar
    if next.sees '!' then some ('!' :: name ++ ['!'], next.skip 1)
    else some ('!' :: name, next)
  else none

/-- Two exclamation marks, with or without a name between them. -/
def isNamedHandle (handle : List Char) : Bool :=
  1 < handle.length && handle.getLast? == some '!'

def verbatimTag? (c : Cursor) : Option (Token × Cursor) := do
  let start := c.skip 2
  let (suffix, c) ← tagText? true start
  if c.index = start.index || !c.sees '>' then none
  return (.tag "" suffix, c.skip 1)

/-- A tag of a handle and a suffix.  What looked like the beginning of a handle may belong to the suffix
of the handle `!`; a lone exclamation mark is a tag without a handle. -/
def shorthandTag? (c : Cursor) : Option (Token × Cursor) := do
  let (handle, next) ← tagHandle? c
  let (suffix, after) ← tagText? false next
  if isNamedHandle handle then
    if after.index = next.index then none
    else return (.tag (String.ofList handle) suffix, after)
  else
    match Utf8.encode (String.ofList (handle.drop 1)) ++ suffix with
    | [] => return (.tag "" (Utf8.ascii "!"), after)
    | suffix => return (.tag "!" suffix, after)

/-- The tag at a place, and the place behind it. -/
def tag? (inFlow : Bool) (c : Cursor) : Option (Token × Cursor) := do
  let (t, c) ← if c.at? 1 == some '<' then verbatimTag? c else shorthandTag? c
  if c.spaceAt 0 || (inFlow && c.sees ',') then some (t, c) else none

/-- A part of the number of a version: up to nine digits. -/
def versionPart? (c : Cursor) : Option (Nat × Cursor) :=
  let (digits, c) := c.span Char.isDigit
  if digits.length ≤ 9 then (Decimal.readNat? digits).map (·, c) else none

/-- The value of a directive that names the version of YAML. -/
def versionDirective? (c : Cursor) : Option (Token × Cursor) := do
  let (major, c) ← versionPart? (c.skipWhile isBlank)
  if !c.sees '.' then none
  let (minor, c) ← versionPart? (c.skip 1)
  return (.versionDirective major minor, c)

/-- The value of a directive that gives a handle its meaning. -/
def tagDirective? (c : Cursor) : Option (Token × Cursor) := do
  let (handle, c) ← tagHandle? (c.skipWhile isBlank)
  if !(handle.length = 1 || isNamedHandle handle) || !c.seesAny isBlank then none
  let start := c.skipWhile isBlank
  let (expansion, c) ← tagText? true start
  if c.index = start.index || !c.spaceAt 0 then none
  return (.tagDirective (String.ofList handle) expansion, c)

/-- The directive at a place, and the place on the line after it. -/
def directive? (c : Cursor) : Option (Token × Cursor) := do
  let (name, c) := (c.skip 1).span isWordChar
  if !c.spaceAt 0 then none
  let (t, c) ←
    if name = "YAML".toList then versionDirective? c
    else if name = "TAG".toList then tagDirective? c
    else none
  return (t, ← c.endLine?)

end TableForest.Yaml
