/-!
# YAML text and positions in it

A cursor is a place in a text: what is left, and the index, line and column of the place.  Lines end with
CR LF, CR, LF, NEL, LS or PS; in the content of scalars the first four become a line feed.
-/

namespace TableForest.Yaml

/-- A place in a text. -/
structure Cursor where
  rest : List Char
  index : Nat
  line : Nat
  column : Nat

def isPrintable (c : Char) : Bool :=
  let n := c.toNat
  n == 0x09 || n == 0x0A || n == 0x0D || (0x20 ≤ n && n ≤ 0x7E) || n == 0x85
    || (0xA0 ≤ n && n ≤ 0xD7FF) || (0xE000 ≤ n && n ≤ 0xFFFD) || 0x10000 ≤ n

/-- The mark that may stand in front of a text or a line. -/
def byteOrderMark : Char := '\ufeff'

/-- A space or a tab. -/
def isBlank (c : Char) : Bool :=
  c == ' ' || c == '\t'

def isBreak (c : Char) : Bool :=
  c == '\r' || c == '\n' || c == '\x85' || c == '\u2028' || c == '\u2029'

/-- A letter, a digit, `_` or `-`. -/
def isWordChar (c : Char) : Bool :=
  c.isAlphanum || c == '_' || c == '-'

namespace Cursor

/-- The place before the first character; one byte order mark in front is no part of the text. -/
def start (s : String) : Cursor :=
  match s.toList with
  | c :: cs => ⟨if c = byteOrderMark then cs else c :: cs, 0, 0, 0⟩
  | [] => ⟨[], 0, 0, 0⟩

/-- The character at a distance, if the text goes so far. -/
def at? (c : Cursor) (distance : Nat) : Option Char :=
  c.rest[distance]?

/-- The next character, if the text goes on. -/
def peek? (c : Cursor) : Option Char :=
  c.rest.head?

def atEnd (c : Cursor) : Bool :=
  c.rest.isEmpty

def sees (c : Cursor) (x : Char) : Bool :=
  c.peek? == some x

def seesAny (c : Cursor) (p : Char → Bool) : Bool :=
  c.peek?.any p

/-- At a distance there is a blank, a line break or the end. -/
def spaceAt (c : Cursor) (distance : Nat) : Bool :=
  (c.at? distance).all fun x => isBlank x || isBreak x

def atLineEnd (c : Cursor) : Bool :=
  c.peek?.all isBreak

def skip (c : Cursor) (n : Nat) : Cursor :=
  let passed := (c.rest.take n).length
  ⟨c.rest.drop passed, c.index + passed, c.line, c.column + passed⟩

/-- The characters from here on that have a property, and the place behind them. -/
def span (c : Cursor) (p : Char → Bool) : List Char × Cursor :=
  let seen := c.rest.takeWhile p
  (seen, c.skip seen.length)

/-- The place behind the characters that have a property. -/
def skipWhile (c : Cursor) (p : Char → Bool) : Cursor :=
  (c.span p).2

/-- What a line break at this place stands for in content, and the place behind it. -/
def lineBreak (c : Cursor) : List Char × Cursor :=
  match c.rest with
  | '\r' :: '\n' :: rest => (['\n'], ⟨rest, c.index + 2, c.line + 1, 0⟩)
  | x :: rest =>
    if isBreak x then
      ([if x = '\u2028' ∨ x = '\u2029' then x else '\n'], ⟨rest, c.index + 1, c.line + 1, 0⟩)
    else ([], c)
  | [] => ([], c)

/-- A line starts here with the mark of a document: three hyphens or three dots, and then space. -/
def atDocumentMark (c : Cursor) : Bool :=
  c.column == 0 && (c.rest.take 3 == ['-', '-', '-'] || c.rest.take 3 == ['.', '.', '.']) && c.spaceAt 3

/-- The place behind the blanks and a comment. -/
def skipComment (c : Cursor) : Cursor :=
  if c.sees '#' then c.skipWhile (!isBreak ·) else c

/-- The place on the next line, if only blanks and a comment are left on this one. -/
def endLine? (c : Cursor) : Option Cursor :=
  let c := (c.skipWhile isBlank).skipComment
  if c.atLineEnd then some c.lineBreak.2 else none

end Cursor

/-- Blanks and line breaks between two parts of a scalar. -/
structure Gap where
  /-- The blanks, if there is no line break. -/
  blanks : List Char
  broken : Bool
  /-- The first line break, unless it was escaped. -/
  first : List Char
  others : List Char

namespace Gap

def none : Gap := ⟨[], false, [], []⟩

/-- An escaped line break. -/
def escaped : Gap := ⟨[], true, [], []⟩

/-- What a gap stands for: a single line feed becomes a space, and before others it vanishes. -/
def text (g : Gap) : List Char :=
  if g.broken then
    if g.first = ['\n'] then (if g.others.isEmpty then [' '] else g.others)
    else g.first ++ g.others
  else g.blanks

/-- A gap with the blanks and line breaks from a place on, and the place behind them.  After a line break
no tab may stand before the column `indent`. -/
def extend? (indent : Nat) : Nat → Gap → Cursor → Option (Gap × Cursor)
  | 0, g, c => some (g, c)
  | fuel + 1, g, c =>
    match c.peek? with
    | some x =>
      if isBlank x then
        if g.broken then
          if x = '\t' ∧ c.column < indent then Option.none else extend? indent fuel g (c.skip 1)
        else extend? indent fuel { g with blanks := g.blanks ++ [x] } (c.skip 1)
      else if isBreak x then
        let (lineBreak, next) := c.lineBreak
        if g.broken then extend? indent fuel { g with others := g.others ++ lineBreak } next
        else extend? indent fuel { g with blanks := [], broken := true, first := lineBreak } next
      else some (g, c)
    | Option.none => some (g, c)

/-- The gap from a place on, and the place behind it. -/
def read? (indent : Nat) (g : Gap) (c : Cursor) : Option (Gap × Cursor) :=
  extend? indent c.rest.length g c

end Gap
end TableForest.Yaml
