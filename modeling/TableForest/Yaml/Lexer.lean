import TableForest.Yaml.Block
import TableForest.Yaml.Plain
import TableForest.Yaml.Property
import TableForest.Yaml.Quoted

/-!
# From text to tokens

The lexer keeps track of indentation: deeper content opens a block and shallower content closes it.  The
key of a mapping is known only by the colon after it, so the lexer remembers where a key could have
started, one place for each bracket that is open, and puts the announcement there when the colon comes.
Such a key has to end on its line and within 1024 characters.
-/

namespace TableForest.Yaml

/-- A place where a key may have started. -/
structure KeyStart where
  tokens : Nat
  /-- There must be a key here, or the block ends. -/
  required : Bool
  index : Nat
  line : Nat
  column : Nat

/-- The lexer after some tokens. -/
structure Lexer where
  cursor : Cursor
  /-- The tokens, last first. -/
  tokens : List Token
  /-- The columns that the open blocks are indented by, innermost first. -/
  blocks : List Nat
  /-- A key may start at the next token. -/
  keyAllowed : Bool
  /-- Where a key may have started outside of all brackets and in each open one, innermost first. -/
  keys : List (Option KeyStart)

namespace Lexer

def start (s : String) : Lexer :=
  ⟨.start s, [], [], true, [none]⟩

/-- Inside brackets indentation has no meaning. -/
def inFlow (l : Lexer) : Bool :=
  1 < l.keys.length

/-- The column that the innermost block is indented by. -/
def indent? (l : Lexer) : Option Nat :=
  l.blocks.head?

/-- The least column of content inside the innermost block. -/
def contentIndent (l : Lexer) : Nat :=
  match l.indent? with
  | some n => n + 1
  | none => 0

def push (l : Lexer) (t : Token) : Lexer :=
  { l with tokens := t :: l.tokens }

/-- The lexer with a token put behind the first `n`. -/
def insert (l : Lexer) (n : Nat) (t : Token) : Lexer :=
  let after := l.tokens.length - n
  { l with tokens := l.tokens.take after ++ t :: l.tokens.drop after }

def moveTo (l : Lexer) (c : Cursor) : Lexer :=
  { l with cursor := c }

/-- The lexer for which a key may start at the next token, or not. -/
def allowKey (l : Lexer) (allowed : Bool) : Lexer :=
  { l with keyAllowed := allowed }

/-- No key is awaited in the innermost bracket; one that had to be there is missing. -/
def forgetKey? (l : Lexer) : Option Lexer :=
  match l.keys with
  | some k :: rest => if k.required then none else some { l with keys := none :: rest }
  | _ => some l

def rememberKey? (l : Lexer) : Option Lexer :=
  if l.keyAllowed then do
    let l ← l.forgetKey?
    let c := l.cursor
    let k : KeyStart :=
      ⟨l.tokens.length, !l.inFlow && l.indent? = some c.column, c.index, c.line, c.column⟩
    return { l with keys := some k :: l.keys.drop 1 }
  else some l

/-- The greatest distance of the colon from the start of its key. -/
def maxKeyLength : Nat := 1024

/-- The key that started there can still go on here. -/
def isFresh (c : Cursor) (k : KeyStart) : Bool :=
  k.line = c.line && c.index ≤ k.index + maxKeyLength

/-- Keys that did not end in time are no keys; one that had to be there is missing. -/
def forgetStaleKeys? (l : Lexer) : Option Lexer := do
  let keys ← l.keys.mapM fun k => match k with
    | some start =>
      if isFresh l.cursor start then some (some start)
      else if start.required then none
      else some none
    | none => some none
  return { l with keys := keys }

/-- A block with a column of indentation is open; if it was not, the token that opens it stands behind
the first `before` tokens, or here. -/
def openBlock (l : Lexer) (column : Nat) (before : Option Nat) (t : Token) : Lexer :=
  if l.inFlow || l.indent?.any (column ≤ ·) then l
  else
    let l := match before with
      | some n => l.insert n t
      | none => l.push t
    { l with blocks := column :: l.blocks }

/-- The blocks that are indented more than a column end. -/
def closeBlocks (l : Lexer) (column : Nat) : Lexer :=
  if l.inFlow then l
  else
    let ended := l.blocks.takeWhile (column < ·)
    { l with
      tokens := ended.map (fun _ => Token.blockEnd) ++ l.tokens
      blocks := l.blocks.drop ended.length }

def closeAllBlocks (l : Lexer) : Lexer :=
  if l.inFlow then l
  else
    { l with
      tokens := l.blocks.map (fun _ => Token.blockEnd) ++ l.tokens
      blocks := [] }

/-- One line without a token: blanks, a comment and a line break. -/
def skipLine (l : Lexer) : Lexer :=
  let c := l.cursor
  let c := if c.column == 0 && c.sees byteOrderMark then c.skip 1 else c
  -- tabs are no indentation: where a key may start they are not skipped
  let tabs := l.inFlow || !l.keyAllowed
  let c := (c.skipWhile fun x => x == ' ' || (tabs && x == '\t')).skipComment
  if c.seesAny isBreak then
    { l with cursor := c.lineBreak.2, keyAllowed := l.keyAllowed || !l.inFlow }
  else l.moveTo c

def skipToToken : Nat → Lexer → Lexer
  | 0, l => l
  | fuel + 1, l =>
    let next := l.skipLine
    -- on the same line there is a token or the end of the text
    if next.cursor.line = l.cursor.line then next else skipToToken fuel next

def mark (l : Lexer) (width : Nat) (t : Token) : Lexer :=
  (l.moveTo (l.cursor.skip width)).push t

/-- The end of the text, which is the end of a line. -/
def endStream? (l : Lexer) : Option Lexer := do
  return ((← l.closeAllBlocks.forgetKey?).allowKey false).push .streamEnd

def directive? (l : Lexer) : Option Lexer := do
  let l := (← l.closeAllBlocks.forgetKey?).allowKey false
  let (t, c) ← Yaml.directive? l.cursor
  return (l.moveTo c).push t

def documentMark? (l : Lexer) (t : Token) : Option Lexer := do
  return ((← l.closeAllBlocks.forgetKey?).allowKey false).mark 3 t

def openBracket? (l : Lexer) (t : Token) : Option Lexer := do
  let l := (← l.rememberKey?).allowKey true
  return { l with keys := none :: l.keys }.mark 1 t

def closeBracket? (l : Lexer) (t : Token) : Option Lexer := do
  let l := (← l.forgetKey?).allowKey false
  return { l with keys := if l.inFlow then l.keys.drop 1 else l.keys }.mark 1 t

def flowEntry? (l : Lexer) : Option Lexer := do
  return ((← l.forgetKey?).allowKey true).mark 1 .flowEntry

/-- Outside of brackets the innermost block has to be one of an indicator at this place. -/
def blockIndicator? (l : Lexer) (t : Token) : Option Lexer :=
  if l.inFlow then some l
  else if l.keyAllowed then some (l.openBlock l.cursor.column none t)
  else none

def blockEntry? (l : Lexer) : Option Lexer := do
  return ((← (← l.blockIndicator? .blockSequenceStart).forgetKey?).allowKey true).mark 1 .blockEntry

def keyMark? (l : Lexer) : Option Lexer := do
  return ((← (← l.blockIndicator? .blockMappingStart).forgetKey?).allowKey (!l.inFlow)).mark 1 .key

/-- A colon before a value.  If a key may have started, it has. -/
def valueMark? (l : Lexer) : Option Lexer :=
  match l.keys with
  | some k :: rest =>
    -- a block that the key opens is announced before the key
    let l := (l.insert k.tokens .key).openBlock k.column (some k.tokens) .blockMappingStart
    some (({ l with keys := none :: rest }.allowKey false).mark 1 .value)
  | _ => do
    return ((← l.blockIndicator? .blockMappingStart).allowKey (!l.inFlow)).mark 1 .value

/-- A token that may be a key and is not one of several lines. -/
def content? (l : Lexer) (read : Cursor → Option (Token × Cursor)) : Option Lexer := do
  let l := (← l.rememberKey?).allowKey false
  let (t, c) ← read l.cursor
  return (l.moveTo c).push t

def quoted? (l : Lexer) (style : QuoteStyle) : Option Lexer :=
  l.content? fun c => (quotedScalar? style c).map fun (s, c) => (.scalar s false, c)

def block? (l : Lexer) (style : BlockStyle) : Option Lexer := do
  let l := (← l.forgetKey?).allowKey true
  let (s, c) ← blockScalar? style l.indent? l.cursor
  return (l.moveTo c).push (.scalar s false)

/-- A plain scalar; after a line break a key may start. -/
def plain? (l : Lexer) : Option Lexer := do
  let l ← l.rememberKey?
  let (s, c, broken) ← plainScalar? l.inFlow l.contentIndent l.cursor
  return ((l.moveTo c).allowKey broken).push (.scalar s true)

def token? (l : Lexer) : Option Lexer :=
  let c := l.cursor
  let indicates (x : Char) : Bool := c.sees x && (l.inFlow || c.spaceAt 1)
  match c.peek? with
  | none => l.endStream?
  | some x =>
    if c.column = 0 && x = '%' then l.directive?
    else if c.atDocumentMark then l.documentMark? (if x = '-' then .documentStart else .documentEnd)
    else if x = '[' then l.openBracket? .flowSequenceStart
    else if x = '\x7b' then l.openBracket? .flowMappingStart
    else if x = ']' then l.closeBracket? .flowSequenceEnd
    else if x = '\x7d' then l.closeBracket? .flowMappingEnd
    else if x = ',' then l.flowEntry?
    -- a hyphen, a question mark or a colon before other characters starts a plain scalar
    else if x = '-' && c.spaceAt 1 then l.blockEntry?
    else if indicates '?' then l.keyMark?
    else if indicates ':' then l.valueMark?
    else if x = '*' then
      l.content? fun c => (anchorName? c).map fun (name, c) => (.reference name, c)
    else if x = '&' then
      l.content? fun c => (anchorName? c).map fun (name, c) => (.anchor name, c)
    else if x = '!' then l.content? (tag? l.inFlow)
    else if x = '|' && !l.inFlow then l.block? .literal
    else if x = '>' && !l.inFlow then l.block? .folded
    else if x = '\'' then l.quoted? .single
    else if x = '"' then l.quoted? .double
    else if startsPlain l.inFlow c then l.plain?
    else none

/-- The next token, with the ends of the blocks before it. -/
def next? (l : Lexer) : Option Lexer := do
  let l ← (skipToToken (l.cursor.rest.length + 1) l).forgetStaleKeys?
  (l.closeBlocks l.cursor.column).token?

/-- All tokens; each one but the last takes at least one character. -/
def run? : Nat → Lexer → Option (List Token)
  | 0, _ => none
  | fuel + 1, l => do
    let l ← l.next?
    if l.tokens.head? = some .streamEnd then return l.tokens.reverse else run? fuel l

end Lexer

def tokens? (s : String) : Option (List Token) :=
  let l := Lexer.start s
  if l.cursor.rest.all isPrintable then l.run? (l.cursor.rest.length + 1) else none

end TableForest.Yaml
