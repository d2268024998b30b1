import TableForest.Json.Token
import TableForest.Yaml.Cursor

/-!
# Quoted scalars

In single quotes a quote is written twice and nothing else is special.  In double quotes a backslash
starts an escape, or joins two lines.  In both, lines are folded: a single line break is a space, and of
several the first vanishes.
-/

namespace TableForest.Yaml

/-- How a scalar is quoted. -/
inductive QuoteStyle where
  | single
  | double
  deriving DecidableEq, Repr

def QuoteStyle.mark : QuoteStyle → Char
  | single => '\''
  | double => '"'

/-- What an escape stands for: a character, or the number of hexadecimal digits that follow. -/
inductive Escape where
  | char (c : Char)
  | code (digits : Nat)
  deriving DecidableEq, Repr

def escape? : Char → Option Escape
  | '0' => some (.char '\x00')
  | 'a' => some (.char '\x07')
  | 'b' => some (.char '\x08')
  | 't' => some (.char '\t')
  | '\t' => some (.char '\t')
  | 'n' => some (.char '\n')
  | 'v' => some (.char '\x0b')
  | 'f' => some (.char '\x0c')
  | 'r' => some (.char '\r')
  | 'e' => some (.char '\x1b')
  | ' ' => some (.char ' ')
  | '"' => some (.char '"')
  | '/' => some (.char '/')
  | '\\' => some (.char '\\')
  | 'N' => some (.char '\x85')
  | '_' => some (.char '\xa0')
  | 'L' => some (.char '\u2028')
  | 'P' => some (.char '\u2029')
  | 'x' => some (.code 2)
  | 'u' => some (.code 4)
  | 'U' => some (.code 8)
  | _ => none

/-- The character of a code point that is not a surrogate. -/
def charOfCode? (n : Nat) : Option Char :=
  if n.isValidChar then some (Char.ofNat n) else none

def codeChar? (digits : Nat) (cs : List Char) : Option Char :=
  if cs.length < digits then none
  else do
    let ds ← (cs.take digits).mapM Json.hexValue?
    charOfCode? (ds.foldl (fun n d => 16 * n + d) 0)

/-- One unit of the content of a quoted scalar, and the place behind it; an escaped line break is none. -/
def quotedUnit? (style : QuoteStyle) (c : Cursor) : Option (Option Char × Cursor) :=
  match style, c.rest with
  | .single, '\'' :: _ => some (some '\'', c.skip 2)
  | .double, '\\' :: x :: rest =>
    if isBreak x then some (none, (c.skip 1).lineBreak.2)
    else
      match escape? x with
      | some (.char e) => some (some e, c.skip 2)
      | some (.code digits) => (codeChar? digits rest).map fun e => (some e, c.skip (2 + digits))
      | none => none
  | .double, ['\\'] => none
  | _, x :: _ => some (some x, c.skip 1)
  | _, [] => none

/-- The scalar ends here: its mark is next, and in single quotes not twice. -/
def atClosingMark (style : QuoteStyle) (c : Cursor) : Bool :=
  c.sees style.mark && !(style = .single && c.at? 1 == some style.mark)

/-- The content up to the next blank, line break or closing mark, in reverse after `seen`; the gap in
which it ends; and the place behind. -/
def quotedRun? (style : QuoteStyle) :
    Nat → List Char → Cursor → Option (List Char × Gap × Cursor)
  | 0, _, _ => none
  | fuel + 1, seen, c =>
    if c.spaceAt 0 || atClosingMark style c then some (seen, .none, c)
    else
      match quotedUnit? style c with
      | some (some x, c) => quotedRun? style fuel (x :: seen) c
      | some (none, c) => some (seen, .escaped, c)
      | none => none

/-- The content of a quoted scalar from a place inside on, in reverse after `seen`, and the place behind
its closing mark. -/
def quotedRest? (style : QuoteStyle) : Nat → List Char → Cursor → Option (List Char × Cursor)
  | 0, _, _ => none
  | fuel + 1, seen, c => do
    if c.atDocumentMark || c.atEnd then none
    let (seen, gap, c) ← quotedRun? style (c.rest.length + 1) seen c
    if c.sees style.mark then return (seen, c.skip 1)
    let (gap, c) ← gap.read? 0 c
    quotedRest? style fuel (gap.text.reverse ++ seen) c

/-- The text of the quoted scalar that starts at a place, and the place behind it. -/
def quotedScalar? (style : QuoteStyle) (c : Cursor) : Option (String × Cursor) := do
  let (seen, c) ← quotedRest? style (c.rest.length + 1) [] (c.skip 1)
  return (String.ofList seen.reverse, c)

end TableForest.Yaml
