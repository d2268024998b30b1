import TableForest.Json.Basic
import TableForest.Text.Utf8

/-!
# Writing JSON

Two styles: compact, without blanks, and pretty, with two blanks of indentation for each level.  Empty
collections are written `[]` and an empty pair of braces in both.  In strings the quote, the backslash
and the control characters are escaped; all other text stands as UTF-8.
-/

namespace TableForest.Json

/-- How a value is spread over lines. -/
inductive Style where
  | compact
  | pretty
  deriving DecidableEq, Repr

namespace Style

def lineBreak : Style → Nat → Bytes
  | .compact, _ => []
  | .pretty, level => Utf8.ascii "\n" ++ List.replicate (2 * level) 0x20

def colon : Style → Bytes
  | .compact => Utf8.ascii ":"
  | .pretty => Utf8.ascii ": "

end Style

/-- A hexadecimal digit, in lower case. -/
def hexDigitByte (n : Nat) : UInt8 :=
  UInt8.ofNat (if n < 10 then 48 + n else 87 + n)

def literalByte (b : UInt8) : Bytes :=
  if b = 0x22 then Utf8.ascii "\\\""
  else if b = 0x5C then Utf8.ascii "\\\\"
  else if b = 0x08 then Utf8.ascii "\\b"
  else if b = 0x0C then Utf8.ascii "\\f"
  else if b = 0x0A then Utf8.ascii "\\n"
  else if b = 0x0D then Utf8.ascii "\\r"
  else if b = 0x09 then Utf8.ascii "\\t"
  else if b < 0x20 then
    Utf8.ascii "\\u00" ++ [hexDigitByte (b.toNat / 16), hexDigitByte (b.toNat % 16)]
  else [b]

def literal (s : String) : Bytes :=
  0x22 :: (Utf8.encode s).flatMap literalByte ++ [0x22]

/-- A numeral; its exponent always has a sign. -/
def numeralBytes (n : Numeral) : Bytes :=
  Utf8.ascii (String.ofList (n.chars true))

mutual

def bytesAt (style : Style) (level : Nat) : Json → Bytes
  | .null => Utf8.ascii "null"
  | .bool b => Utf8.ascii (if b then "true" else "false")
  | .number n => numeralBytes n
  | .string s => literal (s.getD "")
  | .array items =>
    if items.isEmpty then Utf8.ascii "[]"
    else 0x5B :: itemsBytes style (level + 1) true items ++ style.lineBreak level ++ [0x5D]
  | .object members =>
    if members.isEmpty then Utf8.ascii "\x7b\x7d"
    else 0x7B :: membersBytes style (level + 1) true members ++ style.lineBreak level ++ [0x7D]

/-- The items of an array, each on its line; `first` says that none stands before them. -/
def itemsBytes (style : Style) (level : Nat) (first : Bool) : List Json → Bytes
  | [] => []
  | v :: rest =>
    (if first then [] else [0x2C]) ++ style.lineBreak level ++ bytesAt style level v
      ++ itemsBytes style level false rest

/-- The members of an object, each on its line; `first` says that none stands before them. -/
def membersBytes (style : Style) (level : Nat) (first : Bool) :
    List (Option String × Json) → Bytes
  | [] => []
  | (key, v) :: rest =>
    (if first then [] else [0x2C]) ++ style.lineBreak level ++ literal (key.getD "") ++ style.colon
      ++ bytesAt style level v ++ membersBytes style level false rest

end

def bytes (style : Style) (v : Json) : Bytes :=
  bytesAt style 0 v

/-! ## Values that cannot be written -/

mutual

/-- What stands in front of the first string of a value that is no text, if there is one. -/
def cutAt? (style : Style) (level : Nat) : Json → Option Bytes
  | .null => none
  | .bool _ => none
  | .number _ => none
  | .string s => if s.isSome then none else some []
  | .array items => (itemsCut? style (level + 1) true items).map (0x5B :: ·)
  | .object members => (membersCut? style (level + 1) true members).map (0x7B :: ·)

def itemsCut? (style : Style) (level : Nat) (first : Bool) : List Json → Option Bytes
  | [] => none
  | v :: rest =>
    let lead := (if first then [] else [0x2C]) ++ style.lineBreak level
    match cutAt? style level v with
    | some part => some (lead ++ part)
    | none => (itemsCut? style level false rest).map fun part => lead ++ bytesAt style level v ++ part

def membersCut? (style : Style) (level : Nat) (first : Bool) :
    List (Option String × Json) → Option Bytes
  | [] => none
  | (none, _) :: _ => some ((if first then [] else [0x2C]) ++ style.lineBreak level)
  | (some key, v) :: rest =>
    let lead := (if first then [] else [0x2C]) ++ style.lineBreak level ++ literal key ++ style.colon
    match cutAt? style level v with
    | some part => some (lead ++ part)
    | none => (membersCut? style level false rest).map fun part => lead ++ bytesAt style level v ++ part

end

/-- What gets written of a value, and whether that is all of it: the writer goes from left to right and stops
in front of a string that is no text. -/
def written (style : Style) (v : Json) : Bytes × Bool :=
  match cutAt? style 0 v with
  | some part => (part, false)
  | none => (bytes style v, true)

/-- Bytes of JSON as text; what the printer writes is always text. -/
def render (style : Style) (v : Json) : String :=
  (Utf8.decode? (bytes style v)).getD ""

end TableForest.Json
