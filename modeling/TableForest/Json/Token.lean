import TableForest.Json.Basic
import TableForest.Text.Utf8

/-!
# JSON tokens

The lexical level of JSON, a byte at a time.  A string literal is collected as raw bytes and as the
16-bit units that `\u` escapes name; only `StringPart.decode?` asks whether they spell text, so a literal
that does not is still a token.
-/

namespace TableForest.Json

/-- A token of JSON. -/
inductive Token where
  | beginArray
  | endArray
  | beginObject
  | endObject
  | comma
  | colon
  | null
  | bool (b : Bool)
  | number (n : Numeral)
  | string (text : Option String)

/-- A piece of a string literal. -/
inductive StringPart where
  | byte (b : UInt8)
  | unit (n : Nat)

namespace StringPart

def encodeScalar (n : Nat) : Bytes :=
  Utf8.encode (String.singleton (Char.ofNat n))

/-- The bytes that the pieces of a literal stand for; a surrogate has to be half of a pair. -/
def bytes? : List StringPart → Option Bytes
  | [] => some []
  | .byte b :: rest => (bytes? rest).map (b :: ·)
  | .unit high :: rest =>
    if high < 0xD800 ∨ 0xDFFF < high then (bytes? rest).map (encodeScalar high ++ ·)
    -- the second half of a pair cannot come first
    else if 0xDC00 ≤ high then none
    else match rest with
      | .unit low :: rest =>
        if 0xDC00 ≤ low ∧ low ≤ 0xDFFF then
          (bytes? rest).map (encodeScalar (0x10000 + (high - 0xD800) * 0x400 + (low - 0xDC00)) ++ ·)
        else none
      | _ => none

def decode? (parts : List StringPart) : Option String :=
  (bytes? parts).bind Utf8.decode?

end StringPart

/-- What the lexer is in the middle of; what it has read of it stands in reverse. -/
inductive Mode where
  | between
  | word (seen : Bytes)
  | numeral (seen : Bytes)
  | string (seen : List StringPart)
  | escape (seen : List StringPart)
  | hex (seen : List StringPart) (left : Nat) (value : Nat)

/-- The lexer after some bytes: its mode and the tokens read, last first. -/
structure Lexer where
  mode : Mode
  tokens : List Token

def asciiChar (b : UInt8) : Char :=
  Char.ofNat b.toNat

def hexValue? (c : Char) : Option Nat :=
  if '0' ≤ c ∧ c ≤ '9' then some (c.toNat - 48)
  else if 'a' ≤ c ∧ c ≤ 'f' then some (c.toNat - 87)
  else if 'A' ≤ c ∧ c ≤ 'F' then some (c.toNat - 55)
  else none

def escapeByte? (c : Char) : Option UInt8 :=
  match c with
  | '"' => some 0x22
  | '\\' => some 0x5C
  | '/' => some 0x2F
  | 'b' => some 0x08
  | 'f' => some 0x0C
  | 'n' => some 0x0A
  | 'r' => some 0x0D
  | 't' => some 0x09
  | _ => none

namespace Token

def ofWord? (word : Bytes) : Option Token :=
  if word = Utf8.ascii "null" then some .null
  else if word = Utf8.ascii "true" then some (.bool true)
  else if word = Utf8.ascii "false" then some (.bool false)
  else none

def ofMark? (c : Char) : Option Token :=
  match c with
  | '[' => some .beginArray
  | ']' => some .endArray
  | '\x7b' => some .beginObject
  | '\x7d' => some .endObject
  | ',' => some .comma
  | ':' => some .colon
  | _ => none

end Token

def isWordByte (b : UInt8) : Bool :=
  let c := asciiChar b
  'a' ≤ c && c ≤ 'z'

def isNumeralByte (b : UInt8) : Bool :=
  let c := asciiChar b
  Decimal.isDigit c || c = '-' || c = '+' || c = '.' || c = 'e' || c = 'E'

namespace Lexer

def start : Lexer := ⟨.between, []⟩

/-- The lexer between tokens, with one token more. -/
def push (tokens : List Token) (t : Token) : Lexer := ⟨.between, t :: tokens⟩

/-- A word or numeral ends where a byte that is none of it, or the end of the input, follows. -/
def close? (lexer : Lexer) : Option Lexer :=
  match lexer.mode with
  | .word seen => (Token.ofWord? seen.reverse).map (push lexer.tokens)
  | .numeral seen =>
    (Numeral.read? (seen.reverse.map asciiChar)).map fun n => push lexer.tokens (.number n)
  | _ => some lexer

/-- A byte between tokens starts a token or is skipped. -/
def begin? (tokens : List Token) (b : UInt8) : Option Lexer :=
  let c := asciiChar b
  if c = ' ' ∨ c = '\n' ∨ c = '\t' ∨ c = '\r' then some ⟨.between, tokens⟩
  else if c = '"' then some ⟨.string [], tokens⟩
  else if isWordByte b then some ⟨.word [b], tokens⟩
  else if Decimal.isDigit c ∨ c = '-' then some ⟨.numeral [b], tokens⟩
  else (Token.ofMark? c).map (push tokens)

def step? (lexer : Lexer) (b : UInt8) : Option Lexer :=
  let c := asciiChar b
  match lexer.mode with
  | .between => begin? lexer.tokens b
  | .word seen =>
    if isWordByte b then some ⟨.word (b :: seen), lexer.tokens⟩
    else (close? lexer).bind fun closed => begin? closed.tokens b
  | .numeral seen =>
    if isNumeralByte b then some ⟨.numeral (b :: seen), lexer.tokens⟩
    else (close? lexer).bind fun closed => begin? closed.tokens b
  | .string seen =>
    -- a literal that is no text is still a token
    if c = '"' then some (push lexer.tokens (.string (StringPart.decode? seen.reverse)))
    else if c = '\\' then some ⟨.escape seen, lexer.tokens⟩
    -- control characters have to be escaped
    else if b < 0x20 then none
    else some ⟨.string (.byte b :: seen), lexer.tokens⟩
  | .escape seen =>
    if c = 'u' then some ⟨.hex seen 4 0, lexer.tokens⟩
    else (escapeByte? c).map fun e => ⟨.string (.byte e :: seen), lexer.tokens⟩
  | .hex seen left value =>
    (hexValue? c).map fun d =>
      let value := 16 * value + d
      if left ≤ 1 then ⟨.string (.unit value :: seen), lexer.tokens⟩
      else ⟨.hex seen (left - 1) value, lexer.tokens⟩

def finish? (lexer : Lexer) : Option (List Token) :=
  (close? lexer).bind fun closed =>
    match closed.mode with
    | .between => some closed.tokens.reverse
    | _ => none

end Lexer

def tokens? (bs : Bytes) : Option (List Token) :=
  (bs.foldlM Lexer.step? Lexer.start).bind Lexer.finish?

end TableForest.Json
