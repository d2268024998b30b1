import TableForest.Json.Token
import TableForest.Number.Literal
import TableForest.Yaml.Value

/-!
# What scalars stand for

A plain scalar is null, a truth value, a number or a text, whichever it spells first.  Integers may be
hexadecimal, octal or binary; digits after a leading zero spell no number; floating-point numbers have to
be finite unless they are `.inf` or `.nan`.  A tag of the core schema asks for one of these, every other
global tag for a text, and a local tag stands for nothing here.
-/

namespace TableForest.Yaml

def isNullWord (s : String) : Bool :=
  s = "~" || s = "null" || s = "Null" || s = "NULL"

def boolWord? (s : String) : Option Bool :=
  if s = "true" || s = "True" || s = "TRUE" then some true
  else if s = "false" || s = "False" || s = "FALSE" then some false
  else none

def readDigits? (base : Nat) (cs : List Char) : Option Nat :=
  if cs.isEmpty then none
  else do
    let ds ← cs.mapM Json.hexValue?
    if ds.all (· < base) then some (ds.foldl (fun n d => base * n + d) 0) else none

/-- Digits after a leading zero, with or without a sign, which spell no number. -/
def hasLeadingZero (cs : List Char) : Bool :=
  let ds := (Decimal.splitSign cs).2
  1 < ds.length && ds.head? == some '0' && ds.all Char.isDigit

/-- The magnitude that the part of an integer after its sign spells; `cs` is the whole of it. -/
def magnitude? (cs unsigned : List Char) : Option Nat :=
  let marked := match unsigned with
    | '0' :: 'x' :: ds => readDigits? 16 ds
    | '0' :: 'o' :: ds => readDigits? 8 ds
    | '0' :: 'b' :: ds => readDigits? 2 ds
    | _ => none
  marked.or (if hasLeadingZero cs then none else readDigits? 10 unsigned)

def readInteger? (s : String) : Option Int :=
  let cs := s.toList
  let (negative, unsigned) := Decimal.splitSign cs
  (magnitude? cs unsigned).map fun n => if negative then -(n : Int) else n

/-- Integers have 64 bits, and another 64 make room for nothing but a failure. -/
def isWideInteger (n : Int) : Bool :=
  -(Nat.pow 2 127 : Nat) ≤ n && n < (Nat.pow 2 128 : Nat)

/-- The integer fits 64 bits, with or without a sign. -/
def isInteger (n : Int) : Bool :=
  Int64.minValue.toInt ≤ n && n < UInt64.size

def readFloating? (s : String) : Option Binary64 :=
  let cs := s.toList
  let unsigned := String.ofList (if cs.head? = some '+' then cs.drop 1 else cs)
  if cs.head? = some '+' && (cs.drop 1).head?.any (fun x => x = '+' || x = '-') then none
  else if unsigned = ".inf" || unsigned = ".Inf" || unsigned = ".INF" then some (.infinite false)
  else if s = "-.inf" || s = "-.Inf" || s = "-.INF" then some (.infinite true)
  else if s = ".nan" || s = ".NaN" || s = ".NAN" then some (.nan false)
  else (Binary.read? unsigned).filter Binary.isFinite

/-- The value of an integer; one that needs more than 64 bits has none. -/
def integerValue? (n : Int) : Option Yaml :=
  if isInteger n then some (.integer n) else none

def plainValue? (s : String) : Option Yaml :=
  if s = "" || isNullWord s then some .null
  else
    match boolWord? s with
    | some b => some (.bool b)
    | none =>
      match (readInteger? s).filter isWideInteger with
      | some n => integerValue? n
      | none =>
        if hasLeadingZero s.toList then some (.string s)
        else
          match readFloating? s with
          | some x => some (.floating x)
          | none => some (.string s)

def coreTag (name : String) : Bytes :=
  Utf8.ascii ("tag:yaml.org,2002:" ++ name)

/-- A tag that starts with an exclamation mark. -/
def isLocalTag (tag : Bytes) : Bool :=
  tag.head? = some 0x21 && (Utf8.decode? tag).isSome

def scalarValue? (tag : Option Bytes) (plain : Bool) (s : String) : Option Yaml :=
  match tag with
  | none => if plain then plainValue? s else some (.string s)
  | some t =>
    if isLocalTag t then none
    else if t = coreTag "bool" then (boolWord? s).map .bool
    else if t = coreTag "int" then (readInteger? s).bind integerValue?
    else if t = coreTag "float" then (readFloating? s).map .floating
    else if t = coreTag "null" then if isNullWord s then some .null else none
    else if t.head? = some 0x21 && plain then plainValue? s
    else some (.string s)

end TableForest.Yaml
