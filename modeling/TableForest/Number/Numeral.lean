import TableForest.Text.Decimal

/-!
# Numerals

A decimal numeral as it is written: a sign, a whole part without leading zeros, the digits after the
point, and an exponent.  The value of a numeral depends on who reads it; here it is only spelled and
taken apart.
-/

namespace TableForest

/-- A written decimal number. -/
structure Numeral where
  negative : Bool
  whole : Nat
  /-- The digits after the point; no point is written if there are none. -/
  fraction : List Decimal.Digit
  /-- The exponent, if one is written. -/
  exponent : Option Int
  deriving DecidableEq

namespace Numeral

def ofInt (n : Int) : Numeral :=
  ⟨n < 0, n.natAbs, [], none⟩

/-- The exponent part of a numeral; `plus` says whether an exponent from zero up has a sign. -/
def exponentChars (plus : Bool) : Option Int → List Char
  | none => []
  | some e =>
    'e' :: (if e < 0 then ['-'] else if plus then ['+'] else []) ++ Decimal.natChars e.natAbs

def chars (plus : Bool) (n : Numeral) : List Char :=
  (if n.negative then ['-'] else [])
    ++ Decimal.natChars n.whole
    ++ (if n.fraction.isEmpty then [] else '.' :: n.fraction.map Decimal.digitChar)
    ++ exponentChars plus n.exponent

/-- The longest run of digits in front and the rest. -/
def spanDigits (cs : List Char) : List Char × List Char :=
  cs.span Decimal.isDigit

/-- A whole part: digits that do not start with a zero, or one zero. -/
def readWhole? (cs : List Char) : Option Nat :=
  if cs.head? = some '0' ∧ cs ≠ ['0'] then none else Decimal.readNat? cs

/-- The part after the whole one: a point with at least one digit, or nothing. -/
def readFraction? : List Char → Option (List Decimal.Digit × List Char)
  | '.' :: cs =>
    let (ds, rest) := spanDigits cs
    if ds.isEmpty then none else (ds.mapM Decimal.digit?).map (·, rest)
  | cs => some ([], cs)

/-- The last part: `e` or `E` with an integer, or nothing. -/
def readExponent? : List Char → Option (Option Int)
  | [] => some none
  | c :: cs => if c = 'e' ∨ c = 'E' then (Decimal.readInt? cs).map some else none

/-- The numeral that a text spells: no plus in front, no superfluous zero, digits on both sides of a
point. -/
def read? (cs : List Char) : Option Numeral := do
  let (negative, cs) := match cs with
    | '-' :: cs => (true, cs)
    | cs => (false, cs)
  let (ds, rest) := spanDigits cs
  let whole ← readWhole? ds
  let (fraction, rest) ← readFraction? rest
  let exponent ← readExponent? rest
  return ⟨negative, whole, fraction, exponent⟩

end Numeral
end TableForest
