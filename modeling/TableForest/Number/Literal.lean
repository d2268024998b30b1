import TableForest.Number.Binary
import TableForest.Number.Numeral

/-!
# Floating-point literals

The grammar of a number as text: an optional sign, and then `inf`, `infinity` or `nan` in any case, or
digits with an optional point that has a digit on one side, and an optional exponent.  `read?` reads a
whole text and `FloatLiteral.toBinary` rounds what it denotes.
-/

namespace TableForest

/-- What a literal denotes. -/
inductive FloatLiteral where
  | finite (negative : Bool) (significand : Nat) (exponent : Int)
  | infinite (negative : Bool)
  | nan (negative : Bool)
  deriving DecidableEq, Repr

namespace FloatLiteral

/-- The exponent part: nothing, or `e` with an integer. -/
def readExponent? : List Char → Option Int
  | [] => some 0
  | c :: cs => if c = 'e' || c = 'E' then Decimal.readInt? cs else none

def readFinite? (negative : Bool) (cs : List Char) : Option FloatLiteral :=
  let (whole, rest) := Numeral.spanDigits cs
  let (fraction, rest) := match rest with
    | '.' :: rest => Numeral.spanDigits rest
    | rest => ([], rest)
  match Decimal.readNat? (whole ++ fraction), readExponent? rest with
  | some significand, some exponent =>
    some (.finite negative significand (exponent - fraction.length))
  | _, _ => none

def read? (s : String) : Option FloatLiteral :=
  let (negative, cs) := Decimal.splitSign s.toList
  let word := (String.ofList cs).toLower
  if word = "inf" || word = "infinity" then some (.infinite negative)
  else if word = "nan" then some (.nan negative)
  else readFinite? negative cs

def toBinary {f : Format} : FloatLiteral → Binary f
  | .finite negative significand exponent => .ofDecimal negative significand exponent
  | .infinite negative => .infinite negative
  | .nan negative => .nan negative

end FloatLiteral

def Binary.read? {f : Format} (s : String) : Option (Binary f) :=
  (FloatLiteral.read? s).map FloatLiteral.toBinary

end TableForest
