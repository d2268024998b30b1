import TableForest.Number.Numeral
import TableForest.Number.Shortest

/-!
# The layout of a number as text

A `NumberLayout` says how the digits of a number are set out: which decimal points are written
positionally, whether a whole number keeps `.0`, whether an exponent has a plus, and the names of what
is not finite.  `Binary.numeral` sets out a finite number and `Binary.text` writes any number.
-/

namespace TableForest

/-- How the digits of a number are set out. -/
structure NumberLayout where
  /-- Which of two equally near shortest decimals is written. -/
  tie : Tie
  /-- The points after which digits are written positionally, from the first to the last; all if none
  are named. -/
  positional : Option (Int × Int)
  /-- A whole number written positionally keeps `.0`. -/
  wholeMark : Bool
  /-- An exponent from zero up has a plus. -/
  exponentPlus : Bool
  infinite : String
  nan : String

namespace Scientific

def positional (wholeMark negative : Bool) (s : Scientific) : Numeral :=
  if s.point ≤ 0 then ⟨negative, 0, List.replicate (-s.point).toNat Decimal.zeroDigit ++ s.digits, none⟩
  else
    let p := s.point.toNat
    if s.digits.length ≤ p then
      ⟨negative, Decimal.ofDigits s.digits * Nat.pow 10 (p - s.digits.length),
        if wholeMark then [Decimal.zeroDigit] else [], none⟩
    else ⟨negative, Decimal.ofDigits (s.digits.take p), s.digits.drop p, none⟩

/-- One digit, the others after a point, and an exponent. -/
def withExponent (negative : Bool) (s : Scientific) : Numeral :=
  ⟨negative, Decimal.ofDigits (s.digits.take 1), s.digits.drop 1, some (s.point - 1)⟩

end Scientific

def NumberLayout.arrange (layout : NumberLayout) (negative : Bool) (s : Scientific) : Numeral :=
  match layout.positional with
  | none => s.positional layout.wholeMark negative
  | some (first, last) =>
    if first ≤ s.point ∧ s.point ≤ last then s.positional layout.wholeMark negative
    else s.withExponent negative

namespace Binary

variable {f : Format}

def numeral (layout : NumberLayout) (x : Binary f) : Numeral :=
  if x.magnitude = 0 then ⟨x.negative, 0, if layout.wholeMark then [Decimal.zeroDigit] else [], none⟩
  else layout.arrange x.negative (f.shortest layout.tie x.magnitude)

def text (layout : NumberLayout) (x : Binary f) : String :=
  if x.isNaN then layout.nan
  else if x.isFinite then String.ofList ((x.numeral layout).chars layout.exponentPlus)
  else if x.negative then "-" ++ layout.infinite
  else layout.infinite

end Binary
end TableForest
