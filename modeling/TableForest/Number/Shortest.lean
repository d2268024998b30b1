import TableForest.Number.Binary
import TableForest.Text.Decimal

/-!
# Shortest decimals

The decimal text of a binary number is the shortest that reads back, and of those the nearest to the
number.  For 1, 2, … 17 digits the two neighbours of the number on that decimal grid are read back;
the first grid with a hit wins.  The exact expansion, which always reads back, stands behind them.
-/

namespace TableForest

/-- A positive decimal `0.d₁d₂… · 10 ^ point`, its digits without zeros at the end. -/
structure Scientific where
  digits : List Decimal.Digit
  point : Int
  deriving DecidableEq, Repr

/-- Which of two equally near decimals of one length is taken. -/
inductive Tie where
  | up
  | even
  deriving DecidableEq, Repr

namespace Scientific

/-- A significand in units of `10 ^ exponent`. -/
def ofSignificand (significand : Nat) (exponent : Int) : Scientific :=
  let ds := Decimal.digits significand
  ⟨(ds.reverse.dropWhile (· == Decimal.zeroDigit)).reverse, ds.length + exponent⟩

end Scientific

namespace Format

/-- The `p` with `10 ^ (p - 1) ≤ num / den < 10 ^ p`. -/
def decimalPoint (num den : Nat) : Int :=
  if den ≤ num then (Decimal.digits (num / den)).length
  -- `10 ^ k ≤ (den - 1) / num` iff the fraction is below `10 ^ (-k)`
  else 1 - ((Decimal.digits ((den - 1) / num)).length : Nat)

/-- The neighbours of `num / den` on the grid `10 ^ exponent` that read back as `magnitude`, and of two
the nearer one. -/
def onGrid? (f : Format) (tie : Tie) (magnitude num den : Nat) (exponent : Int) : Option Nat :=
  let n := num * Nat.pow 10 (-exponent).toNat
  let d := den * Nat.pow 10 exponent.toNat
  let below := n / d
  let above := below + 1
  let twice := 2 * (n % d)
  match f.ofDecimal below exponent == magnitude, f.ofDecimal above exponent == magnitude with
  | false, false => none
  | true, false => some below
  | false, true => some above
  | true, true =>
    if twice < d then some below
    else if d < twice then some above
    else match tie with
      | .up => some above
      | .even => some (if below % 2 = 0 then below else above)

/-- A finite magnitude written out in full: its significand and the power of ten that it counts. -/
def exactDecimal (f : Format) (magnitude : Nat) : Nat × Int :=
  let (m, e) := f.parts magnitude
  (m * Nat.pow 2 e.toNat * Nat.pow 5 (-e).toNat, min e 0)

/-- The shortest decimal that reads back as a positive finite magnitude. -/
def shortest (f : Format) (tie : Tie) (magnitude : Nat) : Scientific :=
  let (num, den) := f.ratio magnitude
  let point := decimalPoint num den
  let found := (List.range 17).findSome? fun i =>
    -- the grid of `i + 1` significant digits
    let exponent := point - (i + 1 : Nat)
    (f.onGrid? tie magnitude num den exponent).map fun m => Scientific.ofSignificand m exponent
  found.getD (Scientific.ofSignificand (f.exactDecimal magnitude).1 (f.exactDecimal magnitude).2)

end Format
end TableForest
