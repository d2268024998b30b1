import TableForest.Json.Basic
import TableForest.Number.Layout

/-!
# Numbers in JSON

A numeral without point and exponent denotes an integer if it fits 64 bits.  Every other numeral denotes
a floating-point number, which is reckoned from a significand of 64 bits and a power of ten: digits that
no longer fit are dropped, and each product or quotient on the way is rounded.  A numeral beyond the
greatest number denotes nothing.
-/

namespace TableForest

namespace Format

def mul (f : Format) (a b : Nat) : Nat :=
  let (an, ad) := f.ratio a
  let (bn, bd) := f.ratio b
  f.round (an * bn) (ad * bd)

/-- The quotient of finite magnitudes, the second one positive. -/
def div (f : Format) (a b : Nat) : Nat :=
  let (an, ad) := f.ratio a
  let (bn, bd) := f.ratio b
  f.round (an * bd) (ad * bn)

/-- The greatest power of ten that a 64-bit number can come near. -/
def maxTenPower : Nat := 308

/-- A finite magnitude times a power of ten, one rounded step for each full range of exponents. -/
def scale? (f : Format) (magnitude : Nat) (exponent : Int) : Option Nat :=
  if exponent < -maxTenPower then
    if magnitude = 0 then some 0
    -- each division rounds, so the result may differ from the nearest number
    else f.scale? (f.div magnitude (f.ofDecimal 1 maxTenPower)) (exponent + maxTenPower)
  else if exponent < 0 then some (f.div magnitude (f.ofDecimal 1 (-exponent)))
  else if exponent ≤ maxTenPower then
    let product := f.mul magnitude (f.ofDecimal 1 exponent)
    if product = f.infinity then none else some product
  else if magnitude = 0 then some 0
  else none
termination_by (-exponent).toNat
decreasing_by
  simp only [maxTenPower] at *
  omega

end Format

/-- What a JSON numeral denotes. -/
inductive JsonAmount where
  | integer (n : Int)
  | floating (x : Binary64)
  deriving DecidableEq

namespace Numeral

/-- Appends digits to a significand as long as it fits 64 bits; the digits left over come back. -/
def absorb (significand : Nat) : List Decimal.Digit → Nat × List Decimal.Digit
  | [] => (significand, [])
  | d :: ds =>
    if 10 * significand + d.val < UInt64.size then absorb (10 * significand + d.val) ds
    else (significand, d :: ds)

/-- The significand and the exponent that are left of the digits of a numeral. -/
def condensed (n : Numeral) : Nat × Int :=
  let (m, dropped) := absorb 0 (Decimal.digits n.whole)
  -- digits of the whole part that were dropped are zeros now, those of the fraction are nothing
  let (m, unread) := absorb m n.fraction
  (m, dropped.length - ((n.fraction.length - unread.length : Nat) : Int))

/-- The greatest exponent that is reckoned with; beyond it only the sign of the exponent counts. -/
def maxExponent : Int := 2147483647

def magnitude? (n : Numeral) : Option Nat :=
  let (m, shift) := n.condensed
  let exponent := n.exponent.getD 0
  -- zero stays zero, whatever its exponent is
  if maxExponent < exponent then if m = 0 then some 0 else none
  else if exponent < -maxExponent then some 0
  else Format.binary64.scale? (Format.binary64.round m 1) (shift + exponent)

def floating? (n : Numeral) : Option Binary64 :=
  n.magnitude?.bind fun m =>
    if h : m ≤ Format.binary64.infinity then some (.ofMagnitude n.negative m h) else none

/-- The numeral is that of an integer of 64 bits; a negative zero is none. -/
def integer? (n : Numeral) : Option Int :=
  if n.fraction = [] ∧ n.exponent = none then
    if n.negative then if 0 < n.whole ∧ n.whole ≤ UInt64.size / 2 then some (-(n.whole : Int)) else none
    else if n.whole < UInt64.size then some n.whole else none
  else none

def amount? (n : Numeral) : Option JsonAmount :=
  match n.integer? with
  | some i => some (.integer i)
  | none => n.floating?.map .floating

end Numeral

/-- JSON writes numbers positionally from five zeros after the point up to 16 digits, marks whole ones by
`.0`, and puts a sign before every exponent. -/
def jsonNumber : NumberLayout := ⟨.even, some (-4, 16), true, true, "", ""⟩

/-- A number in JSON; what is not finite is null. -/
def Json.ofBinary (x : Binary64) : Json :=
  if x.isFinite then .number (x.numeral jsonNumber) else .null

end TableForest
