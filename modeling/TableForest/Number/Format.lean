/-!
# Binary interchange formats

A format with `precision` significant bits and `exponentBits` exponent bits (IEEE 754).  A magnitude is
the number that the bits below the sign spell; magnitudes are ordered as the numbers they stand for,
with infinity and then the NaNs at the end.  `Format.round` is the one rounding rule of the library:
nearest, and to the even significand when two are equally near.
-/

namespace TableForest

/-- A binary floating-point format. -/
structure Format where
  /-- Significant bits, the leading one included. -/
  precision : Nat
  exponentBits : Nat
  deriving DecidableEq, Repr

namespace Format

def binary64 : Format := ⟨53, 11⟩

def binary32 : Format := ⟨24, 8⟩

/-- The exponent of the least significant bit of the smallest numbers. -/
def minExponent (f : Format) : Int :=
  3 - (Nat.pow 2 (f.exponentBits - 1) : Nat) - f.precision

/-- The value of one step of the exponent field. -/
def binade (f : Format) : Nat :=
  Nat.pow 2 (f.precision - 1)

def infinity (f : Format) : Nat :=
  (Nat.pow 2 f.exponentBits - 1) * f.binade

def quietNaN (f : Format) : Nat :=
  f.infinity + f.binade / 2

def signBit (f : Format) : Nat :=
  Nat.pow 2 f.exponentBits * f.binade

/-- The quotient rounded to the nearest integer, a half to the even one. -/
def divNearest (num den : Nat) : Nat :=
  let q := num / den
  let r := num % den
  -- `q % 2` is one exactly if `q` is odd
  if 2 * r < den then q else if den < 2 * r then q + 1 else q + q % 2

/-- `num / den` in units of `2 ^ e`, as a fraction. -/
def inUnits (num den : Nat) (e : Int) : Nat × Nat :=
  (num * Nat.pow 2 (-e).toNat, den * Nat.pow 2 e.toNat)

/-- The exponent of the last significant bit of `num / den` in the format, for a positive quotient. -/
def unitExponent (f : Format) (num den : Nat) : Int :=
  -- the logarithms fix the quotient up to a factor of four, so this is right or one too small
  let e := max f.minExponent ((num.log2 : Int) - den.log2 - f.precision)
  let (n, d) := inUnits num den e
  if Nat.pow 2 f.precision ≤ n / d then e + 1 else e

/-- The magnitude nearest to `num / den`; numbers beyond the greatest become infinity. -/
def round (f : Format) (num den : Nat) : Nat :=
  if num = 0 then 0 else
    let e := f.unitExponent num den
    let (n, d) := inUnits num den e
    min ((e - f.minExponent).toNat * f.binade + divNearest n d) f.infinity

/-- A finite magnitude as `significand · 2 ^ exponent`. -/
def parts (f : Format) (magnitude : Nat) : Nat × Int :=
  let field := magnitude / f.binade
  let fraction := magnitude % f.binade
  if field = 0 then (fraction, f.minExponent)
  else (f.binade + fraction, f.minExponent + field - 1)

def ratio (f : Format) (magnitude : Nat) : Nat × Nat :=
  let (m, e) := f.parts magnitude
  (m * Nat.pow 2 e.toNat, Nat.pow 2 (-e).toNat)

/-- The magnitude nearest to `significand · 10 ^ exponent`.  Far beyond the range of both formats the
answer is known from the number of digits, and the power of ten is not formed. -/
def ofDecimal (f : Format) (significand : Nat) (exponent : Int) : Nat :=
  if significand = 0 then 0
  else
    -- 0.30103 is the decimal logarithm of two
    let scale := (significand.log2 : Int) * 30103 / 100000 + exponent
    if 400 < scale then f.infinity
    else if scale < -400 then 0
    else f.round (significand * Nat.pow 10 exponent.toNat) (Nat.pow 10 (-exponent).toNat)

end Format
end TableForest
