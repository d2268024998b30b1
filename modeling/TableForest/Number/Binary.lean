import TableForest.Number.Format

/-!
# Binary floating-point numbers

A number of a binary format is its sign and its magnitude.  Two zeros and many NaNs are different data;
`same` is the comparison of arithmetic, in which the zeros are one number and a NaN differs from itself.
-/

namespace TableForest

namespace Format

theorem binade_pos (f : Format) : 0 < f.binade :=
  Nat.two_pow_pos _

theorem infinity_lt_signBit (f : Format) : f.infinity < f.signBit := by
  have h : 0 < Nat.pow 2 f.exponentBits := Nat.two_pow_pos _
  exact Nat.mul_lt_mul_of_pos_right (by omega) f.binade_pos

theorem round_le_infinity (f : Format) (num den : Nat) : f.round num den ≤ f.infinity := by
  simp only [round]
  split
  · exact Nat.zero_le _
  · exact Nat.min_le_right _ _

theorem ofDecimal_le_infinity (f : Format) (significand : Nat) (exponent : Int) :
    f.ofDecimal significand exponent ≤ f.infinity := by
  simp only [ofDecimal]
  repeat' split
  all_goals first
    | exact Nat.zero_le _
    | exact Nat.le_refl _
    | exact round_le_infinity _ _ _

/-- The quiet NaN lies below the bit of the sign in every format with at least one exponent bit. -/
theorem quietNaN_lt_signBit (f : Format) : f.quietNaN < f.signBit := by
  have h : 0 < Nat.pow 2 f.exponentBits := Nat.two_pow_pos _
  have hb := f.binade_pos
  have hs : f.signBit = f.infinity + f.binade := by
    simp only [signBit, infinity, Nat.sub_mul, Nat.one_mul]
    have := Nat.le_mul_of_pos_left f.binade h
    omega
  simp only [quietNaN, hs]
  omega

end Format

/-- A number of the format `f`. -/
structure Binary (f : Format) where
  negative : Bool
  magnitude : Nat
  /-- The magnitude leaves the sign bit free. -/
  lt_signBit : magnitude < f.signBit
  deriving DecidableEq

abbrev Binary64 := Binary .binary64

abbrev Binary32 := Binary .binary32

namespace Binary

variable {f : Format}

/-- The number of a sign and a magnitude up to infinity. -/
def ofMagnitude (negative : Bool) (magnitude : Nat) (h : magnitude ≤ f.infinity) : Binary f :=
  ⟨negative, magnitude, Nat.lt_of_le_of_lt h f.infinity_lt_signBit⟩

def zero (negative : Bool) : Binary f :=
  ofMagnitude negative 0 (Nat.zero_le _)

def infinite (negative : Bool) : Binary f :=
  ofMagnitude negative f.infinity (Nat.le_refl _)

def nan (negative : Bool) : Binary f :=
  ⟨negative, f.quietNaN, f.quietNaN_lt_signBit⟩

instance : Inhabited (Binary f) := ⟨zero false⟩

def isNaN (x : Binary f) : Bool :=
  f.infinity < x.magnitude

def isFinite (x : Binary f) : Bool :=
  x.magnitude < f.infinity

/-- Equality of arithmetic: the zeros are one number and a NaN equals nothing. -/
def same (x y : Binary f) : Bool :=
  !x.isNaN && !y.isNaN && (x = y || (x.magnitude = 0 && y.magnitude = 0))

/-- The number nearest to `± significand · 10 ^ exponent`. -/
def ofDecimal (negative : Bool) (significand : Nat) (exponent : Int) : Binary f :=
  ofMagnitude negative (f.ofDecimal significand exponent) (f.ofDecimal_le_infinity _ _)

/-- The number nearest to `± num / den`. -/
def ofRatio (negative : Bool) (num den : Nat) : Binary f :=
  ofMagnitude negative (f.round num den) (f.round_le_infinity _ _)

/-- The number nearest to an integer. -/
def ofInt (n : Int) : Binary f :=
  ofRatio (n < 0) n.natAbs 1

/-- The nearest number of another format; infinities and NaNs keep their sign. -/
def convert {g : Format} (x : Binary f) : Binary g :=
  if x.isNaN then nan x.negative
  else if !x.isFinite then infinite x.negative
  else ofRatio x.negative (f.ratio x.magnitude).1 (f.ratio x.magnitude).2

end Binary
end TableForest
