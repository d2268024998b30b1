/-!
# Decimal numerals

Natural numbers and integers as ASCII digits.  `digits` and `ofDigits` are inverse to each other;
reading accepts leading zeros and, for integers, one sign.
-/

namespace TableForest.Decimal

abbrev Digit := Fin 10

abbrev zeroDigit : Digit := 0

/-- The decimal digits of a number, most significant first; zero has one digit. -/
def digits (n : Nat) : List Digit :=
  if n < 10 then [Fin.ofNat 10 n] else digits (n / 10) ++ [Fin.ofNat 10 n]
termination_by n
decreasing_by omega

def ofDigits (ds : List Digit) : Nat :=
  ds.foldl (fun n d => 10 * n + d.val) 0

theorem ofDigits_append_singleton (ds : List Digit) (d : Digit) :
    ofDigits (ds ++ [d]) = 10 * ofDigits ds + d.val := by
  simp [ofDigits]

theorem ofDigits_digits (n : Nat) : ofDigits (digits n) = n := by
  induction n using Nat.strongRecOn with
  | _ n ih =>
    rw [digits]
    split
    · simp [ofDigits, Fin.ofNat]
      omega
    · rw [ofDigits_append_singleton, ih (n / 10) (by omega)]
      simp [Fin.ofNat]
      omega

def digitChar (d : Digit) : Char :=
  Char.ofNat (48 + d.val)

def digit? (c : Char) : Option Digit :=
  if '0' ≤ c ∧ c ≤ '9' then some (Fin.ofNat 10 (c.toNat - 48)) else none

theorem digit?_digitChar (d : Digit) : digit? (digitChar d) = some d := by
  revert d
  decide

def isDigit (c : Char) : Bool :=
  (digit? c).isSome

def natChars (n : Nat) : List Char :=
  (digits n).map digitChar

def natText (n : Nat) : String :=
  String.ofList (natChars n)

/-- The numeral of a number, filled with zeros in front up to `width` characters. -/
def paddedChars (width n : Nat) : List Char :=
  List.replicate (width - (natChars n).length) '0' ++ natChars n

/-- The numeral of an integer, with a minus sign in front of a negative one. -/
def intText : Int → String
  | .ofNat n => natText n
  | .negSucc n => String.ofList ('-' :: natChars (n + 1))

/-- The number that a non-empty run of ASCII digits spells. -/
def readNat? (cs : List Char) : Option Nat :=
  if cs.isEmpty then none else (cs.mapM digit?).map ofDigits

/-- Splits off the sign of a numeral: `true` for a minus. -/
def splitSign : List Char → Bool × List Char
  | '+' :: cs => (false, cs)
  | '-' :: cs => (true, cs)
  | cs => (false, cs)

/-- The integer that a run of ASCII digits with at most one sign spells. -/
def readInt? (cs : List Char) : Option Int :=
  let (negative, rest) := splitSign cs
  (readNat? rest).map fun n => if negative then -(n : Int) else n

end TableForest.Decimal
