import TableForest.Moment.Basic
import TableForest.Text.Blank
import TableForest.Text.Decimal

/-!
# Moments as text

Moments are written in the form of RFC 3339, with as many digits of the second as are needed out of 0, 3,
6 and 9.  The reader takes a relaxed form: fields of fewer digits, blanks between the parts, a blank
instead of the `T`, signed years of any length, `UTC` for the zone, and offsets without a colon.
-/

namespace TableForest.Moment

/-- How UTC is written. -/
inductive ZoneStyle where
  | letter
  | offset
  deriving DecidableEq, Repr

/-- The digits of a year: four, and a sign if they are not enough. -/
def yearChars (year : Int) : List Char :=
  if 0 ≤ year ∧ year ≤ 9999 then Decimal.paddedChars 4 year.toNat
  else (if year < 0 then '-' else '+') :: Decimal.paddedChars 4 year.natAbs

/-- The fraction of a second, in as many groups of three digits as it needs. -/
def fractionChars (nanos : Nat) : List Char :=
  if nanos = 0 then []
  else if nanos % 1000000 = 0 then '.' :: Decimal.paddedChars 3 (nanos / 1000000)
  else if nanos % 1000 = 0 then '.' :: Decimal.paddedChars 6 (nanos / 1000)
  else '.' :: Decimal.paddedChars 9 nanos

/-- A moment as text; a leap second is the second 60. -/
def chars (style : ZoneStyle) (m : Moment) : List Char :=
  -- nanoseconds beyond a second mark a leap second
  let leap := if nanosPerSecond ≤ m.nanos then 1 else 0
  let two := Decimal.paddedChars 2
  yearChars m.date.year ++ '-' :: two m.date.month ++ '-' :: two m.date.day
    ++ 'T' :: two (m.second / 3600) ++ ':' :: two (m.second / 60 % 60)
    ++ ':' :: two (m.second % 60 + leap) ++ fractionChars (m.nanos - leap * nanosPerSecond)
    ++ match style with
      | .letter => ['Z']
      | .offset => "+00:00".toList

def text (style : ZoneStyle) (m : Moment) : String :=
  String.ofList (m.chars style)

/-! ## Reading -/

/-- A number of at least one and at most `width` digits, and the rest. -/
def readNumber? (width : Nat) (cs : List Char) : Option (Nat × List Char) :=
  let ds := (cs.take width).takeWhile Decimal.isDigit
  (Decimal.readNat? ds).map (·, cs.drop ds.length)

def readField? (cs : List Char) : Option (Nat × List Char) :=
  readNumber? 2 (Text.dropBlanks cs)

/-- A year after blanks: up to four digits, or any number of them after a sign. -/
def readYear? (cs : List Char) : Option (Int × List Char) :=
  match Text.dropBlanks cs with
  | '-' :: cs => (readNumber? cs.length cs).map fun (n, rest) => (-(n : Int), rest)
  | '+' :: cs => (readNumber? cs.length cs).map fun (n, rest) => ((n : Int), rest)
  | cs => (readNumber? 4 cs).map fun (n, rest) => ((n : Int), rest)

def readMark? (mark : Char) (cs : List Char) : Option (List Char) :=
  match Text.dropBlanks cs with
  | [] => none
  | c :: rest => if c = mark then some rest else none

/-- Year, month and day. -/
def readDate? (cs : List Char) : Option (Date × List Char) := do
  let (year, cs) ← readYear? cs
  let cs ← readMark? '-' cs
  let (month, cs) ← readField? cs
  let cs ← readMark? '-' cs
  let (day, cs) ← readField? cs
  return (⟨year, month, day⟩, cs)

/-- The fraction of a second in nanoseconds; digits beyond the ninth are skipped. -/
def readFraction? : List Char → Option (Nat × List Char)
  | '.' :: cs =>
    (readNumber? 9 cs).map fun (n, rest) =>
      (n * Nat.pow 10 (9 - (cs.length - rest.length)), rest.dropWhile Decimal.isDigit)
  | cs => some (0, cs)

/-- Hour, minute and second with its fraction, as the second of the day and nanoseconds. -/
def readTime? (cs : List Char) : Option ((Nat × Nat) × List Char) := do
  let (hour, cs) ← readField? cs
  let cs ← readMark? ':' cs
  let (minute, cs) ← readField? cs
  let cs ← readMark? ':' cs
  let (second, cs) ← readField? cs
  let (nanos, cs) ← readFraction? cs
  if 24 ≤ hour ∨ 60 ≤ minute ∨ 60 < second then none
  let leap := second / 60
  return ((hour * 3600 + minute * 60 + (second - leap), nanos + leap * nanosPerSecond), cs)

def readTwoDigits? : List Char → Option (Nat × List Char)
  | a :: b :: rest => do return (10 * (← Decimal.digit? a).val + (← Decimal.digit? b).val, rest)
  | _ => none

/-- Hours and minutes of an offset after its sign, in seconds. -/
def readOffset? (cs : List Char) : Option (Int × List Char) := do
  let (hours, cs) ← readTwoDigits? cs
  -- the colon between hours and minutes may be missing
  let (minutes, cs) ← readTwoDigits? (cs.dropWhile fun c => c = ':' || Text.isBlank c)
  if 60 ≤ minutes ∨ 24 ≤ hours then none
  return ((hours * 3600 + minutes * 60 : Nat), cs)

/-- The zone: `UTC`, `Z`, or a signed offset, as seconds ahead of UTC. -/
def readZone? (cs : List Char) : Option (Int × List Char) :=
  if (cs.take 3).map Char.toLower = ['u', 't', 'c'] then some (0, cs.drop 3)
  else match cs with
    | 'Z' :: rest => some (0, rest)
    | 'z' :: rest => some (0, rest)
    | '+' :: rest => readOffset? rest
    | '-' :: rest => (readOffset? rest).map fun (n, rest) => (-n, rest)
    | '\u2212' :: rest => (readOffset? rest).map fun (n, rest) => (-n, rest)
    | _ => none

def read? (s : String) : Option Moment := do
  let (date, cs) ← readDate? s.toList
  let cs ← match cs with
    | 'T' :: cs => some cs
    | 't' :: cs => some cs
    | ' ' :: cs => some cs
    | _ => none
  let ((second, nanos), cs) ← readTime? cs
  let (offset, cs) ← readZone? (Text.dropBlanks cs)
  if (Text.dropBlanks cs).isEmpty then
    if date.Valid then ofLocal? date second nanos offset else none
  else none

end TableForest.Moment
