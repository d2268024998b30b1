/-!
# Moments

A point in time as the date and the time of day that it has in UTC.  A leap second is the last second of
a minute with a whole second of nanoseconds more.
-/

namespace TableForest

/-- A day of the calendar that is extended to all years. -/
structure Date where
  year : Int
  month : Nat
  day : Nat
  deriving DecidableEq, Repr

namespace Date

def isLeapYear (year : Int) : Bool :=
  year % 4 = 0 && (year % 100 ≠ 0 || year % 400 = 0)

def daysInMonth (year : Int) (month : Nat) : Nat :=
  if month = 2 then if isLeapYear year then 29 else 28
  else if month = 4 ∨ month = 6 ∨ month = 9 ∨ month = 11 then 30
  else 31

/-- The first and the last year in which a moment can lie. -/
def firstYear : Int := -262143

def lastYear : Int := 262142

/-- A date that exists, in a year that can be represented. -/
def Valid (d : Date) : Prop :=
  firstYear ≤ d.year ∧ d.year ≤ lastYear ∧ 1 ≤ d.month ∧ d.month ≤ 12 ∧ 1 ≤ d.day ∧
    d.day ≤ daysInMonth d.year d.month

instance (d : Date) : Decidable d.Valid :=
  inferInstanceAs (Decidable (_ ∧ _))

def next (d : Date) : Date :=
  if d.day < daysInMonth d.year d.month then { d with day := d.day + 1 }
  else if d.month < 12 then ⟨d.year, d.month + 1, 1⟩
  else ⟨d.year + 1, 1, 1⟩

def previous (d : Date) : Date :=
  if 1 < d.day then { d with day := d.day - 1 }
  else if 1 < d.month then ⟨d.year, d.month - 1, daysInMonth d.year (d.month - 1)⟩
  else ⟨d.year - 1, 12, 31⟩

end Date

def secondsPerDay : Nat := 86400

def nanosPerSecond : Nat := 1000000000

/-- A date with a second of the day and a fraction of it. -/
structure Moment where
  date : Date
  second : Nat
  nanos : Nat
  valid : date.Valid ∧ second < secondsPerDay ∧ nanos < 2 * nanosPerSecond
  deriving DecidableEq

namespace Moment

/-- The moment of a date and a time of day, if they exist. -/
def ofParts? (date : Date) (second nanos : Nat) : Option Moment :=
  if h : date.Valid ∧ second < secondsPerDay ∧ nanos < 2 * nanosPerSecond then
    some ⟨date, second, nanos, h⟩
  else none

/-- The moment that local clocks `offset` seconds ahead show as the given date and time. -/
def ofLocal? (date : Date) (second nanos : Nat) (offset : Int) : Option Moment :=
  let shifted := (second : Int) - offset
  if shifted < 0 then ofParts? date.previous (shifted + secondsPerDay).toNat nanos
  else if (secondsPerDay : Int) ≤ shifted then
    ofParts? date.next (shifted - secondsPerDay).toNat nanos
  else ofParts? date shifted.toNat nanos

def year2000 : Moment := ⟨⟨2000, 1, 1⟩, 0, 0, by decide⟩

instance : Inhabited Moment := ⟨year2000⟩

end Moment
end TableForest
