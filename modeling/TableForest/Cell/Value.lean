import TableForest.Cell.Error
import TableForest.Number.Layout
import TableForest.Number.Literal

/-!
# Values

The datum of one cell.  `Value.text` and `Value.parse` are its text form, `Value.same` is the equality of
values, in which numbers compare as numbers, and `Value.hashData` is what a hash of it is made of.
-/

namespace TableForest

/-- The datum of one cell. -/
inductive Value where
  | logical (b : Bool)
  | integer (n : Int64)
  | numeric (x : Binary64)
  | text (s : String)
  /-- A path, relative or absolute; empty while no file is linked. -/
  | fileLink (s : String)
  deriving DecidableEq

/-- Cells write numbers positionally in the fewest digits, without a mark for whole ones. -/
def cellNumber : NumberLayout := ⟨.up, none, false, false, "inf", "NaN"⟩

/-- The truth value that one of the twelve accepted words spells. -/
def readLogical? : String → Option Bool
  | "t" | "T" | "true" | "True" | "TRUE" | "1" => some true
  | "f" | "F" | "false" | "False" | "FALSE" | "0" => some false
  | _ => none

def readInt64? (s : String) : Option Int64 :=
  match Decimal.readInt? s.toList with
  | some n => if Int64.minValue.toInt ≤ n ∧ n ≤ Int64.maxValue.toInt then some (.ofInt n) else none
  | none => none

def Kind.defaultValue : Kind → Value
  | .logical => .logical false
  | .integer => .integer 0
  | .numeric => .numeric (.zero false)
  | .text => .text ""
  | .fileLink => .fileLink ""

/-- What a hash of a value is made of besides its kind. -/
inductive HashData where
  | bool (b : Bool)
  | int (n : Int64)
  | bits (negative : Bool) (magnitude : Nat)
  | chars (s : String)
  deriving DecidableEq

namespace Value

def kind : Value → Kind
  | logical _ => .logical
  | integer _ => .integer
  | numeric _ => .numeric
  | text _ => .text
  | fileLink _ => .fileLink

def toText : Value → String
  | logical b => if b then "true" else "false"
  | integer n => Decimal.intText n.toInt
  | numeric x => x.text cellNumber
  | text s => s
  | fileLink s => s

def read? (kind : Kind) (s : String) : Option Value :=
  match kind with
  | .logical => (readLogical? s).map logical
  | .integer => (readInt64? s).map integer
  | .numeric => (Binary.read? s).map numeric
  | .text => some (text s)
  | .fileLink => some (fileLink s)

/-- The value of a kind that a text spells, or the reason why there is none. -/
def parse (kind : Kind) (s : String) : Except CellError Value :=
  match read? kind s with
  | some v => .ok v
  | none => .error (.unreadable kind s)

/-- Equality of values; numbers compare as numbers. -/
def same : Value → Value → Bool
  | numeric x, numeric y => x.same y
  | v, w => v = w

def hashData (v : Value) : Kind × HashData :=
  (v.kind,
    match v with
    | logical b => .bool b
    | integer n => .int n
    | numeric x => .bits x.negative x.magnitude
    | text s => .chars s
    | fileLink s => .chars s)

def asLogical? : Value → Option Bool
  | logical b => some b
  | _ => none

def asInteger? : Value → Option Int64
  | integer n => some n
  | _ => none

def asNumeric? : Value → Option Binary64
  | numeric x => some x
  | _ => none

def asText? : Value → Option String
  | text s => some s
  | _ => none

def asLink? : Value → Option String
  | fileLink s => if s.isEmpty then none else some s
  | _ => none

/-- A value that was read is of the kind that was asked for. -/
theorem kind_of_read? {k : Kind} {s : String} {v : Value} (h : read? k s = some v) :
    v.kind = k := by
  cases k <;> simp only [read?, Option.map_eq_some_iff, Option.some.injEq] at h
  case logical => obtain ⟨_, _, rfl⟩ := h; rfl
  case integer => obtain ⟨_, _, rfl⟩ := h; rfl
  case numeric => obtain ⟨_, _, rfl⟩ := h; rfl
  case text => subst h; rfl
  case fileLink => subst h; rfl

/-- A parsed value is of the kind that was asked for. -/
theorem kind_of_parse {k : Kind} {s : String} {v : Value} (h : parse k s = .ok v) :
    v.kind = k := by
  rw [parse] at h
  split at h
  · rename_i heq
    exact Except.ok.inj h ▸ kind_of_read? heq
  · exact absurd h (by simp)

end Value

/-- The default value of a kind is of that kind. -/
theorem Kind.kind_defaultValue (k : Kind) : k.defaultValue.kind = k := by
  cases k <;> rfl

end TableForest
