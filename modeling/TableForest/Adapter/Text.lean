import TableForest.Adapter.Item

/-!
# Items as text

The text of an item, and the item of a type that a text spells.  A number of 32 bits is written with the
digits of the same number in 64 bits.
-/

namespace TableForest

namespace ItemType

/-- The types that the built-in adapters know, with those of items that are only ever passed on. -/
def common : List ItemType := [bool, i8, i16, i32, i64, u64, f32, f64, string, path]

def ofShortName? (s : String) : Option ItemType :=
  common.find? (·.shortName = s)

def text : (t : ItemType) → t.Carrier → String
  | bool, (b : Bool) => if b then "true" else "false"
  | i8, (n : Int8) => Decimal.intText n.toInt
  | i16, (n : Int16) => Decimal.intText n.toInt
  | i32, (n : Int32) => Decimal.intText n.toInt
  | i64, (n : Int64) => Decimal.intText n.toInt
  | u64, (n : UInt64) => Decimal.natText n.toNat
  | f32, (x : Binary32) => Binary.text cellNumber (Binary.convert x : Binary64)
  | f64, (x : Binary64) => x.text cellNumber
  | string, (s : String) => s
  | path, (p : Path) => p.text
  | custom _ _, (n : Nat) => Decimal.natText n

def readInt? (least greatest : Int) (s : String) : Option Int :=
  (Decimal.readInt? s.toList).filter fun n => least ≤ n ∧ n ≤ greatest

def read? (s : String) : (t : ItemType) → Option t.Carrier
  | bool => if s = "true" then some true else if s = "false" then some false else none
  | i8 => (readInt? Int8.minValue.toInt Int8.maxValue.toInt s).map Int8.ofInt
  | i16 => (readInt? Int16.minValue.toInt Int16.maxValue.toInt s).map Int16.ofInt
  | i32 => (readInt? Int32.minValue.toInt Int32.maxValue.toInt s).map Int32.ofInt
  | i64 => (readInt? Int64.minValue.toInt Int64.maxValue.toInt s).map Int64.ofInt
  | u64 => (readInt? 0 (UInt64.size - 1 : Nat) s).map fun n => UInt64.ofNat n.toNat
  | f32 => (Binary.read? s : Option Binary32)
  | f64 => (Binary.read? s : Option Binary64)
  | string => some s
  | path => some (Path.ofText s)
  | custom _ _ => (Decimal.readNat? s.toList : Option Nat)

end ItemType

def Item.text (x : Item) : String :=
  x.type.text x.value

def Item.read? (t : ItemType) (s : String) : Option Item :=
  (t.read? s).map (⟨t, ·⟩)

end TableForest
