import TableForest.Cell.Value
import TableForest.Files.Path

/-!
# Items

An item is a plain value that a routine works with, together with its type.  Adapters read items from
cells and write them back; a routine asks for an item by type and gets it only if that is its type.
-/

namespace TableForest

/-- The types of items: the plain ones that the built-in adapters know, and those that others bring along, of
which nothing is known but their names and which is which. -/
inductive ItemType where
  | bool
  | i8
  | i16
  | i32
  | i64
  | u64
  | f32
  | f64
  | string
  | path
  | custom (id : Nat) (name : String)
  deriving DecidableEq, Repr

namespace ItemType

/-- The values of a type.  Those of a type that others bring are told apart and no more. -/
def Carrier : ItemType → Type
  | bool => Bool
  | i8 => Int8
  | i16 => Int16
  | i32 => Int32
  | i64 => Int64
  | u64 => UInt64
  | f32 => Binary32
  | f64 => Binary64
  | string => String
  | path => Path
  | custom _ _ => Nat

def name : ItemType → String
  | bool => "bool"
  | i8 => "i8"
  | i16 => "i16"
  | i32 => "i32"
  | i64 => "i64"
  | u64 => "u64"
  | f32 => "f32"
  | f64 => "f64"
  | string => "alloc::string::String"
  | path => "std::path::PathBuf"
  | custom _ name => name

/-- What follows the last pair of colons of a name; `best` is what followed the last one so far. -/
def afterColons (best : List Char) : List Char → List Char
  | [] => best
  | c :: rest => afterColons (if c = ':' && rest.head? = some ':' then rest.tail else best) rest

/-- The name without what it stands in; colons behind an angle bracket do not count. -/
def shortName (t : ItemType) : String :=
  let (front, arguments) := t.name.toList.span (· != '<')
  String.ofList (afterColons front front ++ arguments)

example : string.shortName = "String" ∧ path.shortName = "PathBuf" ∧
    (custom 0 "alloc::vec::Vec<core::cell::RefCell<u8>>").shortName = "Vec<core::cell::RefCell<u8>>" := by
  decide +kernel

end ItemType

/-- A value with its type. -/
structure Item where
  type : ItemType
  value : type.Carrier

/-- The value of an item, if it is of a type. -/
def Item.as? (x : Item) (t : ItemType) : Option t.Carrier :=
  if h : x.type = t then some (h ▸ x.value) else none

end TableForest
