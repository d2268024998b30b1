import TableForest.Number.Numeral

/-!
# JSON trees

A JSON value as it is written.  Numbers stay numerals, because their value depends on the reader, and
members keep their order and their repetitions.  A string is `none` if its literal spells no text: its
bytes are not UTF-8, or it names half of a surrogate pair.
-/

namespace TableForest

/-- A JSON value. -/
inductive Json where
  | null
  | bool (b : Bool)
  | number (n : Numeral)
  | string (text : Option String)
  | array (items : List Json)
  | object (members : List (Option String × Json))

namespace Json

def ofString (s : String) : Json :=
  .string (some s)

def ofInt (n : Int) : Json :=
  .number (.ofInt n)

def ofNat (n : Nat) : Json :=
  ofInt n

def ofMembers (members : List (String × Json)) : Json :=
  .object (members.map fun (key, value) => (some key, value))

instance : Inhabited Json := ⟨.null⟩

end Json
end TableForest
