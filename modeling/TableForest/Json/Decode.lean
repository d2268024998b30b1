import TableForest.Json.Number

/-!
# Decoding JSON

What a typed reader makes of a JSON value.  Reading a collection costs one level of the depth that is
left, and none is left below 127 levels; values of members that nobody asks for cost nothing.  A record
comes as an object, in any order and each member at most once, or as the array of its members.
-/

namespace TableForest.Json

/-- The greatest number of collections around a value that is read. -/
def maxDepth : Nat := 127

def asString? : Json → Option String
  | .string s => s
  | _ => none

def asBool? : Json → Option Bool
  | .bool b => some b
  | _ => none

def asInt? (least greatest : Int) : Json → Option Int
  | .number n => n.integer?.bind fun i => if least ≤ i ∧ i ≤ greatest then some i else none
  | _ => none

def asUInt32? (j : Json) : Option UInt32 :=
  (asInt? 0 (UInt32.size - 1 : Nat) j).map fun i => UInt32.ofNat i.toNat

def asUInt64? (j : Json) : Option UInt64 :=
  (asInt? 0 (UInt64.size - 1 : Nat) j).map fun i => UInt64.ofNat i.toNat

def asInt64? (j : Json) : Option Int64 :=
  (asInt? Int64.minValue.toInt Int64.maxValue.toInt j).map Int64.ofInt

def asBinary64? : Json → Option Binary64
  | .number n => n.amount?.map fun
    | .integer i => .ofInt i
    | .floating x => x
  | _ => none

def nullable? {α : Type} (decode : Json → Option α) : Json → Option (Option α)
  | .null => some none
  | j => (decode j).map some

def asArray? {α : Type} (decode : Nat → Json → Option α) : Nat → Json → Option (List α)
  | depth + 1, .array items => items.mapM (decode depth)
  | _, _ => none

/-- The texts of an object by key; of two with one key the later counts. -/
def asTexts? : Nat → Json → Option (List (String × String))
  | _ + 1, .object members => members.mapM fun (key, v) => do return (← key, ← asString? v)
  | _, _ => none

/-- The only value of a member, if there is one. -/
def member? (members : List (String × Json)) (name : String) : Option (Option Json) :=
  match members.filter (·.1 = name) with
  | [] => some none
  | [(_, v)] => some (some v)
  | _ => none

/-- The members of a record in the order of `names`, each with its value if it is there. -/
def asRecord? (names : List String) : Nat → Json → Option (List (Option Json))
  | _ + 1, .object members => do
    let members ← members.mapM fun (key, v) => do return (← key, v)
    names.mapM (member? members)
  | _ + 1, .array items =>
    if items.length ≤ names.length then
      some (items.map some ++ List.replicate (names.length - items.length) none)
    else none
  | _, _ => none

/-- The value of a member that has to be there. -/
def required? {α : Type} (decode : Json → Option α) : Option Json → Option α
  | some j => decode j
  | none => none

/-- The value of a member, or another value if it is missing. -/
def orElse? {α : Type} (missing : α) (decode : Json → Option α) : Option Json → Option α
  | some j => decode j
  | none => some missing

/-- One of some names, written as a text or as the key of a null. -/
def asName? {α : Type} (ofName : String → Option α) : Nat → Json → Option α
  | _, .string s => s.bind ofName
  | _ + 1, .object [(some key, .null)] => ofName key
  | _, _ => none

end TableForest.Json
