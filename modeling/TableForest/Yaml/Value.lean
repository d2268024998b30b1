import TableForest.Number.Layout

/-!
# YAML values

What a YAML node stands for once its scalars have been resolved: null, truth values, numbers, texts and
collections.  Keys of mappings are values themselves and may repeat.
-/

namespace TableForest

/-- A YAML value. -/
inductive Yaml where
  | null
  | bool (b : Bool)
  | integer (n : Int)
  | floating (x : Binary64)
  | string (s : String)
  | sequence (items : List Yaml)
  | mapping (entries : List (Yaml × Yaml))

instance : Inhabited Yaml := ⟨.null⟩

/-- YAML writes numbers positionally from five zeros after the point up to 16 digits, marks whole ones by
`.0`, and writes exponents without a plus. -/
def yamlNumber : NumberLayout := ⟨.even, some (-4, 16), true, false, ".inf", ".nan"⟩

namespace Yaml

/-- The text of a scalar; null has none. -/
def scalarText? : Yaml → Option String
  | bool b => some (if b then "true" else "false")
  | integer n => some (Decimal.intText n)
  | floating x => some (x.text yamlNumber)
  | string s => some s
  | _ => none

/-- Two values are one key.  The order of entries does not count, and neither does the sign of zero. -/
def sameKey : Yaml → Yaml → Bool
  | null, null => true
  | bool a, bool b => a == b
  | integer a, integer b => a == b
  | floating x, floating y => x.same y || (x.isNaN && y.isNaN)
  | string a, string b => a == b
  | sequence xs, sequence ys => sameItems xs ys
  | mapping xs, mapping ys => xs.length == ys.length && haveMatches xs ys
  | _, _ => false
where
  sameItems : List Yaml → List Yaml → Bool
    | [], [] => true
    | x :: xs, y :: ys => sameKey x y && sameItems xs ys
    | _, _ => false
  /-- Every entry has one that is the same among others. -/
  haveMatches : List (Yaml × Yaml) → List (Yaml × Yaml) → Bool
    | [], _ => true
    | (key, value) :: rest, others =>
      (others.any fun other => sameKey key other.1 && sameKey value other.2) && haveMatches rest others

def haveDistinctKeys (entries : List (Yaml × Yaml)) : Bool :=
  match entries with
  | [] => true
  | entry :: rest => !(rest.any fun other => entry.1.sameKey other.1) && haveDistinctKeys rest

/-- No key stands twice in a mapping, and neither in those inside it. -/
def isUnambiguous : Yaml → Bool
  | sequence items => allItems items
  | mapping entries => haveDistinctKeys entries && allEntries entries
  | _ => true
where
  allItems : List Yaml → Bool
    | [] => true
    | y :: rest => isUnambiguous y && allItems rest
  allEntries : List (Yaml × Yaml) → Bool
    | [] => true
    | (key, value) :: rest => isUnambiguous key && isUnambiguous value && allEntries rest

end Yaml
end TableForest
