import TableForest.Proofs.Json.Decode

/-!
# Nesting of JSON

How many arrays and objects stand inside each other in bytes of JSON: the greatest number of brackets that are
open at once.  In what the printer writes it is the nesting of the value, in both styles.
-/

namespace TableForest.Json

/-! ## Nesting of bytes -/

/-- The greatest number of collections that are open at once, if `depth` are open before the tokens. -/
def Token.deepest (depth : Nat) : List Token → Nat
  | [] => depth
  | .beginArray :: rest => deepest (depth + 1) rest
  | .beginObject :: rest => deepest (depth + 1) rest
  | .endArray :: rest => max depth (deepest (depth - 1) rest)
  | .endObject :: rest => max depth (deepest (depth - 1) rest)
  | _ :: rest => deepest depth rest

/-- How many arrays and objects stand inside each other in bytes, if these are tokens of JSON. -/
def nesting? (bs : Bytes) : Option Nat :=
  (tokens? bs).map (Token.deepest 0)

theorem Token.le_deepest (ts : List Token) : ∀ depth, depth ≤ deepest depth ts := by
  induction ts with
  | nil => exact fun depth => Nat.le_refl depth
  | cons t rest ih =>
    intro depth
    cases t with
    | beginArray => exact Nat.le_of_succ_le (ih (depth + 1))
    | beginObject => exact Nat.le_of_succ_le (ih (depth + 1))
    | endArray => exact Nat.le_max_left _ _
    | endObject => exact Nat.le_max_left _ _
    | _ => exact ih depth

/-! ## Nesting of values -/

mutual

def nesting : Json → Nat
  | .null => 0
  | .bool _ => 0
  | .number _ => 0
  | .string _ => 0
  | .array items => itemsNesting items + 1
  | .object members => membersNesting members + 1

/-- The nesting of the item that nests deepest. -/
def itemsNesting : List Json → Nat
  | [] => 0
  | v :: rest => max (nesting v) (itemsNesting rest)

/-- The nesting of the member that nests deepest. -/
def membersNesting : List (Option String × Json) → Nat
  | [] => 0
  | (_, v) :: rest => max (nesting v) (membersNesting rest)

end

mutual

/-- The tokens of a value open as many collections at once as the value nests, and close them again. -/
theorem deepest_tokens : ∀ (v : Json) (depth : Nat) (rest : List Token),
    Token.deepest depth (v.tokens ++ rest) = max (depth + v.nesting) (Token.deepest depth rest)
  | .null, depth, rest => (Nat.max_eq_right (Token.le_deepest rest depth)).symm
  | .bool _, depth, rest => (Nat.max_eq_right (Token.le_deepest rest depth)).symm
  | .number _, depth, rest => (Nat.max_eq_right (Token.le_deepest rest depth)).symm
  | .string _, depth, rest => (Nat.max_eq_right (Token.le_deepest rest depth)).symm
  | .array items, depth, rest => by
    have hitems := deepest_itemTokens items true (depth + 1) (.endArray :: rest)
    rw [tokens, List.append_assoc, List.cons_append, Token.deepest, List.singleton_append, hitems,
      Token.deepest, Nat.add_sub_cancel, nesting]
    omega
  | .object members, depth, rest => by
    have hmembers := deepest_memberTokens members true (depth + 1) (.endObject :: rest)
    rw [tokens, List.append_assoc, List.cons_append, Token.deepest, List.singleton_append, hmembers,
      Token.deepest, Nat.add_sub_cancel, nesting]
    omega

theorem deepest_itemTokens : ∀ (items : List Json) (first : Bool) (depth : Nat) (rest : List Token),
    Token.deepest depth (itemTokens first items ++ rest) =
      max (depth + itemsNesting items) (Token.deepest depth rest)
  | [], _, depth, rest => (Nat.max_eq_right (Token.le_deepest rest depth)).symm
  | v :: items, first, depth, rest => by
    have hv := deepest_tokens v depth (itemTokens false items ++ rest)
    have hitems := deepest_itemTokens items false depth rest
    -- a comma opens nothing
    have hcomma : Token.deepest depth (itemTokens first (v :: items) ++ rest) =
        Token.deepest depth (v.tokens ++ (itemTokens false items ++ rest)) := by
      rw [itemTokens, List.append_assoc, List.append_assoc]
      cases first with
      | true => rfl
      | false => rfl
    rw [hcomma, hv, hitems, itemsNesting]
    omega

theorem deepest_memberTokens : ∀ (members : List (Option String × Json)) (first : Bool) (depth : Nat)
    (rest : List Token),
    Token.deepest depth (memberTokens first members ++ rest) =
      max (depth + membersNesting members) (Token.deepest depth rest)
  | [], _, depth, rest => (Nat.max_eq_right (Token.le_deepest rest depth)).symm
  | (key, v) :: members, first, depth, rest => by
    have hv := deepest_tokens v depth (memberTokens false members ++ rest)
    have hmembers := deepest_memberTokens members false depth rest
    have hkey : Token.deepest depth (memberTokens first ((key, v) :: members) ++ rest) =
        Token.deepest depth (v.tokens ++ (memberTokens false members ++ rest)) := by
      rw [memberTokens, List.append_assoc, List.append_assoc]
      cases first with
      | true => rfl
      | false => rfl
    rw [hkey, hv, hmembers, membersNesting]
    omega

end

/-- **What is printed nests as its value does**, in both styles. -/
theorem nesting?_bytes (style : Style) {v : Json} (h : v.Spelled) :
    nesting? (v.bytes style) = some v.nesting := by
  have hdeepest := deepest_tokens v 0 []
  rw [List.append_nil, Nat.zero_add] at hdeepest
  unfold nesting?
  rw [tokens?_bytes style h, Option.map_some, hdeepest]
  exact congrArg some (Nat.max_eq_left (Nat.zero_le _))

/-! ## Bounds -/

theorem itemsNesting_le {items : List Json} {n : Nat} :
    itemsNesting items ≤ n ↔ ∀ v ∈ items, v.nesting ≤ n := by
  induction items with
  | nil => simp [itemsNesting]
  | cons v rest ih => rw [itemsNesting, Nat.max_le, ih, List.forall_mem_cons]

theorem membersNesting_le {members : List (Option String × Json)} {n : Nat} :
    membersNesting members ≤ n ↔ ∀ m ∈ members, m.2.nesting ≤ n := by
  induction members with
  | nil => simp [membersNesting]
  | cons m rest ih => rw [membersNesting, Nat.max_le, ih, List.forall_mem_cons]

/-- An array nests one deeper than its items. -/
theorem nesting_array_le {items : List Json} {n : Nat} :
    (array items).nesting ≤ n + 1 ↔ ∀ v ∈ items, v.nesting ≤ n := by
  rw [nesting, Nat.add_le_add_iff_right, itemsNesting_le]

/-- An object nests one deeper than its members. -/
theorem nesting_ofMembers_le {members : List (String × Json)} {n : Nat} :
    (ofMembers members).nesting ≤ n + 1 ↔ ∀ m ∈ members, m.2.nesting ≤ n := by
  rw [ofMembers, nesting, Nat.add_le_add_iff_right, membersNesting_le, List.forall_mem_map]

theorem nesting_ofFields_le {fields : List (String × Option Json)} {n : Nat} :
    (ofFields fields).nesting ≤ n + 1 ↔ ∀ p ∈ fields, ∀ v ∈ p.2, v.nesting ≤ n := by
  rw [ofFields, nesting_ofMembers_le, List.forall_mem_flatMap]
  refine forall₂_congr fun p _ => ?_
  cases p.2 with
  | none => simp [optionalMember]
  | some v => simp [optionalMember]

theorem nesting_of_mem_map {α : Type} {encode : α → Json} {n : Nat} (h : ∀ a, (encode a).nesting ≤ n)
    (x : Option α) : ∀ v ∈ x.map encode, v.nesting ≤ n := by
  intro v hv
  obtain ⟨a, -, rfl⟩ := Option.map_eq_some_iff.1 hv
  exact h a

end TableForest.Json
