import TableForest.Proofs.Cell.Text
import TableForest.Proofs.Json.Decode
import TableForest.Proofs.Json.Number
import TableForest.Proofs.Json.Reader

/-!
# Values through JSON

A value is written as an object and read again.  Truth values, integers, texts and links come back as they are.  A
finite number comes back as a number near to it, and what is not finite is written as null and does not come back.

## The architecture

* **`Value.reread?_eq`** takes the object away: the datum is read under the kind of the value.
* **`Value.Returned`** says what may come back of a value, and **`Value.reread_returned`** that it does.
-/

namespace TableForest

/-! ## Numbers -/

namespace Json

theorem ofBinary_of_isFinite {x : Binary64} (h : x.isFinite = true) : ofBinary x = .number (x.numeral jsonNumber) := by
  unfold ofBinary
  rw [if_pos h]

theorem ofBinary_of_not_isFinite {x : Binary64} (h : x.isFinite = false) : ofBinary x = .null := by
  unfold ofBinary
  rw [h, if_neg Bool.false_ne_true]

end Json

namespace Value

/-! ## The object -/

/-- What is read from the bytes that are written for a value. -/
def reread? (style : Json.Style) (v : Value) : Option Value :=
  (Json.read? (v.toJson.bytes style)).bind ofJson?

theorem spelled_datumJson (v : Value) : v.datumJson.Spelled := by
  cases v with
  | logical b => exact .bool b
  | integer n => exact .number _
  | numeric x =>
    show (Json.ofBinary x).Spelled
    unfold Json.ofBinary
    split
    · exact .number _
    · exact .null
  | text s => exact .string s
  | fileLink s => exact .string s

/-- **The object of a value is read as its kind and its datum.** -/
theorem reread?_eq (style : Json.Style) (v : Value) : v.reread? style = ofDatum? v.kind v.datumJson := by
  have hspelled : v.toJson.Spelled := by
    refine Json.spelled_ofMembers_iff.2 fun m hm => ?_
    rcases List.mem_pair.1 hm with rfl | rfl
    · exact .string _
    · exact spelled_datumJson v
  -- the two members of the object are found by their names, so only the second one is left to be read
  have hrecord : v.toJson.asRecord? ["kind", "value"] Json.maxDepth =
      some [some (.ofString v.kind.name), some v.datumJson] :=
    Json.asRecord?_ofFields [("kind", some (.ofString v.kind.name)), ("value", some v.datumJson)]
      (show ["kind", "value"].Nodup by decide) 126
  have hkind : (Json.ofString v.kind.name).asString?.bind Kind.ofExactName? = some v.kind :=
    Kind.ofExactName?_name v.kind
  unfold reread?
  rw [Json.read?_bytes style hspelled, Option.bind_some]
  unfold ofJson?
  rw [hrecord]
  show ((Json.ofString v.kind.name).asString?.bind Kind.ofExactName?).bind (ofDatum? · v.datumJson) = _
  rw [hkind, Option.bind_some]

/-! ## What comes back -/

/-- What may be read of a value that was written. -/
inductive Returned : Value → Option Value → Prop
  /-- Whatever is no number is the same. -/
  | same {v : Value} (other : ∀ x, v ≠ numeric x) : Returned v (some v)
  /-- A number that is infinite, or none, is refused. -/
  | refused {x : Binary64} (infinite : x.isFinite = false) : Returned (numeric x) none
  /-- A finite number is a finite number of its sign, three steps away at most, or seven if its numeral goes beyond
  the powers of ten; it is the same if the numeral is short. -/
  | near {x y : Binary64} (left : x.isFinite = true) (right : y.isFinite = true) (sign : y.negative = x.negative)
      (steps : Format.Apart (Format.stepBound (x.numeral jsonNumber).scale) y.magnitude x.magnitude)
      (short : (x.numeral jsonNumber).Short → y = x) : Returned (numeric x) (some (numeric y))

/-- **What comes back of a value**: everything but a number unchanged, a finite number as one near to it, and nothing of
what is not finite. -/
theorem reread_returned (style : Json.Style) (v : Value) : Returned v (v.reread? style) := by
  rw [reread?_eq]
  cases v with
  | logical b => exact .same nofun
  | integer n =>
    show Returned _ ((Json.asInt64? (.ofInt n.toInt)).map integer)
    rw [Json.asInt64?_ofInt]
    exact .same nofun
  | numeric x =>
    show Returned _ ((Json.ofBinary x).asBinary64?.map numeric)
    -- JSON has no number for the special ones, and null is written in their place
    cases hfinite : x.isFinite with
    | false =>
      rw [Json.ofBinary_of_not_isFinite hfinite]
      exact .refused hfinite
    | true =>
      -- a finite number is read again from its shortest digits, which takes a few roundings
      obtain ⟨y, hamount, hy, hsign, hsteps, hshort⟩ := Binary.amount?_numeral hfinite
      have hread : (Json.ofBinary x).asBinary64? = some y := by
        rw [Json.ofBinary_of_isFinite hfinite]
        show ((x.numeral jsonNumber).amount?.map _) = some y
        rw [hamount]
        rfl
      rw [hread]
      exact .near hfinite hy hsign hsteps hshort
  | text s => exact .same nofun
  | fileLink s => exact .same nofun

/-- Infinity does not come back, and a whole number of sixteen digits comes back as the next one. -/
theorem numbers_changed :
    (numeric (.infinite false)).reread? .compact = none ∧
      (numeric (.ofInt 7205759403792796)).reread? .compact = some (numeric (.ofInt 7205759403792797)) := by
  rw [reread?_eq, reread?_eq]
  decide +kernel

end Value
end TableForest
