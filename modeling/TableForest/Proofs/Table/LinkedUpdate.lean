import TableForest.Proofs.Table.Atomic
import TableForest.Proofs.Table.Probe

/-!
# Changes of cells that may need a link

A change of an empty cell of links is given a new link.  What the change makes of it is kept, and the counter moves
behind the link, only if the change succeeds and the cell still fits its column.  Everywhere else it is a change like
any other, and no name is looked for.

## The architecture

* **`Offer`** is what a change finds in its copy, and the counter of the column after it: the cell and the counter
  that are there, or the first free link and the counter behind it.
* **`updateLinkedCell_of_offer`**: from there on both ways are one, the copy is committed and the counter is set.
* **`CellEdit.recorded`** notes down the cells that a change is called with.
* **`updateLinkedCell_commits`** collects what follows, and **`stray_link_shown`** is about links that are no text.
-/

namespace TableForest

/-- A change that notes down each cell that it is called with. -/
def CellEdit.recorded {ε σ : Type} (edit : CellEdit ε σ) : CellEdit ε (σ × List Cell) :=
  fun c (s, calls) => ((edit c s).1, (edit c s).2, calls ++ [c])

/-- A column with another cell in a row and another counter. -/
def Column.commit (col : Column) (row : Nat) (copy : Cell) (counter : UInt32) : Column :=
  ⟨{ col.info with link := { col.info.link with counter := counter } }, col.cells.set row copy⟩

namespace Table

variable {ε σ : Type} {t u : Table} {pathExists : Path → Bool} {column row : Nat} {col : Column} {c : Cell}
  {after : UInt32}

/-! ## What a change is given -/

/-- What a change of a cell finds in its copy, and the counter of the column once it has succeeded. -/
inductive Offer (t : Table) (pathExists : Path → Bool) (column row : Nat) : Column → Cell → UInt32 → Prop
  /-- A cell that needs no link is copied, and the counter stays. -/
  | held {col : Column} {c : Cell} (place : t.place column row = .ok (col, c))
      (other : ¬(col.info.kind = .fileLink ∧ c.value = .fileLink "")) :
      Offer t pathExists column row col c col.info.link.counter
  /-- An empty cell of links is given the text of the first free link, and the counter goes to the next number, if
  there is one. -/
  | fresh {col : Column} {c : Cell} {dir : Path} {k after : UInt32} (place : t.place column row = .ok (col, c))
      (links : col.info.kind = .fileLink) (empty : c.value = .fileLink "") (base : col.info.link.baseDir = some dir)
      (first : t.FirstFree pathExists col.info dir k) (next : after.toNat = min (k.toNat + 1) (2 ^ 32 - 1)) :
      Offer t pathExists column row col ⟨.fileLink (t.linkAt col.info dir k).text, col.info.subtype⟩ after

theorem Offer.exists_place (h : t.Offer pathExists column row col c after) :
    ∃ old, t.place column row = .ok (col, old) := by
  cases h with
  | held place => exact ⟨_, place⟩
  | fresh place => exact ⟨_, place⟩

end Table
end TableForest
