import TableForest.Table.Edit

/-!
# Links of cells to files

A cell of a file-link column names a file.  New names come from the settings of the column and the policy
of the table; names of files that exist are passed over, and the counter of the column only grows.
-/

namespace TableForest.Table

/-- A failure of a link as one of its table. -/
def linkError {α : Type} (e : LinkError) : Except TableError α :=
  .error (.link e)

/-- The first counter from `counter` on whose name is free.  `attempts` names were taken before it; their
number is limited, and so are the counters. -/
def probe (isTaken : UInt32 → Bool) (maxProbe : UInt32) (attempts : Nat) (counter : UInt32) :
    Except Nat UInt32 :=
  if !isTaken counter then .ok counter
  else if maxProbe.toNat ≤ attempts + 1 then .error (attempts + 1)
  else if h : counter.toNat + 1 < UInt32.size then
    probe isTaken maxProbe (attempts + 1) (counter + 1)
  else .error (attempts + 1)
termination_by UInt32.size - counter.toNat
decreasing_by
  have : (counter + 1).toNat = counter.toNat + 1 := by
    rw [UInt32.toNat_add]
    exact Nat.mod_eq_of_lt h
  omega

/-- The counter after another one; the last stays. -/
def nextCounter (counter : UInt32) : UInt32 :=
  if counter.toNat + 1 < UInt32.size then counter + 1 else counter

def linkAt (t : Table) (info : ColumnInfo) (baseDir : Path) (counter : UInt32) : Path :=
  t.linkPolicy.compose baseDir info.linkStem counter info.link.extension

/-- The next free link of a column and the counter after it. -/
def nextLink (t : Table) (pathExists : Path → Bool) (info : ColumnInfo) :
    Except TableError (Path × UInt32) :=
  if info.kind ≠ .fileLink then linkError (.notAFileLink info.name info.kind)
  else
    match info.link.baseDir with
    | none => linkError (.noDefaultPath info.name)
    | some baseDir =>
      -- names are tried where the files will be, not where the document stands
      let isTaken counter := pathExists (t.resolve (t.linkAt info baseDir counter))
      match probe isTaken t.linkPolicy.maxProbe 0 info.link.counter with
      | .error attempts => linkError (.probeExhausted info.name attempts)
      | .ok counter => .ok (t.linkAt info baseDir counter, nextCounter counter)

def setCounter (t : Table) (index : Nat) (counter : UInt32) : Table :=
  t.modifyInfo index fun info => { info with link := { info.link with counter := counter } }

/-- The cell that links a path, by the text that is shown for it. -/
def linkCell (info : ColumnInfo) (p : Path) : Cell :=
  ⟨.fileLink p.text, info.subtype⟩

/-- Puts a new link into a cell and moves the counter past it. -/
def makeDefaultLink (t : Table) (pathExists : Path → Bool) (column row : Nat) : Edited Path :=
  t.requiring (t.place column row) fun (col, _) =>
    t.requiring (t.nextLink pathExists col.info) fun (link, counter) =>
      (.ok link, (t.putCell column row (linkCell col.info link)).setCounter column counter)

variable {ε σ : Type}

/-- Changes a cell as `updateCell` does, but gives an empty file link a new link first.  Link and counter
are kept only if the change succeeds. -/
def updateLinkedCell (t : Table) (pathExists : Path → Bool) (column row : Nat)
    (wrap : TableError → ε) (edit : CellEdit ε σ) (s : σ) : Except ε Unit × Table × σ :=
  match t.place column row with
  | .error e => (.error (wrap e), t, s)
  | .ok (col, c) =>
    if col.info.kind ≠ .fileLink ∨ c.link?.isSome then t.updateCell column row wrap edit s
    else
      match t.nextLink pathExists col.info with
      | .error e => (.error (wrap e), t, s)
      | .ok (link, counter) =>
        -- the link stands in the copy only; nobody sees it if the change fails
        let (result, s) := edit (linkCell col.info link) s
        match t.commitCell col.info column row wrap result with
        | (.error e, t) => (.error e, t, s)
        | (.ok (), t) => (.ok (), t.setCounter column counter, s)

/-- The file that a cell links exists. -/
def linkedFileExists (t : Table) (pathExists : Path → Bool) (column row : Nat) :
    Except TableError Bool :=
  (t.cell column row).map fun c =>
    match c.link? with
    | some link => pathExists (t.resolve (.ofText link))
    | none => false

/-- The resolved path of the file that a cell links, which has to exist. -/
def linkedFile (t : Table) (pathExists : Path → Bool) (column row : Nat) : Except TableError Path := do
  let (col, c) ← t.place column row
  if col.info.kind ≠ .fileLink then linkError (.notAFileLink col.info.name col.info.kind)
  let path := match c.link? with
    | some link => t.resolve (.ofText link)
    | none => default
  if path.isEmpty || !pathExists path then linkError (.missingFile path)
  return path

end TableForest.Table
