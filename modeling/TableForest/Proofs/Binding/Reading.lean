import TableForest.Adapter.Builtin
import TableForest.Binding.Row
import TableForest.Proofs.Binding.Resolve
import TableForest.Proofs.Dict
import TableForest.Proofs.Table.Place

/-!
# Reading inputs

An input is bound to cells that its reader can read, and the reader makes items of the parameter's type.  So
whatever is refused later is refused by the reader itself, for a reason of its own.

## The architecture

* **`BindingError.isMisfit`** singles out the failures that tell of a wrong binding.
* **`InputBinding.Fits`** says that the reader is reached, with a cell of its kind.  It comes of the shape of the
  table and of what an input inherits from its candidate.
* **`Bindings.take_of_readRow`** goes on to the routine, which takes what was read by type.
* **`Builtin.isMisfit_reader`** goes through the built-in readers.
-/

namespace TableForest

/-- The failure tells of an adapter that is used for something else than it is made for, of a cell that is not there,
or of a column that can have no links. -/
def BindingError.isMisfit : BindingError → Bool
  | cellKind _ _ _ => true
  | typeMismatch _ _ => true
  | table (.columnIndex _ _) => true
  | table (.rowIndex _ _) => true
  | table (.link (.notAFileLink _ _)) => true
  | table (.link (.noDefaultPath _)) => true
  | _ => false

/-! ## Inputs -/

namespace InputBinding

def reader : InputBinding → Reader
  | column _ reader => reader
  | constant _ reader => reader

/-- The cell that is read in a row. -/
def cell (t : Table) (row : Nat) : InputBinding → Except TableError Cell
  | column index _ => t.cell index row
  | constant c _ => .ok c

/-- An input parameter is bound to cells of the kind that the reader reads, in each row or in all of them, and the
reader makes items of the parameter's type.  What is refused is refused by the reader. -/
structure Fits (t : Table) (p : ParamSpec) (binding : InputBinding) : Prop where
  type : binding.reader.info.type = p.type
  reaches : ∀ row, row < t.rows ∨ binding.isConstant = true → ∃ c, binding.cell t row = .ok c ∧
    c.kind = binding.reader.info.kind ∧
    ∀ fs, binding.read t fs row = (binding.reader.convert c t.pathContext fs).map fun v => ⟨_, v⟩
  typed : ∀ {fs row x}, binding.read t fs row = .ok x → ∃ v, x = ⟨p.type, v⟩ ∧ x.as? p.type = some v
  steady : binding.isConstant = true → ∀ row row', binding.cell t row = binding.cell t row'

end InputBinding

theorem Reader.read_of_kind_eq {r : Reader} {c : Cell} (h : c.kind = r.info.kind) (context : PathContext)
    (fs : FileSystem) : r.read c context fs = (r.convert c context fs).map fun v => ⟨_, v⟩ := by
  unfold Reader.read checkKind
  rw [if_pos h]
  rfl

theorem Item.as?_of_type_eq {x : Item} {type : ItemType} (h : x.type = type) :
    ∃ v, x = ⟨type, v⟩ ∧ x.as? type = some v := by
  obtain ⟨_, v⟩ := x
  cases h
  exact ⟨v, rfl, by simp [Item.as?]⟩

/-- Whatever is read is of the reader's type. -/
theorem InputBinding.type_of_read {t : Table} {binding : InputBinding} {fs : FileSystem} {row : Nat} {x : Item}
    (h : binding.read t fs row = .ok x) : x.type = binding.reader.info.type := by
  have hreader : ∀ {r : Reader} {c : Cell}, r.read c t.pathContext fs = .ok x → x.type = r.info.type := by
    intro r c hread
    unfold Reader.read at hread
    obtain ⟨_, -, hread⟩ := Except.bind_eq_ok.1 hread
    obtain ⟨v, -, hv⟩ := Except.bind_eq_ok.1 hread
    obtain rfl := Except.ok.inj hv
    rfl
  cases binding with
  | column index r =>
    simp only [InputBinding.read] at h
    split at h
    · exact hreader h
    · cases h
  | constant c r => exact hreader h

/-- **An input that is bound to what suits it fits**, in a table of good shape. -/
theorem InputBinding.Suits.fits {t : Table} (ht : t.Shape) {p : ParamSpec} {binding : InputBinding}
    (h : binding.Suits t p) : binding.Fits t p := by
  cases h with
  | @column index col r hcol hreads =>
    refine ⟨hreads.type, fun row hrow => ?_,
      fun h => Item.as?_of_type_eq ((type_of_read h).trans hreads.type), nofun⟩
    obtain ⟨c, hplace, hkind⟩ := ht.place hcol (hrow.resolve_right Bool.false_ne_true)
    have hcell : t.cell index row = .ok c := Except.map_eq_ok.2 ⟨_, hplace, rfl⟩
    have hreader : c.kind = r.info.kind := hkind.trans hreads.kind.symm
    refine ⟨c, hcell, hreader, fun fs => ?_⟩
    simp only [InputBinding.read, hcell]
    exact Reader.read_of_kind_eq hreader _ fs
  | constant hkind htype =>
    exact ⟨htype, fun row _ => ⟨_, rfl, hkind, fun fs => Reader.read_of_kind_eq hkind _ fs⟩,
      fun h => Item.as?_of_type_eq ((type_of_read h).trans htype), fun _ _ _ => rfl⟩

/-! ## Taking what was read -/

variable {t : Table}

/-- Of the inputs of one name the last is found. -/
theorem get?_of_readInputs {fs : FileSystem} {row : Nat} {inputs : List (String × InputBinding)} :
    ∀ {values read : Dict Item}, readInputs t fs row values inputs = .ok read →
      (∀ name, name ∉ inputs.map Prod.fst → read.get? name = values.get? name) ∧
      ∀ before i after, inputs = before ++ i :: after → i.1 ∉ after.map Prod.fst →
        ∃ x, i.2.read t fs row = .ok x ∧ read.get? i.1 = some x := by
  induction inputs with
  | nil =>
    intro values read h
    obtain rfl := Except.ok.inj h
    exact ⟨fun _ _ => rfl, by simp⟩
  | cons first rest ih =>
    intro values read h
    obtain ⟨x, hx, h⟩ := Except.bind_eq_ok.1 h
    obtain ⟨hothers, hlast⟩ := ih h
    refine ⟨fun name hname => ?_, fun before i after hsplit hi => ?_⟩
    · rw [List.map_cons, List.mem_cons, not_or] at hname
      rw [hothers name hname.2, Dict.get?_insert_of_ne _ _ hname.1]
    · cases before with
      | nil =>
        -- the input is the first, and those behind it put nothing under its name
        obtain ⟨rfl, rfl⟩ := List.cons.inj hsplit
        exact ⟨x, hx, by rw [hothers _ hi, Dict.get?_insert_self]⟩
      | cons _ before =>
        obtain ⟨-, rfl⟩ := List.cons.inj hsplit
        exact hlast before i after rfl hi

/-- **What was read for a parameter can be taken as an item of its type.** -/
theorem Bindings.take_of_readRow {b : Bindings} {fs : FileSystem} {row : Nat} {inputs : RowInputs}
    (h : b.readRow t fs row = .ok inputs) {before after : List (String × InputBinding)} {i : String × InputBinding}
    (hsplit : b.inputs = before ++ i :: after) (hlast : i.1 ∉ after.map Prod.fst) {p : ParamSpec}
    (hfits : i.2.Fits t p) : ∃ v, i.2.read t fs row = .ok ⟨p.type, v⟩ ∧ (inputs.take i.1 p.type).1 = .ok v := by
  obtain ⟨read, hread, rfl⟩ := Except.map_eq_ok.1 h
  obtain ⟨x, hx, hget⟩ := (get?_of_readInputs hread).2 before i after hsplit hlast
  obtain ⟨v, rfl, hv⟩ := hfits.typed hx
  exact ⟨v, hx, by simp [RowInputs.take, RowInputs.takeIfBound, hget, hv]⟩

/-! ## Built-in readers -/

namespace Builtin

theorem isMisfit_logical {c : Cell} (hkind : c.kind = .logical) {e : BindingError} (h : logical c = .error e) :
    e.isMisfit = false := by
  obtain ⟨value, subtype⟩ := c
  cases value with
  | logical b => cases h
  | _ => cases hkind

theorem isMisfit_integer {c : Cell} (hkind : c.kind = .integer) {e : BindingError} (h : integer c = .error e) :
    e.isMisfit = false := by
  obtain ⟨value, subtype⟩ := c
  cases value with
  | integer n => cases h
  | _ => cases hkind

theorem isMisfit_numeric {c : Cell} (hkind : c.kind = .numeric) {e : BindingError} (h : numeric c = .error e) :
    e.isMisfit = false := by
  obtain ⟨value, subtype⟩ := c
  cases value with
  | numeric x => cases h
  | _ => cases hkind

/-- A number that does not fit its type is no misfit of the cell. -/
theorem isMisfit_narrow {α : Type} {bits : Nat} {ofInt : Int → α} {target : ItemType} {c : Cell}
    (hkind : c.kind = .integer) {e : BindingError} (h : integer c >>= narrow bits ofInt target = .error e) :
    e.isMisfit = false := by
  rcases Except.bind_eq_error.1 h with h | ⟨n, -, h⟩
  · exact isMisfit_integer hkind h
  · unfold narrow at h
    split at h
    · cases h
    · obtain rfl := Except.error.inj h
      rfl

theorem isMisfit_link {adapter : String} {c : Cell} {e : BindingError} (h : link adapter c = .error e) :
    e.isMisfit = false := by
  unfold link at h
  split at h
  · cases h
  · obtain rfl := Except.error.inj h
    rfl

theorem isMisfit_readTextFile {c : Cell} {context : PathContext} {fs : FileSystem} {e : BindingError}
    (h : readTextFile c context fs = .error e) : e.isMisfit = false := by
  rcases Except.bind_eq_error.1 h with h | ⟨target, -, h⟩
  · exact isMisfit_link h
  · dsimp only at h
    split at h
    · obtain rfl := Except.error.inj h
      rfl
    · obtain rfl := Except.error.inj h
      rfl
    · cases h

/-- **No built-in reader refuses a cell of its kind as a misfit.** -/
theorem isMisfit_reader {r : Reader} (hr : r ∈ readers) {c : Cell} (hkind : c.kind = r.info.kind)
    {context : PathContext} {fs : FileSystem} {e : BindingError} (h : r.convert c context fs = .error e) :
    e.isMisfit = false := by
  simp only [readers, List.mem_cons, List.not_mem_nil, or_false] at hr
  -- in the order of their registration
  rcases hr with rfl | rfl | rfl | rfl | rfl | rfl | rfl | rfl | rfl | rfl | rfl | rfl | rfl
  · exact isMisfit_logical hkind h
  · exact isMisfit_logical hkind (Except.map_eq_error.1 h)
  · exact isMisfit_narrow hkind h
  · exact isMisfit_narrow hkind h
  · exact isMisfit_narrow hkind h
  · exact isMisfit_integer hkind h
  · exact isMisfit_integer hkind (Except.map_eq_error.1 h)
  · exact isMisfit_integer hkind (Except.map_eq_error.1 h)
  · exact isMisfit_numeric hkind h
  · exact isMisfit_numeric hkind (Except.map_eq_error.1 h)
  · cases h
  · exact isMisfit_link (Except.map_eq_error.1 h)
  · exact isMisfit_readTextFile h

end Builtin

/-- A built-in reader refuses nothing that an input is bound to as a misfit. -/
theorem InputBinding.Fits.isMisfit_of_builtin {p : ParamSpec} {binding : InputBinding} (h : binding.Fits t p)
    (hreader : binding.reader ∈ Builtin.readers) {fs : FileSystem} {row : Nat} (hrow : row < t.rows)
    {e : BindingError} (he : binding.read t fs row = .error e) : e.isMisfit = false := by
  obtain ⟨c, -, hkind, hreads⟩ := h.reaches row (.inl hrow)
  exact Builtin.isMisfit_reader hreader hkind (Except.map_eq_error.1 ((hreads fs).symm.trans he))

end TableForest
