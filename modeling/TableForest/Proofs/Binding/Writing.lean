import TableForest.Adapter.Builtin
import TableForest.Proofs.Binding.Result
import TableForest.Proofs.Dict
import TableForest.Proofs.Table.Place

/-!
# Writing the outputs of a row

The built-in writers of plain values put a value into the cell and touch no file.  `OutputPlan.Takes` and
`OutputPlan.Refuses` say what becomes of an output in a row, and the outputs of a row are written one after
the other up to the first that is refused.
-/

namespace TableForest

/-! ## Plain values -/

/-- The value that a cell takes from an item, if items of its type are values of cells. -/
def Item.cellValue? : Item → Option Value
  | ⟨.bool, (b : Bool)⟩ => some (.logical b)
  | ⟨.i32, (n : Int32)⟩ => some (.integer n.toInt64)
  | ⟨.i64, (n : Int64)⟩ => some (.integer n)
  | ⟨.f64, (x : Binary64)⟩ => some (.numeric x)
  | ⟨.string, (s : String)⟩ => some (.text s)
  | _ => none

/-- The writer is a built-in one that does not write files. -/
def Writer.IsPlain (w : Writer) : Prop :=
  w ∈ Builtin.writers ∧ w.info.kind ≠ .fileLink

/-- A writer refuses items of another type and leaves all files alone. -/
theorem Writer.write_of_type_ne {w : Writer} {x : Item} {c : Cell} (context : PathContext)
    (fs : FileSystem) (hkind : c.kind = w.info.kind) (htype : x.type ≠ w.info.type) :
    w.write x c context fs = (.error (.typeMismatch w.info.type x.type), fs) := by
  unfold Writer.write checkKind Item.as?
  rw [if_pos hkind, dif_neg htype]

/-- A writer made of a conversion of values puts the value into the cell. -/
theorem write_cellWriter {name : String} {kind : Kind} {type : ItemType}
    {value : type.Carrier → Value} {v : type.Carrier} {c : Cell} (context : PathContext)
    (fs : FileSystem) (hkind : c.kind = kind) (hvalue : (value v).kind = kind) :
    (Builtin.cellWriter name kind type value).write ⟨type, v⟩ c context fs =
      (.ok { c with value := value v }, fs) := by
  have hset : c.setValue (value v) = .ok { c with value := value v } := by
    unfold Cell.setValue
    rw [if_pos (hvalue.trans hkind.symm)]
  unfold Writer.write checkKind Builtin.cellWriter
  simp only [hkind, if_true, Item.as?, hset, dite_true]
  rfl

/-- A plain writer puts the value of an item of its type into the cell. -/
theorem Writer.IsPlain.write_of_type_eq {w : Writer} (hw : w.IsPlain) {x : Item}
    (htype : x.type = w.info.type) :
    ∃ v, x.cellValue? = some v ∧ v.kind = w.info.kind ∧
      ∀ (c : Cell) (context : PathContext) (fs : FileSystem), c.kind = w.info.kind →
        w.write x c context fs = (.ok { c with value := v }, fs) := by
  obtain ⟨hmem, hfile⟩ := hw
  obtain ⟨type, value⟩ := x
  simp only [Builtin.writers, List.mem_cons, List.not_mem_nil, or_false] at hmem
  -- one writer for each type of item that is a value of a cell, and the one for text files
  rcases hmem with rfl | rfl | rfl | rfl | rfl | rfl
  · obtain rfl : type = .bool := htype
    exact ⟨_, rfl, rfl, fun c context fs hkind => write_cellWriter context fs hkind rfl⟩
  · obtain rfl : type = .i32 := htype
    exact ⟨_, rfl, rfl, fun c context fs hkind => write_cellWriter context fs hkind rfl⟩
  · obtain rfl : type = .i64 := htype
    exact ⟨_, rfl, rfl, fun c context fs hkind => write_cellWriter context fs hkind rfl⟩
  · obtain rfl : type = .f64 := htype
    exact ⟨_, rfl, rfl, fun c context fs hkind => write_cellWriter context fs hkind rfl⟩
  · obtain rfl : type = .string := htype
    exact ⟨_, rfl, rfl, fun c context fs hkind => write_cellWriter context fs hkind rfl⟩
  · exact absurd rfl hfile

/-! ## One output -/

/-- The cell that an output takes from what a routine gave for a row: the value that was given under the
name of the parameter, or the default of the column if nothing had to be. -/
inductive OutputPlan.Takes (plan : OutputPlan) (given : RowOutputs) : Cell → Prop where
  | given {x : Item} {v : Value} (hget : given.values.get? plan.param.name = some x)
      (htype : x.type = plan.writer.info.type) (hvalue : x.cellValue? = some v) :
      Takes plan given ⟨v, plan.writer.info.subtype⟩
  | missing (hget : given.values.get? plan.param.name = none)
      (hoptional : plan.param.required = false) : Takes plan given plan.columnInfo.blank

/-- The failure of an output: nothing was given for it though it has to be, or an item of another type. -/
inductive OutputPlan.Refuses (plan : OutputPlan) (routine : String) (row : Nat) (given : RowOutputs) :
    BindingError → Prop where
  | missing (hget : given.values.get? plan.param.name = none)
      (hrequired : plan.param.required = true) :
      Refuses plan routine row given (.missingOutput routine plan.param.name row)
  | mistyped {x : Item} (hget : given.values.get? plan.param.name = some x)
      (htype : x.type ≠ plan.writer.info.type) :
      Refuses plan routine row given (.typeMismatch plan.writer.info.type x.type)

/-- An output takes one cell at most. -/
theorem OutputPlan.Takes.unique {plan : OutputPlan} {given : RowOutputs} {c c' : Cell}
    (h : plan.Takes given c) (h' : plan.Takes given c') : c = c' := by
  -- a text for the output and a blank cell exclude each other, and either determines the cell
  cases h with
  | given hget htype hvalue =>
    cases h' with
    | given hget' htype' hvalue' =>
      rw [hget] at hget'
      obtain rfl := Option.some.inj hget'
      rw [hvalue] at hvalue'
      obtain rfl := Option.some.inj hvalue'
      rfl
    | missing hget' _ =>
      rw [hget] at hget'
      cases hget'
  | missing hget _ =>
    cases h' with
    | given hget' _ _ =>
      rw [hget] at hget'
      cases hget'
    | missing _ _ => rfl

/-- Only what is given under its own name matters to an output. -/
theorem OutputPlan.Takes.congr {plan : OutputPlan} {given given' : RowOutputs} {c : Cell}
    (h : plan.Takes given c)
    (heq : given'.values.get? plan.param.name = given.values.get? plan.param.name) :
    plan.Takes given' c := by
  cases h with
  | given hget htype hvalue => exact .given (heq.trans hget) htype hvalue
  | missing hget hoptional => exact .missing (heq.trans hget) hoptional

theorem OutputPlan.Refuses.congr {plan : OutputPlan} {routine : String} {row : Nat}
    {given given' : RowOutputs} {e : BindingError} (h : plan.Refuses routine row given e)
    (heq : given'.values.get? plan.param.name = given.values.get? plan.param.name) :
    plan.Refuses routine row given' e := by
  cases h with
  | missing hget hrequired => exact .missing (heq.trans hget) hrequired
  | mistyped hget htype => exact .mistyped (heq.trans hget) htype

/-- The table waits for an output in a place: the column is that of the output and the cell is blank. -/
structure Table.Awaits (t : Table) (plan : OutputPlan) (column row : Nat) : Prop where
  info : t.infos[column]? = some plan.columnInfo
  blank : t.cell column row = .ok plan.columnInfo.blank

/-- A plain writer fills a place that waits for it, or refuses the item and changes nothing. -/
theorem writeAt_of_awaits {plan : OutputPlan} (hplain : plan.writer.IsPlain) {t : Table}
    {column row : Nat} (hawaits : t.Awaits plan column row) (fs : FileSystem) (x : Item) :
    (x.type = plan.writer.info.type ∧ ∃ v, x.cellValue? = some v ∧
      plan.writer.writeAt t fs column row x =
        (.ok (), t.putCell column row ⟨v, plan.writer.info.subtype⟩, fs)) ∨
    (x.type ≠ plan.writer.info.type ∧ plan.writer.writeAt t fs column row x =
        (.error (.typeMismatch plan.writer.info.type x.type), t, fs)) := by
  obtain ⟨col, hcol, hrow, hcell⟩ := Table.cell_eq_ok.1 hawaits.blank
  have hplace := Table.place_of_getElem? hcol hrow hcell
  -- the cell has the kind and the subtype of the column, which are those of the writer
  have hinfo : col.info = plan.columnInfo := by
    have hget := hawaits.info
    unfold Table.infos at hget
    rw [List.getElem?_map, hcol] at hget
    exact Option.some.inj hget
  have hkind : plan.columnInfo.blank.kind = plan.writer.info.kind :=
    Kind.kind_defaultValue plan.writer.info.kind
  unfold Writer.writeAt
  simp only [if_neg hplain.2, Table.updateCell, hplace]
  by_cases htype : x.type = plan.writer.info.type
  · obtain ⟨v, hvalue, hvkind, hwrite⟩ := hplain.write_of_type_eq htype
    refine .inl ⟨htype, v, hvalue, ?_⟩
    have hcheck : Table.checkCell col.info (some row) { plan.columnInfo.blank with value := v } =
        .ok () := by
      rw [Table.checkCell_eq_ok, hinfo]
      exact ⟨hvkind, rfl⟩
    simp only [hwrite _ _ _ hkind, Table.commitCell, hcheck]
    rfl
  · -- an item of another type is refused before the copy is looked at
    refine .inr ⟨htype, ?_⟩
    simp only [Writer.write_of_type_ne _ _ hkind htype, Table.commitCell]

/-! ## All outputs of a row -/

theorem Table.Awaits.of_putCell {t : Table} {plan : OutputPlan} {i row column : Nat}
    (h : t.Awaits plan i row) (c : Cell) (hne : i ≠ column) :
    (t.putCell column row c).Awaits plan i row where
  info := by rw [Table.infos_putCell]; exact h.info
  blank := Table.cell_putCell_of_ne h.blank c (.inl hne)

/-- The row `row` of `t` is filled in `t'` from column `column` on, and nothing else is changed. -/
structure Table.FillsRow (t t' : Table) (row column : Nat) (given : RowOutputs)
    (outputs : List OutputPlan) : Prop where
  infos : t'.infos = t.infos
  others : ∀ i r c, i < column ∨ r ≠ row → t.cell i r = .ok c → t'.cell i r = .ok c
  filled : ∀ j plan, outputs[j]? = some plan →
    ∃ c, t'.cell (column + j) row = .ok c ∧ plan.Takes given c

/-- What writing the outputs of a row comes to: the row is filled, or one of the outputs is refused, the
first that does not take a cell.  The files stay. -/
inductive WritesRow (routine : String) (row : Nat) (t : Table) (fs : FileSystem) (given : RowOutputs)
    (column : Nat) : List OutputPlan → Except BindingError Table × FileSystem → Prop where
  | filled {outputs : List OutputPlan} {t' : Table} (h : t.FillsRow t' row column given outputs) :
      WritesRow routine row t fs given column outputs (.ok t', fs)
  | refused (before : List OutputPlan) {after : List OutputPlan} {plan : OutputPlan} {e : BindingError}
      (hbefore : ∀ p ∈ before, ∃ c, p.Takes given c) (h : plan.Refuses routine row given e) :
      WritesRow routine row t fs given column (before ++ plan :: after) (.error e, fs)

/-- What is given to other outputs stays when one of them has been taken out. -/
theorem get?_without_of_fresh {plan : OutputPlan} {rest : List OutputPlan}
    (hfresh : plan.param.name ∉ rest.map (·.param.name)) (given : RowOutputs) :
    ∀ p ∈ rest, (given.without plan.param.name).values.get? p.param.name =
      given.values.get? p.param.name := by
  intro p hp
  refine Dict.get?_erase_of_ne _ fun heq => hfresh ?_
  have hmem : p.param.name ∈ rest.map (·.param.name) := List.mem_map_of_mem hp
  rwa [heq] at hmem

/-- After the first output of a row has taken its cell in `t₁`, the others decide. -/
theorem WritesRow.cons {routine : String} {row : Nat} {t t₁ : Table} {fs : FileSystem}
    {given : RowOutputs} {column : Nat} {plan : OutputPlan} {rest : List OutputPlan} {c : Cell}
    {answer : Except BindingError Table × FileSystem}
    (hfresh : plan.param.name ∉ rest.map (·.param.name)) (htakes : plan.Takes given c)
    (hinfos : t₁.infos = t.infos) (hcell : t₁.cell column row = .ok c)
    (hkeep : ∀ i r c', i ≠ column ∨ r ≠ row → t.cell i r = .ok c' → t₁.cell i r = .ok c')
    (hrest : WritesRow routine row t₁ fs (given.without plan.param.name) (column + 1) rest answer) :
    WritesRow routine row t fs given column (plan :: rest) answer := by
  have hothers := get?_without_of_fresh hfresh given
  cases hrest with
  | filled hfills =>
    -- the cell of the first output is not touched again: the others have columns further on
    refine .filled ⟨hfills.infos.trans hinfos, fun i r c' hplace hc' => ?_, fun j p hp => ?_⟩
    · refine hfills.others i r c' ?_ (hkeep i r c' ?_ hc')
      · exact hplace.imp (fun hi => by omega) id
      · exact hplace.imp (fun hi => by omega) id
    · cases j with
      | zero =>
        obtain rfl := Option.some.inj hp
        exact ⟨c, hfills.others column row c (.inl (by omega)) hcell, htakes⟩
      | succ j =>
        obtain ⟨c', hc', htakes'⟩ := hfills.filled j p hp
        rw [show column + 1 + j = column + (j + 1) by omega] at hc'
        exact ⟨c', hc', htakes'.congr (hothers p (List.mem_of_getElem? hp)).symm⟩
  -- the output that is refused comes after the first, which took its cell
  | @refused before after p e hbefore hrefuses =>
    refine .refused (plan :: before) (List.forall_mem_cons.2 ⟨⟨c, htakes⟩, ?_⟩) ?_
    · intro q hq
      obtain ⟨c', hc'⟩ := hbefore q hq
      exact ⟨c', hc'.congr (hothers q (List.mem_append_left _ hq)).symm⟩
    · exact hrefuses.congr (hothers p (List.mem_append_right _ List.mem_cons_self)).symm

/-- Plain writers fill a row that waits for its outputs, up to the first that is refused. -/
theorem writesRow_of_awaits (routine : String) {row : Nat} (fs : FileSystem)
    {outputs : List OutputPlan} :
    ∀ {t : Table} (given : RowOutputs) {column : Nat},
      (outputs.map (·.param.name)).Nodup → (∀ plan ∈ outputs, plan.writer.IsPlain) →
      (∀ j plan, outputs[j]? = some plan → t.Awaits plan (column + j) row) →
      WritesRow routine row t fs given column outputs
        (writeOutputs routine row t fs given column outputs) := by
  induction outputs with
  | nil =>
    intro t given column _ _ _
    exact .filled ⟨rfl, fun _ _ _ _ h => h, fun j plan h => by simp at h⟩
  | cons plan rest ih =>
    intro t given column hnames hplain hawaits
    obtain ⟨hplan, hrestplain⟩ := List.forall_mem_cons.1 hplain
    obtain ⟨hfresh, hrestnames⟩ := List.nodup_cons.1 hnames
    have hfirst : t.Awaits plan column row := hawaits 0 plan rfl
    -- the outputs behind the first wait from the next column on
    have hrest : ∀ j p, rest[j]? = some p → t.Awaits p (column + 1 + j) row := by
      intro j p hp
      have hp' := hawaits (j + 1) p hp
      rwa [show column + (j + 1) = column + 1 + j by omega] at hp'
    cases hget : given.values.get? plan.param.name with
    | none =>
      rw [writeOutputs_of_missing hget]
      split
      · rename_i hrequired
        exact .refused [] (by simp) (.missing hget hrequired)
      · rename_i hrequired
        exact .cons hfresh (.missing hget (Bool.not_eq_true _ ▸ hrequired)) rfl hfirst.blank
          (fun _ _ _ _ h => h) (ih _ hrestnames hrestplain hrest)
    | some x =>
      rw [writeOutputs_of_given hget]
      rcases writeAt_of_awaits hplan hfirst fs x with
        ⟨htype, v, hvalue, hwrite⟩ | ⟨htype, hwrite⟩
      · simp only [hwrite]
        refine .cons hfresh (.given hget htype hvalue) (Table.infos_putCell _ _ _)
          (Table.cell_putCell_self hfirst.blank _)
          (fun i r c' hne hc' => Table.cell_putCell_of_ne hc' _ hne)
          (ih _ hrestnames hrestplain fun j p hp => ?_)
        exact (hrest j p hp).of_putCell _ (by omega)
      · simp only [hwrite]
        exact .refused [] (by simp) (.mistyped hget htype)

end TableForest
