import Mathlib.Algebra.Ring.Int.Defs
import TableForest.Adapter.Builtin
import TableForest.Proofs.Binding.Reading
import TableForest.Proofs.Binding.Writing
import TableForest.Proofs.Files.Written

/-!
# Reading back what was written

Each built-in writer has a reader of its name, and that gives back what the writer has put into a cell or into the
file that the cell links.  The readers of narrower integers take a number exactly if their type has it.

## The architecture

* **`Builtin.ReadsBack`** says what is left after a writer; **`Builtin.readsBack_cellWriter`** is the one lemma for
  the five writers of plain values, and **`Builtin.readsBack_textFile`** goes through the file system.
* **`Builtin.Narrowing`** relates a type of integers to all integers, and **`Builtin.narrow_eq_ok`** is the one lemma
  for the three readers.
* **`Builtin.reads_back`** puts them together.
-/

namespace TableForest

/-- The number that an integer item is. -/
def Item.toInt? : Item → Option Int
  | ⟨.i8, (n : Int8)⟩ => some n.toInt
  | ⟨.i16, (n : Int16)⟩ => some n.toInt
  | ⟨.i32, (n : Int32)⟩ => some n.toInt
  | ⟨.i64, (n : Int64)⟩ => some n.toInt
  | _ => none

/-- A write that succeeds had a cell of the writer's kind and an item of its type. -/
theorem Writer.write_eq_ok {w : Writer} {x : Item} {c c' : Cell} {context : PathContext} {fs g : FileSystem}
    (h : w.write x c context fs = (.ok c', g)) :
    c.kind = w.info.kind ∧ ∃ v, x = ⟨w.info.type, v⟩ ∧ w.convert v c context fs = (.ok c', g) := by
  by_cases hkind : c.kind = w.info.kind
  · refine ⟨hkind, ?_⟩
    by_cases htype : x.type = w.info.type
    · obtain ⟨v, hx, hv⟩ := Item.as?_of_type_eq htype
      refine ⟨v, hx, ?_⟩
      unfold Writer.write checkKind at h
      rw [if_pos hkind, hv] at h
      exact h
    · rw [Writer.write_of_type_ne context fs hkind htype] at h
      cases h
  · unfold Writer.write checkKind at h
    rw [if_neg hkind] at h
    cases h

namespace Builtin

/-! ## Narrower integers -/

/-- The numbers of a type are the integers of so many bits. -/
structure Narrowing {α : Type} (bits : Nat) (ofInt : Int → α) (toInt : α → Int) : Prop where
  bounds : ∀ v, -2 ^ (bits - 1) ≤ toInt v ∧ toInt v < 2 ^ (bits - 1)
  toInt_ofInt : ∀ i, -2 ^ (bits - 1) ≤ i → i < 2 ^ (bits - 1) → toInt (ofInt i) = i
  ofInt_toInt : ∀ v, ofInt (toInt v) = v

theorem narrowing_int8 : Narrowing 8 Int8.ofInt Int8.toInt :=
  ⟨fun v => ⟨v.le_toInt, v.toInt_lt⟩, fun _ hlower hupper => Int8.toInt_ofInt_of_le hlower hupper, Int8.ofInt_toInt⟩

theorem narrowing_int16 : Narrowing 16 Int16.ofInt Int16.toInt :=
  ⟨fun v => ⟨v.le_toInt, v.toInt_lt⟩, fun _ hlower hupper => Int16.toInt_ofInt_of_le hlower hupper, Int16.ofInt_toInt⟩

theorem narrowing_int32 : Narrowing 32 Int32.ofInt Int32.toInt :=
  ⟨fun v => ⟨v.le_toInt, v.toInt_lt⟩, fun _ hlower hupper => Int32.toInt_ofInt_of_le hlower hupper, Int32.ofInt_toInt⟩

theorem narrow_def {α : Type} (bits : Nat) (ofInt : Int → α) (target : ItemType) (n : Int64) :
    narrow bits ofInt target n =
      if -2 ^ (bits - 1) ≤ n.toInt ∧ n.toInt < 2 ^ (bits - 1) then .ok (ofInt n.toInt)
      else .error (.outOfRange n target) := by
  have hpow : ((Nat.pow 2 (bits - 1) : Nat) : Int) = 2 ^ (bits - 1) := by simp
  unfold narrow
  rw [hpow]

/-- **A number is narrowed to the one of the type that it is**, and refused if there is none. -/
theorem narrow_eq_ok {α : Type} {bits : Nat} {ofInt : Int → α} {toInt : α → Int} (h : Narrowing bits ofInt toInt)
    {target : ItemType} {n : Int64} {v : α} : narrow bits ofInt target n = .ok v ↔ toInt v = n.toInt := by
  rw [narrow_def]
  constructor
  · intro hok
    split at hok
    · rename_i hrange
      obtain rfl := Except.ok.inj hok
      exact h.toInt_ofInt _ hrange.1 hrange.2
    · cases hok
  · intro hv
    have hrange := h.bounds v
    rw [hv] at hrange
    rw [if_pos hrange, ← hv, h.ofInt_toInt]

/-- The reader of a name makes items of a type of integers of so many bits from cells of integers. -/
structure Narrows (name : String) (type : ItemType) (bits : Nat) (r : Reader) : Prop where
  known : Registry.builtin.reader? name = some r
  /-- What is read is the number in the cell, as an item of the type. -/
  read : ∀ n subtype context fs x,
    r.read ⟨.integer n, subtype⟩ context fs = .ok x ↔ x.type = type ∧ x.toInt? = some n.toInt
  succeeds : ∀ n subtype context fs,
    (∃ x, r.read ⟨.integer n, subtype⟩ context fs = .ok x) ↔
      -2 ^ (bits - 1) ≤ n.toInt ∧ n.toInt < 2 ^ (bits - 1)
  refuses : ∀ n subtype context fs, ¬(-2 ^ (bits - 1) ≤ n.toInt ∧ n.toInt < 2 ^ (bits - 1)) →
    r.read ⟨.integer n, subtype⟩ context fs = .error (.outOfRange n type)

/-- A reader that needs nothing but the cell is its conversion. -/
theorem read_cellReader {name : String} {kind : Kind} {type : ItemType}
    {convert : Cell → Except BindingError type.Carrier} {c : Cell} (hkind : c.kind = kind) (context : PathContext)
    (fs : FileSystem) :
    (cellReader name kind type convert).read c context fs = (convert c).map fun v => ⟨type, v⟩ :=
  Reader.read_of_kind_eq hkind context fs

/-- The reader that narrows integers to a type. -/
def narrowReader (name : String) (type : ItemType) (bits : Nat) (ofInt : Int → type.Carrier) : Reader :=
  cellReader name .integer type fun c => integer c >>= narrow bits ofInt type

/-- **Readers of narrower integers**: one lemma for all widths. -/
theorem narrows_narrowReader {name : String} {type : ItemType} {bits : Nat} {ofInt : Int → type.Carrier}
    {toInt : type.Carrier → Int} (hknown : Registry.builtin.reader? name = some (narrowReader name type bits ofInt))
    (h : Narrowing bits ofInt toInt) (htoInt : ∀ v, Item.toInt? ⟨type, v⟩ = some (toInt v)) :
    Narrows name type bits (narrowReader name type bits ofInt) := by
  have hread : ∀ n subtype context fs, (narrowReader name type bits ofInt).read ⟨.integer n, subtype⟩ context fs =
      (narrow bits ofInt type n).map fun v => ⟨type, v⟩ := fun n _ context fs => read_cellReader rfl context fs
  refine ⟨hknown, fun n subtype context fs x => ?_, fun n subtype context fs => ?_,
    fun n subtype context fs hrange => ?_⟩
  · -- an item is read exactly if the number fits, and then it is that number
    rw [hread, Except.map_eq_ok]
    constructor
    · rintro ⟨v, hv, rfl⟩
      refine ⟨rfl, ?_⟩
      rw [htoInt, (narrow_eq_ok h).1 hv]
    · rintro ⟨htype, hx⟩
      obtain ⟨v, rfl, -⟩ := Item.as?_of_type_eq htype
      rw [htoInt] at hx
      exact ⟨v, (narrow_eq_ok h).2 (Option.some.inj hx), rfl⟩
  · -- the reader succeeds exactly on the numbers in range
    rw [hread, narrow_def]
    split
    · rename_i hrange
      exact ⟨fun _ => hrange, fun _ => ⟨_, rfl⟩⟩
    · rename_i hrange
      exact ⟨nofun, fun h => absurd h hrange⟩
  · -- and its failure names the type and the number
    rw [hread, narrow_def, if_neg hrange]
    rfl

/-! ## Written and read -/

/-- What a writer leaves after it has written an item into a cell. -/
structure ReadsBack (w : Writer) (x : Item) (c c' : Cell) (context : PathContext) (fs g : FileSystem) : Prop where
  /-- The reader of the writer's name gives the item back. -/
  reader : ∃ r, Registry.builtin.reader? w.info.name = some r ∧ r.read c' context g = .ok x
  kind : c'.kind = c.kind
  subtype : c'.subtype = c.subtype
  /-- A plain value touches no file. -/
  plain : w.info.kind ≠ .fileLink → g = fs
  /-- A text goes into the file that the cell links, and the link stays. -/
  linked : w.info.kind = .fileLink → c'.link? = c.link? ∧ ∃ link l content, c.link? = some link ∧
    fs.Writes g (context.resolve (.ofText link)) l content ∧
    ∀ q old, fs.read q = .ok old → g.read q = .ok old ∨ g.locate q = g.locate (context.resolve (.ofText link))

/-- **A writer of plain values is read back** if its reader undoes it value by value. -/
theorem readsBack_cellWriter {name : String} {kind : Kind} {type : ItemType} {value : type.Carrier → Value}
    {convert : Cell → Except BindingError type.Carrier} {x : Item} {c c' : Cell} {context : PathContext}
    {fs g : FileSystem} (h : (cellWriter name kind type value).write x c context fs = (.ok c', g))
    (hreader : Registry.builtin.reader? name = some (cellReader name kind type convert)) (hkind : kind ≠ .fileLink)
    (hvalue : ∀ v, (value v).kind = kind) (hback : ∀ v subtype, convert ⟨value v, subtype⟩ = .ok v) :
    ReadsBack (cellWriter name kind type value) x c c' context fs g := by
  obtain ⟨hc, v, rfl, -⟩ : c.kind = kind ∧ ∃ v : type.Carrier, x = ⟨type, v⟩ ∧ _ := Writer.write_eq_ok h
  rw [write_cellWriter context fs hc (hvalue v)] at h
  obtain ⟨hcell, rfl⟩ := Prod.mk.inj h
  obtain rfl := Except.ok.inj hcell
  refine ⟨⟨_, hreader, ?_⟩, (hvalue v).trans hc.symm, rfl, fun _ => rfl, fun hlink => absurd hlink hkind⟩
  have hwritten : Cell.kind ⟨value v, c.subtype⟩ = kind := hvalue v
  rw [read_cellReader hwritten, hback]
  rfl

/-- What is written where a path leads is the text that is read there. -/
theorem readText_of_writes {fs g : FileSystem} {p : Path} {l : Location} {s : String}
    (h : fs.Writes g p l (Utf8.encode s)) : g.readText p = .ok s := by
  refine Except.bind_eq_ok.2 ⟨_, h.read, ?_⟩
  rw [Utf8.decode?_encode]
  rfl

theorem writeTextFile_eq_ok {s : String} {c c' : Cell} {context : PathContext} {fs g : FileSystem}
    (h : writeTextFile s c context fs = (.ok c', g)) :
    c' = c ∧ ∃ link l, c.link? = some link ∧ fs.Writes g (context.resolve (.ofText link)) l (Utf8.encode s) := by
  unfold writeTextFile at h
  cases hlink : c.link? with
  | none =>
    rw [show link "text-file" c = .error (.emptyLink "text-file") by simp [link, hlink]] at h
    cases h
  | some target =>
    rw [show link "text-file" c = .ok (.ofText target) by simp [link, hlink]] at h
    -- the file is written before the cell is given back, so a failed write gives none
    dsimp only at h
    rcases hwrite : fs.writeWithParents (context.resolve (.ofText target)) (Utf8.encode s) with ⟨e | u, made⟩
    · rw [hwrite] at h
      cases h
    · rw [hwrite] at h
      obtain ⟨hc, rfl⟩ := Prod.mk.inj h
      obtain ⟨l, hl⟩ := FileSystem.writes_of_writeWithParents hwrite
      exact ⟨(Except.ok.inj hc).symm, target, l, rfl, hl⟩

theorem readTextFile_of_writes {s : String} {c : Cell} {context : PathContext} {fs g : FileSystem} {link : String}
    {l : Location} (hlink : c.link? = some link) (h : fs.Writes g (context.resolve (.ofText link)) l (Utf8.encode s)) :
    readTextFile c context g = .ok s := by
  have hok : Builtin.link "text-file" c = .ok (.ofText link) := by simp [Builtin.link, hlink]
  refine Except.bind_eq_ok.2 ⟨.ofText link, hok, ?_⟩
  dsimp only
  rw [readText_of_writes h]
  rfl

/-- The writer of text files. -/
def textFileWriter : Writer :=
  ⟨⟨"text-file", .string, .fileLink, ⟨"text/plain"⟩, some "txt"⟩, writeTextFile⟩

/-- **A text is read back from the file that it was written to.** -/
theorem readsBack_textFile {x : Item} {c c' : Cell} {context : PathContext} {fs g : FileSystem}
    (h : textFileWriter.write x c context fs = (.ok c', g)) :
    ReadsBack textFileWriter x c c' context fs g := by
  obtain ⟨hkind, s, rfl, hwrite⟩ := Writer.write_eq_ok h
  obtain ⟨rfl, link, l, hlink, hwrites⟩ := writeTextFile_eq_ok hwrite
  refine ⟨⟨_, rfl, ?_⟩, rfl, rfl, fun hne => absurd rfl hne,
    fun _ => ⟨rfl, link, l, _, hlink, hwrites, fun q old hq => hwrites.read_or_locate hq⟩⟩
  rw [Reader.read_of_kind_eq hkind]
  exact congrArg (Except.map _) (readTextFile_of_writes hlink hwrites)

/-- **What a built-in writer writes is read back.** -/
theorem readsBack_of_write {w : Writer} (hw : w ∈ Registry.builtin.writers) {x : Item} {c c' : Cell}
    {context : PathContext} {fs g : FileSystem} (h : w.write x c context fs = (.ok c', g)) :
    ReadsBack w x c c' context fs g := by
  have hmem : w ∈ writers := hw
  simp only [writers, List.mem_cons, List.not_mem_nil, or_false] at hmem
  -- in the order of their registration
  rcases hmem with rfl | rfl | rfl | rfl | rfl | rfl
  · exact readsBack_cellWriter h rfl (by decide) (fun _ => rfl) (fun _ _ => rfl)
  · -- The reader narrows what the writer has widened.
    exact readsBack_cellWriter h rfl (by decide) (fun _ => rfl)
      fun n _ => (narrow_eq_ok narrowing_int32).2 (Int32.toInt_toInt64 n).symm
  · exact readsBack_cellWriter h rfl (by decide) (fun _ => rfl) (fun _ _ => rfl)
  · exact readsBack_cellWriter h rfl (by decide) (fun _ => rfl) (fun _ _ => rfl)
  · exact readsBack_cellWriter h rfl (by decide) (fun _ => rfl) (fun _ _ => rfl)
  · exact readsBack_textFile h

/-- **The built-in adapters between plain values and cells undo each other.**  The six writers put a value into a cell
or into the file that the cell links, and a plain value is never refused by a cell of the writer's kind.  Whatever
was written, the reader of the same name gives it back; the kind and the subtype of the cell stay, and no file but
the linked one is touched.  The readers of narrower integers take a number exactly if their type has it. -/
theorem reads_back :
    (Registry.builtin.writers.map fun w => (w.info.name, w.info.type, w.info.kind)) =
        [("logical", .bool, .logical), ("integer-i32", .i32, .integer), ("integer-i64", .i64, .integer),
          ("numeric-f64", .f64, .numeric), ("text", .string, .text), ("text-file", .string, .fileLink)] ∧
      (∀ w ∈ Registry.builtin.writers, ∀ x c context fs c' g, w.write x c context fs = (.ok c', g) →
        ReadsBack w x c c' context fs g) ∧
      (∀ w ∈ Registry.builtin.writers, w.info.kind ≠ .fileLink → ∀ x c, x.type = w.info.type →
        c.kind = w.info.kind → ∀ context fs, ∃ c', w.write x c context fs = (.ok c', fs)) ∧
      (∃ r, Narrows "integer-i8" .i8 8 r) ∧ (∃ r, Narrows "integer-i16" .i16 16 r) ∧
      ∃ r, Narrows "integer-i32" .i32 32 r := by
  refine ⟨rfl, fun w hw x c context fs c' g h => readsBack_of_write hw h, ?_,
    ⟨_, narrows_narrowReader rfl narrowing_int8 fun _ => rfl⟩,
    ⟨_, narrows_narrowReader rfl narrowing_int16 fun _ => rfl⟩,
    ⟨_, narrows_narrowReader rfl narrowing_int32 fun _ => rfl⟩⟩
  -- every writer but that of files takes what is of its type, and touches no file
  intro w hw hfile x c htype hkind context fs
  have hplain : w.IsPlain := ⟨hw, hfile⟩
  obtain ⟨v, -, -, hwrite⟩ := hplain.write_of_type_eq htype
  exact ⟨_, hwrite c context fs hkind⟩

/-- A text goes into a missing directory, beside a file that stays. -/
theorem reads_back_note :
    let files : FileSystem := ⟨[((Path.ofText "keep.txt").names, .file (Utf8.encode "keep"))], []⟩
    let cell : Cell := ⟨.fileLink "out/note.txt", ⟨"text/plain"⟩⟩
    let note : Item := ⟨.string, "new"⟩
    ∃ written, textFileWriter.write note cell ⟨none⟩ files = (.ok cell, written) ∧
      ReadsBack textFileWriter note cell cell ⟨none⟩ files written ∧
      written.read (.ofText "out/note.txt") = .ok (Utf8.encode "new") ∧
      written.read (.ofText "keep.txt") = .ok (Utf8.encode "keep") := by
  intro files cell note
  have hmem : textFileWriter ∈ writers := by simp [writers, textFileWriter]
  have hwrite : textFileWriter.write note cell ⟨none⟩ files = (.ok cell, _) := rfl
  exact ⟨_, hwrite, reads_back.2.1 textFileWriter hmem note cell ⟨none⟩ files cell _ hwrite, by decide +kernel,
    by decide +kernel⟩

end Builtin

end TableForest
