import TableForest.Document.File
import TableForest.Proofs.Document.Decode

/-!
# What gets written of a document

The writer goes from left to right and stops in front of a string that is no text.  The only such strings in a
document are its paths, so all of it gets written exactly if its paths are texts.

## The architecture

* **`Json.cutAt?_eq_none_iff`**: the writer stops nowhere exactly if the value is spelled out, by recursion on the
  value along with its items and members.
* **`DocumentFile.encode_eq_ok_iff`** says it of documents.
-/

namespace TableForest

namespace Json

mutual

/-- **A value is written to its end iff it is spelled out.** -/
theorem cutAt?_eq_none_iff (style : Style) : ∀ (level : Nat) (v : Json), cutAt? style level v = none ↔ v.Spelled
  | _, .null => iff_of_true rfl .null
  | _, .bool b => iff_of_true rfl (.bool b)
  | _, .number n => iff_of_true rfl (.number n)
  | _, .string none => iff_of_false nofun nofun
  | _, .string (some s) => iff_of_true rfl (.string s)
  | level, .array items => by
    rw [cutAt?, Option.map_eq_none_iff, itemsCut?_eq_none_iff style (level + 1) true items, spelled_array_iff]
  | level, .object members => by
    rw [cutAt?, Option.map_eq_none_iff, membersCut?_eq_none_iff style (level + 1) true members]
    constructor
    · exact fun h => .object h.1 h.2
    · intro h
      cases h with
      | object hkeys hvalues => exact ⟨hkeys, hvalues⟩

theorem itemsCut?_eq_none_iff (style : Style) : ∀ (level : Nat) (first : Bool) (items : List Json),
    itemsCut? style level first items = none ↔ ∀ v ∈ items, v.Spelled
  | _, _, [] => iff_of_true rfl nofun
  | level, first, v :: rest => by
    rw [List.forall_mem_cons, ← cutAt?_eq_none_iff style level v, ← itemsCut?_eq_none_iff style level false rest,
      itemsCut?]
    cases cutAt? style level v with
    | none => simp
    | some part => simp

theorem membersCut?_eq_none_iff (style : Style) : ∀ (level : Nat) (first : Bool)
    (members : List (Option String × Json)), membersCut? style level first members = none ↔
      (∀ m ∈ members, ∃ key, m.1 = some key) ∧ ∀ m ∈ members, m.2.Spelled
  | _, _, [] => iff_of_true rfl ⟨nofun, nofun⟩
  | _, _, (none, _) :: _ => by
    rw [membersCut?, List.forall_mem_cons]
    exact iff_of_false nofun fun h => nomatch h.1.1
  | level, first, (some key, v) :: rest => by
    rw [List.forall_mem_cons, List.forall_mem_cons, ← cutAt?_eq_none_iff style level v, membersCut?]
    have hrest := membersCut?_eq_none_iff style level false rest
    cases cutAt? style level v with
    | none => simpa using hrest
    | some part => simp

end

theorem written_of_spelled (style : Style) {v : Json} (h : v.Spelled) : v.written style = (v.bytes style, true) := by
  rw [written, (cutAt?_eq_none_iff style 0 v).2 h]

/-- What is not spelled out is not written to its end. -/
theorem written_of_not_spelled (style : Style) {v : Json} (h : ¬v.Spelled) : (v.written style).2 = false := by
  obtain ⟨part, hpart⟩ := Option.ne_none_iff_exists'.1 (mt (cutAt?_eq_none_iff style 0 v).1 h)
  rw [written, hpart]

end Json

namespace TreeDocument

variable {d : TreeDocument}

theorem written_of_textPaths (style : Json.Style) (h : TableDocument.HasTextPaths d.tables) :
    d.written style = (d.bytes style, true) :=
  Json.written_of_spelled style (d.spelled_toJson_iff.2 h)

theorem written_of_not_textPaths (style : Json.Style) (h : ¬TableDocument.HasTextPaths d.tables) :
    (d.written style).2 = false :=
  Json.written_of_not_spelled style (mt d.spelled_toJson_iff.1 h)

end TreeDocument

namespace DocumentFile

variable {d : DocumentFile}

/-- **A document has bytes iff all paths in it are texts.** -/
theorem encode_eq_ok_iff {style : Json.Style} {bs : Bytes} :
    d.encode style = .ok bs ↔ TableDocument.HasTextPaths d.document.tables ∧ bs = d.document.bytes style := by
  unfold encode
  by_cases h : TableDocument.HasTextPaths d.document.tables
  · rw [TreeDocument.written_of_textPaths style h]
    simp [h, eq_comm]
  · have hfails := TreeDocument.written_of_not_textPaths style h
    rcases hwritten : d.document.written style with ⟨part, whole⟩
    rw [hwritten] at hfails
    obtain rfl : whole = false := hfails
    exact iff_of_false nofun fun hboth => h hboth.1

theorem encode_of_textPaths (h : TableDocument.HasTextPaths d.document.tables) (style : Json.Style) :
    d.encode style = .ok (d.document.bytes style) :=
  encode_eq_ok_iff.2 ⟨h, rfl⟩

end DocumentFile
end TableForest
