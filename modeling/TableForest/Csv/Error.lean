import TableForest.Csv.Record
import TableForest.Files.FileSystem

/-!
# Failures of CSV files
-/

namespace TableForest.Csv

/-- Why a CSV file has no records, or why no more records are written to one. -/
inductive CsvError where
  /-- A record has another number of fields than the first. -/
  | unequalLengths (start : Position) (expected found : Nat)
  | notText (start : Position) (field index : Nat)
  | unreadable (cause : FileError)
  /-- A record to be written has another number of fields than the first. -/
  | unequalRecord (expected found : Nat)
  /-- A column has no cell in a row that its table counts; the program ends there. -/
  | noCell (row len : Nat)
  deriving DecidableEq

def fileMessage : FileError → String
  | .notFound => "No such file or directory (os error 2)"
  | .notADirectory => "Not a directory (os error 20)"
  | .isADirectory => "Is a directory (os error 21)"
  | .alreadyExists => "File exists (os error 17)"
  | .nameTooLong => "File name too long (os error 36)"
  | .invalidPath => "file name contained an unexpected NUL byte"
  | .notText => "stream did not contain valid UTF-8"

def CsvError.message : CsvError → String
  | unequalLengths start expected found =>
    s!"CSV error: record {start.record} (line: {start.line}, byte: {start.byte}): "
      ++ s!"found record with {found} fields, but the previous record has {expected} fields"
  | notText start field index =>
    s!"CSV parse error: record {start.record} (line {start.line}, field: {field}, "
      ++ s!"byte: {start.byte}): invalid utf-8: "
      ++ s!"invalid UTF-8 in field {field} near byte index {index}"
  | unreadable cause => fileMessage cause
  | unequalRecord expected found =>
    s!"CSV error: found record with {found} fields, but the previous record has {expected} fields"
  | noCell row len => s!"index out of bounds: the len is {len} but the index is {row}"

end TableForest.Csv
