import TableForest.Text.Utf8

/-!
# CSV records

The lexical level of CSV, a byte at a time.  Fields stand between delimiters; a field that starts with a
quote goes on to the next quote that is not doubled, and may hold anything.  A record ends at a line feed,
a carriage return or both, and blank lines are skipped.  A record knows where it starts: right behind the
byte that ended the one before.
-/

namespace TableForest.Csv

/-- Where a record starts: the number of records and bytes before it, and its line from one on. -/
structure Position where
  record : Nat
  line : Nat
  byte : Nat
  deriving DecidableEq, Repr

/-- The fields of a record as bytes. -/
structure RawRecord where
  fields : List Bytes
  start : Position
  deriving DecidableEq

/-- What the scanner is in the middle of. -/
inductive ScanState where
  | startRecord
  | startField
  | inField
  | inQuoted
  /-- A quote in a quoted field: its end, or the first half of a doubled quote. -/
  | afterQuote
  /-- A carriage return has ended a record; a line feed may follow. -/
  | afterReturn
  deriving DecidableEq, Repr

/-- The scanner after some bytes.  What it has read of the field and the fields, and the records, stand in
reverse. -/
structure Scanner where
  state : ScanState
  field : Bytes
  fields : List Bytes
  records : List RawRecord
  start : Position
  line : Nat
  byte : Nat

def quote : UInt8 := 0x22

def carriageReturn : UInt8 := 0x0D

def lineFeed : UInt8 := 0x0A

/-- The mark that may stand at the start of a file and is no part of it. -/
def byteOrderMark : Bytes := [0xEF, 0xBB, 0xBF]

def isTerminator (b : UInt8) : Bool :=
  b = carriageReturn || b = lineFeed

namespace Scanner

/-- Before the first byte, which has `skipped` bytes before it. -/
def initial (skipped : Nat) : Scanner :=
  ⟨.startRecord, [], [], [], ⟨0, 1, 0⟩, 1, skipped⟩

def copy (s : Scanner) (b : UInt8) : Scanner :=
  { s with state := .inField, field := b :: s.field }

def endField (s : Scanner) : Scanner :=
  { s with state := .startField, field := [], fields := s.field.reverse :: s.fields }

/-- The record has ended with its last field; the next one starts here. -/
def endRecord (s : Scanner) (next : ScanState) : Scanner :=
  { s with
    state := next
    field := []
    fields := []
    records := ⟨(s.field.reverse :: s.fields).reverse, s.start⟩ :: s.records
    start := ⟨s.start.record + 1, s.line, s.byte⟩ }

def terminate (s : Scanner) (b : UInt8) : Scanner :=
  s.endRecord (if b = carriageReturn then .afterReturn else .startRecord)

def stepPlain (delimiter : UInt8) (s : Scanner) (b : UInt8) : Scanner :=
  if b = delimiter then s.endField
  else if isTerminator b then s.terminate b
  else s.copy b

def stepStart (delimiter : UInt8) (s : Scanner) (b : UInt8) : Scanner :=
  if b = quote then { s with state := .inQuoted } else s.stepPlain delimiter b

def stepRecord (delimiter : UInt8) (s : Scanner) (b : UInt8) : Scanner :=
  -- blank lines are no records
  if isTerminator b then { s with state := .startRecord } else s.stepStart delimiter b

/-- One byte, which has been counted. -/
def dispatch (delimiter : UInt8) (s : Scanner) (b : UInt8) : Scanner :=
  match s.state with
  | .startRecord => s.stepRecord delimiter b
  -- only here does a quote open a field
  | .startField => s.stepStart delimiter b
  | .inField => s.stepPlain delimiter b
  | .inQuoted =>
    if b = quote then { s with state := .afterQuote } else { s with field := b :: s.field }
  | .afterQuote =>
    if b = quote then { s with state := .inQuoted, field := b :: s.field }
    -- text behind the closing quote belongs to the field
    else s.stepPlain delimiter b
  -- a line feed counts as a blank line, which is skipped
  | .afterReturn => s.stepRecord delimiter b

def step (delimiter : UInt8) (s : Scanner) (b : UInt8) : Scanner :=
  { s with byte := s.byte + 1, line := if b = lineFeed then s.line + 1 else s.line }.dispatch
    delimiter b

/-- The records of an input that ends here; one that has begun ends with it. -/
def finish (s : Scanner) : List RawRecord :=
  match s.state with
  | .startRecord => s.records.reverse
  | .afterReturn => s.records.reverse
  | _ => (s.endRecord .startRecord).records.reverse

end Scanner

/-- The bytes of a file without the mark at its start, and the length of the mark. -/
def dropMark (bs : Bytes) : Bytes × Nat :=
  if byteOrderMark.isPrefixOf bs then (bs.drop 3, 3) else (bs, 0)

def records (delimiter : UInt8) (bs : Bytes) : List RawRecord :=
  let (content, skipped) := dropMark bs
  (content.foldl (Scanner.step delimiter) (Scanner.initial skipped)).finish

end TableForest.Csv
