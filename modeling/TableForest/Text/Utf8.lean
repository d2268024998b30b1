/-!
# Bytes and the text they spell

Files and their names are bytes, and cells hold text.  `encode` is the UTF-8 form of a text and `decode?`
reads it back; bytes that spell no text are refused, and `validLength` says how far the text goes.  Where
something has to be shown of any bytes, `lossy` puts a replacement character where there is none.
-/

namespace TableForest

/-- The content of a file, or of a field that has not been read as text yet. -/
abbrev Bytes := List UInt8

namespace Utf8

def encode (s : String) : Bytes :=
  s.toUTF8.data.toList

/-- The text that bytes spell, if they are well formed UTF-8. -/
def decode? (bs : Bytes) : Option String :=
  String.fromUTF8? ⟨bs.toArray⟩

theorem decode?_encode (s : String) : decode? (encode s) = some s := by
  have h : (⟨(encode s).toArray⟩ : ByteArray) = s.toUTF8 := by
    simp [encode]
  simp only [decode?, h, String.fromUTF8?, String.toUTF8_eq_toByteArray, dif_pos s.isValidUTF8]
  rfl

/-- The length of the longest beginning of `bs` that is well formed UTF-8. -/
def validLength (bs : Bytes) : Nat :=
  ((List.range (bs.length + 1)).reverse.find? fun n => (decode? (bs.take n)).isSome).getD 0

def ascii (s : String) : Bytes :=
  s.toList.map fun c => UInt8.ofNat c.toNat

/-! ## Text for any bytes -/

/-- What has to follow a byte in front of a character: how many bytes, and the bounds of the first of them;
`none` if no character starts with the byte. -/
def follow? (b : UInt8) : Option (Nat × UInt8 × UInt8) :=
  if b < 0x80 then some (0, 0x80, 0xBF)
  else if b < 0xC2 then none
  else if b < 0xE0 then some (1, 0x80, 0xBF)
  else if b < 0xF0 then some (2, if b = 0xE0 then 0xA0 else 0x80, if b = 0xED then 0x9F else 0xBF)
  else if b < 0xF5 then some (3, if b = 0xF0 then 0x90 else 0x80, if b = 0xF4 then 0x8F else 0xBF)
  else none

/-- How many bytes go on with a character that lacks `missing` of them, the next one within bounds. -/
def tailLength (missing : Nat) (least greatest : UInt8) : Bytes → Nat
  | [] => 0
  | b :: rest =>
    match missing with
    | 0 => 0
    | n + 1 => if least ≤ b && b ≤ greatest then 1 + tailLength n 0x80 0xBF rest else 0

/-- How many bytes in front belong together: those of a character, as far as they are there. -/
def unitLength : Bytes → Nat
  | [] => 0
  | b :: rest =>
    match follow? b with
    | some (missing, least, greatest) => 1 + tailLength missing least greatest rest
    | none => 1

def replacement : Char := '\uFFFD'

/-- The characters of bytes, with a replacement for each unit that is none; `skip` bytes belong to the unit
before. -/
def lossyChars (skip : Nat) : Bytes → List Char
  | [] => []
  | b :: rest =>
    match skip with
    | n + 1 => lossyChars n rest
    | 0 =>
      let length := unitLength (b :: rest)
      ((decode? ((b :: rest).take length)).elim [replacement] String.toList) ++ lossyChars (length - 1) rest

/-- The text that stands for bytes: the one that they spell, or what can be made of them. -/
def lossy (bs : Bytes) : String :=
  (decode? bs).getD (String.ofList (lossyChars 0 bs))

example : lossy [0x61, 0xFF, 0xE2, 0x82, 0x2F, 0xC3, 0xA9] = "a\uFFFD\uFFFD/é" := by
  decide +kernel

end Utf8
end TableForest
