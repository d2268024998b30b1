import TableForest.Table.Column

/-!
# Names of new links

A new link is the base directory with a file name of stem, separator, counter and extension.  The counter
is filled with zeros up to a width and written in full beyond it.
-/

namespace TableForest

/-- How the names of new links are formed, and how many of them may be tried. -/
structure LinkPolicy where
  counterWidth : UInt64
  separator : String
  maxProbe : UInt32
  deriving DecidableEq

namespace LinkPolicy

/-- Three digits after a hyphen, and a hundred thousand tries. -/
def standard : LinkPolicy := ⟨3, "-", 100000⟩

instance : Inhabited LinkPolicy := ⟨standard⟩

/-- The extension with its dot; dots in front count for nothing. -/
def extensionText : Option String → String
  | none => ""
  | some e => if (LinkDefaults.dropDots e).isEmpty then "" else "." ++ LinkDefaults.dropDots e

def fileName (policy : LinkPolicy) (stem : String) (counter : UInt32) (extension : Option String) :
    String :=
  stem ++ policy.separator
    ++ String.ofList (Decimal.paddedChars policy.counterWidth.toNat counter.toNat)
    ++ extensionText extension

def compose (policy : LinkPolicy) (baseDir : Path) (stem : String) (counter : UInt32)
    (extension : Option String) : Path :=
  baseDir.join (.ofText (policy.fileName stem counter extension))

end LinkPolicy
end TableForest
