import TableForest.Cell.Kind

/-!
# Subtype tags

An open tag, of the form of a media type, that says more about the data of a cell than its kind does.  A
tag accepts another only if they are equal or the accepting one is the wildcard; `image/tiff` is not
accepted by `image`.
-/

namespace TableForest

/-- A tag; any text can be one, and `Tag.read?` accepts the well formed ones. -/
structure Tag where
  text : String
  deriving DecidableEq, Repr

namespace Tag

def any : Tag := ⟨"*"⟩

def isAny (t : Tag) : Bool :=
  t = any

/-- A value tagged `other` satisfies `t`. -/
def accepts (t other : Tag) : Bool :=
  t.isAny || t = other

/-- An ASCII letter or digit, which a name may start with. -/
def isNameStart (c : Char) : Bool :=
  c.isAlphanum

/-- A character of a name. -/
def isNameChar (c : Char) : Bool :=
  isNameStart c || c ∈ ['!', '#', '$', '&', '^', '_', '.', '+', '-']

/-- A letter or digit and any number of name characters. -/
def isName : List Char → Bool
  | [] => false
  | c :: cs => isNameStart c && cs.all isNameChar

/-- The wildcard, a name, or a name with a second name or the wildcard after a slash. -/
def isWellFormed (cs : List Char) : Bool :=
  cs == ['*'] ||
    match cs.span (· != '/') with
    | (first, []) => isName first
    | (first, _ :: second) => isName first && (second == ['*'] || isName second)

def read? (s : String) : Option Tag :=
  let trimmed := Text.trim s
  if isWellFormed trimmed.toList then some ⟨trimmed⟩ else none

end Tag

def Kind.defaultTag : Kind → Tag
  | logical => ⟨"logical"⟩
  | integer => ⟨"integer"⟩
  | numeric => ⟨"numeric"⟩
  | text => ⟨"text"⟩
  | fileLink => ⟨"file"⟩

/-- The tags that an adapter or a parameter accepts, each once; none means all. -/
structure TagSet where
  tags : List Tag
  deriving DecidableEq, Repr

namespace TagSet

def any : TagSet := ⟨[]⟩

/-- The set with one more tag, at the end unless it is there. -/
def insert (s : TagSet) (t : Tag) : TagSet :=
  if t ∈ s.tags then s else ⟨s.tags ++ [t]⟩

/-- The set of some tags, in the order of their first mention. -/
def ofList (tags : List Tag) : TagSet :=
  tags.foldl insert any

def isAny (s : TagSet) : Bool :=
  s.tags.isEmpty || s.tags.any Tag.isAny

def accepts (s : TagSet) (t : Tag) : Bool :=
  s.isAny || s.tags.any (·.accepts t)

/-- The tags between bars, or the wildcard. -/
def text (s : TagSet) : String :=
  if s.isAny then Tag.any.text else "|".intercalate (s.tags.map Tag.text)

end TagSet
end TableForest
