import TableForest.Text.Utf8

/-!
# Options and operands

The arguments of a command are options and an operand in any order.  An option has a long name after two
hyphens and may have a letter after one; it stands alone or takes a value, which follows it at once, after
an equals sign or as the next argument.  Letters of options that stand alone may share a hyphen.  After an
argument of two hyphens there are operands only.  No option is given twice.  Arguments are taken from left
to right, and where help is asked for nothing after it counts.  An argument is a row of bytes; only where a
path is meant may it be no text.
-/

namespace TableForest

/-- What a value has to be. -/
inductive ValueForm where
  | text
  | path
  | character
  deriving DecidableEq, Repr

/-- An argument of a program, or a part of one. -/
abbrev Argument := Bytes

/-- An argument can be a value of a form: a path must not be empty, and a character is one character. -/
def ValueForm.admits : ValueForm → Argument → Bool
  | .text, arg => (Utf8.decode? arg).isSome
  | .path, arg => !arg.isEmpty
  | .character, arg => (Utf8.decode? arg).any (·.length = 1)

/-- An option of a command. -/
structure CommandOption where
  name : String
  letter : Option Char
  about : String
  /-- The form of its value; without one the option stands alone. -/
  value : Option ValueForm
  isRequired : Bool
  /-- The value that it has if it is not given. -/
  standard : Option String
  deriving DecidableEq, Repr

namespace CommandOption

def switch (name about : String) : CommandOption :=
  ⟨name, none, about, none, false, none⟩

def valued (name about : String) (form : ValueForm) : CommandOption :=
  ⟨name, none, about, some form, false, none⟩

def withLetter (o : CommandOption) (c : Char) : CommandOption :=
  { o with letter := some c }

def required (o : CommandOption) : CommandOption :=
  { o with isRequired := true }

/-- The option with the value that it has if it is not given. -/
def withStandard (o : CommandOption) (value : String) : CommandOption :=
  { o with standard := some value }

/-- Asks for help; every command takes it. -/
def help : CommandOption :=
  (switch "help" "Print help").withLetter 'h'

/-- The letter as it stands in an argument. -/
def letterBytes? (o : CommandOption) : Option Bytes :=
  o.letter.map fun c => Utf8.encode c.toString

end CommandOption

/-- What a command takes: its options, in the order in which help shows them, and its operand, which is a
path. -/
structure CommandForm where
  name : String
  about : String
  operand : Option String
  options : List CommandOption
  deriving DecidableEq, Repr

/-- Arguments taken apart: the options with their values, and the operands. -/
structure Arguments where
  options : List (String × Argument)
  operands : List Argument
  deriving DecidableEq, Repr

namespace Arguments

def none : Arguments := ⟨[], []⟩

def value? (a : Arguments) (name : String) : Option Argument :=
  a.options.lookup name

def text? (a : Arguments) (name : String) : Option String :=
  (a.value? name).bind Utf8.decode?

def has (a : Arguments) (name : String) : Bool :=
  (a.value? name).isSome

def asksForHelp (a : Arguments) : Bool :=
  a.has CommandOption.help.name

/-- The arguments with one more option that stands alone, which must not be there yet; its value is the
empty one. -/
def addSwitch? (a : Arguments) (o : CommandOption) : Option Arguments :=
  if a.has o.name then .none else some { a with options := a.options ++ [(o.name, [])] }

/-- The arguments with one more option and its value, which must be of the form; the option must not be
there yet. -/
def addValue? (a : Arguments) (o : CommandOption) (form : ValueForm) (value : Argument) : Option Arguments :=
  if a.has o.name || !form.admits value then .none
  else some { a with options := a.options ++ [(o.name, value)] }

end Arguments

def hyphen : UInt8 := 0x2D

def equalsSign : UInt8 := 0x3D

/-- An argument can be a value or an operand: it does not start with a hyphen, or is one. -/
def Arguments.isOperand (arg : Argument) : Bool :=
  arg = [hyphen] || arg.head? != some hyphen

namespace CommandForm

/-- Arguments so far, and the option whose value is still to come. -/
structure Progress where
  arguments : Arguments
  pending : Option (CommandOption × ValueForm)

/-- The options that can be given, help among them. -/
def known (f : CommandForm) : List CommandOption :=
  f.options ++ [.help]

/-- Takes an option, with its value if that is there. -/
def takeOption? (a : Arguments) (o : CommandOption) (attached : Option Argument) : Option Progress :=
  match o.value, attached with
  | some form, some v => (a.addValue? o form v).map (⟨·, none⟩)
  | some form, none => some ⟨a, some (o, form)⟩
  | none, some _ => none
  | none, none => (a.addSwitch? o).map (⟨·, none⟩)

/-- The value that follows a letter at once; an equals sign before it does not count. -/
def attachedValue : Argument → Option Argument
  | [] => none
  | b :: rest => some (if b = equalsSign then rest else b :: rest)

/-- Takes letters that share a hyphen.  Every letter of an option is a single byte. -/
def takeLetters? (f : CommandForm) (a : Arguments) : Argument → Option Progress
  | [] => some ⟨a, none⟩
  | b :: rest =>
    if a.asksForHelp then some ⟨a, none⟩
    else do
      let o ← f.known.find? (·.letterBytes? = some [b])
      if o.value.isSome then takeOption? a o (attachedValue rest)
      else f.takeLetters? (← a.addSwitch? o) rest

def takeHyphened? (f : CommandForm) (a : Arguments) (arg : Argument) : Option Progress :=
  match arg with
  | 0x2D :: 0x2D :: bs => do
    let (name, rest) := bs.span (· != equalsSign)
    let o ← f.known.find? (Utf8.encode ·.name = name)
    takeOption? a o (if rest.isEmpty then none else some (rest.drop 1))
  | 0x2D :: bs => f.takeLetters? a bs
  | _ => none

/-- Takes operands; there is at most one. -/
def takeOperands? (f : CommandForm) (a : Arguments) : List Argument → Option Arguments
  | [] => some a
  | arg :: rest =>
    if f.operand.isSome && a.operands.isEmpty && ValueForm.path.admits arg then
      f.takeOperands? { a with operands := [arg] } rest
    else none

/-- Takes the arguments that are left, the first of them as the value of `pending` if there is such an
option. -/
def takeAll? (f : CommandForm) (a : Arguments) (pending : Option (CommandOption × ValueForm)) :
    List Argument → Option Arguments
  | [] => if pending.isSome then none else some a
  | arg :: rest =>
    match pending with
    | some (o, form) =>
      if Arguments.isOperand arg then do f.takeAll? (← a.addValue? o form arg) none rest else none
    | none =>
      -- what follows is not even looked at
      if a.asksForHelp then some a
      else if Arguments.isOperand arg then do f.takeAll? (← f.takeOperands? a [arg]) none rest
      else if arg = [hyphen, hyphen] then f.takeOperands? a rest
      else do
        let next ← f.takeHyphened? a arg
        f.takeAll? next.arguments next.pending rest

def isComplete (f : CommandForm) (a : Arguments) : Bool :=
  a.operands.length = f.operand.toList.length
    && f.options.all fun o => !o.isRequired || a.has o.name

/-- The arguments of a command; where help is asked for, something may be missing. -/
def read? (f : CommandForm) (args : List Argument) : Option Arguments := do
  let a ← f.takeAll? .none none args
  if a.asksForHelp || f.isComplete a then some a else none

/-- The options in front of the first operand, all of which stand alone, and what follows them. -/
def splitLeading? (f : CommandForm) (a : Arguments) :
    List Argument → Option (Arguments × List Argument)
  | [] => some (a, [])
  | arg :: rest =>
    if a.asksForHelp || Arguments.isOperand arg then some (a, arg :: rest)
    else do
      match ← f.takeHyphened? a arg with
      | ⟨a, none⟩ => f.splitLeading? a rest
      | ⟨_, some _⟩ => none

/-- The value of an option: the given one, or the one that it has otherwise. -/
def textOf? (f : CommandForm) (a : Arguments) (name : String) : Option String :=
  match a.text? name with
  | some v => some v
  | none => (f.options.find? (·.name = name)).bind (·.standard)

end CommandForm
end TableForest
