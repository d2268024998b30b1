import TableForest.Command.Usage

/-!
# Help

The help of a command says what it does, how it is called and what it takes, one line for each operand
and option with its meaning in a column of its own.  The help of the program lists the commands instead
of operands.
-/

namespace TableForest.Help

def programName : String := "slideset"

def placeholder (name : String) : String :=
  s!"<{name.map Char.toUpper}>"

/-- An option as it is written, behind its letter or the room for one. -/
def optionTerm (o : CommandOption) : String :=
  let letter := match o.letter with
    | some c => s!"-{c}, "
    | none => "    "
  let value := if o.value.isSome then " " ++ placeholder o.name else ""
  letter ++ "--" ++ o.name ++ value

/-- The meaning of an option and the value that it has if it is not given. -/
def optionMeaning (o : CommandOption) : String :=
  match o.standard with
  | none => o.about
  | some v =>
    let note := s!"[default: {v}]"
    if o.about.isEmpty then note else o.about ++ " " ++ note

/-- Terms and their meanings under a heading, all meanings in one column. -/
def entryLines (heading : String) (entries : List (String × String)) : List String :=
  let width := (entries.map (·.1.length)).foldl max 0
  heading :: entries.map fun (term, meaning) =>
    "  " ++ term ++ String.ofList (List.replicate (width - term.length) ' ') ++ "  " ++ meaning

def ofSections (sections : List (List String)) : String :=
  "\n\n".intercalate (sections.map ("\n".intercalate ·)) ++ "\n"

/-- The section of options, help the last of them. -/
def optionSection (f : CommandForm) : List String :=
  entryLines "Options:" (f.known.map fun o => (optionTerm o, optionMeaning o))

def requiredTerms (f : CommandForm) : List String :=
  (f.options.filter (·.isRequired)).map fun o => s!"--{o.name} {placeholder o.name}"

def callLine (f : CommandForm) : String :=
  " ".intercalate
    (["Usage:", programName, f.name, "[OPTIONS]"] ++ requiredTerms f ++ (f.operand.map placeholder).toList)

def ofCommand (f : CommandForm) : String :=
  ofSections <|
    [[f.about], [callLine f]]
      ++ (f.operand.map fun name => entryLines "Arguments:" [(placeholder name, "")]).toList
      ++ [optionSection f]

def commandName : String := "help"

def commandAbout : String := "Print this message or the help of the given subcommand(s)"

def ofHelp : String :=
  ofSections [[commandAbout], [s!"Usage: {programName} {commandName} [COMMAND]..."],
    entryLines "Arguments:" [("[COMMAND]...", "Print help for the subcommand(s)")]]

/-- The help of the program, which takes the options of `f` in front of one of the commands. -/
def ofProgram (f : CommandForm) (commands : List CommandForm) : String :=
  ofSections [[f.about], [s!"Usage: {f.name} [OPTIONS] <COMMAND>"],
    entryLines "Commands:" (commands.map (fun c => (c.name, c.about)) ++ [(commandName, commandAbout)]),
    optionSection f]

end TableForest.Help
