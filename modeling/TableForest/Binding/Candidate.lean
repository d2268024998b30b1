import TableForest.Adapter.Registry
import TableForest.Binding.Param
import TableForest.Table.Basic

/-!
# Candidates

What a parameter can be bound to: an input to a column or to a constant, through a reader, and an output
to a new column, through a writer.  Candidates are listed column by column and then in the order of the
registry; a parameter without candidates is left out if it may be.
-/

namespace TableForest

/-- Which candidates are listed. -/
structure ResolverConfig where
  /-- Constants for inputs. -/
  offerConstants : Bool
  /-- Constants also through hidden readers. -/
  includeHiddenConstants : Bool
  deriving DecidableEq, Repr

/-- Constants are offered, but not through hidden readers. -/
def ResolverConfig.standard : ResolverConfig := ⟨true, false⟩

/-- Where the files of a new column go. -/
structure LinkTemplate where
  baseDir : Path
  stem : String
  extension : Option String
  deriving DecidableEq

/-- What a parameter can be bound to. -/
inductive Candidate where
  | column (index : Nat) (name : String) (reader : Reader)
  | constant (reader : Reader)
  | newColumn (writer : Writer) (link : Option LinkTemplate)

namespace Candidate

def describe : Candidate → String
  | column _ name reader => s!"column \"{name}\" via {reader.info.name}"
  | constant reader => s!"constant {reader.info.kind.name} via {reader.info.name}"
  | newColumn writer none => s!"new {writer.info.kind.name} column via {writer.info.name}"
  | newColumn writer (some link) =>
    s!"new {writer.info.kind.name} column ({writer.info.subtype.text}) via {writer.info.name}, "
      ++ s!"files under {link.baseDir.text}"

/-- The kind of the cells that are read or written. -/
def kind : Candidate → Kind
  | column _ _ reader => reader.info.kind
  | constant reader => reader.info.kind
  | newColumn writer _ => writer.info.kind

def isConstant : Candidate → Bool
  | constant _ => true
  | _ => false

def adapterName : Candidate → String
  | column _ _ reader => reader.info.name
  | constant reader => reader.info.name
  | newColumn writer _ => writer.info.name

def linkTemplate? : Candidate → Option LinkTemplate
  | newColumn _ link => link
  | _ => none

def isColumnNamed (wanted : String) : Candidate → Bool
  | column _ name _ => name = wanted
  | _ => false

def isNewColumn : Candidate → Bool
  | newColumn _ _ => true
  | _ => false

end Candidate

/-- The columns of a table from an index on that an input can be bound to. -/
def columnCandidates (registry : Registry) (p : ParamSpec) (index : Nat) :
    List Column → List Candidate
  | [] => []
  | c :: rest =>
    (if p.admits c.info.kind c.info.subtype then
      ((registry.readersFor c.info.kind c.info.subtype).filter (·.info.type = p.type)).map
        (.column index c.info.name ·)
    else []) ++ columnCandidates registry p (index + 1) rest

def constantCandidates (registry : Registry) (config : ResolverConfig) (p : ParamSpec) :
    List Candidate :=
  if config.offerConstants then
    ((registry.readersProducing p.type).filter fun r =>
      (!r.info.isHidden || config.includeHiddenConstants)
        && p.admits r.info.kind r.info.constantSubtype).map .constant
  else []

/-- Where the files of a writer's new column for a parameter go; only file links have files. -/
def linkTemplateFor (w : WriterInfo) (p : ParamSpec) : Option LinkTemplate :=
  if w.kind = .fileLink then some ⟨.ofText p.name, p.name, w.linkExtension⟩ else none

/-- The new columns that an output can be bound to. -/
def outputCandidates (registry : Registry) (p : ParamSpec) : List Candidate :=
  ((registry.writersConsuming p.type).filter fun w => p.admits w.info.kind w.info.subtype).map
    fun w => .newColumn w (linkTemplateFor w.info p)

/-- What a parameter can be bound to. -/
def candidates (registry : Registry) (config : ResolverConfig) (t : Table) (p : ParamSpec) :
    List Candidate :=
  match p.direction with
  | .input => columnCandidates registry p 0 t.columns ++ constantCandidates registry config p
  | .output => outputCandidates registry p

/-- The parameters that have candidates, each with them.  The first parameter that has none and has to be
bound is a failure. -/
def enumerate (registry : Registry) (config : ResolverConfig) (t : Table) :
    List ParamSpec → Except BindingError (List (ParamSpec × List Candidate))
  | [] => .ok []
  | p :: rest =>
    let found := candidates registry config t p
    if found.isEmpty then
      if p.required then .error (.noCandidates p.name t.name)
      else enumerate registry config t rest
    else (enumerate registry config t rest).map ((p, found) :: ·)

end TableForest
