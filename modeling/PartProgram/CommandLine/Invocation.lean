import PartProgram.Block.Comment
import PartProgram.CommandLine.Argument
import PartProgram.Settings

/-! # Invocations

What a list of arguments asks for: how much to log, and one of two commands.
-/
namespace PartProgram

structure LogChoice where
  level : Option Level := none
  verbose : Nat := 0
  quiet : Bool := false
  deriving DecidableEq, Repr

/-- The least rank that is shown. A level that is named counts before any number of requests for
more, and these before the request for less. -/
def LogChoice.threshold (c : LogChoice) (s : Settings) : Except Fault Nat :=
  match c.level, c.verbose with
  | some level, _ => .ok level.rank
  | none, 0 => if c.quiet then .ok Level.error.rank else s.threshold
  | none, 1 => .ok Level.info.rank
  | none, 2 => .ok Level.debug.rank
  | none, _ => .ok Level.trace.rank

inductive Command where
  | annotate (file : Text) (output : Option OptionValue) (style : Option Text)
  | merge (directory : Text) (output : Option Text) (extension : Option OptionValue)
    (deletes : Bool)
  deriving DecidableEq, Repr

structure Invocation where
  log : LogChoice
  command : Command
  deriving DecidableEq, Repr

namespace Invocation

def name (s : String) : Text := s.toList

inductive AnnotateOption where
  | help | output | style
  deriving DecidableEq, Repr

structure AnnotateArguments where
  file : Text := []
  output : Option OptionValue := none
  style : Option Text := none

def annotateParser : ArgumentParser AnnotateOption AnnotateArguments where
  specs :=
    [{ tag := .help, names := [name "-h", name "--help"] },
      { tag := .output, names := [name "-o", name "--output"], takesValue := true },
      { tag := .style, names := [name "--style"], takesValue := true,
        choices := Settings.styleNames }]
  onOption a option value :=
    match option with
    | .help => .error .help
    | .output => .ok { a with output := some value }
    | .style => .ok { a with style := value.text? }
  onValue a values := .ok { a with file := values.headD [] }

inductive MergeOption where
  | help | output | extension | deletes
  deriving DecidableEq, Repr

structure MergeArguments where
  directory : Text := []
  output : Option Text := none
  extension : Option OptionValue := none
  deletes : Bool := false

def mergeParser : ArgumentParser MergeOption MergeArguments where
  specs :=
    [{ tag := .help, names := [name "-h", name "--help"] },
      { tag := .output, names := [name "-o", name "--output-dir"], takesValue := true },
      { tag := .extension, names := [name "--extension"], takesValue := true },
      { tag := .deletes, names := [name "--delete-sources"] }]
  onOption a option value :=
    match option with
    | .help => .error .help
    | .output => .ok { a with output := value.text? }
    | .extension => .ok { a with extension := some value }
    | .deletes => .ok { a with deletes := true }
  onValue a values := .ok { a with directory := values.headD [] }

/-- The command that a name and the arguments behind it ask for, and whether some argument means
nothing. -/
def readCommand : List Text → Except Stop (Command × Bool)
  | [] => .error .misuse
  | command :: args =>
    if command = name "annotate" then do
      let (a, isStray) ← annotateParser.parse {} args
      pure (.annotate a.file a.output a.style, isStray)
    else if command = name "merge" then do
      let (a, isStray) ← mergeParser.parse {} args
      pure (.merge a.directory a.output a.extension a.deletes, isStray)
    else .error .misuse

inductive GeneralOption where
  | help | version | verbose | quiet | level
  deriving DecidableEq, Repr

structure GeneralArguments where
  log : LogChoice := {}
  command : Option (Command × Bool) := none

def levelNamed (s : Text) : Option Level := Level.all.find? fun level => level.name.toList = s

def generalParser : ArgumentParser GeneralOption GeneralArguments where
  specs :=
    [{ tag := .help, names := [name "-h", name "--help"] },
      { tag := .version, names := [name "--version"] },
      { tag := .verbose, names := [name "-v", name "--verbose"] },
      { tag := .quiet, names := [name "-q", name "--quiet"] },
      { tag := .level, names := [name "--log-level"], takesValue := true,
        choices := Level.all.map fun level => level.name.toList }]
  takesRest := true
  onOption a option value :=
    match option with
    | .help => .error .help
    | .version => .error .version
    | .verbose => .ok { a with log := { a.log with verbose := a.log.verbose + 1 } }
    | .quiet => .ok { a with log := { a.log with quiet := true } }
    | .level => .ok { a with log := { a.log with level := value.text?.bind levelNamed } }
  onValue a values := do
    let command ← readCommand values
    pure { a with command := some command }

def ofArguments (args : List Text) : Except Stop Invocation := do
  let (general, isStray) ← generalParser.parse {} args
  match general.command, isStray with
  | some (command, false), false => .ok ⟨general.log, command⟩
  | _, _ => .error .misuse

end Invocation

namespace Stop

def exitCode : Stop → UInt32
  | misuse => 2
  | help | version => 0

def usage : String :=
  "usage: gcode-processor [-h] [--version] [-v] [-q] [--log-level LEVEL] COMMAND ...\n" ++
  "  annotate [-h] [-o OUTPUT] [--style STYLE] FILE\n" ++
  "  merge [-h] [-o OUTPUT_DIR] [--extension EXTENSION] [--delete-sources] DIRECTORY\n"

/-- What is printed as a result; the usage after misuse is no result. -/
def output : Stop → String
  | misuse => ""
  | help => usage
  | version => "gcode-processor 0.1.0\n"

end Stop

end PartProgram
