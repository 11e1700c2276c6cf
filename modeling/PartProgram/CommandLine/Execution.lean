import PartProgram.Batch.Merged
import PartProgram.CommandLine.Invocation

/-! # Carrying out commands

A command that fails for a cause that users know ends with a notice in the log
and the exit code one. Any other failure is passed on.
-/
namespace PartProgram

namespace Report

/-- The line of the log that a report makes if its rank is high enough. -/
def logLine? (threshold : Nat) : Report → Option String
  | log level channel message =>
    if threshold ≤ level.rank then some s!"{level.name} {channel.name}: {message}" else none
  | output _ => none

def outputLine? : Report → Option Text
  | log _ _ _ => none
  | output line => some line

end Report

namespace Command

variable {m : Type → Type} [Disk m]

def print (line : Text) : m Unit := Disk.report [.output line]

def runAnnotate (s : Settings) (file : Text) (output : Option OptionValue) (style : Option Text) :
    m Unit := do
  let out ← match output with
    | some .void => Disk.annotateTo s file (throw Fault.noOutput) style
    | some (.text o) => Disk.annotateFile s file (some o) style
    | none => Disk.annotateFile s file none style
  print out.text

/-- An extension that is none fails at the first file it is compared with. -/
def refuseFile (p : Path) : m Bool := do
  if ← Disk.isFile p then throw Fault.noExtension else pure false

def mergeGroups (s : Settings) (groups : List Group) (target : Text) (suffix : Text)
    (deletes : Bool) : m Unit := do
  let batch := groups.map fun g => (g.name, g.paths)
  let sources ← Disk.mergeBatch s batch (Path.ofText target) suffix
  groups.forM fun g => print g.name
  if deletes then
    let _ ← Disk.deleteFragments sources

def runMerge (s : Settings) (directory : Text) (output : Option Text)
    (extension : Option OptionValue) (deletes : Bool) : m Unit := do
  let place := Path.ofText directory
  let suffix := ((extension.bind OptionValue.text?).getD s.extension)
  let groups ← match extension with
    | some .void => Disk.findGroupsBy refuseFile place s.separator
    | _ => Disk.findGroups place suffix s.separator
  if groups.isEmpty then
    Disk.log .warning .commandLine s!"No fragment files found in {directory.shown}"
  else
    let target := match output with
      | none | some [] => directory
      | some path => path
    mergeGroups s groups target suffix deletes

def run (s : Settings) : Command → m Unit
  | annotate file output style => runAnnotate s file output style
  | merge directory output extension deletes => runMerge s directory output extension deletes

def execute (s : Settings) (c : Command) : m UInt32 :=
  tryCatch (do c.run s; pure 0) fun fault => do
    match fault.kind with
    | .unexpected => throw fault
    | kind =>
      let notice := kind.notice fault.message
      Disk.log .error .commandLine s!"{notice.title}: {notice.message}"
      pure 1

end Command

/-- Carries out what the arguments ask for; a level of the log that is none is refused first. -/
def Invocation.execute {m : Type → Type} [Disk m] (s : Settings) (i : Invocation) : m UInt32 := do
  let _ ← Disk.ofExcept (i.log.threshold s)
  i.command.execute s

end PartProgram
