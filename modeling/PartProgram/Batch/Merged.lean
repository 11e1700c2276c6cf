import PartProgram.Batch.Grouped
import PartProgram.Batch.ProgramFile
import PartProgram.Fragment.Joined

/-! # Merged programs

Fragment files become program files, one for each group. A program is written
only when all its fragments were joined, and a batch writes nothing at all if one
of its programs would go over one of its fragments.
-/
namespace PartProgram.Disk

variable {m : Type → Type} [Disk m]

def loadFragments (s : Settings) (paths : List Path) : m (List Program) :=
  paths.mapM fun p => loadProgram p (some s.toolMark)

def mergeGroup (s : Settings) (paths : List Path) (output : Path) : m Unit := do
  let fragments ← loadFragments s paths
  let (lines, _) ← perform (joinFragments s.numberStart s.numberStep) fragments
  write output (Text.encode (Text.ofLines lines))
  log .info .merge s!"Merged {fragments.length} fragments into {output.text.shown}"

/-- What a batch is asked to do: program names with the paths of their fragments. -/
abbrev Batch := List (Text × List Path)

/-- Every fragment, as its path resolves, with the program it belongs to. -/
def owners (depth : Nat) (batch : Batch) : m (List (Path × Text)) := do
  let owned ← batch.mapM fun (name, paths) => paths.mapM fun p => do pure (← resolve depth p, name)
  pure owned.flatten

/-- Refuses a program that would go over a fragment. Of several programs that a fragment belongs to
the last is named. -/
def checkOutputs (depth : Nat) (owners : List (Path × Text)) (outputs : List (Text × Path)) :
    m Unit :=
  outputs.forM fun (name, output) => do
    match owners.reverse.lookup (← resolve depth output) with
    | none => pure ()
    | some owner => throw (Fault.grouping (.overwrites output.name name owner))

/-- Merges every group into a program in the directory, and gives the paths of all fragments. -/
def mergeBatch (s : Settings) (batch : Batch) (directory : Path) (extension : Text) :
    m (List Path) := do
  makeDirectories s.directoryDepth directory
  let outputOf (name : Text) := directory.join (name ++ extension)
  checkOutputs s.linkDepth (← owners s.linkDepth batch)
    (batch.map fun (name, _) => (name, outputOf name))
  batch.forM fun (name, paths) => mergeGroup s paths (outputOf name)
  pure (batch.flatMap Prod.snd)

def deleteFragments (paths : List Path) : m Nat := do
  paths.forM remove
  log .info .merge s!"Deleted {paths.length} fragment files"
  pure paths.length

end PartProgram.Disk
