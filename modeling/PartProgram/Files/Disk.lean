import PartProgram.Action
import PartProgram.Files.Tree

/-! # Disks

What a program needs of the world: files found by paths, and someone to report
to. A file tree in memory is one such world.
-/
namespace PartProgram

open Text (Bytes)

class Disk (m : Type → Type) extends Monad m, MonadExceptOf Fault m where
  isFile : Path → m Bool
  isDirectory : Path → m Bool
  exist : Path → m Bool
  read : Path → m Bytes
  write : Path → Bytes → m Unit
  /-- One directory, in one that exists. -/
  makeDirectory : Path → m Unit
  remove : Path → m Unit
  children : Path → m (List Text)
  /-- A path from the root with its links replaced, as deep as they may stand in each other. -/
  resolve : Nat → Path → m Path
  report : List Report → m Unit

namespace FileTree

def refuse {α : Type} (cause : FileFault) (p : Path) : Action FileTree α :=
  throw (Fault.file cause p.text)

def locate (aim : Aim) (p : Path) : Action FileTree Place := do
  if p.holdsNull then throw Fault.nullInPath
  match (← get).walk aim p with
  | .ok place => pure place
  | .error cause => refuse cause p

def find (p : Path) : Action FileTree (Option Node) := do
  match (← get).look p with
  | .ok node => pure node
  | .error cause => refuse cause p

def read (p : Path) : Action FileTree Bytes := do
  let place ← locate .content p
  match (← get).node? place with
  | some (.file content) => pure content
  | some _ => refuse .isDirectory p
  | none => refuse .missing p

/-- Fills a file, which is made if it is missing. A link to a missing file makes that file. -/
def write (p : Path) (content : Bytes) : Action FileTree Unit := do
  let place ← locate .filling p
  match (← get).node? place with
  | some .directory => refuse .isDirectory p
  | _ => modify (·.put place (.file content))

def makeDirectory (p : Path) : Action FileTree Unit := do
  let place ← locate .entry p
  match (← get).node? place with
  | some _ => refuse .taken p
  | none => modify (·.put place .directory)

/-- Takes away a file or a link, not what the link leads to. -/
def remove (p : Path) : Action FileTree Unit := do
  let place ← locate .entry p
  match (← get).node? place with
  | none => refuse .missing p
  | some .directory => refuse .isDirectory p
  | some _ => modify (·.erase place)

def list (p : Path) : Action FileTree (List Text) := do
  let place ← locate .content p
  match (← get).node? place with
  | some .directory => pure ((← get).children place)
  | some _ => refuse .notDirectory p
  | none => refuse .missing p

def resolved (depth : Nat) (p : Path) : Action FileTree Path := do
  if p.holdsNull then throw Fault.nullInPath
  match (← get).resolve depth p with
  | .ok path => pure path
  | .error fault => throw fault

end FileTree

instance : Disk (Action FileTree) where
  isFile p := do pure ((← FileTree.find p) matches some (.file _))
  isDirectory p := do pure ((← FileTree.find p) matches some .directory)
  exist p := do pure (← FileTree.find p).isSome
  read := FileTree.read
  write := FileTree.write
  makeDirectory := FileTree.makeDirectory
  remove := FileTree.remove
  children := FileTree.list
  resolve := FileTree.resolved
  report := Action.report

namespace Disk

variable {m : Type → Type} [Disk m]

def ofExcept {α : Type} : Except Fault α → m α
  | .ok a => pure a
  | .error fault => throw fault

def log (level : Level) (channel : Channel) (message : String) : m Unit :=
  report [.log level channel message]

/-- Takes a step on a state of its own, reports what it reports, and refuses what it refuses. -/
def perform {σ α : Type} (a : Action σ α) (s : σ) : m (α × σ) := do
  let outcome := a.run s
  report outcome.reports
  match outcome.result with
  | .ok x => pure (x, outcome.state)
  | .error fault => throw fault

def makeDirectoryOnce (p : Path) : m Unit :=
  tryCatch (makeDirectory p) fun fault => do
    match fault with
    | .file .missing _ => throw fault
    | _ => if ← isDirectory p then pure () else throw fault

/-- Makes a directory with those above it that are missing, no more of them than `depth`. One that
is there already will do. -/
def makeDirectories : Nat → Path → m Unit
  | 0, _ => throw Fault.tooDeep
  | depth + 1, p =>
    tryCatch (makeDirectory p) fun fault => do
      match fault with
      | .file .missing _ =>
        if p.names.isEmpty then throw fault
        else
          makeDirectories depth p.parent
          makeDirectoryOnce p
      | _ => if ← isDirectory p then pure () else throw fault

end Disk

end PartProgram
