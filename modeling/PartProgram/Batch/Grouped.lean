import PartProgram.Batch.FragmentName
import PartProgram.Files.Disk
import PartProgram.Unicode.Case

/-! # Groups of fragments

The fragments in a directory, gathered by the program they belong to. Groups
stand in the order in which their first file is met among the sorted names, and
their members in the order of their numbers.
-/
namespace PartProgram

open Unicode

structure Group where
  name : Text
  /-- Numbers strictly ascend. -/
  members : List (Nat × Path)
  deriving DecidableEq, Repr

namespace Group

def paths (g : Group) : List Path := g.members.map Prod.snd

def insertMember (index : Nat) (path : Path) : List (Nat × Path) → List (Nat × Path)
  | [] => [(index, path)]
  | (i, p) :: rest =>
    if index < i then (index, path) :: (i, p) :: rest
    else (i, p) :: insertMember index path rest

/-- Enters a fragment; a number that is taken is refused. -/
def enter (name : Text) (index : Nat) (path : Path) :
    List Group → Except GroupingFault (List Group)
  | [] => .ok [⟨name, [(index, path)]⟩]
  | g :: rest =>
    if g.name = name then
      match g.members.lookup index with
      | some first => .error (.sameIndex path.name first.name index name)
      | none => .ok ({ g with members := insertMember index path g.members } :: rest)
    else (enter name index path rest).map (g :: ·)

end Group

namespace Disk

variable {m : Type → Type} [Disk m]

/-- A file with the extension, letter case aside. -/
def isFragmentFile (extension : Text) (p : Path) : m Bool := do
  if ← isFile p then pure (lowerText p.suffix = lowerText extension) else pure false

/-- Enters a file of a directory into the groups if it is a fragment. -/
def gather (isFragment : Path → m Bool) (separator : Text) (groups : List Group) (p : Path) :
    m (List Group) := do
  if ← isFragment p then
    match ← ofExcept (splitFragmentName separator p.stem) with
    | none =>
      log .debug .grouping s!"Skipping {p.name.shown}: no fragment suffix"
      pure groups
    | some (name, index) =>
      match Group.enter name index p groups with
      | .ok groups => pure groups
      | .error cause => throw (Fault.grouping cause)
  else pure groups

/-- The fragments in a directory, not in those below it. -/
def findGroupsBy (isFragment : Path → m Bool) (directory : Path) (separator : Text) :
    m (List Group) := do
  unless ← isDirectory directory do throw (Fault.noDirectory directory.text)
  let names := (← children directory).mergeSort Text.notAfter
  let groups ← (names.map directory.child).foldlM (gather isFragment separator) []
  log .info .grouping
    s!"Found {groups.length} fragmented programs in {directory.text.shown}"
  pure groups

def findGroups (directory : Path) (extension separator : Text) : m (List Group) :=
  findGroupsBy (isFragmentFile extension) directory separator

end Disk

end PartProgram
