import PartProgram.Files.Path
import PartProgram.Text.Utf8

/-! # File trees

A tree of files, directories and symbolic links, and the ways of finding a place
in it. The file system follows at most `linkLimit` links, wants every name before
the last to be a directory, and looks up no name of more than `nameLimit` bytes
and no path of more than `pathLimit`. Resolving a path in full asks for one link
after the other by a path of its own: names that are missing are taken as they
stand, and so are links that are too far down to be looked up.
-/
namespace PartProgram

open Text (Bytes)

/-- The names from the root on, without dots and links on the way. -/
abbrev Place := List Text

inductive Node where
  | file (content : Bytes)
  | directory
  | link (target : Text)
  deriving DecidableEq, Repr

structure FileTree where
  entries : List (Place × Node) := []
  /-- The current directory. -/
  current : Place := []
  deriving Repr

namespace FileTree

/-- The root is a directory in every tree. -/
def node? (t : FileTree) (place : Place) : Option Node :=
  if place.isEmpty then some .directory else t.entries.lookup place

def put (t : FileTree) (place : Place) (node : Node) : FileTree :=
  { t with
    entries :=
      if (t.entries.lookup place).isSome then
        t.entries.map fun e => if e.1 = place then (place, node) else e
      else t.entries ++ [(place, node)] }

def erase (t : FileTree) (place : Place) : FileTree :=
  { t with entries := t.entries.filter fun e => e.1 ≠ place }

def children (t : FileTree) (place : Place) : List Text :=
  t.entries.filterMap fun (q, _) => if q.dropLast = place then q.getLast? else none

def origin (t : FileTree) (p : Path) : Place := if p.root.isEmpty then t.current else []

/-- Where the target of a link begins that stands in the given directory. -/
def originOf (directory : Place) (target : Text) : Place :=
  if target.head? = some '/' then [] else directory

def namesOf (target : Text) : List Text := Text.splitOn '/' target

def pathNames (p : Path) : List Text := p.names.flatMap namesOf

def staysAt (name : Text) : Bool := name.isEmpty || name = ['.']

def isUp (name : Text) : Bool := name = ['.', '.']

/-- Where a walk that follows no links stops. -/
inductive Halt where
  | at (place : Place)
  | link (directory : Place) (target : Text) (rest : List Text)
  deriving DecidableEq, Repr

def linkLimit : Nat := 40

def nameLimit : Nat := 255

def pathLimit : Nat := 4095

def isLong (limit : Nat) (s : Text) : Bool := limit < (Text.encode s).length

/-- What a walk is for: the entry itself, what it leads to, or a file to be filled. -/
inductive Aim where
  | entry | content | filling
  deriving DecidableEq, Repr

/-- A file to be filled is asked for with a slash behind its name. -/
def asksDirectory (aim : Aim) (rest : List Text) : Bool :=
  aim = .filling && !rest.isEmpty && rest.all List.isEmpty

/-- The refusal of a walk that cannot go on below a name. -/
def blocked (aim : Aim) (rest : List Text) (cause : FileFault) : FileFault :=
  if asksDirectory aim rest then .isDirectory else cause

/-- Walks down from a directory. The last name may be missing, and names a link itself if the walk
is for an entry. -/
def descend (t : FileTree) (aim : Aim) : Place → List Text → Except FileFault Halt
  | place, [] => .ok (.at place)
  | place, name :: rest =>
    if staysAt name then descend t aim place rest
    else if isUp name then descend t aim place.dropLast rest
    else
      let next := place ++ [name]
      if isLong nameLimit name then .error (blocked aim rest .nameTooLong)
      else match t.node? next with
      | none => if rest.isEmpty then .ok (.at next) else .error (blocked aim rest .missing)
      | some .directory => descend t aim next rest
      | some (.file _) =>
        if rest.isEmpty then .ok (.at next) else .error (blocked aim rest .notDirectory)
      | some (.link target) =>
        if rest.isEmpty && aim = .entry then .ok (.at next)
        else if asksDirectory aim rest then .error .isDirectory
        else .ok (.link place target rest)

def walkFrom (t : FileTree) (aim : Aim) : Nat → Place → List Text → Except FileFault Place
  | links, place, names =>
    match descend t aim place names with
    | .error fault => .error fault
    | .ok (.at found) => .ok found
    | .ok (.link directory target rest) =>
      match links with
      | 0 => .error .tooManyLinks
      | links + 1 =>
        walkFrom t aim links (originOf directory target) (namesOf target ++ rest)

/-- The place that a path leads to, which need not exist. -/
def walk (t : FileTree) (aim : Aim) (p : Path) : Except FileFault Place :=
  if isLong pathLimit p.text then .error .nameTooLong
  else walkFrom t aim linkLimit (t.origin p) (pathNames p)

/-- What a path leads to, links followed; nothing if the way is broken off. -/
def look (t : FileTree) (p : Path) : Except FileFault (Option Node) :=
  if p.holdsNull then .ok none
  else match t.walk .content p with
    | .ok place => .ok (t.node? place)
    | .error .nameTooLong => .error .nameTooLong
    | .error _ => .ok none

def find? (t : FileTree) (p : Path) : Option Node :=
  match t.look p with
  | .ok node => node
  | .error _ => none

def isFile (t : FileTree) (p : Path) : Bool :=
  match t.find? p with
  | some (.file _) => true
  | _ => false

def isDirectory (t : FileTree) (p : Path) : Bool := t.find? p = some .directory

/-- Goes down names as they stand, whatever the tree holds. -/
def goDown : Place → List Text → Place
  | place, [] => place
  | place, name :: rest =>
    if staysAt name then goDown place rest
    else if isUp name then goDown place.dropLast rest
    else goDown (place ++ [name]) rest

def pathTo (place : Place) : Path := ⟨['/'], place⟩

/-- What a path stands on while its links are replaced: the root, or a directory so many levels above
the current one. -/
inductive Base where
  | root
  | above (levels : Nat)
  deriving DecidableEq, Repr

/-- A path with all its links replaced so far. -/
structure Trail where
  base : Base
  names : List Text := []
  deriving DecidableEq, Repr

namespace Trail

def ofPath (p : Path) : Trail := ⟨if p.root.isEmpty then .above 0 else .root, []⟩

/-- The path as it is spelled when the file system is asked for it: from the current directory on as
long as no link has led to the root. -/
def path (r : Trail) : Path :=
  match r.base with
  | .root => ⟨['/'], r.names⟩
  | .above levels => ⟨[], List.replicate levels ['.', '.'] ++ r.names⟩

def up (r : Trail) : Trail :=
  match r.names, r.base with
  | [], .root => r
  | [], .above levels => ⟨.above (levels + 1), []⟩
  | _ :: _, _ => { r with names := r.names.dropLast }

def down (r : Trail) (name : Text) : Trail := { r with names := r.names ++ [name] }

def origin (r : Trail) (target : Text) : Trail :=
  if target.head? = some '/' then ⟨.root, []⟩ else r

end Trail

def placeAt (t : FileTree) (r : Trail) : Place :=
  match r.base with
  | .root => r.names
  | .above levels => t.current.take (t.current.length - levels) ++ r.names

/-- The file system does not refuse to look the path up for its length or that of a name. -/
def isShort (p : Path) : Bool :=
  !isLong pathLimit p.text && p.names.all fun name => !isLong nameLimit name

/-- The target of the link at the end of a trail. Where the file system refuses to look, none is
seen. -/
def linkAt (t : FileTree) (r : Trail) : Option Text :=
  if isShort r.path then
    match t.node? (t.placeAt r) with
    | some (.link target) => some target
    | _ => none
  else none

/-- Goes on from a path although a link on the way leads back to itself. What stands behind such a
link is read as a path: if it begins with a slash of its own, it begins at the root again. -/
def goOn (p : Path) (names : List Text) : Path :=
  match names with
  | [] :: _ :: _ => ⟨Path.rootOf (['/'].intercalate names), names⟩
  | _ => { p with names := p.names ++ names }

/-- The links met so far, each with the trail that it leads to once that is known. -/
abbrev Known := List (Trail × Option Trail)

inductive Resolution where
  | found (trail : Trail) (known : Known)
  /-- A link leads back to itself; the names behind it are left as they stand. -/
  | circle (path : Path)
  | tooDeep

/-- Goes down names and replaces links by `expand`. -/
def resolveNames (t : FileTree) (expand : Known → Trail → Text → Resolution) :
    Known → Trail → List Text → Resolution
  | known, trail, [] => .found trail known
  | known, trail, name :: rest =>
    if staysAt name then resolveNames t expand known trail rest
    else if isUp name then resolveNames t expand known trail.up rest
    else
      let next := trail.down name
      match t.linkAt next with
      | none => resolveNames t expand known next rest
      | some target =>
        match known.lookup next with
        | some (some found) => resolveNames t expand known found rest
        | some none => .circle (goOn next.path rest)
        | none =>
          match expand ((next, none) :: known) trail target with
          | .found found known => resolveNames t expand ((next, some found) :: known) found rest
          | .circle path => .circle (goOn path rest)
          | .tooDeep => .tooDeep

/-- Where the target of a link in the directory leads; `depth` bounds how deep links stand in
links. -/
def expandLink (t : FileTree) : Nat → Known → Trail → Text → Resolution
  | 0, _, _, _ => .tooDeep
  | depth + 1, known, directory, target =>
    resolveNames t (expandLink t depth) known (directory.origin target) (namesOf target)

def absolute (t : FileTree) (p : Path) : Path :=
  ⟨if p.root.isEmpty then ['/'] else p.root, goDown (t.origin p) p.names⟩

/-- The path itself, unless it leads through more links than the file system follows. -/
def unlessCircle (t : FileTree) (p : Path) : Except Fault Path :=
  match t.walk .content p with
  | .error .tooManyLinks => .error (.linkLoop p.text)
  | _ => .ok p

/-- A path from the root with every link replaced that is seen. -/
def resolve (t : FileTree) (depth : Nat) (p : Path) : Except Fault Path :=
  match resolveNames t (expandLink t depth) [] (.ofPath p) (pathNames p) with
  | .found trail _ => t.unlessCircle (pathTo (t.placeAt trail))
  | .circle path => t.unlessCircle (t.absolute path)
  | .tooDeep => .error .linksTooDeep

end FileTree

end PartProgram
