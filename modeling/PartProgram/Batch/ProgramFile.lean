import PartProgram.Files.Disk
import PartProgram.Program.Description
import PartProgram.Settings

/-! # Program files

Reading a program from a file, writing it, and writing an annotated copy under a
name that nothing has yet.
-/
namespace PartProgram.Disk

variable {m : Type → Type} [Disk m]

/-- Reads a program; with a mark for tool descriptions, as a fragment. -/
def loadProgram (p : Path) (toolMark : Option Text) : m Program := do
  unless ← isFile p do throw (Fault.noProgramFile p.text)
  log .debug .program s!"Parsing {p.text.shown}"
  let text := Text.unifyBreaks (Text.decode (← read p))
  let (_, program) ← perform (Program.readText text) (Program.start (some p.text) toolMark)
  pure program

def writeProgram (program : Program) (p : Path) : m Unit := do
  write p.normal (Text.encode program.text)
  log .info .program s!"Wrote {program.length} lines to {p.normal.text.shown}"

/-- The first numbered name from `i` on that is free, among `tries` of them. -/
def firstFree (p : Path) : Nat → Nat → m Path
  | 0, i => ofExcept (p.numbered i)
  | tries + 1, i => do
    let candidate ← ofExcept (p.numbered i)
    if ← exist candidate then firstFree p tries (i + 1) else pure candidate

/-- The path itself if it is free. There are no more names taken than the directory has entries, so
as many tries reach a free one. -/
def makeUnique (p : Path) : m Path := do
  if ← exist p then
    let _ ← ofExcept (p.numbered 1)
    firstFree p (← children p.parent).length 1
  else pure p

/-- Where an annotated copy goes unless told otherwise. -/
def copyPath (s : Settings) (p : Path) : m Path := do
  makeUnique (← ofExcept (p.appendToName s.copySuffix)).normal

/-- Writes an annotated copy to the path that `target` finds once the program is annotated. -/
def annotateTo (s : Settings) (path : Text) (target : m Path) (style : Option Text) : m Path := do
  let program ← loadProgram (Path.ofText path) none
  let (_, annotated) ← perform (Program.annotate s.delimiter (s.style.named style)) program
  let out ← target
  writeProgram annotated out
  log .info .annotated s!"Annotated {path.shown} -> {out.text.shown}"
  pure out

def annotateFile (s : Settings) (path : Text) (output : Option Text) (style : Option Text) :
    m Path :=
  match output with
  | some o => annotateTo s path (pure (Path.ofText o)) style
  | none => annotateTo s path (copyPath s (Path.ofText path)) style

end PartProgram.Disk
