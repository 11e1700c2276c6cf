import PartProgram.Fragment.Offset

/-! # Joining fragments

The joined program has the header of the first fragment, all bodies, and the
footer of the last one, with sequence numbers that run through the whole. All
fragments are brought into their usual form before any number is written.
-/
namespace PartProgram

/-- The blocks joined so far, the last one first, and the next sequence number. -/
structure Assembly where
  next : Int
  fragments : Nat := 0
  lines : List Text := []
  deriving Repr

namespace Program

def normalize : Action Program Unit := do
  moveToolRemark
  let _ ← combineOffsets

/-- Gives the sequence number of a block, if it has one, the next number. -/
def renumber (id : BlockId) (number : Int) : Action Program Bool := do
  let p ← get
  match (p.block id).number with
  | none => pure false
  | some word =>
    match Number.text? number with
    | none => throw Fault.unwritableNumber
    | some numeral =>
      Action.log .trace .merge
        s!"renumber {(p.graph.textOf word).shown} -> N{Text.shown numeral}"
      setWordInt word number
      pure true

def takeOver (step : Int) (a : Assembly) (id : BlockId) : Action Program Assembly := do
  let numbered ← renumber id a.next
  let line := (← get).rebuilt id
  pure { a with next := if numbered then a.next + step else a.next, lines := line :: a.lines }

/-- The blocks that the fragment at `index` of `count` gives to the joined program. -/
def share (index count : Nat) (s : Sections) : List BlockId :=
  (if index = 0 then s.header else []) ++ s.body ++ (if index + 1 = count then s.footer else [])

def joinOn (step : Int) (count : Nat) (a : Assembly) : Action Program Assembly := do
  let sections := (← get).sections.getD default
  let a ← Action.fold (takeOver step) a (share a.fragments count sections)
  pure { a with fragments := a.fragments + 1 }

end Program

def joinFragments (start step : Int) : Action (List Program) (List Text) := do
  Action.sweep (fun _ => Program.normalize) ()
  let count := (← get).length
  let a ← Action.sweep (Program.joinOn step count) { next := start }
  pure a.lines.reverse

end PartProgram
