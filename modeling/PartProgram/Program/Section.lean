import PartProgram.Program.Basic

/-! # Sections

Empty blocks cut a fragment in three: the header ends with the first empty block,
the body with the second, and the footer is what remains. Without them the later
sections are short or missing.
-/
namespace PartProgram

variable {α : Type}

/-- Cuts a list behind the first element with the property. -/
def cutAfter (p : α → Bool) : List α → List α × List α
  | [] => ([], [])
  | a :: rest =>
    if p a then ([a], rest)
    else
      let (before, after) := cutAfter p rest
      (a :: before, after)

theorem cutAfter_append (p : α → Bool) (l : List α) : (cutAfter p l).1 ++ (cutAfter p l).2 = l := by
  induction l with
  | nil => rfl
  | cons a rest ih =>
    simp only [cutAfter]
    split
    · rfl
    · simpa using ih

namespace Program

def isToolRemark (p : Program) (toolMark : Text) (id : BlockId) : Bool :=
  (p.block id).isRemark && (p.block id).comments.head?.any fun c => Text.startsWith c toolMark

def isOtherRemark (p : Program) (toolMark : Text) (id : BlockId) : Bool :=
  (p.block id).isRemark && !p.isToolRemark toolMark id

def cutSections (p : Program) (toolMark : Text) : Sections :=
  let (header, rest) := cutAfter p.isEmptyBlock p.order
  let (body, footer) := cutAfter p.isEmptyBlock rest
  { toolMark, header, body, footer
    toolRemarks := p.order.filter (p.isToolRemark toolMark)
    otherRemarks := p.order.filter (p.isOtherRemark toolMark) }

theorem cutSections_append (p : Program) (toolMark : Text) :
    (p.cutSections toolMark).header ++ (p.cutSections toolMark).body ++
      (p.cutSections toolMark).footer = p.order := by
  simp only [cutSections, List.append_assoc, cutAfter_append]

def isBodyClosed (p : Program) : Bool := 2 ≤ p.order.countP p.isEmptyBlock

def shortSections (p : Program) (s : Sections) : String :=
  let name : Text := match p.path with
    | none | some [] => "fragment".toList
    | some path => path
  s!"{name.shown}: found fewer than two blank separators, " ++
    s!"regions are {s.header.length}/{s.body.length}/{s.footer.length} lines"

/-- Cuts a fragment into its sections anew; of any other program it changes nothing. -/
def classify : Action Program Unit := do
  let p ← get
  match p.sections with
  | none => pure ()
  | some old =>
    let sections := p.cutSections old.toolMark
    unless p.isBodyClosed do Action.log .debug .sections (p.shortSections sections)
    modify fun p => { p with sections := some sections }

end Program

end PartProgram
