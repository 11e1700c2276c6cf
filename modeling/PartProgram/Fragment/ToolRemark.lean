import PartProgram.Program.Edit

/-! # The tool remark of a fragment

Every fragment describes its tool in one comment of its own. Before fragments are
joined it is moved behind the first other comment, which names the operation.
-/
namespace PartProgram.Program

def toolRemarks (p : Program) : List BlockId := (p.sections.map Sections.toolRemarks).getD []

def otherRemarks (p : Program) : List BlockId := (p.sections.map Sections.otherRemarks).getD []

def refuse {α : Type} (cause : LayoutFault) : Action Program α := do
  throw (.layout (← get).name cause)

def findRemarks : Action Program (BlockId × BlockId) := do
  let p ← get
  match p.toolRemarks, p.otherRemarks with
  | [tool], operation :: _ => pure (tool, operation)
  | [_], [] => refuse .noOperationRemark
  | tools, _ => refuse (.toolRemarks tools.length)

def moveToolRemark : Action Program Unit := do
  let (tool, operation) ← findRemarks
  let i ← indexOf tool
  let j ← indexOf operation
  moveBlock i (j + 1)
  Action.log .debug .merge
    s!"{(← get).name.shown}: moved tool comment from line {i} to follow line {j}"

end PartProgram.Program
