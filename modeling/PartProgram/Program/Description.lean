import PartProgram.Program.Edit
import PartProgram.Word.Phrase

/-! # Descriptions

The phrases of a block are those of its words. Both are kept once they are read,
until the word or the block they belong to changes.
-/
namespace PartProgram.Program

def describeWord (id : WordId) : StateM Program Text := do
  let g := (← get).graph
  match g[id]? with
  | none => pure []
  | some w =>
    let (phrase, description) ← w.description.read (pure (g.phrase w))
    modify (·.modifyWord id fun w => { w with description })
    pure phrase

/-- The phrases of the words, without blank ones. -/
def joinPhrases (delimiter : Text) (phrases : List Text) : Text :=
  delimiter.intercalate (phrases.filter fun s => !Text.isBlankText s)

def describeBlock (delimiter : Text) (id : BlockId) : StateM Program Text := do
  let block := (← get).block id
  let (text, description) ← block.description.read (do
    let phrases ← block.words.mapM describeWord
    pure (joinPhrases delimiter phrases))
  modify (·.modifyBlock id fun b => { b with description })
  pure text

def forgetWord (p : Program) (id : WordId) : Program :=
  p.modifyWord id fun w => { w with description := .stale }

def forgetBlock (p : Program) (id : BlockId) : Program :=
  ((p.block id).words.foldl forgetWord p).modifyBlock id fun b => { b with description := .stale }

/-- Puts the description of a block behind it, unless it has none or has it already there. -/
def annotateBlock (delimiter : Text) (style : CommentStyle) (column : Nat) (id : BlockId) :
    Action Program Bool := do
  let description ← Action.ofState (describeBlock delimiter id)
  if description.isEmpty || ((← get).block id).endsWith (style.format description) then pure false
  else
    appendComment id style column description
    pure true

/-- Puts the descriptions behind all blocks, in one column beyond the longest of them, and counts
the blocks that got one. -/
def annotate (delimiter : Text) (style : CommentStyle) : Action Program Nat := do
  let order := (← get).order
  let column := (← get).width + 1
  let step (count : Nat) (id : BlockId) : Action Program Nat := do
    if ← annotateBlock delimiter style column id then pure (count + 1) else pure count
  let count ← Action.fold step 0 order
  Action.log .debug .program s!"Annotated {count} of {order.length} lines"
  pure count

end PartProgram.Program
