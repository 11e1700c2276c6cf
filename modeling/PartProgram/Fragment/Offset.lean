import PartProgram.Fragment.ToolRemark

/-! # The offsets of a fragment

A fragment takes up its fixture offset in one block and its tool length in the
next. Two motions in which only one of them counts are not safe, so the two
blocks are made one. Any other word on them is refused.
-/
namespace PartProgram

namespace OffsetRole

/-- The words a block with an offset may have, by their letters. -/
def allows (role : OffsetRole) (w : Word) : Bool :=
  match role, w.letter with
  | _, ['N'] => w.int?.isSome
  | fixture, ['G'] => w.int? = some 0 || w.int? = some 1
  | fixture, ['E'] => w.int?.isSome
  | fixture, ['X'] | fixture, ['Y'] | fixture, ['F'] => w.real?.isSome
  | length, ['H'] => w.int?.isSome
  | length, ['Z'] => w.real?.isSome
  | _, _ => false

/-- No word but those allowed, and none twice; `seen` are the letters passed. -/
def check (role : OffsetRole) (block : Text) : List Text → List Word → Except LayoutFault Unit
  | _, [] => .ok ()
  | seen, w :: rest =>
    if !role.allows w then .error (.strangeWord w.text role block)
    else if w.letter ∈ seen then .error (.repeatedWord w.letter w.text role block)
    else check role block (w.letter :: seen) rest

end OffsetRole

namespace Program

def body (p : Program) : List BlockId := (p.sections.map Sections.body).getD []

def hasLetter (p : Program) (letter : Text) (id : BlockId) : Bool :=
  (p.block id).words.any fun w => p.graph.letterOf w = letter

def wordsOf (p : Program) (id : BlockId) : List Word := (p.block id).words.filterMap (p.graph[·]?)

def firstText? (p : Program) (id : BlockId) (letter : Text) : Option Text :=
  ((p.block id).firstWord? p.graph letter).map p.graph.textOf

/-- The words of the one block that takes the place of the two. -/
def offsetTexts (p : Program) (fixture length : BlockId) : List Text :=
  [p.firstText? fixture ['N'], p.firstText? fixture ['G'], p.firstText? fixture ['E'],
    p.firstText? fixture ['X'], p.firstText? fixture ['Y'], p.firstText? length ['Z'],
    p.firstText? length ['H'], p.firstText? fixture ['F']].filterMap id

def findOffsets : Action Program (BlockId × BlockId) := do
  let p ← get
  match p.body.find? (p.hasLetter ['E']), p.body.find? (p.hasLetter ['H']) with
  | some fixture, some length => pure (fixture, length)
  | _, _ => refuse .noOffsets

def checkOffset (role : OffsetRole) (id : BlockId) : Action Program Unit := do
  let p ← get
  match role.check (p.rebuilt id) [] (p.wordsOf id) with
  | .ok () => pure ()
  | .error cause => refuse cause

/-- Puts one block with both offsets in the place of the two. -/
def combineOffsets : Action Program BlockId := do
  let (fixture, length) ← findOffsets
  let i ← indexOf fixture
  let j ← indexOf length
  if j ≠ i + 1 then refuse (.apart j i)
  checkOffset .fixture fixture
  checkOffset .length length
  let p ← get
  if (p.firstText? fixture ['G']).isNone then refuse (.noMotion (p.rebuilt fixture))
  let text : Text := [' '].intercalate (p.offsetTexts fixture length)
  let combined ← addBlock text none
  replaceBlock i combined
  removeBlock (← indexOf length)
  Action.log .debug .merge
    s!"{(← get).name.shown}: merged offset lines into {text.quoted.shown}"
  pure combined

end Program

end PartProgram
