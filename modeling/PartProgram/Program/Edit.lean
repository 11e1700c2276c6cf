import PartProgram.Program.Reading

/-! # Editing programs

Edits of the sequence of blocks, each followed by reading the whole program
again, and edits of single words, which leave the texts of the blocks alone.
-/
namespace PartProgram

/-- Takes the element at `i` out and puts it back before the one that was at `j`, or at the end. -/
def moveItem {α : Type} (i j : Nat) (l : List α) : List α :=
  match l[i]? with
  | none => l
  | some a => (l.eraseIdx i).insertIdx (if i < j then j - 1 else j) a

theorem length_moveItem {α : Type} {i j : Nat} {l : List α} (hj : j ≤ l.length) :
    (moveItem i j l).length = l.length := by
  unfold moveItem
  split
  · rfl
  · rename_i a ha
    have hi : i < l.length := (List.getElem?_eq_some_iff.mp ha).1
    have he : (l.eraseIdx i).length = l.length - 1 := List.length_eraseIdx_of_lt hi
    rw [List.length_insertIdx_of_le_length (by rw [he]; split <;> omega), he]
    omega

namespace Program

/-- An index into the sequence; those from outside are refused. -/
def checkIndex (index : Int) : Action Program Nat := do
  let count := (← get).length
  if 0 ≤ index ∧ index < count then pure index.toNat
  else throw (.blockIndex index count)

/-- Indices and columns that fit into a word of the machine. -/
def fitsIndex (index : Int) : Bool := -0x8000000000000000 ≤ index && index < 0x8000000000000000

/-- The block at an index; negative ones count from the end. -/
def blockAt (index : Int) : Action Program BlockId := do
  unless fitsIndex index do throw Fault.indexTooLarge
  let order := (← get).order
  let i := if index < 0 then index + order.length else index
  match (if i < 0 then none else order[i.toNat]?) with
  | some id => pure id
  | none => throw Fault.noSuchItem

def indexOf (id : BlockId) : Action Program Nat := do
  let p ← get
  match p.order.idxOf? id with
  | some i => pure i
  | none => throw (.strangeBlock (p.block id).text)

def replaceBlock (index : Int) (id : BlockId) : Action Program Unit := do
  let i ← checkIndex index
  modify fun p => { p with order := p.order.set i id }
  reread

def removeBlock (index : Int) : Action Program Unit := do
  let i ← checkIndex index
  modify fun p => { p with order := p.order.eraseIdx i }
  reread

/-- Moves a block before the one at `target`, both counted before the move. A block that is moved
before itself or its successor stays, and nothing is read again. -/
def moveBlock (index target : Int) : Action Program Unit := do
  let i ← checkIndex index
  let count := (← get).length
  unless 0 ≤ target ∧ target ≤ count do throw (Fault.moveTarget target count)
  if target = index ∨ target = index + 1 then pure ()
  else
    modify fun p => { p with order := moveItem i target.toNat p.order }
    reread

def setBlockText (id : BlockId) (text : Text) : Action Program Unit :=
  modify (·.modifyBlock id fun b => { b with text })

def appendComment (id : BlockId) (style : CommentStyle) (column : Nat) (comment : Text) :
    Action Program Unit := do
  let g := (← get).graph
  modify (·.modifyBlock id fun b => b.append g style column comment)

/-- A column that a caller asks for. Those that are not positive lie left of every text. -/
def checkColumn (column : Int) : Except Fault Nat :=
  if column ≤ 0 then .ok 0
  else if !fitsIndex column then .error .columnTooLarge
  else .ok column.toNat

def appendCommentFrom (id : BlockId) (style : CommentStyle) (column : Int) (comment : Text) :
    Action Program Unit := do
  let column ← Action.ofExcept (checkColumn column)
  appendComment id style column comment

def setWordText (id : WordId) (text : Text) : Action Program Unit := do
  match (← get).graph[id]? with
  | none => pure ()
  | some w =>
    let (written, result) := w.setText text
    modify (·.modifyWord id fun _ => written)
    Action.ofExcept result

def setWordInt (id : WordId) (i : Int) : Action Program Unit := do
  match (← get).graph[id]? with
  | none => pure ()
  | some w => setWordText id (← Action.ofExcept (w.numbered i))

end Program

end PartProgram
