import PartProgram.Block.Basic

/-! # Programs

A program is a sequence of blocks over one graph of words. Blocks are kept in a
store and named by their place in it, so that a block taken out of the sequence,
or standing in it twice, is still the same block. A program that is a fragment of
a larger one is cut into sections.
-/
namespace PartProgram

/-- The sections of a fragment, and the blocks that hold nothing but comments: those that begin
with the mark of a tool description, and the others. -/
structure Sections where
  toolMark : Text
  header : List BlockId := []
  body : List BlockId := []
  footer : List BlockId := []
  toolRemarks : List BlockId := []
  otherRemarks : List BlockId := []
  deriving DecidableEq, Repr, Inhabited

structure Program where
  path : Option Text := none
  graph : WordGraph := #[]
  store : Array Block := #[]
  order : List BlockId := []
  sections : Option Sections := none
  deriving Inhabited

namespace Program

def length (p : Program) : Nat := p.order.length

/-- A place outside the store stands for an empty block. -/
def block (p : Program) (id : BlockId) : Block := p.store[id]?.getD { text := [] }

def blocks (p : Program) : List Block := p.order.map p.block

def rebuilt (p : Program) (id : BlockId) : Text := (p.block id).rebuilt p.graph

def isEmptyBlock (p : Program) (id : BlockId) : Bool := (p.block id).isEmpty p.graph

def name (p : Program) : Text :=
  match p.path with
  | none | some [] => "<fragment>".toList
  | some path => path

def width (p : Program) : Nat := (p.order.map fun id => (p.rebuilt id).length).foldl max 0

def lines (p : Program) : List Text := p.blocks.map Block.text

def text (p : Program) : Text := Text.ofLines p.lines

def modifyWord (p : Program) (id : WordId) (f : Word → Word) : Program :=
  { p with graph := p.graph.modify id f }

def modifyBlock (p : Program) (id : BlockId) (f : Block → Block) : Program :=
  { p with store := p.store.modify id f }

/-- A program before any block is read. With a mark for tool descriptions it is a fragment. -/
def start (path : Option Text) (toolMark : Option Text) : Program :=
  { path, sections := toolMark.map fun toolMark => { toolMark } }

end Program

end PartProgram
