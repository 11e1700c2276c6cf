import PartProgram.Program.Description
import PartProgram.Proofs.Program.Threaded

/-! # What can be seen of a program

Words and blocks are seen by their places in the program, whatever places they have
in the graph and in the store: each word with its text, its numbers and the places of
the words it is tied to, each block with what it was read as, and the sections as
lists of places. Cached descriptions are not seen.
-/
namespace PartProgram

/-- A word as it is seen. A word it is tied to has no place if it stands on no block. -/
structure WordView where
  text : Text
  letter : Text
  verbatim : Bool
  numbers : Numbers
  governing : Option (Option Nat)
  dependents : List (Option Nat)
  deriving DecidableEq, Repr

structure BlockView where
  text : Text
  instruction : Text
  comments : List Text
  words : List (Option WordView)
  number : Option (Option Nat)
  trailing : Option (Option Nat)
  deriving DecidableEq, Repr

structure SectionsView where
  toolMark : Text
  header : List (Option Nat)
  body : List (Option Nat)
  footer : List (Option Nat)
  toolRemarks : List (Option Nat)
  otherRemarks : List (Option Nat)
  deriving DecidableEq, Repr

structure View where
  blocks : List BlockView
  sections : Option SectionsView
  deriving DecidableEq, Repr

namespace Program

def wordPlace (p : Program) (w : WordId) : Option Nat := p.words.idxOf? w

def blockPlace (p : Program) (id : BlockId) : Option Nat := p.order.idxOf? id

def wordView (p : Program) (v : Word) : WordView where
  text := v.text
  letter := v.letter
  verbatim := v.verbatim
  numbers := v.numbers
  governing := v.governing.map p.wordPlace
  dependents := v.dependents.toList.map p.wordPlace

def wordViews (p : Program) (b : Block) : List (Option WordView) :=
  b.words.map fun w => p.graph[w]?.map p.wordView

def blockView (p : Program) (b : Block) : BlockView where
  text := b.text
  instruction := b.instruction
  comments := b.comments
  words := p.wordViews b
  number := b.number.map p.wordPlace
  trailing := b.trailing.map p.wordPlace

def sectionsView (p : Program) (s : Sections) : SectionsView where
  toolMark := s.toolMark
  header := s.header.map p.blockPlace
  body := s.body.map p.blockPlace
  footer := s.footer.map p.blockPlace
  toolRemarks := s.toolRemarks.map p.blockPlace
  otherRemarks := s.otherRemarks.map p.blockPlace

def view (p : Program) : View where
  blocks := p.blocks.map p.blockView
  sections := p.sections.map p.sectionsView

def phraseOf (p : Program) (w : WordId) : Text := (p.graph[w]?.map p.graph.phrase).getD []

def descriptionOf (delimiter : Text) (p : Program) (id : BlockId) : Text :=
  joinPhrases delimiter ((p.block id).words.map p.phraseOf)

end Program

end PartProgram
