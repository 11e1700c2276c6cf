import PartProgram.Block.Comment
import PartProgram.Block.Token
import PartProgram.Word.Basic

/-! # Blocks

A block is one line of a program: instruction text, comments, and the words the
instruction text was cut into.
-/
namespace PartProgram

open Unicode

/-- What the text of a block says, before any word is made of it. -/
structure Reading where
  instruction : Text
  comments : List Text
  /-- The text of each word, and whether it is to be kept as it stands. -/
  tokens : List (Text × Bool)
  anomalies : List Anomaly
  deriving DecidableEq, Repr

namespace Reading

/-- A block whose text begins so is not cut into words: the control may pass over it, or it is a
boundary of the program. -/
def isPassedOver (s : Text) : Bool := s.head? = some '/' || s.head? = some '%'

def ofText (s : Text) : Reading :=
  let (instruction, comments) := Comment.split s
  let trimmed := instruction.trim
  if isPassedOver trimmed then ⟨instruction, comments, [], []⟩
  else if hasMeta trimmed then ⟨instruction, comments, [(trimmed, true)], []⟩
  else ⟨instruction, comments, (Token.tokens instruction).map (·, false), Anomaly.find instruction⟩

end Reading

abbrev BlockId := Nat

structure Block where
  text : Text
  instruction : Text := []
  comments : List Text := []
  words : List WordId := []
  /-- The word that carries the sequence number. -/
  number : Option WordId := none
  anomalies : List Anomaly := []
  /-- The command in force after the block. -/
  trailing : Option WordId := none
  description : Cached Text := .stale
  deriving Inhabited

namespace WordGraph

def textOf (g : WordGraph) (id : WordId) : Text := (g[id]?.map Word.text).getD []

def letterOf (g : WordGraph) (id : WordId) : Text := (g[id]?.map Word.letter).getD []

end WordGraph

namespace Block

def label (b : Block) : String := blockLabel b.text

/-- The instruction part as it stands now: the words, or the instruction text if there are none. -/
def instructions (g : WordGraph) (b : Block) : Text :=
  if b.words.isEmpty then b.instruction
  else b.words.flatMap fun id => g.textOf id ++ [' ']

/-- The text that the present words and comments make. -/
def rebuilt (g : WordGraph) (b : Block) : Text :=
  (b.instructions g ++ b.comments.flatten).trim

def isEmpty (g : WordGraph) (b : Block) : Bool := (b.rebuilt g).isEmpty

/-- The block holds comments and no words. -/
def isRemark (b : Block) : Bool := b.words.isEmpty && !b.comments.isEmpty

def firstWord? (g : WordGraph) (b : Block) (letter : Text) : Option WordId :=
  b.words.find? fun id => g.letterOf id = upperText letter

/-- The first word with a letter asked for by a caller, which has to be one letter. -/
def firstWord (g : WordGraph) (b : Block) (letter : Text) : Except Fault (Option WordId) :=
  match letter with
  | [c] => if isLetter c then .ok (b.firstWord? g letter) else .error (.notALetter letter)
  | _ => .error (.notALetter letter)

/-- The text of the block with a comment behind it, from the given column on. -/
def remarked (g : WordGraph) (b : Block) (style : CommentStyle) (column : Nat) (comment : Text) :
    Text :=
  (b.rebuilt g).padRight column ++ ' ' :: style.format comment

/-- The block with a comment behind it. The words stay; the comments are read again, since a
comment that was not closed takes up what follows it. -/
def append (g : WordGraph) (b : Block) (style : CommentStyle) (column : Nat) (comment : Text) :
    Block :=
  let text := b.remarked g style column comment
  let (instruction, comments) := Comment.split text
  { b with text, instruction, comments }

/-- The last comment already ends with this one. -/
def endsWith (b : Block) (comment : Text) : Bool :=
  b.comments.getLast?.any fun last => Text.endsWith last.trimRight comment

end Block

end PartProgram
