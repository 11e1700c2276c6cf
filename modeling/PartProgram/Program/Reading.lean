import PartProgram.Program.Section

/-! # Reading programs

One command is handed through all words of all blocks, in order: each word is
governed by the last command word before it, on its block or on an earlier one.
-/
namespace PartProgram.Program

/-- Makes a word and enters it among the dependents of the word that governs it. -/
def addWord (s : Text) (governing : Option WordId) (verbatim : Bool) : Action Program WordId := do
  let w ← Action.ofExcept (Word.ofText s governing verbatim)
  let id := (← get).graph.size
  modify fun p => { p with graph := p.graph.register w }
  pure id

def commandAfter (p : Program) (id : WordId) (governing : Option WordId) : Option WordId :=
  if (p.graph[id]?.map Word.governs).getD false then some id else governing

def readWord (s : Text) (governing : Option WordId) (verbatim : Bool) :
    Action Program (WordId × Option WordId) := do
  let id ← addWord s governing verbatim
  pure (id, (← get).commandAfter id governing)

def isSequenceNumber (g : WordGraph) (id : WordId) : Bool :=
  g[id]?.any fun w => w.letter = ['N'] && !w.verbatim

/-- Puts a word behind the words of a block. The first sequence number is the one that counts. -/
def enterWord (g : WordGraph) (id : WordId) (b : Block) : Block :=
  { b with
    words := b.words ++ [id]
    number := b.number <|> if isSequenceNumber g id then some id else none }

/-- Reads a block of the store from its text. A number too long to be read leaves the words before
it in the block. -/
def readBlock (id : BlockId) (governing : Option WordId) : Action Program (Option WordId) := do
  let block := (← get).block id
  let reading := Reading.ofText block.text
  modify (·.modifyBlock id fun b =>
    { b with
      instruction := reading.instruction, comments := reading.comments
      words := [], number := none, anomalies := reading.anomalies })
  for a in reading.anomalies do
    Action.log .debug .block s!"Formatting anomaly in {block.text.quoted.shown}: {a.message}"
  let trailing ← reading.tokens.foldlM (fun governing (s, verbatim) => do
    let (word, next) ← readWord s governing verbatim
    let g := (← get).graph
    modify (·.modifyBlock id (enterWord g word))
    pure next) governing
  modify (·.modifyBlock id fun b => { b with trailing, description := .stale })
  pure trailing

/-- Puts a new block into the store, not into the sequence. -/
def addBlock (text : Text) (governing : Option WordId) : Action Program BlockId := do
  let id := (← get).store.size
  modify fun p => { p with store := p.store.push { text, trailing := governing } }
  let _ ← readBlock id governing
  pure id

def readLine (governing : Option WordId) (line : Text) : Action Program (Option WordId) := do
  let id ← addBlock line governing
  pure ((← get).block id).trailing

def readLines (ls : List Text) : Action Program Unit := do
  let _ ← Action.fold readLine none ls
  modify fun p => { p with order := List.range p.store.size }
  classify

def readText (s : Text) : Action Program Unit := readLines s.lines

def reread : Action Program Unit := do
  let _ ← Action.fold (fun governing id => readBlock id governing) none (← get).order
  classify

end PartProgram.Program
