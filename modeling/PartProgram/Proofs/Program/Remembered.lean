import PartProgram.Proofs.Program.Edited

/-! # Descriptions after words were changed

A word forgets its phrase when it is given a new text, but not when a word that depends
on it is, and a block never forgets. So what is read is what the words said when the
phrase was first read: it is right exactly if they would still give the same phrase.
-/
namespace PartProgram

open WordGraph

/-- All that the phrase of a word, or of a word it depends on, is made of. -/
def Word.face (v : Word) : Char × Option Int × Bool × Array WordId :=
  (v.address, v.int?, v.verbatim, v.dependents)

/-- What of a word no new text changes. -/
def Word.ties (v : Word) : Bool × Array WordId := (v.verbatim, v.dependents)

/-- The word with the numbers that its text reads as. A number too long to be read is none. -/
def Word.asWritten (v : Word) : Word :=
  { v with numbers := (Numbers.read v.rest).toOption.getD {} }

namespace WordGraph

def dependentsOf (g : WordGraph) (w : WordId) : Array WordId :=
  (g[w]?.map Word.dependents).getD #[]

theorem phrase_congr {g g' : WordGraph} {v u : Word} (hface : v.face = u.face)
    (h : ∀ d ∈ u.dependents, g[d]?.map Word.face = g'[d]?.map Word.face) :
    g.phrase v = g'.phrase u := by
  obtain ⟨haddress, hint, hverbatim, hdependents⟩ :
      v.address = u.address ∧ v.int? = u.int? ∧ v.verbatim = u.verbatim ∧
        v.dependents = u.dependents := by
    simpa only [Word.face, Prod.mk.injEq] using hface
  have hletter : v.letter = u.letter := by rw [Word.letter, Word.letter, haddress]
  have hletters : ∀ d ∈ u.dependents, g[d]?.map Word.letter = g'[d]?.map Word.letter := by
    intro d hd
    have hsame := congrArg (Option.map fun x => Unicode.upper x.1) (h d hd)
    rwa [Option.map_map, Option.map_map] at hsame
  have hints : ∀ d ∈ u.dependents, g[d]?.bind Word.int? = g'[d]?.bind Word.int? := by
    intro d hd
    have hsame := congrArg (Option.bind · fun x => x.2.1) (h d hd)
    rwa [Option.bind_map, Option.bind_map] at hsame
  have hdependent : ∀ letter, g.dependentInt? v letter = g'.dependentInt? u letter := by
    intro letter
    have hfirst : g.dependent? v letter = g'.dependent? u letter := by
      rw [dependent?, dependent?, hdependents, ← Array.find?_toList, ← Array.find?_toList]
      exact List.find?_congr fun d hd => by rw [hletters d (Array.mem_toList_iff.mp hd)]
    rw [dependentInt?, dependentInt?, hfirst]
    cases hd : g'.dependent? u letter with
    | none => rfl
    | some d => exact hints d (Array.mem_of_find?_eq_some hd)
  simp only [WordGraph.phrase, hverbatim, hletter, hint, hdependent]

end WordGraph

namespace Program

variable {p q : Program} {w : WordId} {delimiter : Text}

theorem phraseOf_congr (h : ∀ d, d = w ∨ d ∈ p.graph.dependentsOf w →
    q.graph[d]?.map Word.face = p.graph[d]?.map Word.face) : q.phraseOf w = p.phraseOf w := by
  have hword := h w (.inl rfl)
  rw [phraseOf, phraseOf]
  cases hp : p.graph[w]? with
  | none =>
    rw [hp, Option.map_none, Option.map_eq_none_iff] at hword
    rw [hword]
    rfl
  | some u =>
    rw [hp, Option.map_some] at hword
    obtain ⟨v, hv, hface⟩ := Option.map_eq_some_iff.mp hword
    rw [hv, Option.map_some, Option.map_some, Option.getD_some, Option.getD_some]
    refine phrase_congr hface fun d hd => h d (.inr ?_)
    rw [dependentsOf, hp]
    exact hd

/-- The program with the numbers that the texts of its words read as. -/
def asWritten (p : Program) : Program := { p with graph := p.graph.map Word.asWritten }

/-- Words have the same dependents, and blocks the same words. -/
structure SameShape (p q : Program) : Prop where
  words : ∀ w : WordId, q.graph[w]?.map Word.ties = p.graph[w]?.map Word.ties
  size : q.store.size = p.store.size
  blocks : ∀ id, (q.block id).words = (p.block id).words

theorem SameShape.refl (p : Program) : SameShape p p := ⟨fun _ => rfl, rfl, fun _ => rfl⟩

theorem SameShape.symm (h : SameShape p q) : SameShape q p :=
  ⟨fun w => (h.words w).symm, h.size.symm, fun id => (h.blocks id).symm⟩

theorem SameShape.trans {r : Program} (h : SameShape p q) (h' : SameShape q r) : SameShape p r :=
  ⟨fun w => (h'.words w).trans (h.words w), h'.size.trans h.size,
    fun id => (h'.blocks id).trans (h.blocks id)⟩

/-- At the moment `m` the word and those that depend on it had the texts they have in `q`, and the
numbers that these read as. -/
def SameTexts (w : WordId) (m q : Program) : Prop :=
  ∀ d, d = w ∨ d ∈ q.graph.dependentsOf w → ∃ x, m.graph.Shows d x ∧ q.graph.textOf d = x.1

/-- Where no text has changed the phrase is still right. -/
theorem SameTexts.phraseOf_eq {m : Program} (h : SameTexts w m q) (hs : SameShape m q) :
    m.phraseOf w = q.asWritten.phraseOf w := by
  refine phraseOf_congr fun d hd => ?_
  have hdependents : q.asWritten.graph.dependentsOf w = q.graph.dependentsOf w := by
    simp only [dependentsOf, asWritten, Array.getElem?_map, Option.map_map]
    rfl
  rw [hdependents] at hd
  obtain ⟨x, ⟨v, hv, hsays⟩, htext⟩ := h d hd
  have hshape := hs.words d
  rw [hv, Option.map_some] at hshape
  obtain ⟨u, hu, hsame⟩ := Option.map_eq_some_iff.mp hshape
  rw [WordGraph.textOf, hu, Option.map_some, Option.getD_some, ← hsays.text] at htext
  obtain ⟨haddress, hrest⟩ := List.cons.inj htext
  obtain ⟨hverbatim, hdeps⟩ := Prod.mk.inj hsame
  simp only [asWritten, Array.getElem?_map, hu, hv, Option.map_some, Word.face, Word.asWritten,
    Word.int?, haddress, hrest, hsays.numbers, hverbatim, hdeps]
  rfl

def toldWord (p : Program) (w : WordId) : Text := ((describeWord w).run p).1

def toldBlock (delimiter : Text) (p : Program) (id : BlockId) : Text :=
  ((describeBlock delimiter id).run p).1

theorem toldWord_eq (p : Program) (w : WordId) : p.toldWord w =
    (p.graph[w]?.map fun v => v.description.valueOr (p.phraseOf w)).getD [] := by
  rw [toldWord, describeWord_run]
  cases hw : p.graph[w]? with
  | none => rfl
  | some v => simp only [keptPhrase, hw, Option.map_some, Option.getD_some]

theorem toldWord_congr (h : q.graph = p.graph) (w : WordId) : q.toldWord w = p.toldWord w := by
  simp only [toldWord_eq, phraseOf, h]

/-- The program in which these words keep what was told of them. -/
def keepWords (p : Program) (ws : List WordId) : Program :=
  { p with graph := p.graph.mapIdx fun w v =>
      if w ∈ ws then { v with description := .fresh (p.toldWord w) } else v }

theorem getElem?_keepWords (p : Program) (ws : List WordId) (w : WordId) :
    (p.keepWords ws).graph[w]? = p.graph[w]?.map fun v =>
      if w ∈ ws then { v with description := .fresh (p.toldWord w) } else v := by
  rw [keepWords, Array.getElem?_mapIdx]

theorem sameShape_keepWords (p : Program) (ws : List WordId) : SameShape p (p.keepWords ws) := by
  refine ⟨fun w => ?_, rfl, fun _ => rfl⟩
  rw [getElem?_keepWords, Option.map_map]
  refine congrArg (Option.map · _) (funext fun v => ?_)
  dsimp only [Function.comp]
  split <;> rfl

theorem phraseOf_keepWords (p : Program) (ws : List WordId) (w : WordId) :
    (p.keepWords ws).phraseOf w = p.phraseOf w := by
  refine phraseOf_congr fun d _ => ?_
  rw [getElem?_keepWords, Option.map_map]
  refine congrArg (Option.map · _) (funext fun v => ?_)
  dsimp only [Function.comp]
  split <;> rfl

theorem toldWord_keepWords (p : Program) (ws : List WordId) (w : WordId) :
    (p.keepWords ws).toldWord w = p.toldWord w := by
  rw [toldWord_eq, phraseOf_keepWords, getElem?_keepWords, Option.map_map]
  cases hw : p.graph[w]? with
  | none => rw [toldWord_eq, hw]; rfl
  | some v =>
    rw [Option.map_some, Option.getD_some]
    dsimp only [Function.comp]
    split
    · rfl
    · rw [toldWord_eq, hw]
      rfl

theorem describeWord_run_eq (p : Program) (w : WordId) :
    (describeWord w).run p = (p.toldWord w, p.keepWords [w]) := by
  have hstate : ((describeWord w).run p).2 = p.keepWords [w] := by
    rw [describeWord_run]
    cases hw : p.graph[w]? with
    | none =>
      have hsame : p.graph = (p.keepWords [w]).graph := Array.ext_getElem? fun i => by
        rw [getElem?_keepWords]
        cases hi : p.graph[i]? with
        | none => rfl
        | some v =>
          have hne : i ≠ w := by
            rintro rfl
            simp [hw] at hi
          simp [hne]
      exact congrArg (fun g => { p with graph := g }) hsame
    | some v =>
      have htold : (p.keptPhrase w).valueOr (p.phraseOf w) = p.toldWord w := by
        rw [toldWord_eq, keptPhrase, hw]
        rfl
      have hsame : (p.keepPhrase w (p.toldWord w)).graph = (p.keepWords [w]).graph :=
        Array.ext_getElem? fun i => by
          rw [getElem?_keepWords, keepPhrase, modifyWord, Array.getElem?_modify]
          by_cases hi : w = i
          · simp [hi]
          · simp [hi, Ne.symm hi]
      dsimp only
      rw [htold]
      exact congrArg (fun g => { p with graph := g }) hsame
  exact Prod.ext rfl hstate

theorem keepWords_nil (p : Program) : p.keepWords [] = p := by
  have hsame : (p.keepWords []).graph = p.graph := Array.ext_getElem? fun i => by
    rw [getElem?_keepWords]
    simp
  exact congrArg (fun g => { p with graph := g }) hsame

theorem keepWords_keepWords (p : Program) (ws vs : List WordId) :
    (p.keepWords ws).keepWords vs = p.keepWords (ws ++ vs) := by
  have hsame : ((p.keepWords ws).keepWords vs).graph = (p.keepWords (ws ++ vs)).graph :=
    Array.ext_getElem? fun i => by
      rw [getElem?_keepWords, getElem?_keepWords, getElem?_keepWords, Option.map_map,
        toldWord_keepWords]
      refine congrArg (Option.map · _) (funext fun v => ?_)
      dsimp only [Function.comp]
      by_cases hi : i ∈ ws <;> by_cases hi' : i ∈ vs <;> simp [hi, hi']
  exact congrArg (fun g => { p with graph := g }) hsame

/-- What is told of words one after the other is what would be told of each first. -/
theorem describeWords_run (p : Program) (ws : List WordId) :
    (ws.mapM describeWord).run p = (ws.map p.toldWord, p.keepWords ws) := by
  induction ws generalizing p with
  | nil => exact Prod.ext rfl (keepWords_nil p).symm
  | cons w ws ih =>
    rw [List.mapM_cons, runState_bind, runState_bind, StateT.run_pure, describeWord_run_eq, ih,
      keepWords_keepWords]
    exact Prod.ext (congrArg (p.toldWord w :: ·)
      (List.map_congr_left fun v _ => toldWord_keepWords p [w] v)) rfl

theorem toldBlock_eq (p : Program) (id : BlockId) : p.toldBlock delimiter id =
    (p.block id).description.valueOr
      (joinPhrases delimiter ((p.block id).words.map p.toldWord)) := by
  rw [toldBlock, describeBlock_run, describeWords_run]
  cases (p.block id).description <;> rfl

/-- After a block was looked at it keeps what was told of it, and its words do so if they were asked
for it. -/
theorem look_block (p : Program) (id : BlockId) : p.look delimiter (.block id) =
    (if (p.block id).description.isStale then p.keepWords (p.block id).words else p).keepDescription
      id (p.toldBlock delimiter id) := by
  rw [look, Look.read, describeBlock_run, toldBlock_eq, describeWords_run]
  cases (p.block id).description <;> rfl

theorem look_word (p : Program) (w : WordId) : p.look delimiter (.word w) = p.keepWords [w] := by
  rw [look, Look.read, describeWord_run_eq]

inductive WordStep where
  | setText (w : WordId) (s : Text)
  | setInt (w : WordId) (i : Int)
  | look (l : Look)
  deriving DecidableEq, Repr

def WordStep.perform (delimiter : Text) : WordStep → Action Program Unit
  | setText w s => setWordText w s
  | setInt w i => setWordInt w i
  | look l => modify fun p => p.look delimiter l

def handle (delimiter : Text) (p : Program) (s : WordStep) : Program :=
  ((s.perform delimiter).run p).state

/-- One word was given a new text; only if it was accepted the word forgets its phrase. -/
structure Assigned (w : WordId) (accepted : Bool) (p p' : Program) : Prop where
  store : p'.store = p.store
  other : ∀ i ≠ w, p'.graph[i]? = p.graph[i]?
  ties : p'.graph[w]?.map Word.ties = p.graph[w]?.map Word.ties
  kept : p'.graph[w]?.map Word.description =
    p.graph[w]?.map fun v => if accepted then .stale else v.description

theorem setText_kept (v : Word) (s : Text) : (v.setText s).1.ties = v.ties ∧
    (v.setText s).1.description = if (v.setText s).2.isOk then .stale else v.description := by
  cases s with
  | nil => exact ⟨rfl, rfl⟩
  | cons address rest =>
    cases hn : Numbers.read rest <;> simp only [Word.setText, hn] <;> exact ⟨rfl, rfl⟩

theorem assigned_refused (p : Program) (w : WordId) : Assigned w false p p :=
  ⟨rfl, fun _ _ => rfl, rfl, by simp⟩

theorem setWordText_assigned (p : Program) (w : WordId) (s : Text) :
    Assigned w ((setWordText w s).run p).result.isOk p ((setWordText w s).run p).state := by
  cases hw : p.graph[w]? with
  | none =>
    rw [setWordText_absent hw]
    exact ⟨rfl, fun _ _ => rfl, rfl, by rw [hw]; rfl⟩
  | some v =>
    obtain ⟨hties, hkept⟩ := setText_kept v s
    rw [setWordText_run hw]
    refine ⟨rfl, fun i hi => getElem?_modifyWord_of_ne hi _, ?_, ?_⟩
    · rw [getElem?_modifyWord hw, hw, Option.map_some, Option.map_some, hties]
    · rw [getElem?_modifyWord hw, hw, Option.map_some, Option.map_some, hkept]

theorem setWordInt_assigned (p : Program) (w : WordId) (i : Int) :
    Assigned w ((setWordInt w i).run p).result.isOk p ((setWordInt w i).run p).state := by
  cases hw : p.graph[w]? with
  | none =>
    rw [setWordInt_absent hw]
    exact ⟨rfl, fun _ _ => rfl, rfl, by rw [hw]; rfl⟩
  | some v =>
    cases hn : v.numbered i with
    | error fault =>
      rw [setWordInt_refused hw hn]
      exact assigned_refused p w
    | ok text =>
      rw [setWordInt_written hw hn]
      exact setWordText_assigned p w text

theorem Assigned.sameShape {accepted : Bool} {p' : Program} (h : Assigned w accepted p p') :
    SameShape p p' := by
  refine ⟨fun i => ?_, by rw [h.store], fun id => by rw [Program.block, Program.block, h.store]⟩
  by_cases hi : i = w
  · exact hi ▸ h.ties
  · rw [h.other i hi]

/-- A program as it stands after some steps, and for what is kept the moment it was first read at:
for a word the program as it stood then, for a block one program for each of its words. -/
structure Record where
  now : Program
  word : WordId → Option Program := fun _ => none
  block : BlockId → Option (WordId → Program) := fun _ => none

namespace Record

/-- The moment whose phrase is told of a word. -/
def wordMoment (r : Record) (w : WordId) : Program := (r.word w).getD r.now

def blockMoment (r : Record) (id : BlockId) : WordId → Program := (r.block id).getD r.wordMoment

def forget (r : Record) (w : WordId) : Record :=
  { r with word := fun v => if v = w then none else r.word v }

def noteWords (r : Record) (ws : List WordId) : Record :=
  { r with word := fun v => if v ∈ ws then some (r.wordMoment v) else r.word v }

/-- A block asks its words for their phrases when it is first read. -/
def noteBlock (r : Record) (id : BlockId) : Record :=
  { (if (r.block id).isNone then r.noteWords (r.now.block id).words else r) with
    block := fun i => if i = id then some (r.blockMoment id) else r.block i }

def step (delimiter : Text) (r : Record) (s : WordStep) : Record :=
  let accepted := ((s.perform delimiter).run r.now).result.isOk
  let noted := match s with
    | .setText w _ | .setInt w _ => if accepted then r.forget w else r
    | .look (.word w) => r.noteWords [w]
    | .look (.block id) => r.noteBlock id
  { noted with now := r.now.handle delimiter s }

def after (delimiter : Text) (p : Program) (steps : List WordStep) : Record :=
  steps.foldl (step delimiter) { now := p }

/-- What is kept is what the words gave at the moments noted. -/
structure Holds (delimiter : Text) (p : Program) (r : Record) : Prop where
  now : SameShape p r.now
  word_shape : ∀ w q, r.word w = some q → SameShape p q
  block_shape : ∀ id m w, r.block id = some m → SameShape p (m w)
  words : ∀ w ∈ p.words, ∀ v, r.now.graph[w]? = some v →
    v.description = (r.word w).elim .stale fun q => .fresh (q.phraseOf w)
  blocks : ∀ id < r.now.store.size, (r.now.block id).description =
    (r.block id).elim .stale fun m =>
      .fresh (joinPhrases delimiter ((p.block id).words.map fun w => (m w).phraseOf w))

variable {r : Record}

theorem Holds.wordMoment (h : r.Holds delimiter p) (w : WordId) : SameShape p (r.wordMoment w) := by
  rw [Record.wordMoment]
  cases hw : r.word w with
  | none => exact h.now
  | some q => exact h.word_shape w q hw

theorem Holds.blockMoment (h : r.Holds delimiter p) (id : BlockId) (w : WordId) :
    SameShape p (r.blockMoment id w) := by
  rw [Record.blockMoment]
  cases hid : r.block id with
  | none => exact h.wordMoment w
  | some m => exact h.block_shape id m w hid

theorem Holds.toldWord_eq (h : r.Holds delimiter p) (hmem : w ∈ p.words) :
    r.now.toldWord w = (r.wordMoment w).phraseOf w := by
  rw [Program.toldWord_eq]
  cases hw : r.now.graph[w]? with
  | none =>
    have hnone : (r.wordMoment w).graph[w]? = none := by
      have hnow := h.now.words w
      rw [hw, Option.map_none] at hnow
      exact Option.map_eq_none_iff.mp (((h.wordMoment w).words w).trans hnow.symm)
    have hphrase : (r.wordMoment w).phraseOf w = [] := by
      rw [phraseOf, hnone]
      rfl
    rw [hphrase]
    rfl
  | some v =>
    rw [Option.map_some, Option.getD_some, h.words w hmem v hw, Record.wordMoment]
    cases r.word w <;> rfl

theorem Holds.toldBlock_eq (h : r.Holds delimiter p) (id : BlockId)
    (hwords : (p.block id).words ⊆ p.words) : r.now.toldBlock delimiter id =
      joinPhrases delimiter ((p.block id).words.map fun w => (r.blockMoment id w).phraseOf w) := by
  have htold : (p.block id).words.map r.now.toldWord =
      (p.block id).words.map fun w => (r.wordMoment w).phraseOf w :=
    List.map_congr_left fun w hw => h.toldWord_eq (hwords hw)
  rw [Program.toldBlock_eq, h.now.blocks, htold]
  by_cases hid : id < r.now.store.size
  · rw [h.blocks id hid, Record.blockMoment]
    cases r.block id <;> rfl
  · have hdefault : r.now.block id = { text := [] } := by
      rw [Program.block, Array.getElem?_eq_none (Nat.le_of_not_lt hid), Option.getD_none]
    have hnone : (p.block id).words = [] := by rw [← h.now.blocks, hdefault]
    rw [hdefault, hnone]
    rfl

theorem Holds.assign {accepted : Bool} {p' : Program} (h : r.Holds delimiter p)
    (ha : Assigned w accepted r.now p') :
    Holds delimiter p { (if accepted then r.forget w else r) with now := p' } := by
  have hblock : ∀ id, p'.block id = r.now.block id := fun id => by
    rw [Program.block, Program.block, ha.store]
  have hword : ∀ v, (if accepted then r.forget w else r).word v =
      if accepted = true ∧ v = w then none else r.word v := by
    intro v
    cases accepted <;> simp [forget]
  have hblocks : (if accepted then r.forget w else r).block = r.block := by
    cases accepted <;> rfl
  refine ⟨h.now.trans ha.sameShape, fun v q hq => ?_, fun id m v hm => ?_,
    fun v hv' u hu => ?_, fun id hid => ?_⟩
  · dsimp only at hq
    rw [hword] at hq
    split at hq
    · cases hq
    · exact h.word_shape v q hq
  · dsimp only at hm
    rw [hblocks] at hm
    exact h.block_shape id m v hm
  · dsimp only at hu ⊢
    rw [hword]
    by_cases hv : v = w
    · subst hv
      have hkept := ha.kept
      rw [hu, Option.map_some] at hkept
      obtain ⟨u', hu', hdescription⟩ := Option.map_eq_some_iff.mp hkept.symm
      rw [← hdescription]
      cases accepted with
      | true => simp
      | false => simpa using h.words v hv' u' hu'
    · rw [if_neg fun hboth => hv hboth.2]
      exact h.words v hv' u (ha.other v hv ▸ hu)
  · dsimp only at hid ⊢
    rw [hblock, hblocks]
    exact h.blocks id (ha.store ▸ hid)

theorem Holds.noteWords (h : r.Holds delimiter p) (ws : List WordId) :
    Holds delimiter p { r.noteWords ws with now := r.now.keepWords ws } := by
  refine ⟨h.now.trans (sameShape_keepWords r.now ws), fun w q hq => ?_, h.block_shape,
    fun w hw v hv => ?_, h.blocks⟩
  · simp only [Record.noteWords] at hq
    split at hq
    · obtain rfl := Option.some.inj hq
      exact h.wordMoment w
    · exact h.word_shape w q hq
  · simp only [Record.noteWords]
    rw [getElem?_keepWords] at hv
    obtain ⟨u, hu, rfl⟩ := Option.map_eq_some_iff.mp hv
    split
    · rw [h.toldWord_eq hw]
      rfl
    · exact h.words w hw u hu

theorem words_keepDescription (p : Program) (i id : BlockId) (d : Text) :
    ((p.keepDescription i d).block id).words = (p.block id).words := by
  simp only [Program.keepDescription, Program.block, modifyBlock, Array.getElem?_modify]
  split
  · cases p.store[id]? <;> rfl
  · rfl

theorem Holds.keepDescription (h : r.Holds delimiter p) (id : BlockId) (m : WordId → Program)
    (hm : ∀ w, SameShape p (m w)) :
    Holds delimiter p { r with
      now := r.now.keepDescription id
        (joinPhrases delimiter ((p.block id).words.map fun w => (m w).phraseOf w))
      block := fun i => if i = id then some m else r.block i } := by
  refine ⟨⟨h.now.words, Array.size_modify.trans h.now.size, fun i => ?_⟩, h.word_shape,
    fun i m' w hm' => ?_, h.words, fun i hi => ?_⟩
  · exact (words_keepDescription r.now id i _).trans (h.now.blocks i)
  · dsimp only at hm'
    split at hm'
    · exact Option.some.inj hm' ▸ hm w
    · exact h.block_shape i m' w hm'
  · have hlt : i < r.now.store.size := hi.trans_eq Array.size_modify
    dsimp only
    by_cases heq : i = id
    · subst heq
      rw [Program.keepDescription, block_modifyBlock hlt, if_pos rfl]
      rfl
    · rw [Program.keepDescription, block_modifyBlock_of_ne heq, if_neg heq]
      exact h.blocks i hlt

theorem Holds.noteBlock (h : r.Holds delimiter p) (hwords : ∀ id, (p.block id).words ⊆ p.words)
    (id : BlockId) :
    Holds delimiter p { r.noteBlock id with now := r.now.look delimiter (.block id) } := by
  -- A block asks its words exactly when no moment was noted for it.
  have hasked : (if (r.now.block id).description.isStale then
        r.now.keepWords (r.now.block id).words else r.now) =
      if (r.block id).isNone then r.now.keepWords (r.now.block id).words else r.now := by
    by_cases hid : id < r.now.store.size
    · rw [h.blocks id hid]
      cases r.block id <;> rfl
    · have hnone : (r.now.block id).words = [] := by
        rw [Program.block, Array.getElem?_eq_none (Nat.le_of_not_lt hid), Option.getD_none]
      rw [hnone, keepWords_nil, ite_self, ite_self]
  rw [look_block, h.toldBlock_eq id (hwords id), hasked]
  have hmoment := h.blockMoment id
  cases hb : (r.block id).isNone with
  | true =>
    simp only [Record.noteBlock, hb, if_true]
    exact (h.noteWords (r.now.block id).words).keepDescription id _ hmoment
  | false =>
    simp only [Record.noteBlock, hb, Bool.false_eq_true, if_false]
    exact h.keepDescription id _ hmoment

theorem Holds.step (hwords : ∀ id, (p.block id).words ⊆ p.words) (h : r.Holds delimiter p)
    (s : WordStep) : (r.step delimiter s).Holds delimiter p := by
  cases s with
  | setText w s => exact h.assign (setWordText_assigned r.now w s)
  | setInt w i => exact h.assign (setWordInt_assigned r.now w i)
  | look l =>
    cases l with
    | word w =>
      have hstep := h.noteWords [w]
      rw [← look_word] at hstep
      exact hstep
    | block id => exact h.noteBlock hwords id

theorem Holds.after {steps : List WordStep} (hwords : ∀ id, (p.block id).words ⊆ p.words)
    (h : r.Holds delimiter p) : (steps.foldl (Record.step delimiter) r).Holds delimiter p := by
  induction steps generalizing r with
  | nil => exact h
  | cons s steps ih => exact ih (h.step hwords s)

theorem now_after (delimiter : Text) (p : Program) (steps : List WordStep) :
    (after delimiter p steps).now = steps.foldl (handle delimiter) p := by
  rw [after]
  suffices ∀ r : Record, (steps.foldl (step delimiter) r).now = steps.foldl (handle delimiter) r.now
    from this _
  induction steps with
  | nil => exact fun _ => rfl
  | cons s steps ih => exact fun r => ih _

end Record

variable {path mark : Option Text} {ls : List Text}

theorem readLines_order (h : (readLines ls).Yields (start path mark) () p) :
    p.order = List.range p.store.size := by
  obtain ⟨c, q, r, -, rfl, rfl⟩ := readLines_yields_iff.mp h
  rfl

theorem readLines_holds (delimiter : Text) (h : (readLines ls).Yields (start path mark) () p) :
    (∀ id, (p.block id).words ⊆ p.words) ∧ Record.Holds delimiter p { now := p } := by
  have hfresh := (readLines_fresh h).1
  have hstored : ∀ id < p.store.size, id ∈ p.order := fun id hid => by
    rw [readLines_order h]
    exact List.mem_range.mpr hid
  refine ⟨fun id => ?_, .refl p, by simp, by simp, fun w hw v hv => hfresh.words_stale w hw v hv,
    fun id hid => hfresh.blocks_stale id (hstored id hid)⟩
  by_cases hid : id < p.store.size
  · exact fun w hw => mem_words (hstored id hid) hw
  · rw [block, Array.getElem?_eq_none (Nat.le_of_not_lt hid), Option.getD_none]
    exact List.nil_subset _

/-- After any texts and numbers given to words, refused ones too, and any descriptions read, what is
told of a word is what the texts give exactly if they still give the phrase of the moment it was
first read at since a text of the word was last accepted. What is told of a block is so exactly if
the phrases of its words at the moment it was first read at still make the same. -/
theorem told_right_iff {p : Program} (delimiter : Text)
    (h : (readLines ls).Yields (start path mark) () p) (steps : List WordStep) :
    let r := Record.after delimiter p steps
    r.now = steps.foldl (handle delimiter) p ∧
      (∀ w ∈ p.words,
        (r.now.toldWord w = r.now.asWritten.phraseOf w ↔
          (r.wordMoment w).phraseOf w = r.now.asWritten.phraseOf w) ∧
        (SameTexts w (r.wordMoment w) r.now →
          r.now.toldWord w = r.now.asWritten.phraseOf w)) ∧
      ∀ id ∈ p.order,
        (r.now.toldBlock delimiter id = r.now.asWritten.descriptionOf delimiter id ↔
          joinPhrases delimiter ((p.block id).words.map fun w => (r.blockMoment id w).phraseOf w) =
            r.now.asWritten.descriptionOf delimiter id) ∧
        ((∀ w ∈ (p.block id).words, SameTexts w (r.blockMoment id w) r.now) →
          r.now.toldBlock delimiter id = r.now.asWritten.descriptionOf delimiter id) := by
  intro r
  obtain ⟨hwords, hstart⟩ := readLines_holds delimiter h
  have hr : r.Holds delimiter p := hstart.after hwords
  refine ⟨Record.now_after delimiter p steps, fun w hw => ?_, fun id _ => ?_⟩
  · rw [hr.toldWord_eq hw]
    exact ⟨Iff.rfl, fun hsame => hsame.phraseOf_eq ((hr.wordMoment w).symm.trans hr.now)⟩
  · rw [hr.toldBlock_eq id (hwords id)]
    refine ⟨Iff.rfl, fun hsame => congrArg (joinPhrases delimiter) ?_⟩
    have hblock : (r.now.asWritten.block id).words = (p.block id).words := hr.now.blocks id
    rw [hblock]
    exact List.map_congr_left fun w hw =>
      (hsame w hw).phraseOf_eq ((hr.blockMoment id w).symm.trans hr.now)

/-- A rapid move that takes up a fixture offset. -/
def offsetProgram : Program :=
  ((readLines ["G0 E3".toList]).run (start none none)).state

/-- The move is described, then the offset is given another number. -/
def offsetSteps : List WordStep := [.look (.block 0), .setInt 1 5]

theorem told_right_offset :
    (readLines ["G0 E3".toList]).Yields (start none none) () offsetProgram ∧
      let r := Record.after " | ".toList offsetProgram offsetSteps
      r.now = offsetSteps.foldl (handle " | ".toList) offsetProgram ∧
        (∀ w ∈ offsetProgram.words,
          (r.now.toldWord w = r.now.asWritten.phraseOf w ↔
            (r.wordMoment w).phraseOf w = r.now.asWritten.phraseOf w) ∧
          (SameTexts w (r.wordMoment w) r.now →
            r.now.toldWord w = r.now.asWritten.phraseOf w)) ∧
        ∀ id ∈ offsetProgram.order,
          (r.now.toldBlock " | ".toList id = r.now.asWritten.descriptionOf " | ".toList id ↔
            joinPhrases " | ".toList
                ((offsetProgram.block id).words.map fun w => (r.blockMoment id w).phraseOf w) =
              r.now.asWritten.descriptionOf " | ".toList id) ∧
          ((∀ w ∈ (offsetProgram.block id).words, SameTexts w (r.blockMoment id w) r.now) →
            r.now.toldBlock " | ".toList id = r.now.asWritten.descriptionOf " | ".toList id) := by
  have hread : (readLines ["G0 E3".toList]).Yields (start none none) () offsetProgram :=
    ⟨by decide +kernel, rfl⟩
  exact ⟨hread, told_right_iff " | ".toList hread offsetSteps⟩

/-- The old offset is still told, of the move and of its block. -/
theorem told_outdated :
    (readLines ["G0 E3".toList]).Yields (start none none) () offsetProgram ∧
      0 ∈ offsetProgram.words ∧ 0 ∈ offsetProgram.order ∧
      let now := offsetSteps.foldl (handle " | ".toList) offsetProgram
      now.toldWord 0 = "RAPID WITH FIXTURE OFFSET 3".toList ∧
        now.asWritten.phraseOf 0 = "RAPID WITH FIXTURE OFFSET 5".toList ∧
        now.toldBlock " | ".toList 0 = "RAPID WITH FIXTURE OFFSET 3".toList ∧
        now.asWritten.descriptionOf " | ".toList 0 = "RAPID WITH FIXTURE OFFSET 5".toList :=
  ⟨⟨by decide +kernel, rfl⟩, by decide +kernel⟩

end Program

end PartProgram
