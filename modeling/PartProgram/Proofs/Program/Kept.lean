import PartProgram.Proofs.Program.Twin

/-! # What reading descriptions leaves alone

Descriptions are kept once they are read, and new blocks and words are made beside the
old ones. Neither changes anything else of the words and blocks of a program, so a
program that was read stands as it did.
-/
namespace PartProgram

def Word.forgotten (v : Word) : Word := { v with description := .stale }

def Block.forgotten (b : Block) : Block := { b with description := .stale }

namespace WordGraph

/-- The words are the same but for the descriptions they keep. -/
def Retains (g g' : WordGraph) (ws : List WordId) : Prop :=
  ∀ w ∈ ws, g'[w]?.map Word.forgotten = g[w]?.map Word.forgotten

variable {g g' : WordGraph} {ws : List WordId} {w : WordId}

theorem Retains.getElem? (h : Retains g g' ws) (hw : w ∈ ws) {v : Word} (hv : g[w]? = some v) :
    ∃ v', g'[w]? = some v' ∧ v'.forgotten = v.forgotten := by
  have hsame := h w hw
  rw [hv, Option.map_some] at hsame
  exact Option.map_eq_some_iff.mp hsame

theorem Retains.shows (h : Retains g g' ws) (hw : w ∈ ws) {x : Text × Bool} (hx : g.Shows w x) :
    g'.Shows w x := by
  obtain ⟨v, hv, hsays⟩ := hx
  obtain ⟨v', hv', hsame⟩ := h.getElem? hw hv
  refine ⟨v', hv', ?_, ?_, ?_⟩
  · exact (congrArg Word.text hsame :).trans hsays.text
  · exact (congrArg Word.verbatim hsame :).trans hsays.verbatim
  · rw [show v'.rest = v.rest from (congrArg Word.rest hsame :),
      show v'.numbers = v.numbers from (congrArg Word.numbers hsame :), hsays.numbers]

theorem Retains.isCommandAt (h : Retains g g' ws) : ∀ w ∈ ws, g'.isCommandAt w = g.isCommandAt w := by
  intro w hw
  have hsame := congrArg (Option.any Word.governs) (h w hw)
  rw [Option.any_map, Option.any_map] at hsame
  exact hsame

theorem Retains.textOf (h : Retains g g' ws) (hw : w ∈ ws) : g'.textOf w = g.textOf w := by
  have hsame := congrArg (Option.map Word.text) (h w hw)
  rw [Option.map_map, Option.map_map] at hsame
  exact congrArg (·.getD []) hsame

theorem Retains.tied (h : Retains g g' ws) (ht : g.Tied ws) : g'.Tied ws := by
  intro pre w post hws
  obtain ⟨v, hv, hgoverning, hdependents⟩ := ht pre w post hws
  obtain ⟨v', hv', hsame⟩ := h.getElem? (by simp [hws]) hv
  have hcommand := h.isCommandAt
  rw [hws] at hcommand
  refine ⟨v', hv', ?_, ?_⟩
  · rw [show v'.governing = v.governing from (congrArg Word.governing hsame :), hgoverning,
      inForce_congr fun i hi => hcommand i (by simp [hi])]
  · rw [show v'.dependents = v.dependents from (congrArg Word.dependents hsame :), hdependents,
      show v'.governs = v.governs from (congrArg Word.governs hsame :),
      upToCommand_congr fun i hi => hcommand i (by simp [hi])]

theorem unique_shows {ids : List WordId} {xs ys : List (Text × Bool)}
    (h : List.Forall₂ g.Shows ids xs) (h' : List.Forall₂ g.Shows ids ys) : xs = ys := by
  induction h generalizing ys with
  | nil =>
    cases h'
    rfl
  | cons hx _ ih =>
    cases h' with
    | cons hy hrest => rw [hx.unique hy, ih hrest]

end WordGraph

namespace Program

open WordGraph

/-- The blocks of the program were replaced by these, and its words are the same; the descriptions
they keep are left open. -/
structure Rewrites (f : BlockId → Block) (p p' : Program) : Prop where
  path : p'.path = p.path
  order : p'.order = p.order
  sections : p'.sections = p.sections
  size : p.store.size ≤ p'.store.size
  block : ∀ id ∈ p.order, (p'.block id).forgotten = (f id).forgotten
  words : Retains p.graph p'.graph p.words

/-- The blocks of the program and their words are the same but for the descriptions they keep. -/
abbrev Kept (p p' : Program) : Prop := Rewrites p.block p p'

/-- The block `b'` is read from its text and has the words of the block `b`. -/
structure Retold (g : WordGraph) (b b' : Block) : Prop where
  words : b'.words = b.words
  trailing : b'.trailing = b.trailing
  reading : b'.IsReading g

variable {p p' p'' : Program} {id : BlockId} {f : BlockId → Block}

theorem Rewrites.text (h : Rewrites f p p') (hid : id ∈ p.order) : (p'.block id).text = (f id).text :=
  (congrArg Block.text (h.block id hid) :)

theorem Rewrites.wordsOf (h : Rewrites f p p') (hid : id ∈ p.order) :
    (p'.block id).words = (f id).words :=
  (congrArg Block.words (h.block id hid) :)

theorem Rewrites.comments (h : Rewrites f p p') (hid : id ∈ p.order) :
    (p'.block id).comments = (f id).comments :=
  (congrArg Block.comments (h.block id hid) :)

theorem mem_words (hid : id ∈ p.order) {w : WordId} (hw : w ∈ (p.block id).words) : w ∈ p.words :=
  List.mem_flatMap.mpr ⟨id, hid, hw⟩

theorem Rewrites.isReading (h : Rewrites f p p') (hid : id ∈ p.order)
    (hf : Retold p.graph (p.block id) (f id)) : (p'.block id).IsReading p'.graph := by
  have hinstruction : (p'.block id).instruction = (f id).instruction :=
    (congrArg Block.instruction (h.block id hid) :)
  have hnumber : (p'.block id).number = (f id).number :=
    (congrArg Block.number (h.block id hid) :)
  have hwords : List.Forall₂ p'.graph.Shows (f id).words
      (Reading.ofText (f id).text).tokens := by
    refine forall₂_of_splits hf.reading.words fun pre w _ _ x _ hws _ _ hx _ => ?_
    refine h.words.shows (mem_words hid ?_) hx
    rw [← hf.words, hws]
    simp
  refine ⟨?_, ?_, ?_, ?_⟩
  · rw [hinstruction, hf.reading.instruction, h.text hid]
  · rw [h.comments hid, hf.reading.comments, h.text hid]
  · rw [h.wordsOf hid, h.text hid]
    exact hwords
  · rw [hnumber, hf.reading.number, h.wordsOf hid, find?_isSequenceNumber hf.reading.words hwords]

theorem Rewrites.wordsOn (h : Rewrites f p p')
    (hf : ∀ id ∈ p.order, Retold p.graph (p.block id) (f id)) {l : List BlockId}
    (hl : l ⊆ p.order) : p'.wordsOn l = p.wordsOn l :=
  wordsOn_congr fun id hid => (h.wordsOf (hl hid)).trans (hf id (hl hid)).words

/-- Blocks may be written otherwise: if they are read as the same words, these are tied as before. -/
theorem Rewrites.threaded (h : Rewrites f p p') (hp : p.Threaded p.order)
    (hf : ∀ id ∈ p.order, Retold p.graph (p.block id) (f id)) : p'.Threaded p'.order := by
  have hwords : ∀ i ∈ p.order, (p'.block i).words = (p.block i).words :=
    fun i hi => (h.wordsOf hi).trans (hf i hi).words
  have hall := h.wordsOn hf (List.Subset.refl _)
  rw [h.order]
  refine ⟨⟨fun i hi => ?_, fun i hi => ?_, fun i hi => ?_, fun i hi j hj => ?_⟩, ?_, ?_, ?_⟩
  · exact Nat.lt_of_lt_of_le (hp.stored i hi) h.size
  · exact h.isReading hi (hf i hi)
  · rw [hwords i hi]
    exact hp.nodup i hi
  · rw [hwords i hi, hwords j hj]
    exact hp.disjoint i hi j hj
  · rw [hall]
    exact h.words.tied hp.tied
  · rw [hall]
    exact hp.distinct
  · intro pre i post hsplit
    have hsub : pre ++ [i] ⊆ p.order := by
      rw [hsplit, show pre ++ i :: post = pre ++ [i] ++ post by simp]
      exact List.subset_append_left _ _
    have hi : i ∈ p.order := hsub (by simp)
    have htrailing : (p'.block i).trailing = (f i).trailing :=
      (congrArg Block.trailing (h.block i hi) :)
    rw [htrailing, (hf i hi).trailing, hp.trailing pre i post hsplit, h.wordsOn hf hsub]
    exact (inForce_congr fun w hw => h.words.isCommandAt w (wordsOn_subset hsub hw)).symm

theorem Retold.tokens {g : WordGraph} {b b' : Block} (h : Retold g b b') (hb : b.IsReading g) :
    (Reading.ofText b'.text).tokens = (Reading.ofText b.text).tokens := by
  have hwords := h.reading.words
  rw [h.words] at hwords
  exact unique_shows hwords hb.words

theorem Rewrites.matched (h : Rewrites f p p') (hp : p.Threaded p.order)
    (hf : ∀ id ∈ p.order, Retold p.graph (p.block id) (f id)) : Matched p' p := by
  refine ⟨h.threaded hp hf, hp, ?_⟩
  rw [h.order]
  refine List.forall₂_same.mpr fun id hid => ?_
  rw [h.text hid, (hf id hid).tokens (hp.reading id hid)]

theorem Rewrites.descriptionOf (h : Rewrites f p p') (hp : p.Threaded p.order)
    (hf : ∀ id ∈ p.order, Retold p.graph (p.block id) (f id)) (hid : id ∈ p.order)
    (delimiter : Text) : p'.descriptionOf delimiter id = p.descriptionOf delimiter id := by
  have hall := (h.matched hp hf).agree
  rw [h.order] at hall
  exact (List.forall₂_same.mp hall id hid).description delimiter

theorem rebuilt_of_forgotten {g g' : WordGraph} {b b' : Block} (hb : b'.forgotten = b.forgotten)
    (hg : ∀ w ∈ b.words, g'.textOf w = g.textOf w) : b'.rebuilt g' = b.rebuilt g := by
  have hinstruction : b'.instruction = b.instruction := (congrArg Block.instruction hb :)
  have hcomments : b'.comments = b.comments := (congrArg Block.comments hb :)
  have hwords : b'.words = b.words := (congrArg Block.words hb :)
  have htexts : ∀ w ∈ b.words, g'.textOf w ++ [' '] = g.textOf w ++ [' '] :=
    fun w hw => by rw [hg w hw]
  rw [Block.rebuilt, Block.rebuilt, Block.instructions, Block.instructions, hinstruction, hcomments,
    hwords, List.flatMap_congr htexts]

theorem Rewrites.rebuilt (h : Rewrites f p p') (hid : id ∈ p.order)
    (hf : (f id).words = (p.block id).words) : p'.rebuilt id = (f id).rebuilt p.graph :=
  rebuilt_of_forgotten (h.block id hid) fun _ hw => h.words.textOf (mem_words hid (hf ▸ hw))

theorem Rewrites.words_eq (h : Rewrites f p p')
    (hf : ∀ id ∈ p.order, (f id).words = (p.block id).words) : p'.words = p.words := by
  rw [Program.words, Program.words, h.order]
  exact wordsOn_congr fun id hid => (h.wordsOf hid).trans (hf id hid)

theorem Kept.refl (p : Program) : Kept p p :=
  ⟨rfl, rfl, rfl, Nat.le_refl _, fun _ _ => rfl, fun _ _ => rfl⟩

theorem Kept.words_eq (h : Kept p p') : p'.words = p.words :=
  Rewrites.words_eq h fun _ _ => rfl

theorem Kept.trans (h : Kept p p') (h' : Kept p' p'') : Kept p p'' := by
  refine ⟨h'.path.trans h.path, h'.order.trans h.order, h'.sections.trans h.sections,
    Nat.le_trans h.size h'.size, fun id hid => ?_, fun w hw => ?_⟩
  · exact (h'.block id (h.order ▸ hid)).trans (h.block id hid)
  · exact (h'.words w (h.words_eq ▸ hw)).trans (h.words w hw)

theorem Kept.lines (h : Kept p p') : p'.lines = p.lines := by
  rw [Program.lines, Program.lines, blocks, blocks, h.order, List.map_map, List.map_map]
  exact List.map_congr_left fun _ hid => h.text hid

theorem retold_self (hp : p.Threaded p.order) :
    ∀ id ∈ p.order, Retold p.graph (p.block id) (p.block id) :=
  fun id hid => ⟨rfl, rfl, hp.reading id hid⟩

theorem Kept.threaded (h : Kept p p') (hp : p.Threaded p.order) : p'.Threaded p'.order :=
  Rewrites.threaded h hp (retold_self hp)

theorem Kept.rebuilt (h : Kept p p') (hid : id ∈ p.order) : p'.rebuilt id = p.rebuilt id :=
  Rewrites.rebuilt h hid rfl

theorem Kept.cutSections (h : Kept p p') (mark : Text) : p'.cutSections mark = p.cutSections mark := by
  have hempty : ∀ id ∈ p.order, p'.isEmptyBlock id = p.isEmptyBlock id :=
    fun id hid => congrArg List.isEmpty (h.rebuilt hid)
  have hrest : ∀ id ∈ (cutAfter p.isEmptyBlock p.order).2, p'.isEmptyBlock id = p.isEmptyBlock id := by
    intro id hid
    refine hempty id ?_
    rw [← cutAfter_append p.isEmptyBlock p.order]
    exact List.mem_append_right _ hid
  have htool : ∀ id ∈ p.order, p'.isToolRemark mark id = p.isToolRemark mark id := fun id hid => by
    rw [isToolRemark, isToolRemark, Block.isRemark, Block.isRemark, h.wordsOf hid, h.comments hid]
  have hother : ∀ id ∈ p.order, p'.isOtherRemark mark id = p.isOtherRemark mark id := fun id hid => by
    rw [isOtherRemark, isOtherRemark, Block.isRemark, Block.isRemark, h.wordsOf hid, h.comments hid,
      htool id hid]
  simp only [Program.cutSections, h.order, cutAfter_congr hempty, cutAfter_congr hrest,
    List.filter_congr htool, List.filter_congr hother]

theorem Kept.settled (h : Kept p p') (ht : p.Threaded p.order) (hp : p.Settled) : p'.Settled := by
  refine ⟨h.order.symm ▸ hp.nodup, (h.threaded ht).toReadsAll, fun s hs => ?_⟩
  rw [h.cutSections]
  exact hp.sections s (h.sections ▸ hs)

theorem Kept.phrases (h : Kept p p') (hp : p.Threaded p.order) :
    ∀ w ∈ p.words, p'.phraseOf w = p.phraseOf w := by
  have hall := (Rewrites.matched h hp (retold_self hp)).phrases
  rw [h.words_eq] at hall
  exact List.forall₂_same.mp hall

theorem Kept.descriptionOf (h : Kept p p') (hp : p.Threaded p.order) (hid : id ∈ p.order)
    (delimiter : Text) : p'.descriptionOf delimiter id = p.descriptionOf delimiter id :=
  Rewrites.descriptionOf h hp (retold_self hp) hid delimiter

end Program

end PartProgram
