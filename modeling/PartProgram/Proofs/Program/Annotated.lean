import PartProgram.Proofs.Block.Remarked
import PartProgram.Proofs.Program.Remembered

/-! # Programs with their descriptions as comments

A program that is annotated is written otherwise, block for block, and has the words it
had: every block that lacked its description behind it gets it there, the others stay.
Then no block lacks it any more.
-/
namespace PartProgram

namespace Program

open WordGraph

variable {p p' : Program} {delimiter : Text} {style : CommentStyle} {column : Nat} {id : BlockId}

/-- The block has a description, and does not have it behind it. -/
def lacks (delimiter : Text) (style : CommentStyle) (p : Program) (id : BlockId) : Bool :=
  !((p.descriptionOf delimiter id).isEmpty ||
    (p.block id).endsWith (style.format (p.descriptionOf delimiter id)))

def annotatedBlock (delimiter : Text) (style : CommentStyle) (column : Nat) (p : Program)
    (id : BlockId) : Block :=
  if p.lacks delimiter style id then
    (p.block id).append p.graph style column (p.descriptionOf delimiter id)
  else p.block id

theorem isPhrase_descriptionOf (hd : IsInner delimiter) (p : Program) (id : BlockId) :
    IsPhrase (p.descriptionOf delimiter id) := by
  refine isPhrase_joinPhrases hd fun t ht => ?_
  obtain ⟨w, -, rfl⟩ := List.mem_map.mp ht
  rw [phraseOf]
  cases p.graph[w]? with
  | none => exact isPhrase_nil
  | some v => exact p.graph.isPhrase_phrase v

theorem retold_annotatedBlock (hd : IsInner delimiter) (hr : (p.block id).IsReading p.graph) :
    Retold p.graph (p.block id) (p.annotatedBlock delimiter style column id) := by
  rw [annotatedBlock]
  split
  · exact ⟨rfl, rfl, (hr.append style column (isPhrase_descriptionOf hd p id).closing).1⟩
  · exact ⟨rfl, rfl, hr⟩

theorem forgotten_append {g g' : WordGraph} {b b' : Block} (hb : b'.forgotten = b.forgotten)
    (hrebuilt : b'.rebuilt g' = b.rebuilt g) (d : Text) :
    (b'.append g' style column d).forgotten = (b.append g style column d).forgotten := by
  have hremarked : b'.remarked g' style column d = b.remarked g style column d := by
    rw [Block.remarked, Block.remarked, hrebuilt]
  have happend : ∀ (g : WordGraph) (b : Block), (b.append g style column d).forgotten =
      { b.forgotten with
        text := b.remarked g style column d
        instruction := (Comment.split (b.remarked g style column d)).1
        comments := (Comment.split (b.remarked g style column d)).2 } := fun _ _ => rfl
  rw [happend, happend, hb, hremarked]

/-- Only blocks of `m` were written otherwise, the words of the program are the same, and the same is
told of all words and blocks. -/
structure Retells (delimiter : Text) (m : List BlockId) (p p' : Program) : Prop where
  path : p'.path = p.path
  order : p'.order = p.order
  sections : p'.sections = p.sections
  size : p'.store.size = p.store.size
  block : ∀ i ∉ m, (p'.block i).forgotten = (p.block i).forgotten
  words : ∀ w : WordId, p'.graph[w]?.map Word.forgotten = p.graph[w]?.map Word.forgotten
  toldWord : ∀ w, p'.toldWord w = p.toldWord w
  toldBlock : ∀ i, p'.toldBlock delimiter i = p.toldBlock delimiter i

variable {m m' : List BlockId} {q : Program}

theorem Retells.refl (p : Program) : Retells delimiter [] p p :=
  ⟨rfl, rfl, rfl, rfl, fun _ _ => rfl, fun _ => rfl, fun _ => rfl, fun _ => rfl⟩

theorem Retells.trans (h : Retells delimiter m p p') (h' : Retells delimiter m' p' q) :
    Retells delimiter (m ++ m') p q := by
  refine ⟨h'.path.trans h.path, h'.order.trans h.order, h'.sections.trans h.sections,
    h'.size.trans h.size, fun i hi => ?_, fun w => (h'.words w).trans (h.words w),
    fun w => (h'.toldWord w).trans (h.toldWord w), fun i => (h'.toldBlock i).trans (h.toldBlock i)⟩
  obtain ⟨hm, hm'⟩ := not_or.mp (mt List.mem_append.mpr hi)
  exact (h'.block i hm').trans (h.block i hm)

theorem Retells.mono (h : Retells delimiter m p p') (hm : m ⊆ m') : Retells delimiter m' p p' :=
  ⟨h.path, h.order, h.sections, h.size, fun i hi => h.block i fun him => hi (hm him), h.words,
    h.toldWord, h.toldBlock⟩

theorem Retells.retains (h : Retells delimiter m p p') (ws : List WordId) :
    Retains p.graph p'.graph ws :=
  fun w _ => h.words w

theorem Retells.grows (h : Retells delimiter m p p') : Grows p.graph p'.graph := by
  refine ⟨?_, fun {w _} => (h.retains [w]).shows (List.mem_singleton_self w)⟩
  by_contra hlt
  have hlast := h.words p'.graph.size
  rw [Array.getElem?_eq_none (Nat.le_refl _), Array.getElem?_eq_getElem (Nat.not_le.mp hlt)] at hlast
  cases hlast

theorem Retells.textOf (h : Retells delimiter m p p') (w : WordId) :
    p'.graph.textOf w = p.graph.textOf w :=
  (h.retains [w]).textOf (List.mem_singleton_self w)

theorem Retells.text (h : Retells delimiter m p p') {i : BlockId} (hi : i ∉ m) :
    (p'.block i).text = (p.block i).text :=
  (congrArg Block.text (h.block i hi) :)

theorem Retells.phraseOf (h : Retells delimiter m p p') (w : WordId) : p'.phraseOf w = p.phraseOf w := by
  refine phraseOf_congr fun d _ => ?_
  have hface := congrArg (Option.map Word.face) (h.words d)
  rwa [Option.map_map, Option.map_map] at hface

theorem retells_keepWords (p : Program) (ws : List WordId) :
    Retells delimiter [] p (p.keepWords ws) := by
  refine ⟨rfl, rfl, rfl, rfl, fun _ _ => rfl, fun w => ?_, toldWord_keepWords p ws, fun i => ?_⟩
  · rw [getElem?_keepWords, Option.map_map]
    refine congrArg (Option.map · _) (funext fun v => ?_)
    dsimp only [Function.comp]
    split <;> rfl
  · rw [toldBlock_eq, toldBlock_eq, funext (toldWord_keepWords p ws)]
    rfl

theorem retells_keepDescription {d : Text} (hid : id < p.store.size)
    (hd : d = p.toldBlock delimiter id) : Retells delimiter [] p (p.keepDescription id d) := by
  have hwords : (p.keepDescription id d).toldWord = p.toldWord := funext (toldWord_congr rfl)
  refine ⟨rfl, rfl, rfl, Array.size_modify, fun i _ => forgotten_keepDescription p id d i,
    fun _ => rfl, congrFun hwords, fun i => ?_⟩
  by_cases hi : i = id
  · rw [hi, ← hd, toldBlock_eq, keepDescription, block_modifyBlock hid]
    rfl
  · rw [toldBlock_eq, toldBlock_eq, hwords, keepDescription, block_modifyBlock_of_ne hi]

theorem retells_look (hid : id < p.store.size) :
    Retells delimiter [] p (p.look delimiter (.block id)) := by
  rw [look_block]
  split
  · have hwords := (retells_keepWords p (p.block id).words : Retells delimiter [] p _)
    exact hwords.trans (retells_keepDescription hid (hwords.toldBlock id).symm)
  · exact retells_keepDescription hid rfl

theorem retells_append (p : Program) (id : BlockId) (d : Text) :
    Retells delimiter [id] p (p.modifyBlock id fun b => b.append p.graph style column d) := by
  set p' := p.modifyBlock id fun b => b.append p.graph style column d with hp'
  have hwords : p'.toldWord = p.toldWord := funext (toldWord_congr rfl)
  refine ⟨rfl, rfl, rfl, Array.size_modify, fun i hi => ?_, fun _ => rfl, congrFun hwords,
    fun i => ?_⟩
  · rw [hp', block_modifyBlock_of_ne (by simpa using hi)]
  · rw [toldBlock_eq, toldBlock_eq, hwords]
    let told (b : Block) : Text :=
      b.description.valueOr (joinPhrases delimiter (b.words.map p.toldWord))
    exact forall_block_modifyBlock p id _ (fun b b' => told b' = told b) (fun _ => rfl) rfl i

theorem annotateBlock_run (delimiter : Text) (style : CommentStyle) (column : Nat) (id : BlockId)
    (p : Program) : (annotateBlock delimiter style column id).run p =
      if (p.toldBlock delimiter id).isEmpty || ((p.look delimiter (.block id)).block id).endsWith
          (style.format (p.toldBlock delimiter id)) then
        ⟨.ok false, p.look delimiter (.block id), []⟩
      else
        ⟨.ok true, (p.look delimiter (.block id)).modifyBlock id fun b =>
          b.append (p.look delimiter (.block id)).graph style column (p.toldBlock delimiter id),
          []⟩ := by
  have hdescribe : (Action.ofState (describeBlock delimiter id)).run p =
      ⟨.ok (p.toldBlock delimiter id), p.look delimiter (.block id), []⟩ := rfl
  rw [annotateBlock, Action.run_bind_ok _ hdescribe, Action.run_bind_ok _ (Action.run_get _)]
  split <;> rfl

theorem annotateBlock_yields (style : CommentStyle) (column : Nat) (hq : Retells delimiter m p q)
    (hid : id < p.store.size) (hm : id ∉ m)
    (htold : p.toldBlock delimiter id = p.descriptionOf delimiter id) :
    ∃ q', (annotateBlock delimiter style column id).Yields q (p.lacks delimiter style id) q' ∧
      Retells delimiter [id] q q' ∧
      (q'.block id).forgotten = (p.annotatedBlock delimiter style column id).forgotten := by
  have hlook : Retells delimiter [] q (q.look delimiter (.block id)) := retells_look (hq.size ▸ hid)
  have hrun := annotateBlock_run delimiter style column id q
  rw [hq.toldBlock id, htold] at hrun
  generalize q.look delimiter (.block id) = r at hlook hrun
  have hblock : (r.block id).forgotten = (p.block id).forgotten :=
    (hlook.block id List.not_mem_nil).trans (hq.block id hm)
  have hthere : ((p.descriptionOf delimiter id).isEmpty ||
      (r.block id).endsWith (style.format (p.descriptionOf delimiter id))) =
      !p.lacks delimiter style id := by
    rw [lacks, Bool.not_not, Block.endsWith, Block.endsWith,
      show (r.block id).comments = (p.block id).comments from (congrArg Block.comments hblock :)]
  rw [hthere] at hrun
  cases hl : p.lacks delimiter style id with
  | false =>
    rw [hl, if_pos (by decide)] at hrun
    refine ⟨r, ⟨by rw [hrun], by rw [hrun]⟩, hlook.mono (List.nil_subset _), ?_⟩
    rw [hblock, annotatedBlock, hl]
    rfl
  | true =>
    rw [hl, if_neg (by decide)] at hrun
    have hlt : id < r.store.size := by rwa [hlook.size, hq.size]
    refine ⟨_, ⟨by rw [hrun], by rw [hrun]⟩, hlook.trans (retells_append _ id _), ?_⟩
    have hrebuilt : (r.block id).rebuilt r.graph = (p.block id).rebuilt p.graph :=
      rebuilt_of_forgotten hblock fun w _ => (hlook.textOf w).trans (hq.textOf w)
    rw [block_modifyBlock hlt, annotatedBlock, hl]
    exact forgotten_append hblock hrebuilt _

def annotateStep (delimiter : Text) (style : CommentStyle) (column count : Nat) (id : BlockId) :
    Action Program Nat := do
  if ← annotateBlock delimiter style column id then pure (count + 1) else pure count

theorem annotateStep_yields {count n : Nat} {lacks : Bool}
    (h : (annotateBlock delimiter style column id).Yields p lacks p')
    (hn : n = if lacks then count + 1 else count) :
    (annotateStep delimiter style column count id).Yields p n p' := by
  rw [annotateStep, Action.yields_bind]
  refine ⟨lacks, p', h, ?_⟩
  cases lacks <;> exact Action.yields_pure.mpr ⟨hn, rfl⟩

/-- Blocks that are all different are annotated one by one, each as it stood at first. -/
theorem annotateBlocks_yields (style : CommentStyle) (column : Nat) (hq : Retells delimiter m p q)
    {l : List BlockId} (hl : ∀ id ∈ l, id < p.store.size ∧ id ∉ m ∧
      p.toldBlock delimiter id = p.descriptionOf delimiter id) (hn : l.Nodup) (count : Nat) :
    ∃ q', (Action.fold (annotateStep delimiter style column) count l).Yields q
      (count + l.countP (p.lacks delimiter style)) q' ∧ Retells delimiter l q q' ∧
      ∀ id ∈ l, (q'.block id).forgotten = (p.annotatedBlock delimiter style column id).forgotten := by
  induction l generalizing m q count with
  | nil => exact ⟨q, Action.yields_fold_nil.mpr ⟨rfl, rfl⟩, .refl q, by simp⟩
  | cons id rest ih =>
    obtain ⟨⟨hid, hm, htold⟩, hrest⟩ := List.forall_mem_cons.mp hl
    obtain ⟨hnot, hn⟩ := List.nodup_cons.mp hn
    obtain ⟨q₁, hfirst, hone, hblock⟩ := annotateBlock_yields style column hq hid hm htold
    -- The blocks still to come stand in `q₁` as in `p`.
    have hrest₁ : ∀ i ∈ rest, i < p.store.size ∧ i ∉ m ++ [id] ∧
        p.toldBlock delimiter i = p.descriptionOf delimiter i := by
      intro i hi
      obtain ⟨hlt, him, htold⟩ := hrest i hi
      have hne : i ≠ id := fun heq => hnot (heq ▸ hi)
      exact ⟨hlt, by simp [him, hne], htold⟩
    obtain ⟨q', hall, hlater, hblocks⟩ := ih (hq.trans hone) hrest₁ hn
      (if p.lacks delimiter style id then count + 1 else count)
    refine ⟨q', Action.yields_fold_cons.mpr ⟨_, q₁, annotateStep_yields hfirst rfl, ?_⟩,
      hone.trans hlater, List.forall_mem_cons.mpr ⟨(hlater.block id hnot).trans hblock, hblocks⟩⟩
    rw [List.countP_cons]
    convert hall using 1
    split <;> omega

theorem annotate_eq (delimiter : Text) (style : CommentStyle) : annotate delimiter style = (do
    let order := (← get).order
    let column := (← get).width + 1
    let count ← Action.fold (annotateStep delimiter style column) 0 order
    Action.log .debug .program s!"Annotated {count} of {order.length} lines"
    pure count) := rfl

/-- A program of whose blocks the descriptions are told that their words have now: as many as lack
theirs get it, and nothing else changes but what is kept. -/
theorem annotate_told (style : CommentStyle) (hs : ∀ id ∈ p.order, id < p.store.size)
    (hn : p.order.Nodup)
    (htold : ∀ id ∈ p.order, p.toldBlock delimiter id = p.descriptionOf delimiter id) :
    ∃ p', (annotate delimiter style).Yields p (p.order.countP (p.lacks delimiter style)) p' ∧
      Rewrites (p.annotatedBlock delimiter style (p.width + 1)) p p' ∧
      Retells delimiter p.order p p' := by
  obtain ⟨p', hall, hretells, hblocks⟩ := annotateBlocks_yields style (p.width + 1) (.refl p)
    (fun id hid => ⟨hs id hid, List.not_mem_nil, htold id hid⟩) hn 0
  refine ⟨p', ?_, ⟨hretells.path, hretells.order, hretells.sections, Nat.le_of_eq hretells.size.symm,
    hblocks, hretells.retains p.words⟩, hretells⟩
  rw [Nat.zero_add] at hall
  simp only [annotate_eq, Action.yields_bind, Action.yields_get, Action.yields_log,
    Action.yields_pure]
  exact ⟨_, _, ⟨rfl, rfl⟩, _, _, ⟨rfl, rfl⟩, _, _, hall, ⟨⟩, _, rfl, rfl, rfl⟩

theorem words_annotatedBlock (p : Program) (id : BlockId) :
    (p.annotatedBlock delimiter style column id).words = (p.block id).words := by
  rw [annotatedBlock]
  split <;> rfl

theorem Retells.described (h : Retells delimiter m p p') (hp : p.Threaded p.order)
    (hd : p.Described delimiter) (hwords : ∀ id ∈ p.order, (p'.block id).words = (p.block id).words) :
    p'.Described delimiter := by
  have hphrase : p'.phraseOf = p.phraseOf := funext h.phraseOf
  refine ⟨fun w hw d hkept => ?_, fun i hi d hkept => ?_⟩
  · have hmem : w ∈ p.words := by
      rw [Program.words, h.order, wordsOn_congr hwords] at hw
      exact hw
    have htold : p'.toldWord w = d := by
      rw [keptPhrase] at hkept
      rw [toldWord_eq]
      cases hv : p'.graph[w]? with
      | none => simp [hv] at hkept
      | some v =>
        rw [hv, Option.map_some, Option.getD_some] at hkept
        rw [Option.map_some, Option.getD_some, hkept]
        rfl
    rw [← htold, h.toldWord, hphrase]
    exact (describeWord_spec hp hd w).2.2 hmem
  · rw [h.order] at hi
    have htold : p'.toldBlock delimiter i = d := by
      rw [toldBlock_eq, hkept]
      rfl
    rw [← htold, h.toldBlock, descriptionOf, hwords i hi, hphrase]
    exact (describeBlock_spec hp hd i).2.2 hi

theorem annotate_yields (style : CommentStyle) (hp : p.Threaded p.order)
    (hd : p.Described delimiter) (hn : p.order.Nodup) :
    ∃ p', (annotate delimiter style).Yields p (p.order.countP (p.lacks delimiter style)) p' ∧
      Rewrites (p.annotatedBlock delimiter style (p.width + 1)) p p' ∧ p'.Described delimiter := by
  obtain ⟨p', hannotate, hrewrites, hretells⟩ := annotate_told style hp.stored hn
    fun id hid => (describeBlock_spec hp hd id).2.2 hid
  exact ⟨p', hannotate, hrewrites, hretells.described hp hd fun id hid =>
    (hrewrites.wordsOf hid).trans (words_annotatedBlock p id)⟩

theorem retold_annotatedBlocks (style : CommentStyle) (column : Nat) (hδ : IsInner delimiter)
    (hp : p.Threaded p.order) :
    ∀ id ∈ p.order, Retold p.graph (p.block id) (p.annotatedBlock delimiter style column id) :=
  fun id hid => retold_annotatedBlock hδ (hp.reading id hid)

/-- No block of an annotated program lacks its description. -/
theorem Rewrites.lacks_eq_false (hδ : IsInner delimiter) (hp : p.Threaded p.order)
    (h : Rewrites (p.annotatedBlock delimiter style column) p p') :
    ∀ id ∈ p'.order, p'.lacks delimiter style id = false := by
  intro id hid
  rw [h.order] at hid
  have hdescription := h.descriptionOf hp (retold_annotatedBlocks style column hδ hp) hid delimiter
  rw [lacks, hdescription, Block.endsWith, h.comments hid, ← Block.endsWith, annotatedBlock]
  cases hl : p.lacks delimiter style id with
  | false => simpa [lacks] using hl
  | true =>
    have hne : p.descriptionOf delimiter id ≠ [] := fun hnil => by simp [lacks, hnil] at hl
    rw [if_pos rfl, (hp.reading id hid).endsWith_append (isPhrase_descriptionOf hδ p id) hne]
    simp

end Program

end PartProgram
