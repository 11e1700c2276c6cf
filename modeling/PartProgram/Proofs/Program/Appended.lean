import PartProgram.Program.Edit
import PartProgram.Proofs.Block.CommentCut
import PartProgram.Proofs.Program.Reproduced

/-! # Comments that stay comments

A comment put behind a block is read as a comment exactly if none of it is read outside
comments. A closing parenthesis within it ends it too early; between parentheses what
stands behind that is read as instructions.
-/
namespace PartProgram

section
variable {g : WordGraph} {b : Block} {style : CommentStyle}

theorem Block.IsReading.isBlankText_spill_iff (h : b.IsReading g) (style : CommentStyle) (d : Text) :
    Text.isBlankText (b.spill style d) = true ↔
      ';' ∈ b.text ∨ Text.isBlankText (style.spill d) = true := by
  have hmem : ';' ∈ b.comments.flatten ↔ ';' ∈ b.text := by
    rw [h.comments, Reading.comments_ofText, Comment.mem_split_iff (s := b.text)]
    simp [(Comment.isPlain_split b.text).semicolon]
  rw [Block.spill, ← hmem]
  split <;> rename_i hs <;> simp [hs]

/-- Outside comments the block holds what it held before exactly if the comment stays one. -/
theorem Block.IsReading.withoutBlanks_append_iff (h : b.IsReading g) (style : CommentStyle)
    (column : Nat) (d : Text) :
    (b.append g style column d).instruction.withoutBlanks = b.instruction.withoutBlanks ↔
      Text.isBlankText (b.spill style d) = true := by
  obtain ⟨gap, hgap, hinstruction⟩ := h.instruction_append style column d
  have htrim : (Comment.trimPlain (b.instructions g) b.comments).withoutBlanks =
      b.instruction.withoutBlanks := by
    rw [← Text.withoutBlanks_trim, Comment.trim_trimPlain, Text.withoutBlanks_trim,
      h.withoutBlanks_instructions]
  rw [hinstruction, Text.withoutBlanks_append, Text.withoutBlanks_append, htrim,
    Text.withoutBlanks_eq_nil.mpr hgap, List.nil_append, List.append_right_eq_self,
    Text.withoutBlanks_eq_nil]

end

namespace Program

variable {p p' s : Program} {id : BlockId} {text comment : Text} {c : Option WordId}
  {style : CommentStyle} {column : Int} {n : Nat}

/-- In the second program the block is what its text is read as, in whatever program, and outside
comments it holds what it held in the first. -/
structure StaysRemark (p : Program) (id : BlockId) (p' : Program) : Prop where
  read : ∀ s c, ∃ i q, (addBlock (p'.block id).text c).Yields s i q ∧
    q.shownWords i = p'.shownWords id ∧
    (q.block i).instruction = (p'.block id).instruction ∧
    (q.block i).comments = (p'.block id).comments
  instruction : (p'.block id).instruction.withoutBlanks = (p.block id).instruction.withoutBlanks

theorem reads_again (h : (p.block id).IsReading p.graph) (s : Program) (c : Option WordId) :
    ∃ i q, (addBlock (p.block id).text c).Yields s i q ∧ q.shownWords i = p.shownWords id ∧
      (q.block i).instruction = (p.block id).instruction ∧
      (q.block i).comments = (p.block id).comments := by
  obtain ⟨i, q, hadd⟩ := addBlock_succeeds h.isReadable s c
  obtain ⟨hadds, hreads⟩ := addBlock_yields (readsAll_nil s) hadd
  have hread := hreads.reading i List.mem_cons_self
  refine ⟨i, q, hadd, ?_, ?_, ?_⟩
  · rw [shownWords, shownWords, WordGraph.map_shown hread.words,
      WordGraph.map_shown h.words, hadds.text_eq]
  · rw [hread.instruction, h.instruction, hadds.text_eq]
  · rw [hread.comments, h.comments, hadds.text_eq]

theorem appendComment_stays_iff (hid : id < p.store.size) (h : (p.block id).IsReading p.graph)
    (style : CommentStyle) (n : Nat) (comment : Text) :
    p.StaysRemark id (p.modifyBlock id fun b => b.append p.graph style n comment) ↔
      Text.isBlankText ((p.block id).spill style comment) = true := by
  have hblock := block_modifyBlock hid fun b => b.append p.graph style n comment
  rw [← h.withoutBlanks_append_iff style n comment]
  constructor
  · intro hstays
    rw [← hblock]
    exact hstays.instruction
  · intro hsame
    -- The words are those of the old text. They are read from the new one as nothing is spilled.
    have hspill := (h.withoutBlanks_append_iff style n comment).mp hsame
    refine ⟨reads_again ?_, by rw [hblock, hsame]⟩
    rw [hblock]
    exact (h.append_of_spill style n hspill).1

theorem appendCommentFrom_run (hn : checkColumn column = .ok n) :
    (appendCommentFrom id style column comment).run p =
      ⟨.ok (), p.modifyBlock id fun b => b.append p.graph style n comment, []⟩ := by
  rw [appendCommentFrom, hn]
  rfl

/-- A comment without a closing parenthesis, or behind a semicolon, stays one. -/
theorem append_unclosed (h : (addBlock text c).Yields s id p) (hn : checkColumn column = .ok n)
    (hcomment : style = .semicolon ∨ ')' ∉ comment) : ∃ p',
      (appendCommentFrom id style column comment).Yields p () p' ∧ p.StaysRemark id p' := by
  obtain ⟨hadds, hreads⟩ := addBlock_yields (readsAll_nil s) h
  have hread := hreads.reading id List.mem_cons_self
  have hspill : style.spill comment = [] := by
    rcases hcomment with rfl | hclosing
    · rfl
    · exact Comment.spill_of_not_mem style hclosing
  refine ⟨_, ⟨by rw [appendCommentFrom_run hn], rfl⟩, ?_⟩
  rw [appendCommentFrom_run hn,
    appendComment_stays_iff (hreads.stored id List.mem_cons_self) hread, hread.isBlankText_spill_iff]
  exact .inr (by rw [hspill]; rfl)

/-- A block that was read from a text gets a comment from every column that is possible, and keeps
its words. The comment stays one exactly if the text holds a semicolon, or if nothing but blanks of
the comment is read outside comments. -/
theorem append_stays_iff (h : (addBlock text c).Yields s id p) (style : CommentStyle) (column : Int)
    (comment : Text) :
    (∀ fault, checkColumn column = .error fault →
      (appendCommentFrom id style column comment).run p = ⟨.error fault, p, []⟩) ∧
    ∀ n, checkColumn column = .ok n → ∃ p',
      (appendCommentFrom id style column comment).Yields p () p' ∧
      (p'.block id).text = (p.block id).remarked p.graph style n comment ∧
      p'.shownWords id = p.shownWords id ∧
      (p.StaysRemark id p' ↔ ';' ∈ text ∨ Text.isBlankText (style.spill comment) = true) := by
  obtain ⟨hadds, hreads⟩ := addBlock_yields (readsAll_nil s) h
  have hstored := hreads.stored id List.mem_cons_self
  have hread := hreads.reading id List.mem_cons_self
  refine ⟨fun fault hfault => ?_, fun n hn => ?_⟩
  · rw [appendCommentFrom, hfault]
    rfl
  · have hblock := block_modifyBlock hstored fun b => b.append p.graph style n comment
    refine ⟨_, ⟨by rw [appendCommentFrom_run hn], rfl⟩, ?_⟩
    rw [appendCommentFrom_run hn]
    refine ⟨congrArg Block.text hblock, ?_, ?_⟩
    · rw [shownWords, hblock]
      rfl
    · rw [appendComment_stays_iff hstored hread, hread.isBlankText_spill_iff, hadds.text_eq]

theorem append_stays_sample : ∃ id p p',
    (addBlock "G0 X1 ;b".toList none).Yields {} id p ∧ checkColumn 10 = .ok 10 ∧
      (appendCommentFrom id .parentheses 10 "a)X2".toList).Yields p () p' ∧
      (p'.block id).text = "G0 X1 ;b   (a)X2)".toList ∧ p.StaysRemark id p' := by
  have hadd : (addBlock "G0 X1 ;b".toList none).Yields {} 0
      ((addBlock "G0 X1 ;b".toList none).run {}).state := ⟨by decide +kernel, rfl⟩
  obtain ⟨p', hp', htext, -, hstays⟩ :=
    (append_stays_iff hadd .parentheses 10 "a)X2".toList).2 10 rfl
  exact ⟨0, _, p', hadd, rfl, hp', htext.trans (by decide +kernel), hstays.mpr (.inl (by decide))⟩

/-- The word behind a closing parenthesis in the comment is an instruction, and the block does not
have it until it is read again. -/
theorem comment_spilled : ∃ id p p' i q,
    (addBlock "G0 X1".toList none).Yields {} id p ∧
      (appendCommentFrom id .parentheses 0 "a)X2".toList).Yields p () p' ∧
      (p'.block id).instruction = "G0 X1 X2)".toList ∧
      p'.shownWords id = [("G0".toList, false), ("X1".toList, false)] ∧
      (addBlock (p'.block id).text none).Yields {} i q ∧
      q.shownWords i = [("G0".toList, false), ("X1".toList, false), ("X2)".toList, false)] ∧
      ¬ p.StaysRemark id p' := by
  set p := ((addBlock "G0 X1".toList none).run {}).state with hp
  set p' := ((appendCommentFrom 0 .parentheses 0 "a)X2".toList).run p).state with hp'
  refine ⟨0, p, p', 0, _, ⟨by decide +kernel, rfl⟩, ⟨by decide +kernel, rfl⟩, by decide +kernel,
    by decide +kernel, ⟨by decide +kernel, rfl⟩, by decide +kernel, fun h => ?_⟩
  exact absurd h.instruction (by decide +kernel)

end Program

end PartProgram
