import PartProgram.Proofs.Program.Annotated
import PartProgram.Proofs.Program.Edited

/-! # Annotated programs written and read

The text of an annotated program is read as the program it was made from: the same
words on the same blocks, tied alike and with the same descriptions, the comments with
one more behind them. Annotated again, it stays as it is.
-/
namespace PartProgram.Program

variable {p q d d' e : Program} {delimiter t : Text} {style : CommentStyle} {column : Nat}
  {id : BlockId} {path mark : Option Text}

theorem readText_current (delimiter : Text) (h : (readText t).Yields (start path mark) () d) :
    d.Current delimiter path mark ∧ ∀ id ∈ d.order, Text.IsUnbroken (d.block id).text := by
  obtain ⟨hcurrent, hlines⟩ := readLines_current delimiter h
  refine ⟨hcurrent, fun id hid => Text.isUnbroken_of_mem_lines (s := t) ?_⟩
  rw [← hlines, lines_eq]
  exact List.mem_map_of_mem hid

theorem lines_eq_nil : p.lines = [] ↔ p.order = [] := by rw [lines_eq, List.map_eq_nil_iff]

/-- A program that is written is read from its lines, or from one empty line if it has none. -/
theorem readText_text (delimiter : Text) (path mark : Option Text) (hp : p.Threaded p.order)
    (hu : ∀ id ∈ p.order, Text.IsUnbroken (p.block id).text) :
    ∃ e, (readText p.text).Yields (start path mark) () e ∧ e.Current delimiter path mark ∧
      e.lines = if p.order = [] then [[]] else p.lines := by
  have hlines : p.text.lines = if p.order = [] then [[]] else p.lines := by
    split
    · rename_i hnil
      rw [text, lines_eq_nil.mpr hnil]
      exact Text.lines_ofLines_nil
    · rename_i hne
      refine Text.lines_ofLines (fun hnil => hne (lines_eq_nil.mp hnil)) fun line hline => ?_
      rw [lines_eq] at hline
      obtain ⟨id, hid, rfl⟩ := List.mem_map.mp hline
      exact hu id hid
  have hreadable : ∀ line ∈ p.text.lines, isReadable line = true := by
    rw [hlines]
    intro line hline
    split at hline
    · obtain rfl := List.mem_singleton.mp hline
      decide
    · rw [lines_eq] at hline
      obtain ⟨id, hid, rfl⟩ := List.mem_map.mp hline
      exact (hp.reading id hid).isReadable
  obtain ⟨e, hread⟩ := readLines_succeeds hreadable (start path mark)
  obtain ⟨hcurrent, helines⟩ := readLines_current delimiter hread
  exact ⟨e, hread, hcurrent, helines.trans hlines⟩

theorem Rewrites.unbroken (hδ : IsInner delimiter) (hp : p.Threaded p.order)
    (h : Rewrites (p.annotatedBlock delimiter style column) p q)
    (hu : ∀ id ∈ p.order, Text.IsUnbroken (p.block id).text) :
    ∀ id ∈ q.order, Text.IsUnbroken (q.block id).text := by
  intro id hid
  rw [h.order] at hid
  rw [h.text hid, annotatedBlock]
  split
  · exact (hp.reading id hid).unbroken_append (hu id hid) (isPhrase_descriptionOf hδ p id).toIsInner
  · exact hu id hid

theorem annotate_idle (style : CommentStyle) (hp : p.Threaded p.order)
    (hd : p.Described delimiter) (hn : p.order.Nodup)
    (hl : ∀ id ∈ p.order, p.lacks delimiter style id = false) :
    ∃ q, (annotate delimiter style).Yields p 0 q ∧ Kept p q := by
  obtain ⟨q, hannotate, hrewrites, -⟩ := annotate_yields style hp hd hn
  have hzero : p.order.countP (p.lacks delimiter style) = 0 :=
    List.countP_eq_zero.mpr fun id hid => by simp [hl id hid]
  refine ⟨q, hzero ▸ hannotate, hrewrites.path, hrewrites.order, hrewrites.sections, hrewrites.size,
    fun id hid => ?_, hrewrites.words⟩
  rw [hrewrites.block id hid, annotatedBlock, hl id hid]
  rfl

theorem lacks_of_text_nil (hr : (p.block id).IsReading p.graph) (ht : (p.block id).text = []) :
    p.lacks delimiter style id = false := by
  have hwords := hr.words
  rw [ht, show (Reading.ofText []).tokens = [] by decide, List.forall₂_nil_right_iff] at hwords
  rw [lacks, descriptionOf, hwords]
  rfl

/-- In the program that is read from the text, too, no block lacks its description. -/
theorem lacks_reread (hp : p.Threaded p.order) (he : e.Current delimiter path mark)
    (hn : p.order.Nodup) (hlines : e.lines = if p.order = [] then [[]] else p.lines)
    (hl : ∀ id ∈ p.order, p.lacks delimiter style id = false) :
    ∀ id ∈ e.order, e.lacks delimiter style id = false := by
  intro id hid
  -- What is written of no block is read as one block, an empty one.
  by_cases hnil : p.order = []
  · rw [if_pos hnil, lines_eq] at hlines
    have htext : (e.block id).text ∈ [[]] := hlines ▸ List.mem_map_of_mem hid
    exact lacks_of_text_nil (he.threaded.reading id hid) (List.mem_singleton.mp htext)
  · rw [if_neg hnil] at hlines
    have hmatched := matched_of_lines hp he.threaded hlines.symm
    have hboth := (hmatched.sameBlocks hlines.symm hn he.settled.nodup).mp
      (fun _ _ => And.intro) hmatched.agree
    have hlacks : p.order.map (p.lacks delimiter style) = e.order.map (e.lacks delimiter style) :=
      eq_of_forall₂_map hboth fun i j ⟨hsame, hagree⟩ => by
        rw [lacks, lacks, hagree.description, Block.endsWith, Block.endsWith, hsame.comments]
    have hmem : e.lacks delimiter style id ∈ p.order.map (p.lacks delimiter style) :=
      hlacks ▸ List.mem_map_of_mem hid
    obtain ⟨i, hi, heq⟩ := List.mem_map.mp hmem
    rw [← heq, hl i hi]

/-- The program `d` is annotated to `d'`, and the text of that is read as `e`. -/
structure RoundTrip (delimiter : Text) (style : CommentStyle) (path mark : Option Text)
    (d d' e : Program) : Prop where
  annotate : (annotate delimiter style).Yields d (d.order.countP (d.lacks delimiter style)) d'
  rewrites : Rewrites (d.annotatedBlock delimiter style (d.width + 1)) d d'
  threaded : d'.Threaded d'.order
  described : d'.Described delimiter
  read : (readText d'.text).Yields (start path mark) () e
  current : e.Current delimiter path mark
  lines : e.lines = if d'.order = [] then [[]] else d'.lines

theorem roundTrip (style : CommentStyle) (hδ : IsInner delimiter)
    (h : (readText t).Yields (start path mark) () d) :
    ∃ d' e, RoundTrip delimiter style path mark d d' e := by
  obtain ⟨hd, hunbroken⟩ := readText_current delimiter h
  obtain ⟨d', hannotate, hrewrites, hdescribed⟩ :=
    annotate_yields style hd.threaded hd.described hd.settled.nodup
  have hthreaded : d'.Threaded d'.order :=
    hrewrites.threaded hd.threaded (retold_annotatedBlocks style (d.width + 1) hδ hd.threaded)
  obtain ⟨e, hread, he, hlines⟩ := readText_text delimiter path mark hthreaded
    (hrewrites.unbroken hδ hd.threaded hunbroken)
  exact ⟨d', e, hannotate, hrewrites, hthreaded, hdescribed, hread, he, hlines⟩

/-- A program that was read and annotated stays as it is when it is annotated again, and so does the
one that is read from its text: they count no block and have the lines they had. Behind every block
with a description that stands as a comment, or ends the comment that is open there. -/
theorem annotate_idempotent (style : CommentStyle) (hδ : IsInner delimiter)
    (h : (readText t).Yields (start path mark) () d) :
    ∃ n d', (annotate delimiter style).Yields d n d' ∧
      (∃ d'', (annotate delimiter style).Yields d' 0 d'' ∧ Kept d' d'' ∧ d''.lines = d'.lines) ∧
      (∃ e e', (readText d'.text).Yields (start path mark) () e ∧
        (annotate delimiter style).Yields e 0 e' ∧ Kept e e' ∧ e'.lines = e.lines ∧
        e'.text = d'.text) ∧
      ∀ id ∈ d'.order, ((describeBlock delimiter id).run d').1 ≠ [] →
        ∃ c, (d'.block id).comments.getLast? = some c ∧
          style.format ((describeBlock delimiter id).run d').1 <:+ c.trimRight := by
  obtain ⟨hd, -⟩ := readText_current delimiter h
  obtain ⟨d', e, htrip⟩ := roundTrip style hδ h
  have he := htrip.current
  have hnodup : d'.order.Nodup := htrip.rewrites.order ▸ hd.settled.nodup
  have hlacks : ∀ id ∈ d'.order, d'.lacks delimiter style id = false :=
    htrip.rewrites.lacks_eq_false hδ hd.threaded
  obtain ⟨d'', hagain, hkept⟩ :=
    annotate_idle style htrip.threaded htrip.described hnodup hlacks
  obtain ⟨e', hreread, hkept'⟩ := annotate_idle style he.threaded he.described
    he.settled.nodup (lacks_reread htrip.threaded he hnodup htrip.lines hlacks)
  refine ⟨_, d', htrip.annotate, ⟨d'', hagain, hkept, hkept.lines⟩,
    ⟨e, e', htrip.read, hreread, hkept', hkept'.lines, ?_⟩, fun id hid hne => ?_⟩
  · rw [text, hkept'.lines, htrip.lines, text]
    split
    · rename_i hnil
      rw [lines_eq_nil.mpr hnil]
      rfl
    · rfl
  · have hvalue := (describeBlock_spec htrip.threaded htrip.described id).2.2 hid
    rw [hvalue] at hne ⊢
    have hl := hlacks id hid
    rw [lacks, Bool.not_eq_false', Bool.or_eq_true, List.isEmpty_iff] at hl
    exact Block.endsWith_iff.mp (hl.resolve_left hne)

/-- A command that is tied to a word of the next block, behind that a comment that nothing closes,
an empty block, and blocks whose last comments take up what is put behind them. -/
def remarkedText : Text := "N1 G0 X1\nE3 (A\n\n(B) M98 P7 (C) ; D \nM30 (E".toList

def remarkedProgram : Program := ((readText remarkedText).run (start none none)).state

theorem readText_remarked :
    (readText remarkedText).Yields (start none none) () remarkedProgram := ⟨by decide +kernel, rfl⟩

theorem annotate_idempotent_remarked :
    IsInner " | ".toList ∧ (readText remarkedText).Yields (start none none) () remarkedProgram ∧
      ∃ n d', (annotate " | ".toList .parentheses).Yields remarkedProgram n d' ∧
        (∃ d'', (annotate " | ".toList .parentheses).Yields d' 0 d'' ∧ Kept d' d'' ∧
          d''.lines = d'.lines) ∧
        (∃ e e', (readText d'.text).Yields (start none none) () e ∧
          (annotate " | ".toList .parentheses).Yields e 0 e' ∧ Kept e e' ∧ e'.lines = e.lines ∧
          e'.text = d'.text) ∧
        ∀ id ∈ d'.order, ((describeBlock " | ".toList id).run d').1 ≠ [] →
          ∃ c, (d'.block id).comments.getLast? = some c ∧
            CommentStyle.parentheses.format ((describeBlock " | ".toList id).run d').1 <:+
              c.trimRight := by
  exact ⟨by decide, readText_remarked,
    annotate_idempotent .parentheses (by decide) readText_remarked⟩

/-- The block `j` has the words of the block `i`, and its text unless this lacked its description:
then it has that behind it. -/
structure Annotates (delimiter : Text) (style : CommentStyle) (p q : Program) (i j : BlockId) :
    Prop where
  agree : Agree p q i j
  described : ((describeBlock delimiter i).run p).1 = ((describeBlock delimiter j).run q).1
  untouched : p.lacks delimiter style i = false → (q.block j).text = (p.block i).text
  remarked : p.lacks delimiter style i = true →
    (q.block j).text = (p.block i).remarked p.graph style (p.width + 1)
      (((describeBlock delimiter i).run p).1) ∧
    Comment.Joins ((p.block i).padding p.graph (p.width + 1))
      (style.format ((describeBlock delimiter i).run p).1) (p.block i).comments (q.block j).comments

theorem RoundTrip.matched (h : RoundTrip delimiter style path mark d d' e) (hδ : IsInner delimiter)
    (hd : d.Threaded d.order) (htexts : List.Forall₂ (fun i j => (d'.block i).text = (e.block j).text)
      d.order e.order) : Matched d e := by
  have hretold := retold_annotatedBlocks style (d.width + 1) hδ hd
  refine ⟨hd, h.current.threaded, forall₂_of_splits htexts fun _ i _ _ j _ hi _ _ hij _ => ?_⟩
  have hmem : i ∈ d.order := by simp [hi]
  rw [← hij, h.rewrites.text hmem, (hretold i hmem).tokens (hd.reading i hmem)]

theorem RoundTrip.annotates (h : RoundTrip delimiter style path mark d d' e) (hδ : IsInner delimiter)
    (hd : d.Current delimiter path mark) {i j : BlockId} (hi : i ∈ d.order) (hj : j ∈ e.order)
    (htext : (d'.block i).text = (e.block j).text) (hagree : Agree d e i j) :
    Annotates delimiter style d e i j := by
  have he := h.current
  have hvalue := (describeBlock_spec hd.threaded hd.described i).2.2 hi
  have hvalue' := (describeBlock_spec he.threaded he.described j).2.2 hj
  rw [h.rewrites.text hi, annotatedBlock] at htext
  refine ⟨hagree, ?_, fun hl => ?_, fun hl => ?_⟩
  · rw [hvalue, hvalue', hagree.description]
  · rw [← htext, hl]
    rfl
  · rw [if_pos hl] at htext
    obtain ⟨hreading, -, hjoins⟩ := (hd.threaded.reading i hi).append style
      (d.width + 1) (isPhrase_descriptionOf hδ d i).closing
    rw [hvalue]
    refine ⟨htext.symm, ?_⟩
    rw [(he.threaded.reading j hj).comments, ← htext, ← hreading.comments]
    exact hjoins

/-- A program that was read, annotated and written is read again with the same blocks: the words,
what ties them and the descriptions are the same, and each block that lacked its description has it
behind its comments. A program without a block is read as an empty one. -/
theorem annotate_keeps_program (style : CommentStyle) (hδ : IsInner delimiter)
    (h : (readText t).Yields (start path mark) () d) :
    ∃ n d' e, (annotate delimiter style).Yields d n d' ∧
      n = d.order.countP (d.lacks delimiter style) ∧
      (readText d'.text).Yields (start path mark) () e ∧
      (d.order = [] → e.lines = [[]]) ∧
      (d.order ≠ [] → e.lines = d'.lines ∧
        List.Forall₂ (Annotates delimiter style d e) d.order e.order) := by
  obtain ⟨hd, -⟩ := readText_current delimiter h
  obtain ⟨d', e, htrip⟩ := roundTrip style hδ h
  have hlines := htrip.lines
  rw [htrip.rewrites.order] at hlines
  refine ⟨_, d', e, htrip.annotate, rfl, htrip.read, fun hnil => ?_, fun hne => ?_⟩
  · rw [hlines, if_pos hnil]
  · rw [if_neg hne] at hlines
    have htexts := forall₂_text hlines.symm
    rw [htrip.rewrites.order] at htexts
    have hagree := (htrip.matched hδ hd.threaded htexts).agree
    refine ⟨hlines, ?_⟩
    refine forall₂_of_splits (htexts.mp (fun _ _ => And.intro) hagree)
      fun _ i _ _ j _ hi hj _ ⟨htext, hagree⟩ _ => ?_
    exact htrip.annotates hδ hd (by simp [hi]) (by simp [hj]) htext hagree

theorem annotate_keeps_program_remarked :
    IsInner " | ".toList ∧ (readText remarkedText).Yields (start none none) () remarkedProgram ∧
      ((annotate " | ".toList .semicolon).run remarkedProgram).state.lines =
        ["N1 G0 X1          ; RAPID WITH FIXTURE OFFSET 3", "E3 (A", "",
          "M98 P7 (B)(C); D  ; CALL SUBPROGRAM 7",
          "M30 (E            ; END OF FILE/SUBROUTINE"].map String.toList ∧
      remarkedProgram.order ≠ [] ∧
      ∃ n d' e, (annotate " | ".toList .semicolon).Yields remarkedProgram n d' ∧
        n = remarkedProgram.order.countP (remarkedProgram.lacks " | ".toList .semicolon) ∧
        (readText d'.text).Yields (start none none) () e ∧
        (remarkedProgram.order = [] → e.lines = [[]]) ∧
        (remarkedProgram.order ≠ [] → e.lines = d'.lines ∧
          List.Forall₂ (Annotates " | ".toList .semicolon remarkedProgram e)
            remarkedProgram.order e.order) := by
  exact ⟨by decide, readText_remarked, and_assoc.mp ⟨by decide +kernel,
    annotate_keeps_program .semicolon (by decide) readText_remarked⟩⟩

end PartProgram.Program
