import PartProgram.Proofs.Program.Annotated

/-! # Descriptions in one column

The width is taken before any comment is added and bounds every block as it stands then,
so the comments that are added begin in one column. A block that gets none is left as it
was written, and no word is changed.
-/
namespace PartProgram.Program

open WordGraph

variable {p p' : Program} {delimiter : Text} {style : CommentStyle} {id : BlockId}
  {path mark : Option Text} {ls : List Text}

theorem le_foldl_max {l : List Nat} {a n : Nat} (h : n ∈ a :: l) : n ≤ l.foldl max a := by
  induction l generalizing a n with
  | nil => exact Nat.le_of_eq (List.mem_singleton.mp h)
  | cons b l ih =>
    rw [List.foldl_cons]
    have hfirst : max a b ≤ l.foldl max (max a b) := ih List.mem_cons_self
    rcases List.mem_cons.mp h with rfl | h
    · omega
    · rcases List.mem_cons.mp h with rfl | h
      · omega
      · exact ih (List.mem_cons_of_mem _ h)

theorem foldl_max_mem (l : List Nat) (a : Nat) : l.foldl max a = a ∨ l.foldl max a ∈ l := by
  induction l generalizing a with
  | nil => exact .inl rfl
  | cons b l ih =>
    rw [List.foldl_cons]
    rcases ih (max a b) with heq | hmem
    · rw [heq]
      rcases Nat.le_total a b with hab | hab
      · exact .inr (by simp [hab])
      · exact .inl (Nat.max_eq_left hab)
    · exact .inr (List.mem_cons_of_mem b hmem)

theorem length_le_width (hid : id ∈ p.order) : (p.rebuilt id).length ≤ p.width :=
  le_foldl_max (List.mem_cons_of_mem 0 (List.mem_map_of_mem hid))

theorem exists_length_eq_width (h : p.order ≠ []) :
    ∃ id ∈ p.order, (p.rebuilt id).length = p.width := by
  rcases foldl_max_mem (p.order.map fun id => (p.rebuilt id).length) 0 with hzero | hmem
  · have hwidth : p.width = 0 := hzero
    obtain ⟨id, hid⟩ := List.exists_mem_of_ne_nil _ h
    have hle := length_le_width hid
    exact ⟨id, hid, by omega⟩
  · exact List.mem_map.mp hmem

/-- In the second program the block has the comment it lacked in the first, in the column behind the
width, or is written as it was; its words are those it had. -/
structure Aligns (delimiter : Text) (style : CommentStyle) (p p' : Program) (id : BlockId) :
    Prop where
  description : ((describeBlock delimiter id).run p).1 = p.descriptionOf delimiter id
  remarked : p.lacks delimiter style id = true → ∃ gap, (∀ c ∈ gap, c = ' ') ∧
    (p.rebuilt id ++ gap).length = p.width + 1 ∧
    (p'.block id).text = p.rebuilt id ++ gap ++ ' ' :: style.format (p.descriptionOf delimiter id)
  untouched : p.lacks delimiter style id = false → (p'.block id).text = (p.block id).text ∧
    (p'.block id).comments = (p.block id).comments ∧
    (p'.block id).instruction = (p.block id).instruction
  words : (p'.block id).words = (p.block id).words
  number : (p'.block id).number = (p.block id).number
  trailing : (p'.block id).trailing = (p.block id).trailing

theorem Rewrites.aligns (h : Rewrites (p.annotatedBlock delimiter style (p.width + 1)) p p')
    (hd : p.toldBlock delimiter id = p.descriptionOf delimiter id) (hid : id ∈ p.order) :
    Aligns delimiter style p p' id := by
  have hblock := h.block id hid
  have hwidth := length_le_width hid
  refine ⟨hd, fun hl => ⟨List.replicate (p.width + 1 - (p.rebuilt id).length) ' ',
    fun c hc => List.eq_of_mem_replicate hc, ?_, ?_⟩, fun hl => ?_, ?_, ?_, ?_⟩
  · rw [List.length_append, List.length_replicate]
    omega
  · rw [h.text hid, annotatedBlock, if_pos hl]
    rfl
  · rw [annotatedBlock, hl, if_neg (by decide)] at hblock
    exact ⟨(congrArg Block.text hblock :), (congrArg Block.comments hblock :),
      (congrArg Block.instruction hblock :)⟩
  · exact (h.wordsOf hid).trans (words_annotatedBlock p id)
  · refine (congrArg Block.number hblock :).trans ?_
    rw [annotatedBlock]
    split <;> rfl
  · refine (congrArg Block.trailing hblock :).trans ?_
    rw [annotatedBlock]
    split <;> rfl

/-- A program that was read is annotated, whatever stands between its phrases: the comments that are
added begin in one column, two behind the width, and nothing else changes. As many are counted as
are added. -/
theorem annotate_aligned (style : CommentStyle) (delimiter : Text)
    (h : (readLines ls).Yields (start path mark) () p) :
    ((∀ id ∈ p.order, (p.rebuilt id).length ≤ p.width) ∧
      (p.order ≠ [] → ∃ id ∈ p.order, (p.rebuilt id).length = p.width)) ∧
    ∃ p', (annotate delimiter style).Yields p (p.order.countP (p.lacks delimiter style)) p' ∧
      p'.order = p.order ∧ (∀ id ∈ p.order, Aligns delimiter style p p' id) ∧
      Retains p.graph p'.graph p.words := by
  obtain ⟨hp, -⟩ := readLines_current delimiter h
  have htold : ∀ id ∈ p.order, p.toldBlock delimiter id = p.descriptionOf delimiter id :=
    fun id hid => (describeBlock_spec hp.threaded hp.described id).2.2 hid
  obtain ⟨p', hannotate, hrewrites, -⟩ :=
    annotate_told style hp.threaded.stored hp.settled.nodup htold
  exact ⟨⟨fun _ => length_le_width, exists_length_eq_width⟩, p', hannotate, hrewrites.order,
    fun id hid => hrewrites.aligns (htold id hid) hid, hrewrites.words⟩

/-- Two commands on one block, a comment that nothing closed, and blocks that get none. -/
def unevenLines : List Text :=
  ["G0 G1 E3", "N10 G0 X1 Y2 (a", "(A)", "M30 (END OF FILE/SUBROUTINE)"].map String.toList

def unevenProgram : Program := ((readLines unevenLines).run (start none none)).state

theorem annotate_aligned_uneven :
    (readLines unevenLines).Yields (start none none) () unevenProgram ∧
      ((annotate ")N1(".toList .parentheses).run unevenProgram).state.lines =
        ["G0 G1 E3                      (RAPID)N1(MOVE)",
          "N10 G0 X1 Y2 (a               (RAPID)", "(A)",
          "M30 (END OF FILE/SUBROUTINE)"].map String.toList ∧
      unevenProgram.width = 28 ∧
      ∃ p', (annotate ")N1(".toList .parentheses).Yields unevenProgram
          (unevenProgram.order.countP (unevenProgram.lacks ")N1(".toList .parentheses)) p' ∧
        p'.order = unevenProgram.order ∧
        (∀ id ∈ unevenProgram.order, Aligns ")N1(".toList .parentheses unevenProgram p' id) ∧
        Retains unevenProgram.graph p'.graph unevenProgram.words := by
  have hread : (readLines unevenLines).Yields (start none none) () unevenProgram :=
    ⟨by decide +kernel, rfl⟩
  exact ⟨hread, and_assoc.mp ⟨by decide +kernel,
    (annotate_aligned .parentheses ")N1(".toList hread).2⟩⟩

end PartProgram.Program
