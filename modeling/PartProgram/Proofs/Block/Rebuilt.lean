import PartProgram.Proofs.Block.Remarked
import PartProgram.Proofs.Program.Settled

/-! # What a block is made again from

The text made again from words and comments is that of the block up to blanks. It is
blank exactly if the block is, also after a reading that was refused on its way or a
comment that ends before its end: no comment and no word is blank, and what stands
outside the comments is kept.
-/
namespace PartProgram

open Unicode WordGraph

theorem Text.trim_eq_nil {s : Text} : s.trim = [] ↔ isBlankText s = true := by
  rw [← List.head?_eq_none_iff, head?_trim, List.head?_eq_none_iff, trimLeft_eq_nil]

namespace Comment

theorem grow_ne_nil (c : Char) (found : Text × List Text) : (grow c found).2 ≠ [] := by
  unfold grow
  split <;> simp

theorem isBlankText_split (s : Text) :
    Text.isBlankText s = (Text.isBlankText (split s).1 && (split s).2.isEmpty) := by
  unfold split
  induction s with
  | nil => rfl
  | cons c s ih =>
    rw [scan]
    split
    · rename_i hc
      simp [hc, isBlank_semicolon]
    · dsimp only
      split
      · rename_i hc
        have hgrow := grow_ne_nil c (scan .inside s)
        simp [hc ▸ hgrow, hc, isBlank_parenthesis]
      · rw [Text.isBlankText_cons, Text.isBlankText_cons, ih, Bool.and_assoc]

theorem IsSegments.isBlankText_flatten {cs : List Text} (h : IsSegments cs) :
    Text.isBlankText cs.flatten = cs.isEmpty := by
  by_cases hne : cs = []
  · rw [hne]
    rfl
  · obtain ⟨c, m, hc, hflatten⟩ := h.flatten_eq_cons hne
    rw [hflatten, Text.isBlankText_cons, hc, Bool.false_and, List.isEmpty_eq_false_iff.mpr hne]

end Comment

theorem Reading.isBlankText_of_mem_cut {s : Text} {x : Text × Bool} (hx : x ∈ cut s)
    (hne : x.1 ≠ []) : Text.isBlankText x.1 = false ∧ Text.isBlankText s = false := by
  obtain ⟨c, rest, hc⟩ := List.exists_cons_of_ne_nil hne
  have hblank := isBlank_of_mem_cut hx hc
  refine ⟨by rw [hc, Text.isBlankText_cons, hblank, Bool.false_and], ?_⟩
  refine List.all_eq_false.mpr ⟨c, subset_of_mem_cut hx (hc ▸ List.mem_cons_self), ?_⟩
  simp [hblank]

/-- Instruction and comments are those of the text, and a block with words is not blank, nor is any
of these. -/
structure Block.IsWhole (g : WordGraph) (b : Block) : Prop where
  split : Comment.split b.text = (b.instruction, b.comments)
  solid : ∀ w ∈ b.words, (∃ x, g.Shows w x ∧ Text.isBlankText x.1 = false) ∧
    Text.isBlankText b.text = false

section
variable {g g' : WordGraph} {b b' : Block}

theorem Block.IsWhole.mono (h : b.IsWhole g) (hg : Grows g g') : b.IsWhole g' :=
  ⟨h.split, fun w hw => ⟨(h.solid w hw).1.imp fun _ hx => ⟨hg.shows hx.1, hx.2⟩, (h.solid w hw).2⟩⟩

/-- Words that are some of those the text is cut into are enough. -/
theorem Block.isWhole_of_shows (hsplit : Comment.split b.text = (b.instruction, b.comments))
    (hwords : ∀ w ∈ b.words, ∃ x ∈ (Reading.ofText b.text).tokens, g.Shows w x) :
    b.IsWhole g := by
  refine ⟨hsplit, fun w hw => ?_⟩
  obtain ⟨x, hx, hshow⟩ := hwords w hw
  have hne : x.1 ≠ [] := by
    obtain ⟨v, -, hs⟩ := hshow
    exact hs.text ▸ v.text_ne_nil
  rw [Reading.tokens_ofText, Reading.instruction_ofText] at hx
  obtain ⟨hword, htext⟩ := Reading.isBlankText_of_mem_cut hx hne
  exact ⟨⟨x, hshow, hword⟩, by rw [Comment.isBlankText_split, htext, Bool.false_and]⟩

theorem Block.IsReading.isWhole (h : b.IsReading g) : b.IsWhole g :=
  isWhole_of_shows (by rw [h.instruction, h.comments, Reading.instruction_ofText,
    Reading.comments_ofText]) (shows_of_mem h.words)

theorem Block.IsWhole.isEmpty_eq (h : b.IsWhole g) : b.isEmpty g = Text.isBlankText b.text := by
  have hempty : b.isEmpty g = Text.isBlankText (b.instructions g ++ b.comments.flatten) := by
    rw [Block.isEmpty, Block.rebuilt, Bool.eq_iff_iff, List.isEmpty_iff, Text.trim_eq_nil]
  have hsegments := Comment.isSegments_split b.text
  rw [h.split] at hsegments
  rw [hempty, Text.isBlankText_append, hsegments.isBlankText_flatten]
  cases hwords : b.words with
  | nil => rw [Block.instructions, hwords, List.isEmpty_nil, if_pos rfl,
      Comment.isBlankText_split b.text, h.split]
  | cons w ws =>
    obtain ⟨⟨x, hx, hword⟩, htext⟩ := h.solid w (hwords ▸ List.mem_cons_self)
    rw [Block.instructions, hwords, List.isEmpty_cons, if_neg (by simp), List.flatMap_cons,
      hx.textOf, Text.isBlankText_append, Text.isBlankText_append, hword, htext]
    rfl

theorem Block.IsReading.words_eq_nil (h : b.IsReading g) :
    b.words = [] ↔ (Reading.ofText b.text).tokens = [] := by
  rw [← List.length_eq_zero_iff, h.words.length_eq, List.length_eq_zero_iff]

theorem Block.IsReading.rebuilt_congr (h : b.IsReading g) (h' : b'.IsReading g')
    (htext : b'.text = b.text) : b'.rebuilt g' = b.rebuilt g := by
  have hwords : b'.words = [] ↔ b.words = [] := by
    rw [h'.words_eq_nil, h.words_eq_nil, htext]
  have hinstructions : b'.instructions g' = b.instructions g := by
    simp only [Block.instructions, List.isEmpty_iff, hwords, h'.instruction, h.instruction, htext,
      flatMap_textOf h.words, flatMap_textOf (htext ▸ h'.words)]
  rw [Block.rebuilt, Block.rebuilt, hinstructions, h'.comments, h.comments, htext]

end

namespace Program

variable {p p' : Program} {l l' : List BlockId} {id : BlockId}

theorem ReadsAll.isEmptyBlock_eq (hp : p.ReadsAll l) (hid : id ∈ l) :
    p.isEmptyBlock id = Text.isBlankText (p.block id).text :=
  (hp.reading id hid).isWhole.isEmpty_eq

theorem ReadsAll.rebuilt_congr (hp : p.ReadsAll l) (hp' : p'.ReadsAll l') (hid : id ∈ l)
    (hid' : id ∈ l') (h : (p'.block id).text = (p.block id).text) :
    p'.rebuilt id = p.rebuilt id :=
  (hp.reading id hid).rebuilt_congr (hp'.reading id hid') h

end Program

end PartProgram
