import PartProgram.Proofs.Block.CommentOrder
import PartProgram.Proofs.Fragment.Renumbered

/-! # Blocks read from what they make

The text that a block makes is read as the same words and comments, and makes itself
again: no token, comment, meta command or mark to pass over arises where the parts
meet. Up to blanks it is the instruction text with the comments behind it.
-/
namespace PartProgram

open Unicode WordGraph

theorem Token.withoutBlanks_spaced (ts : List Text) :
    (spaced ts).withoutBlanks = Text.withoutBlanks ts.flatten := by
  induction ts with
  | nil => rfl
  | cons t ts ih =>
    have hspace : Text.withoutBlanks (' ' :: spaced ts) = (spaced ts).withoutBlanks :=
      List.filter_cons_of_neg (by simp [isBlank_space])
    rw [spaced_cons, List.flatten_cons, Text.withoutBlanks_append, Text.withoutBlanks_append, hspace,
      ih]

/-- The words hold all of the instruction text they were cut from. -/
theorem Reading.withoutBlanks_cut {s : Text} (hne : cut s ≠ []) :
    (Token.spaced ((cut s).map Prod.fst)).withoutBlanks = s.withoutBlanks := by
  rw [Token.withoutBlanks_spaced]
  unfold cut at hne ⊢
  split
  · simp_all
  · split
    · rw [List.map_singleton, List.flatten_singleton, Text.withoutBlanks_trim]
    · have hfst : (Token.tokens s).map (Prod.fst ∘ ((·, false) : Text → Text × Bool)) =
          Token.tokens s := List.map_id _
      rw [List.map_map, hfst, Token.flatten_tokens]
      exact Text.withoutBlanks_withoutBlanks s

section
variable {g : WordGraph} {b : Block}

theorem Block.IsReading.instructions_spaced (h : b.IsReading g)
    (hne : Reading.cut (b.instructions g) ≠ []) :
    b.instructions g = Token.spaced ((Reading.cut (b.instructions g)).map Prod.fst) := by
  rw [h.instructions.2] at hne ⊢
  have hwords : b.words.isEmpty = false :=
    List.isEmpty_eq_false_iff.mpr (mt h.words_eq_nil.mp hne)
  rw [Block.instructions, hwords, if_neg (by simp), flatMap_textOf h.words]

theorem Block.IsReading.withoutBlanks_instructions (h : b.IsReading g) :
    (b.instructions g).withoutBlanks = b.instruction.withoutBlanks := by
  rw [Block.instructions]
  split
  · rfl
  · rename_i hne
    have htokens : Reading.cut b.instruction = (Reading.ofText b.text).tokens := by
      rw [Reading.tokens_ofText, h.instruction]
    rw [List.isEmpty_iff, h.words_eq_nil, ← htokens] at hne
    rw [flatMap_textOf h.words, ← htokens, Reading.withoutBlanks_cut hne]

/-- A block makes its instruction text with its comments behind it, up to blanks. -/
theorem Block.IsReading.withoutBlanks_rebuilt (h : b.IsReading g) :
    (b.rebuilt g).withoutBlanks =
      b.instruction.withoutBlanks ++ (b.comments.map Text.withoutBlanks).flatten := by
  rw [Block.rebuilt, Text.withoutBlanks_trim, Text.withoutBlanks_append, h.withoutBlanks_instructions,
    Text.withoutBlanks_flatten]

theorem Block.IsReading.ofText_rebuilt (h : b.IsReading g) :
    (Reading.ofText (b.rebuilt g)).tokens = (Reading.ofText b.text).tokens ∧
      (Reading.ofText (b.rebuilt g)).comments = Comment.trimLast b.comments := by
  obtain ⟨hplain, hcut⟩ := h.instructions
  obtain ⟨htokens, hcomments, -⟩ := Reading.ofText_rebuilt hplain h.segments
  exact ⟨htokens.trans hcut, hcomments⟩

/-- A block that was read makes a text that is read. -/
theorem Block.IsReading.isReadable_rebuilt (h : b.IsReading g) :
    PartProgram.isReadable (b.rebuilt g) = true := by
  rw [isReadable_iff, h.ofText_rebuilt.1]
  exact isReadable_iff.mp h.isReadable

end

theorem bind_idxOf?_find? {α : Type} [DecidableEq α] (l : List α) (f : α → Bool) :
    (l.find? f).bind (l.idxOf? ·) = l.findIdx? f := by
  induction l with
  | nil => rfl
  | cons a l ih =>
    rw [List.find?_cons, List.findIdx?_cons]
    cases ha : f a with
    | true => simp [List.idxOf?_cons]
    | false =>
      have hskip : ∀ b ∈ l.find? f, (a :: l).idxOf? b = (l.idxOf? b).map (· + 1) := by
        intro b hb
        have hne : a ≠ b := fun hab => by
          rw [hab, List.find?_some hb] at ha
          cases ha
        simp [List.idxOf?_cons, hne]
      cases hfind : l.find? f with
      | none =>
        rw [hfind, Option.bind_none] at ih
        rw [← ih]
        rfl
      | some b =>
        rw [hfind, Option.bind_some] at ih
        simp [hskip b hfind, ih]

namespace Program

variable {p p' : Program} {id id' : BlockId}

def numberPlace? (p : Program) (id : BlockId) : Option Nat :=
  (p.block id).number.bind ((p.block id).words.idxOf? ·)

theorem findIdx?_isSequenceNumber {g : WordGraph} {ids : List WordId} {xs : List (Text × Bool)}
    (h : List.Forall₂ g.Shows ids xs) :
    ids.findIdx? (isSequenceNumber g) = xs.findIdx? isSequence := by
  induction h with
  | nil => rfl
  | cons hx _ ih => rw [List.findIdx?_cons, List.findIdx?_cons, isSequenceNumber_of_shows hx, ih]

theorem numberPlace?_eq (h : (p.block id).IsReading p.graph) :
    p.numberPlace? id = (Reading.ofText (p.block id).text).tokens.findIdx? isSequence := by
  rw [numberPlace?, h.number, bind_idxOf?_find?, findIdx?_isSequenceNumber h.words]

/-- The second block is the first one read again from what that makes: nothing is lost but blanks
behind the last comment, and it makes the same text. -/
structure Reproduces (p : Program) (id : BlockId) (p' : Program) (id' : BlockId) : Prop where
  words : p'.shownWords id' = p.shownWords id
  letters : (p'.block id').words.map p'.graph.letterOf = (p.block id).words.map p.graph.letterOf
  wordless : (p'.block id').words = [] ↔ (p.block id).words = []
  number : p'.numberPlace? id' = p.numberPlace? id
  comments : (p'.block id').comments = Comment.trimLast (p.block id).comments
  rebuilt : p'.rebuilt id' = p.rebuilt id

theorem reproduces_of_isReading (h : (p.block id).IsReading p.graph)
    (h' : (p'.block id').IsReading p'.graph) (htext : (p'.block id').text = p.rebuilt id) :
    p.Reproduces id p' id' := by
  obtain ⟨htokens, hcomments⟩ := h.ofText_rebuilt
  rw [show (p.block id).rebuilt p.graph = (p'.block id').text from htext.symm] at htokens hcomments
  exact {
    words := by rw [shownWords, shownWords, map_shown h'.words, map_shown h.words, htokens]
    letters := by rw [map_letterOf h'.words, map_letterOf h.words, htokens]
    wordless := by rw [h'.words_eq_nil, h.words_eq_nil, htokens]
    number := by rw [numberPlace?_eq h', numberPlace?_eq h, htokens]
    comments := h'.comments.trans hcomments
    rebuilt := (rebuilt_of_isReading h' htext h.instructions.1 h.segments
      h.instructions_spaced).trans htext }

/-- Reading and making again reach a normal form that loses nothing. What a block makes is read
in every program, as the words and comments of the block, and makes itself again. Up to blanks it is
the instruction text with the comments behind it, and so the text that was read exactly if there is
no instruction behind a comment. -/
theorem block_reproduced {text : Text} {c : Option WordId} {s : Program}
    (h : (addBlock text c).Yields s id p) :
    (∀ s' c', ∃ id' p', (addBlock (p.rebuilt id) c').Yields s' id' p' ∧ p.Reproduces id p' id') ∧
      (p.rebuilt id).withoutBlanks = (p.block id).instruction.withoutBlanks ++
        ((p.block id).comments.map Text.withoutBlanks).flatten ∧
      ((p.rebuilt id).withoutBlanks = text.withoutBlanks ↔ Comment.CommentsLast text) := by
  obtain ⟨hadds, hreads⟩ := addBlock_yields (readsAll_nil s) h
  have hread := hreads.reading id List.mem_cons_self
  have hmade := hread.withoutBlanks_rebuilt
  refine ⟨fun s' c' => ?_, hmade, ?_⟩
  · obtain ⟨id', p', hadd⟩ := addBlock_succeeds hread.isReadable_rebuilt s' c'
    obtain ⟨hadds', hreads'⟩ := addBlock_yields (readsAll_nil s') hadd
    exact ⟨id', p', hadd, reproduces_of_isReading hread (hreads'.reading id' List.mem_cons_self)
      hadds'.text_eq⟩
  · rw [← Comment.withoutBlanks_split_iff, Program.rebuilt, hmade, hread.instruction, hread.comments,
      Reading.instruction_ofText, Reading.comments_ofText, hadds.text_eq, Text.withoutBlanks_flatten]

theorem block_reproduced_sample : ∃ id p,
    (addBlock "n5g1(a)X2 ;b ".toList none).Yields {} id p ∧
      p.rebuilt id = "n5 g1 X2 (a);b".toList ∧
      (∀ s' c', ∃ id' p', (addBlock (p.rebuilt id) c').Yields s' id' p' ∧ p.Reproduces id p' id') ∧
      (p.rebuilt id).withoutBlanks = (p.block id).instruction.withoutBlanks ++
        ((p.block id).comments.map Text.withoutBlanks).flatten ∧
      ((p.rebuilt id).withoutBlanks = Text.withoutBlanks "n5g1(a)X2 ;b ".toList ↔
        Comment.CommentsLast "n5g1(a)X2 ;b ".toList) := by
  have hadd : (addBlock "n5g1(a)X2 ;b ".toList none).Yields {} 0
      ((addBlock "n5g1(a)X2 ;b ".toList none).run {}).state := ⟨by decide +kernel, rfl⟩
  exact ⟨0, _, hadd, by decide +kernel, block_reproduced hadd⟩

end Program

end PartProgram
