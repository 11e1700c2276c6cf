import PartProgram.Program.Reading
import PartProgram.Proofs.Action.Yields
import PartProgram.Proofs.Word.Graph

/-! # Reading blocks

A block that was read holds what its text says, by words made for it alone. Reading
one block changes no other block and no word made before.
-/
namespace PartProgram

open WordGraph

/-- Instruction, comments and words of the block are those of its text, and the first sequence
number among the words is the one that counts. -/
structure Block.IsReading (g : WordGraph) (b : Block) : Prop where
  instruction : b.instruction = (Reading.ofText b.text).instruction
  comments : b.comments = (Reading.ofText b.text).comments
  words : List.Forall₂ g.Shows b.words (Reading.ofText b.text).tokens
  number : b.number = b.words.find? (Program.isSequenceNumber g)

namespace Program

theorem isSequenceNumber_of_shows {g : WordGraph} {id : WordId} {x : Text × Bool}
    (h : g.Shows id x) : isSequenceNumber g id = isSequence x := by
  obtain ⟨w, hw, hs⟩ := h
  rw [hs.isSequence]
  simp only [isSequenceNumber, hw, Option.any_some]

theorem find?_isSequenceNumber {g g' : WordGraph} {ids : List WordId} {xs : List (Text × Bool)}
    (h : List.Forall₂ g.Shows ids xs) (h' : List.Forall₂ g'.Shows ids xs) :
    ids.find? (isSequenceNumber g) = ids.find? (isSequenceNumber g') := by
  induction h with
  | nil => rfl
  | cons hx _ ih =>
    cases h' with
    | cons hx' hrest' =>
      simp only [List.find?_cons, isSequenceNumber_of_shows hx, isSequenceNumber_of_shows hx',
        ih hrest']

end Program

theorem Block.IsReading.mono {g g' : WordGraph} {b : Block} (h : b.IsReading g)
    (hg : Grows g g') : b.IsReading g' :=
  ⟨h.instruction, h.comments, hg.forall₂ h.words,
    h.number.trans (Program.find?_isSequenceNumber h.words (hg.forall₂ h.words))⟩

namespace Program

theorem block_modifyBlock {p : Program} {id : BlockId} (h : id < p.store.size)
    (f : Block → Block) : (p.modifyBlock id f).block id = f (p.block id) := by
  simp only [block, modifyBlock, Array.getElem?_modify, if_true, Array.getElem?_eq_getElem h,
    Option.map_some, Option.getD_some]

theorem block_modifyBlock_of_ne {p : Program} {id other : BlockId} (h : other ≠ id)
    (f : Block → Block) : (p.modifyBlock id f).block other = p.block other := by
  simp only [block, modifyBlock, Array.getElem?_modify, if_neg (Ne.symm h)]

theorem forall_block_modifyBlock (p : Program) (id : BlockId) (f : Block → Block)
    (R : Block → Block → Prop) (hR : ∀ b, R b b) (h : R (p.block id) (f (p.block id)))
    (i : BlockId) : R (p.block i) ((p.modifyBlock id f).block i) := by
  by_cases hi : i = id
  · subst hi
    by_cases hstored : i < p.store.size
    · rw [block_modifyBlock hstored]
      exact h
    · have hsame : (p.modifyBlock i f).block i = p.block i := by
        simp only [block, modifyBlock, Array.getElem?_modify, if_true,
          Array.getElem?_eq_none (Nat.le_of_not_lt hstored), Option.map_none]
      rw [hsame]
      exact hR _
  · rw [block_modifyBlock_of_ne hi]
    exact hR _

/-- Only this block was changed, and words were made. -/
structure Touches (id : BlockId) (p p' : Program) : Prop where
  path : p'.path = p.path
  order : p'.order = p.order
  sections : p'.sections = p.sections
  size : p'.store.size = p.store.size
  other : ∀ i ≠ id, p'.block i = p.block i
  grows : Grows p.graph p'.graph

theorem Touches.trans {id : BlockId} {p p' p'' : Program} (h : Touches id p p')
    (h' : Touches id p' p'') : Touches id p p'' :=
  ⟨h'.path.trans h.path, h'.order.trans h.order, h'.sections.trans h.sections,
    h'.size.trans h.size, fun i hi => (h'.other i hi).trans (h.other i hi),
    h.grows.trans h'.grows⟩

theorem touches_modifyBlock (p : Program) (id : BlockId) (f : Block → Block) :
    Touches id p (p.modifyBlock id f) :=
  ⟨rfl, rfl, rfl, Array.size_modify, fun _ hi => block_modifyBlock_of_ne hi f, .refl _⟩

theorem yields_addWord {s : Text} {c : Option WordId} {verbatim : Bool} {p p' : Program}
    {id : WordId} : (addWord s c verbatim).Yields p id p' ↔
      ∃ w, Word.ofText s c verbatim = .ok w ∧ id = p.graph.size ∧
        p' = { p with graph := p.graph.register w } := by
  simp only [addWord, Action.yields_bind, Action.yields_ofExcept, Action.yields_get,
    Action.yields_modify, Action.yields_pure]
  constructor
  · rintro ⟨w, _, ⟨hw, rfl⟩, _, _, ⟨rfl, rfl⟩, _, _, rfl, rfl, rfl⟩
    exact ⟨w, hw, rfl, rfl⟩
  · rintro ⟨w, hw, rfl, rfl⟩
    exact ⟨w, p, ⟨hw, rfl⟩, p, p, ⟨rfl, rfl⟩, ⟨⟩, _, rfl, rfl, rfl⟩

/-- One step of the loop over the words of a block. -/
def readToken (id : BlockId) (c : Option WordId) (x : Text × Bool) :
    Action Program (Option WordId) := do
  let (word, next) ← readWord x.1 c x.2
  let g := (← get).graph
  modify (·.modifyBlock id (enterWord g word))
  pure next

theorem readToken_yields {id : BlockId} {c c' : Option WordId} {x : Text × Bool} {p p' : Program}
    (hid : id < p.store.size) (h : (readToken id c x).Yields p c' p') :
    Touches id p p' ∧ p'.graph.size = p.graph.size + 1 ∧ p'.graph.Shows p.graph.size x ∧
      p'.block id = enterWord p'.graph p.graph.size (p.block id) := by
  simp only [readToken, readWord, Action.yields_bind, yields_addWord, Action.yields_get,
    Action.yields_modify, Action.yields_pure] at h
  obtain ⟨_, _, ⟨_, _, ⟨w, hw, rfl, rfl⟩, _, _, ⟨rfl, rfl⟩, rfl, rfl⟩, _, _, ⟨rfl, rfl⟩, _, _, rfl,
    -, rfl⟩ := h
  refine ⟨⟨rfl, rfl, rfl, Array.size_modify, ?_, grows_register _ _⟩, size_register _ _,
    shows_register_size (Word.says_ofText hw), ?_⟩
  · exact fun i hi => block_modifyBlock_of_ne hi _
  · exact block_modifyBlock (p := { p with graph := p.graph.register w }) hid _

theorem readTokens_yields {id : BlockId} {c c' : Option WordId} {xs : List (Text × Bool)}
    {p p' : Program} (hid : id < p.store.size)
    (h : (xs.foldlM (readToken id) c).Yields p c' p') :
    Touches id p p' ∧ List.Forall₂ p'.graph.Shows (List.range' p.graph.size xs.length) xs ∧
      p'.block id =
        { p.block id with
          words := (p.block id).words ++ List.range' p.graph.size xs.length
          number := (p.block id).number <|>
            (List.range' p.graph.size xs.length).find? (isSequenceNumber p'.graph) } := by
  induction xs generalizing c p with
  | nil =>
    rw [List.foldlM_nil, Action.yields_pure] at h
    obtain ⟨-, rfl⟩ := h
    exact ⟨⟨rfl, rfl, rfl, rfl, fun _ _ => rfl, .refl _⟩, .nil, by simp⟩
  | cons x rest ih =>
    rw [List.foldlM_cons, Action.yields_bind] at h
    obtain ⟨c₁, p₁, hx, hrest⟩ := h
    obtain ⟨htouch, hsize, hshow, hblock⟩ := readToken_yields hid hx
    obtain ⟨htouch', hshows, hblock'⟩ := ih (htouch.size ▸ hid) hrest
    have hshow' := htouch'.grows.shows hshow
    rw [hsize] at hshows hblock'
    refine ⟨htouch.trans htouch', .cons hshow' hshows, ?_⟩
    rw [hblock', hblock, enterWord, List.length_cons, List.range'_succ, List.find?_cons,
      isSequenceNumber_of_shows hshow, isSequenceNumber_of_shows hshow']
    cases hn : (p.block id).number <;> cases isSequence x <;> simp [List.append_assoc]

def emptied (r : Reading) (b : Block) : Block :=
  { b with
    instruction := r.instruction, comments := r.comments
    words := [], number := none, anomalies := r.anomalies }

theorem readBlock_eq (id : BlockId) (c : Option WordId) : readBlock id c = (do
    let block := (← get).block id
    let reading := Reading.ofText block.text
    modify (·.modifyBlock id (emptied reading))
    for a in reading.anomalies do
      Action.report [.log .debug .block
        s!"Formatting anomaly in {block.text.quoted.shown}: {a.message}"]
    let trailing ← reading.tokens.foldlM (readToken id) c
    modify (·.modifyBlock id fun b => { b with trailing, description := .stale })
    pure trailing) := rfl

/-- A block that is read holds what its text says, by new words only. -/
theorem readBlock_yields {id : BlockId} {c c' : Option WordId} {p p' : Program}
    (hid : id < p.store.size) (h : (readBlock id c).Yields p c' p') :
    Touches id p p' ∧ (p'.block id).text = (p.block id).text ∧
      (p'.block id).IsReading p'.graph ∧
      ∃ n, (p'.block id).words = List.range' p.graph.size n := by
  simp only [readBlock_eq, Action.yields_bind, Action.yields_get, Action.yields_modify,
    Action.yields_pure, Action.yields_forIn_report, and_assoc, exists_and_left, exists_eq_left,
    exists_const] at h
  obtain ⟨c₁, p₂, htokens, -, rfl⟩ := h
  have hfirst := touches_modifyBlock p id (emptied (Reading.ofText (p.block id).text))
  obtain ⟨htouch, hshows, hblock⟩ := readTokens_yields (hfirst.size.symm ▸ hid) htokens
  have hid₂ : id < p₂.store.size := by rw [htouch.size, hfirst.size]; exact hid
  rw [block_modifyBlock hid] at hblock
  refine ⟨hfirst.trans (htouch.trans (touches_modifyBlock p₂ id _)), ?_⟩
  rw [block_modifyBlock hid₂, hblock]
  dsimp only [emptied, List.nil_append]
  exact ⟨rfl, ⟨rfl, rfl, hshows, rfl⟩, _, rfl⟩

end Program

end PartProgram
