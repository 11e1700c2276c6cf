import PartProgram.Proofs.Program.View

/-! # Programs that are read alike

Two programs whose blocks have the same words in the same order agree in everything
that can be seen of the words, whatever their places in the graph: what ties them
only depends on the order they stand in. If also the texts of the blocks are the same,
the programs look the same.
-/
namespace PartProgram

section
variable {α β : Type} {R : α → β → Prop} {l : List α} {m : List β}

theorem forall₂_find? {f : α → Bool} {g : β → Bool} (h : List.Forall₂ R l m)
    (hfg : ∀ a b, R a b → f a = g b) : Option.Rel R (l.find? f) (m.find? g) := by
  induction h with
  | nil => exact .none
  | @cons a b l m hab _ ih =>
    rw [List.find?_cons, List.find?_cons, hfg a b hab]
    cases g b with
    | true => exact .some hab
    | false => exact ih

theorem forall₂_cutAfter {f : α → Bool} {g : β → Bool} (h : List.Forall₂ R l m)
    (hfg : ∀ a b, R a b → f a = g b) :
    List.Forall₂ R (cutAfter f l).1 (cutAfter g m).1 ∧
      List.Forall₂ R (cutAfter f l).2 (cutAfter g m).2 := by
  induction h with
  | nil => exact ⟨.nil, .nil⟩
  | @cons a b l m hab hrest ih =>
    rw [cutAfter, cutAfter, hfg a b hab]
    cases g b with
    | true => exact ⟨.cons hab .nil, hrest⟩
    | false => exact ⟨.cons hab ih.1, ih.2⟩

theorem rel_map_eq {γ : Type} {f : α → γ} {g : β → γ} {x : Option α} {y : Option β}
    (h : Option.Rel R x y) (hfg : ∀ a b, R a b → f a = g b) : x.map f = y.map g := by
  cases h with
  | some hab => rw [Option.map_some, Option.map_some, hfg _ _ hab]
  | none => rfl

theorem rel_bind_eq {γ : Type} {f : α → Option γ} {g : β → Option γ} {x : Option α}
    {y : Option β} (h : Option.Rel R x y) (hfg : ∀ a b, R a b → f a = g b) : x.bind f = y.bind g := by
  cases h with
  | some hab => exact hfg _ _ hab
  | none => rfl

theorem eq_of_forall₂_map {γ : Type} {f : α → γ} {g : β → γ} (h : List.Forall₂ R l m)
    (hfg : ∀ a b, R a b → f a = g b) : l.map f = m.map g := by
  induction h with
  | nil => rfl
  | cons hab _ ih => rw [List.map_cons, List.map_cons, hfg _ _ hab, ih]

theorem forall₂_join {γ : Type} {S : β → γ → Prop} {n : List γ} (h : List.Forall₂ R l m)
    (h' : List.Forall₂ S m n) : List.Forall₂ (fun a c => ∃ b, R a b ∧ S b c) l n := by
  induction h generalizing n with
  | nil =>
    cases h'
    exact .nil
  | cons hab _ ih =>
    cases h' with
    | cons hbc hrest => exact .cons ⟨_, hab, hbc⟩ (ih hrest)

theorem forall₂_of_splits {S : α → β → Prop} (h : List.Forall₂ R l m)
    (hS : ∀ pre a post pre' b post', l = pre ++ a :: post → m = pre' ++ b :: post' →
      List.Forall₂ R pre pre' → R a b → List.Forall₂ R post post' → S a b) :
    List.Forall₂ S l m := by
  refine List.forall₂_of_length_eq_of_get h.length_eq fun i hi hi' => ?_
  have hsplit : l = l.take i ++ l[i] :: l.drop (i + 1) := by
    rw [← List.drop_eq_getElem_cons hi, List.take_append_drop]
  have hsplit' : m = m.take i ++ m[i] :: m.drop (i + 1) := by
    rw [← List.drop_eq_getElem_cons hi', List.take_append_drop]
  exact hS _ _ _ _ _ _ hsplit hsplit' (List.forall₂_take i h) (h.get hi hi')
    (List.forall₂_drop (i + 1) h)

theorem forall₂_flatMap_parts {γ δ : Type} {f : γ → List α} {g : δ → List β} {l : List γ}
    {m : List δ} (h : List.Forall₂ (fun i j => (f i).length = (g j).length) l m)
    (hall : List.Forall₂ R (l.flatMap f) (m.flatMap g)) :
    List.Forall₂ (fun i j => List.Forall₂ R (f i) (g j)) l m := by
  induction h with
  | nil => exact .nil
  | @cons i j l m hij _ ih =>
    rw [List.flatMap_cons, List.flatMap_cons] at hall
    have hfirst := List.forall₂_take_append _ _ _ hall
    have hrest := List.forall₂_drop_append _ _ _ hall
    rw [← hij, List.take_left] at hfirst
    rw [← hij, List.drop_left] at hrest
    exact .cons hfirst (ih hrest)

end

theorem forall₂_idxOf? {l m : List Nat} (hl : l.Nodup) (hm : m.Nodup) (h : l.length = m.length) :
    List.Forall₂ (fun a b => l.idxOf? a = m.idxOf? b) l m := by
  have hplace : ∀ (l : List Nat) (hn : l.Nodup) (i : Nat) (hi : i < l.length),
      l.idxOf? l[i] = some i := by
    intro l hn i hi
    rw [List.idxOf?_eq_some_iff]
    refine ⟨hi, by simp, fun j hj heq => ?_⟩
    have hij := (List.Nodup.getElem_inj_iff hn).mp (by simpa using heq)
    omega
  refine List.forall₂_of_length_eq_of_get h fun i hi hi' => ?_
  rw [List.get_eq_getElem, List.get_eq_getElem, hplace l hl i hi, hplace m hm i hi']

theorem Word.Says.numbers_eq {v u : Word} {x : Text × Bool} (hv : v.Says x) (hu : u.Says x) :
    v.numbers = u.numbers := by
  have htext : v.text = u.text := hv.text.trans hu.text.symm
  have hrest : v.rest = u.rest := (List.cons.inj htext).2
  exact Except.ok.inj (hv.numbers.symm.trans (hrest ▸ hu.numbers))

namespace Program

open WordGraph

variable {p q : Program}

/-- Two words at the same place that say the same. -/
structure Twin (p q : Program) (a b : WordId) : Prop where
  place : p.wordPlace a = q.wordPlace b
  shows : ∃ x, p.graph.Shows a x ∧ q.graph.Shows b x

/-- Two words that say the same and are tied to twins. -/
structure Alike (p q : Program) (v u : Word) : Prop where
  text : v.text = u.text
  verbatim : v.verbatim = u.verbatim
  numbers : v.numbers = u.numbers
  governing : Option.Rel (Twin p q) v.governing u.governing
  dependents : List.Forall₂ (Twin p q) v.dependents.toList u.dependents.toList

/-- Twins that are tied to twins. -/
structure Paired (p q : Program) (a b : WordId) : Prop where
  twin : Twin p q a b
  alike : ∃ v u, p.graph[a]? = some v ∧ q.graph[b]? = some u ∧ Alike p q v u

theorem Twin.isCommandAt {a b : WordId} (h : Twin p q a b) :
    p.graph.isCommandAt a = q.graph.isCommandAt b := by
  obtain ⟨x, ha, hb⟩ := h.shows
  rw [ha.isCommandAt, hb.isCommandAt]

theorem Twin.isSequenceNumber {a b : WordId} (h : Twin p q a b) :
    isSequenceNumber p.graph a = isSequenceNumber q.graph b := by
  obtain ⟨x, ha, hb⟩ := h.shows
  rw [isSequenceNumber_of_shows ha, isSequenceNumber_of_shows hb]

theorem rel_inForce {ws vs : List WordId} (h : List.Forall₂ (Twin p q) ws vs) :
    Option.Rel (Twin p q) (p.graph.inForce ws) (q.graph.inForce vs) :=
  forall₂_find? (List.forall₂_reverse_iff.mpr h) fun _ _ hab => hab.isCommandAt

theorem forall₂_upToCommand {ws vs : List WordId} (h : List.Forall₂ (Twin p q) ws vs) :
    List.Forall₂ (Twin p q) (p.graph.upToCommand ws) (q.graph.upToCommand vs) :=
  (forall₂_cutAfter h fun _ _ hab => hab.isCommandAt).1

/-- Two programs with the same words on their blocks, one block for each. -/
structure Matched (p q : Program) : Prop where
  left : p.Threaded p.order
  right : q.Threaded q.order
  tokens : List.Forall₂ (fun i j => (Reading.ofText (p.block i).text).tokens =
    (Reading.ofText (q.block j).text).tokens) p.order q.order

theorem Matched.shows (h : Matched p q) : List.Forall₂ (fun i j =>
    List.Forall₂ (fun a b => ∃ x, p.graph.Shows a x ∧ q.graph.Shows b x)
      (p.block i).words (q.block j).words) p.order q.order := by
  refine forall₂_of_splits h.tokens fun _ i _ _ j _ hi hj _ hij _ => ?_
  have hwords := (h.left.reading i (by simp [hi])).words
  have hwords' := (h.right.reading j (by simp [hj])).words
  rw [hij] at hwords
  exact forall₂_join hwords hwords'.flip

theorem Matched.words (h : Matched p q) : List.Forall₂ (Twin p q) p.words q.words := by
  have hshows : List.Forall₂ (fun a b => ∃ x, p.graph.Shows a x ∧ q.graph.Shows b x)
      p.words q.words := List.rel_flatMap h.shows fun _ _ hij => hij
  have hplaces := forall₂_idxOf? h.left.distinct h.right.distinct hshows.length_eq
  exact hplaces.mp (fun _ _ hplace hsame => ⟨hplace, hsame⟩) hshows

theorem Matched.paired (h : Matched p q) : List.Forall₂ (fun i j =>
    List.Forall₂ (Paired p q) (p.block i).words (q.block j).words) p.order q.order := by
  have hlengths := h.shows.imp fun _ _ hij => hij.length_eq
  -- Ties lead to other blocks. So words are paired along the whole program, then cut into blocks.
  refine forall₂_flatMap_parts hlengths (forall₂_of_splits h.words ?_)
  intro pre a post pre' b post' hp hq hpre hab hpost
  obtain ⟨v, hv, hgoverning, hdependents⟩ := h.left.tied pre a post hp
  obtain ⟨u, hu, hgoverning', hdependents'⟩ := h.right.tied pre' b post' hq
  obtain ⟨x, ⟨v', hv', hsays⟩, u', hu', hsays'⟩ := hab.shows
  obtain rfl : v = v' := Option.some.inj (hv.symm.trans hv')
  obtain rfl : u = u' := Option.some.inj (hu.symm.trans hu')
  refine ⟨hab, v, u, hv, hu, ?_⟩
  have htext := hsays.text.trans hsays'.text.symm
  have hverbatim := hsays.verbatim.trans hsays'.verbatim.symm
  refine ⟨htext, hverbatim, Word.Says.numbers_eq hsays hsays', ?_, ?_⟩
  · rw [hgoverning, hgoverning']
    exact rel_inForce hpre
  · rw [hdependents, hdependents', hsays.governs, hsays'.governs]
    split
    · exact forall₂_upToCommand hpost
    · exact .nil

theorem Matched.trailing (h : Matched p q) : List.Forall₂ (fun i j =>
    Option.Rel (Twin p q) (p.block i).trailing (q.block j).trailing) p.order q.order := by
  have hwords := h.paired.imp fun _ _ hij => hij.imp fun _ _ hab => hab.twin
  refine forall₂_of_splits hwords ?_
  intro pre i post pre' j post' hp hq hpre hij _
  rw [h.left.trailing pre i post hp, h.right.trailing pre' j post' hq]
  refine rel_inForce (List.rel_flatMap (List.rel_append hpre (.cons hij .nil)) fun _ _ hab => hab)

theorem Alike.wordView {v u : Word} (h : Alike p q v u) : p.wordView v = q.wordView u := by
  have hletter : v.letter = u.letter := by
    rw [Word.letter, Word.letter, (List.cons.inj h.text).1]
  rw [Program.wordView, Program.wordView, h.text, hletter, h.verbatim, h.numbers,
    rel_map_eq h.governing fun _ _ hab => hab.place,
    eq_of_forall₂_map h.dependents fun _ _ hab => hab.place]

theorem Twin.letter {a b : WordId} (h : Twin p q a b) :
    p.graph[a]?.map Word.letter = q.graph[b]?.map Word.letter ∧
      p.graph[a]?.bind Word.int? = q.graph[b]?.bind Word.int? := by
  obtain ⟨x, ⟨v, hv, hsays⟩, u, hu, hsays'⟩ := h.shows
  have htext := hsays.text.trans hsays'.text.symm
  rw [hv, hu]
  refine ⟨?_, ?_⟩
  · rw [Option.map_some, Option.map_some, Word.letter, Word.letter, (List.cons.inj htext).1]
  · rw [Option.bind_some, Option.bind_some, Word.int?, Word.int?, hsays.numbers_eq hsays']

/-- The phrase of a word depends on what it and the words tied to it say. -/
theorem Alike.phrase {v u : Word} (h : Alike p q v u) : p.graph.phrase v = q.graph.phrase u := by
  have hletter : v.letter = u.letter := by
    rw [Word.letter, Word.letter, (List.cons.inj h.text).1]
  have hint : v.int? = u.int? := by rw [Word.int?, Word.int?, h.numbers]
  have hdependent : ∀ letter, p.graph.dependentInt? v letter = q.graph.dependentInt? u letter := by
    intro letter
    have hfirst := forall₂_find? (f := fun w => p.graph[w]?.map Word.letter =
        some (Unicode.upperText letter)) (g := fun w => q.graph[w]?.map Word.letter =
        some (Unicode.upperText letter)) h.dependents fun _ _ hab => by rw [hab.letter.1]
    rw [dependentInt?, dependentInt?, dependent?, dependent?, ← Array.find?_toList,
      ← Array.find?_toList]
    exact rel_bind_eq hfirst fun _ _ hab => hab.letter.2
  simp only [WordGraph.phrase, h.verbatim, hletter, hint, hdependent]

theorem Paired.wordView {a b : WordId} (h : Paired p q a b) :
    p.graph[a]?.map p.wordView = q.graph[b]?.map q.wordView := by
  obtain ⟨v, u, hv, hu, halike⟩ := h.alike
  rw [hv, hu, Option.map_some, Option.map_some, halike.wordView]

theorem Paired.phraseOf {a b : WordId} (h : Paired p q a b) : p.phraseOf a = q.phraseOf b := by
  obtain ⟨v, u, hv, hu, halike⟩ := h.alike
  rw [Program.phraseOf, Program.phraseOf, hv, hu, Option.map_some, Option.map_some, halike.phrase]

/-- Two blocks with the same words, tied to words at the same places. -/
structure Agree (p q : Program) (i j : BlockId) : Prop where
  words : p.wordViews (p.block i) = q.wordViews (q.block j)
  number : (p.block i).number.map p.wordPlace = (q.block j).number.map q.wordPlace
  trailing : (p.block i).trailing.map p.wordPlace = (q.block j).trailing.map q.wordPlace
  description : ∀ delimiter, p.descriptionOf delimiter i = q.descriptionOf delimiter j

theorem Matched.agree (h : Matched p q) : List.Forall₂ (Agree p q) p.order q.order := by
  have hboth := h.paired.mp (fun _ _ => And.intro) h.trailing
  refine forall₂_of_splits hboth fun _ i _ _ j _ hi hj _ hij _ => ?_
  obtain ⟨hwords, htrailing⟩ := hij
  have hnumber := (h.left.reading i (by simp [hi])).number
  have hnumber' := (h.right.reading j (by simp [hj])).number
  refine ⟨eq_of_forall₂_map hwords fun _ _ hab => hab.wordView, ?_,
    rel_map_eq htrailing fun _ _ hab => hab.place, fun delimiter => ?_⟩
  · rw [hnumber, hnumber']
    exact rel_map_eq (forall₂_find? hwords fun _ _ hab => hab.twin.isSequenceNumber)
      fun _ _ hab => hab.twin.place
  · rw [descriptionOf, descriptionOf, eq_of_forall₂_map hwords fun _ _ hab => hab.phraseOf]

theorem Matched.phrases (h : Matched p q) :
    List.Forall₂ (fun a b => p.phraseOf a = q.phraseOf b) p.words q.words :=
  List.rel_flatMap h.paired fun _ _ hij => hij.imp fun _ _ hab => hab.phraseOf

theorem forall₂_text (h : p.lines = q.lines) :
    List.Forall₂ (fun i j => (p.block i).text = (q.block j).text) p.order q.order := by
  rw [lines, lines, blocks, blocks, List.map_map, List.map_map] at h
  have hall := List.forall₂_eq_eq_eq ▸ h
  exact List.forall₂_map_left_iff.mp (List.forall₂_map_right_iff.mp hall)

theorem matched_of_lines (hp : p.Threaded p.order) (hq : q.Threaded q.order)
    (h : p.lines = q.lines) : Matched p q :=
  ⟨hp, hq, (forall₂_text h).imp fun _ _ hij => by rw [hij]⟩

/-- Two blocks of the same text, at the same place, with the same words. -/
structure SameBlock (p q : Program) (i j : BlockId) : Prop where
  place : p.blockPlace i = q.blockPlace j
  text : (p.block i).text = (q.block j).text
  instruction : (p.block i).instruction = (q.block j).instruction
  comments : (p.block i).comments = (q.block j).comments
  noWords : (p.block i).words.isEmpty = (q.block j).words.isEmpty
  rebuilt : p.rebuilt i = q.rebuilt j

theorem Matched.sameBlocks (h : Matched p q) (hlines : p.lines = q.lines) (hp : p.order.Nodup)
    (hq : q.order.Nodup) : List.Forall₂ (SameBlock p q) p.order q.order := by
  have hplaces := forall₂_idxOf? hp hq h.tokens.length_eq
  have htexts := (forall₂_text hlines).mp (fun _ _ => And.intro) h.paired
  have hboth := hplaces.mp (fun _ _ => And.intro) htexts
  refine forall₂_of_splits hboth fun _ i _ _ j _ hi hj _ hij _ => ?_
  obtain ⟨hplace, htext, hwords⟩ := hij
  have hread := h.left.reading i (by simp [hi])
  have hread' := h.right.reading j (by simp [hj])
  have hinstruction : (p.block i).instruction = (q.block j).instruction := by
    rw [hread.instruction, hread'.instruction, htext]
  have hcomments : (p.block i).comments = (q.block j).comments := by
    rw [hread.comments, hread'.comments, htext]
  have hnone : (p.block i).words.isEmpty = (q.block j).words.isEmpty := by
    rw [Bool.eq_iff_iff, List.isEmpty_iff_length_eq_zero, List.isEmpty_iff_length_eq_zero,
      hwords.length_eq]
  refine ⟨hplace, htext, hinstruction, hcomments, hnone, ?_⟩
  have htexts : (p.block i).words.map (fun w => p.graph.textOf w ++ [' ']) =
      (q.block j).words.map (fun w => q.graph.textOf w ++ [' ']) := by
    refine eq_of_forall₂_map hwords fun a b hab => ?_
    obtain ⟨x, ha, hb⟩ := hab.twin.shows
    rw [ha.textOf, hb.textOf]
  rw [Program.rebuilt, Program.rebuilt, Block.rebuilt, Block.rebuilt, Block.instructions,
    Block.instructions, hnone, hinstruction, hcomments, List.flatMap, List.flatMap, htexts]

theorem SameBlock.isToolRemark {i j : BlockId} (h : SameBlock p q i j) (mark : Text) :
    p.isToolRemark mark i = q.isToolRemark mark j := by
  rw [Program.isToolRemark, Program.isToolRemark, Block.isRemark, Block.isRemark, h.noWords,
    h.comments]

theorem SameBlock.isOtherRemark {i j : BlockId} (h : SameBlock p q i j) (mark : Text) :
    p.isOtherRemark mark i = q.isOtherRemark mark j := by
  rw [Program.isOtherRemark, Program.isOtherRemark, Block.isRemark, Block.isRemark, h.noWords,
    h.comments, h.isToolRemark]

theorem sectionsView_cutSections (h : List.Forall₂ (SameBlock p q) p.order q.order) (mark : Text) :
    p.sectionsView (p.cutSections mark) = q.sectionsView (q.cutSections mark) := by
  have hempty : ∀ i j, SameBlock p q i j → p.isEmptyBlock i = q.isEmptyBlock j := by
    intro i j hij
    rw [isEmptyBlock, isEmptyBlock, Block.isEmpty, Block.isEmpty]
    exact congrArg List.isEmpty hij.rebuilt
  obtain ⟨hheader, hrest⟩ := forall₂_cutAfter h hempty
  obtain ⟨hbody, hfooter⟩ := forall₂_cutAfter hrest hempty
  have htool := List.rel_filter (p := p.isToolRemark mark) (q := q.isToolRemark mark)
    (fun _ _ hij => Bool.eq_iff_iff.mp (hij.isToolRemark mark)) h
  have hother := List.rel_filter (p := p.isOtherRemark mark) (q := q.isOtherRemark mark)
    (fun _ _ hij => Bool.eq_iff_iff.mp (hij.isOtherRemark mark)) h
  have hplaces : ∀ {l m : List BlockId}, List.Forall₂ (SameBlock p q) l m →
      l.map p.blockPlace = m.map q.blockPlace :=
    fun hlm => eq_of_forall₂_map hlm fun _ _ hij => hij.place
  simp only [sectionsView, cutSections, hplaces hheader, hplaces hbody, hplaces hfooter,
    hplaces htool, hplaces hother]

/-- Two programs that were read from the same texts, with the same mark, look the same. -/
theorem view_eq (hp : p.Threaded p.order) (hq : q.Threaded q.order) (hsp : p.Settled)
    (hsq : q.Settled) (hmark : p.sections.map Sections.toolMark = q.sections.map Sections.toolMark)
    (hlines : p.lines = q.lines) : p.view = q.view := by
  have h := matched_of_lines hp hq hlines
  have hsame := h.sameBlocks hlines hsp.nodup hsq.nodup
  have hblocks : p.blocks.map p.blockView = q.blocks.map q.blockView := by
    rw [blocks, blocks, List.map_map, List.map_map]
    refine eq_of_forall₂_map (hsame.mp (fun _ _ => And.intro) h.agree) fun i j hij => ?_
    obtain ⟨hblock, hagree⟩ := hij
    simp only [Function.comp, blockView, hblock.text, hblock.instruction, hblock.comments, hagree.words,
      hagree.number, hagree.trailing]
  have hsections : p.sections.map p.sectionsView = q.sections.map q.sectionsView := by
    cases hs : p.sections with
    | none =>
      rw [hs, Option.map_none, eq_comm, Option.map_eq_none_iff] at hmark
      rw [hmark, Option.map_none, Option.map_none]
    | some s =>
      rw [hs, Option.map_some, eq_comm, Option.map_eq_some_iff] at hmark
      obtain ⟨s', hs', hmark⟩ := hmark
      rw [hs', Option.map_some, Option.map_some, hsp.sections s hs, hsq.sections s' hs', hmark,
        sectionsView_cutSections hsame]
  rw [view, view, hblocks, hsections]

end Program

end PartProgram
