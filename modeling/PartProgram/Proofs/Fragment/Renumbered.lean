import PartProgram.Fragment.Joined
import PartProgram.Proofs.Block.NormalForm
import PartProgram.Proofs.Word.Numbered
import PartProgram.Proofs.Program.Readable

/-! # Blocks with a new number

A block whose sequence number was replaced keeps its other words and its comments.
Its text is in normal form: read again, wherever that is, it has the same words and
makes the same text.
-/
namespace PartProgram

open WordGraph

/-- The words after the first sequence number was replaced. -/
def renumberTokens (n : Int) : List (Text × Bool) → List (Text × Bool)
  | [] => []
  | x :: rest =>
    if isSequence x then ('N' :: Number.text n, false) :: rest else x :: renumberTokens n rest

theorem isSequence_numbered (n : Int) : isSequence ('N' :: Number.text n, false) = true := by
  simp only [isSequence, List.head?_cons, Option.any_some]
  decide

theorem find?_renumberTokens (n : Int) (xs : List (Text × Bool)) :
    (renumberTokens n xs).find? isSequence =
      if xs.any isSequence then some ('N' :: Number.text n, false) else none := by
  induction xs with
  | nil => rfl
  | cons x rest ih =>
    rw [renumberTokens]
    cases hx : isSequence x with
    | true => simp [isSequence_numbered, hx]
    | false =>
      rw [if_neg (by simp), List.find?_cons, hx, List.any_cons, hx, Bool.false_or]
      exact ih

theorem any_renumberTokens (n : Int) (xs : List (Text × Bool)) :
    (renumberTokens n xs).any isSequence = xs.any isSequence := by
  induction xs with
  | nil => rfl
  | cons x rest ih =>
    rw [renumberTokens]
    cases hx : isSequence x with
    | true => simp [isSequence_numbered, hx]
    | false =>
      rw [if_neg (by simp), List.any_cons, List.any_cons, ih]

theorem mem_renumberTokens {n : Int} {xs : List (Text × Bool)} {y : Text × Bool}
    (h : y ∈ renumberTokens n xs) :
    y ∈ xs ∨ y = ('N' :: Number.text n, false) ∧ xs.any isSequence = true := by
  induction xs with
  | nil => cases h
  | cons x rest ih =>
    rw [renumberTokens] at h
    cases hx : isSequence x with
    | true =>
      rw [hx, if_pos rfl] at h
      rcases List.mem_cons.mp h with rfl | h
      · exact .inr ⟨rfl, by simp [hx]⟩
      · exact .inl (List.mem_cons_of_mem _ h)
    | false =>
      rw [hx, if_neg (by simp)] at h
      rcases List.mem_cons.mp h with rfl | h
      · exact .inl List.mem_cons_self
      · rcases ih h with h | ⟨h, hany⟩
        · exact .inl (List.mem_cons_of_mem _ h)
        · exact .inr ⟨h, by simp [hany]⟩

theorem isCut_renumberTokens (n : Int) {xs : List (Text × Bool)} (h : Reading.IsCut xs) :
    Reading.IsCut (renumberTokens n xs) := by
  refine h.replace ?_
  clear h
  induction xs with
  | nil => exact .nil
  | cons x rest ih =>
    rw [renumberTokens]
    split
    · rename_i hx
      have hx' : x.2 = false := by simpa using (Bool.and_eq_true_iff.mp hx).2
      refine .cons (.inr ⟨hx', rfl, Reading.isWordText_numbered n, ?_⟩) (List.forall₂_same.mpr fun _ _ => .inl rfl)
      simp [Reading.isPassedOver]
    · exact .cons (.inl rfl) ih

namespace WordGraph

def shown (g : WordGraph) (id : WordId) : Text × Bool :=
  (g.textOf id, (g[id]?.map Word.verbatim).getD false)

theorem Shows.shown {g : WordGraph} {id : WordId} {x : Text × Bool} (h : g.Shows id x) :
    g.shown id = x := by
  refine Prod.ext h.textOf ?_
  obtain ⟨w, hw, hs⟩ := h
  simp only [WordGraph.shown, hw, Option.map_some, Option.getD_some, hs.verbatim]

theorem map_shown {g : WordGraph} {ids : List WordId} {xs : List (Text × Bool)}
    (h : List.Forall₂ g.Shows ids xs) : ids.map g.shown = xs := by
  induction h with
  | nil => rfl
  | cons hx _ ih => rw [List.map_cons, hx.shown, ih]

/-- The graph after one word, if there is one, became a sequence number. -/
def numbered (g : WordGraph) (word : Option WordId) (n : Int) : WordGraph :=
  match word with
  | none => g
  | some id => g.modify id fun w => { w with address := 'N', rest := Number.text n }

theorem shown_numbered_of_ne {g : WordGraph} {id other : WordId} (h : other ≠ id) (n : Int) :
    (g.numbered (some id) n).shown other = g.shown other := by
  simp only [WordGraph.shown, textOf, numbered, Array.getElem?_modify, if_neg (Ne.symm h)]

theorem shown_numbered {g : WordGraph} {id : WordId} {x : Text × Bool} (h : g.Shows id x)
    (n : Int) : (g.numbered (some id) n).shown id = ('N' :: Number.text n, x.2) := by
  obtain ⟨w, hw, hs⟩ := h
  simp only [WordGraph.shown, textOf, numbered, Array.getElem?_modify, if_true, hw, Option.map_some,
    Option.getD_some, hs.verbatim]
  rfl

theorem map_shown_numbered {g : WordGraph} {ids : List WordId} {xs : List (Text × Bool)}
    (h : List.Forall₂ g.Shows ids xs) (hn : ids.Nodup) (n : Int) :
    ids.map (g.numbered (ids.find? (Program.isSequenceNumber g)) n).shown =
      renumberTokens n xs := by
  induction h with
  | nil => rfl
  | @cons id x ids xs hx hrest ih =>
    obtain ⟨hid, hn⟩ := List.nodup_cons.mp hn
    rw [List.find?_cons, Program.isSequenceNumber_of_shows hx, renumberTokens, List.map_cons]
    cases hseq : isSequence x with
    | true =>
      have hx' : x.2 = false := by simpa using (Bool.and_eq_true_iff.mp hseq).2
      have hsame : ids.map (g.numbered (some id) n).shown = ids.map g.shown :=
        List.map_congr_left fun w hw => shown_numbered_of_ne (ne_of_mem_of_not_mem hw hid) n
      simp only [shown_numbered hx, hx', hsame, map_shown hrest, if_true]
    | false =>
      have hhead : (g.numbered (ids.find? (Program.isSequenceNumber g)) n).shown id = x := by
        cases hfind : ids.find? (Program.isSequenceNumber g) with
        | none => exact hx.shown
        | some w =>
          have hw := List.mem_of_find?_eq_some hfind
          rw [shown_numbered_of_ne (ne_of_mem_of_not_mem hw hid).symm, hx.shown]
      simp only [hhead, ih hn, Bool.false_eq_true, if_false]

end WordGraph

theorem isSome_find?_isSequenceNumber {g : WordGraph} {ids : List WordId}
    {xs : List (Text × Bool)} (h : List.Forall₂ g.Shows ids xs) :
    (ids.find? (Program.isSequenceNumber g)).isSome = xs.any isSequence := by
  induction h with
  | nil => rfl
  | cons hx _ ih =>
    rw [List.find?_cons, List.any_cons, Program.isSequenceNumber_of_shows hx, ← ih]
    split <;> simp_all

theorem Block.instructions_eq (g : WordGraph) (b : Block) :
    b.instructions g =
      if b.words.isEmpty then b.instruction
      else Token.spaced ((b.words.map g.shown).map Prod.fst) := by
  simp only [Block.instructions, Token.spaced, List.flatMap_map, WordGraph.shown]

namespace Program

def shownWords (p : Program) (id : BlockId) : List (Text × Bool) :=
  (p.block id).words.map p.graph.shown

def numberInt? (p : Program) (id : BlockId) : Option Int :=
  ((p.block id).number.bind (p.graph[·]?)).bind Word.int?

/-- The program in which nothing but the sequence number of a block was replaced. -/
def renumbered (p : Program) (id : BlockId) (n : Int) : Program :=
  { p with graph := p.graph.numbered (p.block id).number n }

/-- A text that is read, in whatever program, as just these words, with this number, and that is
made again by what it is read as. -/
def IsNormal (line : Text) (words : List (Text × Bool)) (number : Option Int) : Prop :=
  ∀ (s : Program) (c : Option WordId), ∃ i r, (addBlock line c).Yields s i r ∧
    r.shownWords i = words ∧ (r.block i).number.isSome = number.isSome ∧
    r.numberInt? i = number ∧ r.rebuilt i = line

theorem shows_find? {g : WordGraph} {ids : List WordId} {xs : List (Text × Bool)}
    (h : List.Forall₂ g.Shows ids xs) {w : WordId}
    (hw : ids.find? (isSequenceNumber g) = some w) :
    ∃ x, xs.find? isSequence = some x ∧ g.Shows w x := by
  induction h with
  | nil => cases hw
  | @cons id x ids xs hx _ ih =>
    rw [List.find?_cons, isSequenceNumber_of_shows hx] at hw
    rw [List.find?_cons]
    cases hseq : isSequence x with
    | true =>
      simp only [hseq, Option.some.injEq] at hw
      exact ⟨x, rfl, hw ▸ hx⟩
    | false =>
      simp only [hseq] at hw
      exact ih hw

theorem numberInt?_of_shows {p : Program} {id : BlockId} {xs : List (Text × Bool)} {n : Int}
    (hread : (p.block id).IsReading p.graph)
    (hwords : (Reading.ofText (p.block id).text).tokens = renumberTokens n xs)
    (hn : xs.any isSequence = true → Number.digitCount n ≤ Number.digitLimit) :
    (p.block id).number.isSome = xs.any isSequence ∧
      p.numberInt? id = if xs.any isSequence then some n else none := by
  have hfind := find?_renumberTokens n xs
  have hall := hwords ▸ hread.words
  have hsome : (p.block id).number.isSome = xs.any isSequence := by
    rw [hread.number, isSome_find?_isSequenceNumber hall, any_renumberTokens]
  refine ⟨hsome, ?_⟩
  cases hw : (p.block id).number with
  | none =>
    rw [hw] at hsome
    simp [numberInt?, hw, ← hsome]
  | some w =>
    rw [hw, Option.isSome_some] at hsome
    obtain ⟨x, hx, v, hv, hs⟩ := shows_find? hall (hread.number ▸ hw)
    have hnumbers := Numbers.read_text (hn hsome.symm)
    rw [hfind, if_pos hsome.symm] at hx
    have hrest : v.rest = Number.text n := by
      have htext := hs.text
      rw [← Option.some.inj hx] at htext
      exact (List.cons.inj htext).2
    have hread := hs.numbers
    rw [hrest, hnumbers] at hread
    simp only [numberInt?, hw, Option.bind_some, hv, ← hsome, if_true, Word.int?,
      ← Except.ok.inj hread]

/-- Words side by side and comments behind them are made again by what they are read as. -/
theorem rebuilt_of_isReading {g : WordGraph} {b : Block} {body : Text} {cs : List Text}
    (hread : b.IsReading g) (htext : b.text = (body ++ cs.flatten).trim)
    (hbody : Comment.IsPlain body) (hcs : Comment.IsSegments cs)
    (hspaced : Reading.cut body ≠ [] → body = Token.spaced ((Reading.cut body).map Prod.fst)) :
    b.rebuilt g = b.text := by
  obtain ⟨htokens, hcomments, hinstruction⟩ := Reading.ofText_rebuilt hbody hcs
  rw [← htext] at htokens hcomments hinstruction
  have hshown : b.words.map g.shown = Reading.cut body := htokens ▸ map_shown hread.words
  rw [Block.rebuilt, Block.instructions_eq, hshown, hread.comments, hread.instruction, hcomments,
    hinstruction, htext]
  split
  · rw [← Comment.trim_append_flatten hcs, Text.trim_trim]
  · rename_i hne
    rw [← hspaced (by rw [← hshown]; simpa using hne), Comment.trim_append_trimLast hcs]

section
variable {q : Program} {l : List BlockId} {id : BlockId}

theorem shownWords_renumbered (hq : q.ReadsAll l) (hid : id ∈ l) (n : Int) :
    (q.renumbered id n).shownWords id =
      renumberTokens n (Reading.ofText (q.block id).text).tokens := by
  have hread := hq.reading id hid
  change (q.block id).words.map (q.graph.numbered (q.block id).number n).shown = _
  rw [hread.number]
  exact map_shown_numbered hread.words (hq.nodup id hid) n

theorem instructions_renumbered (hq : q.ReadsAll l) (hid : id ∈ l) (n : Int) :
    ∃ body, (q.block id).instructions (q.renumbered id n).graph = body ∧
      Comment.IsPlain body ∧ Reading.cut body = (q.renumbered id n).shownWords id ∧
      (Reading.cut body ≠ [] → body = Token.spaced ((Reading.cut body).map Prod.fst)) := by
  have hread := hq.reading id hid
  have hshown := shownWords_renumbered hq hid n
  have htokens := Reading.tokens_ofText (q.block id).text
  have hplain := Comment.isPlain_split (q.block id).text
  rw [← Reading.instruction_ofText] at hplain
  have hcut : Reading.IsCut ((q.renumbered id n).shownWords id) := by
    rw [hshown, htokens]
    exact isCut_renumberTokens n (Reading.isCut_cut hplain)
  refine ⟨_, rfl, ?_⟩
  rw [Block.instructions_eq, show (q.block id).words.map (q.renumbered id n).graph.shown =
    (q.renumbered id n).shownWords id from rfl]
  split
  · rename_i hnil
    have hempty : (Reading.ofText (q.block id).text).tokens = [] := by
      rw [← map_shown hread.words, List.isEmpty_iff.mp hnil, List.map_nil]
    rw [hread.instruction, ← htokens, hshown, hempty]
    exact ⟨hplain, rfl, fun h => absurd rfl h⟩
  · rename_i hne
    have hne' : (q.renumbered id n).shownWords id ≠ [] := by
      rw [shownWords, ne_eq, List.map_eq_nil_iff]
      exact fun h => hne (List.isEmpty_iff.mpr h)
    rw [hcut.cut_spaced hne']
    exact ⟨hcut.isPlain, rfl, fun _ => rfl⟩

theorem ofText_renumbered (hq : q.ReadsAll l) (hid : id ∈ l) {n : Int}
    (hn : (q.block id).number.isSome = true → Number.digitCount n ≤ Number.digitLimit) :
    ∀ x ∈ (q.renumbered id n).shownWords id, ∀ c, ∃ w, Word.ofText x.1 c x.2 = .ok w := by
  have hread := hq.reading id hid
  rw [shownWords_renumbered hq hid]
  have hn' : (Reading.ofText (q.block id).text).tokens.any isSequence = true →
      Number.digitCount n ≤ Number.digitLimit := by
    rw [← isSome_find?_isSequenceNumber hread.words, ← hread.number]
    exact hn
  intro x hx c
  rcases mem_renumberTokens hx with hx | ⟨rfl, hany⟩
  · obtain ⟨_, w, -, hw⟩ := exists_shows hread.words x hx
    exact hw.ofText c
  · have hnumbers := Numbers.read_text (hn' hany)
    exact ⟨_, by rw [Word.ofText, hnumbers]; rfl⟩

/-- Every block of a read program has a normal form, whatever number it is given. -/
theorem isNormal_renumbered (hq : q.ReadsAll l) (hid : id ∈ l) {n : Int}
    (hn : (q.block id).number.isSome = true → Number.digitCount n ≤ Number.digitLimit) :
    IsNormal ((q.renumbered id n).rebuilt id) ((q.renumbered id n).shownWords id)
      (if (q.block id).number.isSome then some n else none) := by
  have hread := hq.reading id hid
  have hcs : Comment.IsSegments (q.block id).comments := by
    rw [hread.comments, Reading.comments_ofText]
    exact Comment.isSegments_split _
  obtain ⟨body, hbody, hplain, hcut, hspaced⟩ := instructions_renumbered hq hid n
  have hline : (q.renumbered id n).rebuilt id =
      (body ++ (q.block id).comments.flatten).trim := by rw [← hbody]; rfl
  have htokens : (Reading.ofText ((q.renumbered id n).rebuilt id)).tokens =
      (q.renumbered id n).shownWords id := by
    rw [hline, (Reading.ofText_rebuilt hplain hcs).1, hcut]
  intro s c
  obtain ⟨i, r, hadd⟩ := addBlock_succeeds
    (isReadable_iff.mpr (htokens ▸ ofText_renumbered hq hid hn)) s c
  obtain ⟨hadds, hreads⟩ := addBlock_yields (readsAll_nil s) hadd
  have hnew := hreads.reading i List.mem_cons_self
  rw [← hadds.text_eq] at htokens
  have hsome : (q.block id).number.isSome =
      (Reading.ofText (q.block id).text).tokens.any isSequence := by
    rw [hread.number, isSome_find?_isSequenceNumber hread.words]
  obtain ⟨hnumber, hint⟩ := numberInt?_of_shows hnew
    (htokens.trans (shownWords_renumbered hq hid n)) (hsome ▸ hn)
  refine ⟨i, r, hadd, htokens ▸ map_shown hnew.words, ?_, ?_, ?_⟩
  · rw [hnumber, ← hsome]
    split <;> simp_all
  · rw [hint, ← hsome]
  · exact (rebuilt_of_isReading hnew (hadds.text_eq.trans hline) hplain hcs hspaced).trans
      hadds.text_eq

end

end Program

end PartProgram
