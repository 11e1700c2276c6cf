import PartProgram.Fragment.Joined
import PartProgram.Proofs.Program.Edit

/-! # Fragments in their usual form

What the two edits of a fragment do to its sequence when both succeed: the tool
remark is moved, then one block takes the place of two neighbours.
-/
namespace PartProgram.Program

variable {p p' : Program} {u : Unit}

@[simp] theorem yields_refuse {α : Type} {cause : LayoutFault} {x : α} :
    ¬ (refuse cause).Yields p x p' := by
  simp [refuse]

theorem yields_findRemarks {found : BlockId × BlockId} :
    findRemarks.Yields p found p' ↔
      p.toolRemarks = [found.1] ∧ p.otherRemarks.head? = some found.2 ∧ p' = p := by
  obtain ⟨tool, operation⟩ := found
  simp only [findRemarks, Action.yields_bind, Action.yields_get, and_assoc, exists_and_left,
    exists_eq_left]
  split
  · rename_i htool hother
    simp only [htool, hother, Action.yields_pure, Prod.mk.injEq, List.cons.injEq, and_true,
      List.head?_cons, Option.some.injEq, and_assoc, eq_comm]
  · rename_i htool hother
    simp [hother]
  · rename_i hnone hone
    simp only [yields_refuse, false_iff]
    rintro ⟨htool, hother, -⟩
    cases ho : p.otherRemarks with
    | nil => simp [ho] at hother
    | cons operation' rest => exact hnone _ _ _ htool ho

theorem moveToolRemark_yields (hp : p.Settled) (h : moveToolRemark.Yields p u p') :
    ∃ tool operation i j, p.toolRemarks = [tool] ∧ p.otherRemarks.head? = some operation ∧
      p.order.idxOf? tool = some i ∧ p.order.idxOf? operation = some j ∧
      Rereads { p with order := moveItem i (j + 1) p.order } p' ∧ p'.Settled := by
  simp only [moveToolRemark, Action.yields_bind, yields_findRemarks, yields_indexOf,
    Action.yields_get, Action.yields_log, and_assoc, exists_and_left, exists_eq_left] at h
  obtain ⟨⟨tool, operation⟩, htool, hoperation, i, hi, j, hj, _, p₁, hmove, -, rfl⟩ := h
  exact ⟨tool, operation, i, j, htool, hoperation, hi, hj, moveBlock_yields hp hmove⟩

theorem yields_findOffsets {found : BlockId × BlockId} :
    findOffsets.Yields p found p' ↔ p.body.find? (p.hasLetter ['E']) = some found.1 ∧
      p.body.find? (p.hasLetter ['H']) = some found.2 ∧ p' = p := by
  obtain ⟨fixture, length⟩ := found
  simp only [findOffsets, Action.yields_bind, Action.yields_get, and_assoc, exists_and_left,
    exists_eq_left]
  split
  · rename_i hfixture hlength
    simp only [hfixture, hlength, Action.yields_pure, Prod.mk.injEq, Option.some.injEq, and_assoc,
      eq_comm]
  · rename_i hnone
    simp only [yields_refuse, false_iff]
    rintro ⟨hfixture, hlength, -⟩
    exact hnone _ _ hfixture hlength

theorem yields_checkOffset {role : OffsetRole} {id : BlockId} :
    (checkOffset role id).Yields p u p' ↔
      role.check (p.rebuilt id) [] (p.wordsOf id) = .ok () ∧ p' = p := by
  simp only [checkOffset, Action.yields_bind, Action.yields_get, and_assoc, exists_and_left,
    exists_eq_left]
  split
  · rename_i hcheck
    simp [hcheck]
  · rename_i hcheck
    simp [hcheck]

theorem split_of_neighbours {l : List BlockId} {a b : BlockId} {i : Nat}
    (ha : l.idxOf? a = some i) (hb : l.idxOf? b = some (i + 1)) :
    ∃ pre post, l = pre ++ a :: b :: post ∧ pre.length = i := by
  obtain ⟨pre, rest, rfl, rfl⟩ := split_of_idxOf? ha
  obtain ⟨hlt, hget, -⟩ := List.idxOf?_eq_some_iff.mp hb
  have hnext : (pre ++ a :: rest)[pre.length + 1]? = some b := by
    rw [List.getElem?_eq_getElem hlt, hget]
  cases rest with
  | nil => simp at hnext
  | cons c post =>
    obtain rfl : c = b := by simpa using hnext
    exact ⟨pre, post, rfl, rfl⟩

/-- The two blocks stood side by side and passed their checks, and one new block with the words of
both stands in their place. -/
structure Combines (p : Program) (pre post : List BlockId) (fixture length combined : BlockId)
    (p' : Program) : Prop where
  order : p.order = pre ++ fixture :: length :: post
  fixture_found : p.body.find? (p.hasLetter ['E']) = some fixture
  length_found : p.body.find? (p.hasLetter ['H']) = some length
  fixture_checked : OffsetRole.check .fixture (p.rebuilt fixture) [] (p.wordsOf fixture) = .ok ()
  length_checked : OffsetRole.check .length (p.rebuilt length) [] (p.wordsOf length) = .ok ()
  motion : (p.firstText? fixture ['G']).isSome = true
  order_eq : p'.order = pre ++ combined :: post
  text_eq : (p'.block combined).text = [' '].intercalate (p.offsetTexts fixture length)
  text : ∀ id ∈ p.order, (p'.block id).text = (p.block id).text
  mark : p'.sections.map Sections.toolMark = p.sections.map Sections.toolMark
  settled : p'.Settled

/-- The edits behind the checks: one block is put in, two are taken out. -/
theorem replacePair_yields {pre post : List BlockId} {fixture length combined : BlockId}
    {text : Text} {c : Option WordId} {p₁ p₂ p₃ : Program} {i : Nat}
    (hp : p.Settled) (horder : p.order = pre ++ fixture :: length :: post)
    (hadd : (addBlock text c).Yields p combined p₁)
    (hreplace : (replaceBlock pre.length combined).Yields p₁ u p₂)
    (hindex : p₂.order.idxOf? length = some i) (hremove : (removeBlock i).Yields p₂ u p₃) :
    p₃.order = pre ++ combined :: post ∧ (p₃.block combined).text = text ∧
      (∀ id ∈ p.order, (p₃.block id).text = (p.block id).text) ∧
      p₃.sections.map Sections.toolMark = p.sections.map Sections.toolMark ∧ p₃.Settled := by
  obtain ⟨horder₂, htext, hsame, hmark, hsettled⟩ := replaceAdded_yields hp hadd hreplace
  have hsplit : p₂.order = (pre ++ [combined]) ++ length :: post := by
    rw [horder₂, horder]
    simp
  have hi : i = (pre ++ [combined]).length := by
    rw [idxOf?_split hsplit hsettled.nodup] at hindex
    exact (Option.some.inj hindex).symm
  obtain ⟨hsame', hsettled'⟩ := removeBlock_yields hsettled hremove
  refine ⟨?_, (hsame'.text combined).trans htext,
    fun id hid => (hsame'.text id).trans (hsame id hid), hsame'.mark.trans hmark, hsettled'⟩
  rw [hsame'.order, Int.toNat_natCast, hi, hsplit, eraseIdx_split]
  simp

/-- The offsets are made one block exactly if they are found side by side, pass their checks, and
the three edits behind the checks succeed. -/
theorem yields_combineOffsets {combined : BlockId} :
    combineOffsets.Yields p combined p' ↔ ∃ fixture length i p₁ p₂ k,
      (p.body.find? (p.hasLetter ['E']) = some fixture ∧
        p.body.find? (p.hasLetter ['H']) = some length ∧
        p.order.idxOf? fixture = some i ∧ p.order.idxOf? length = some (i + 1)) ∧
      (OffsetRole.check .fixture (p.rebuilt fixture) [] (p.wordsOf fixture) = .ok () ∧
        OffsetRole.check .length (p.rebuilt length) [] (p.wordsOf length) = .ok () ∧
        (p.firstText? fixture ['G']).isSome = true) ∧
      (addBlock ([' '].intercalate (p.offsetTexts fixture length)) none).Yields p combined p₁ ∧
      (replaceBlock i combined).Yields p₁ () p₂ ∧ p₂.order.idxOf? length = some k ∧
      (removeBlock k).Yields p₂ () p' := by
  simp only [combineOffsets, Action.yields_bind, yields_findOffsets, yields_indexOf, and_assoc,
    exists_and_left, exists_eq_left]
  constructor
  · rintro ⟨⟨fixture, length⟩, hfixture, hlength, i, hi, j, hj, h⟩
    split at h
    · simp at h
    · rename_i hij
      obtain rfl := not_ne_iff.mp hij
      simp only [Action.yields_bind, yields_checkOffset, Action.yields_get, and_assoc,
        exists_and_left, exists_eq_left, exists_const] at h
      obtain ⟨hcheck, hcheck', h⟩ := h
      split at h
      · simp at h
      · rename_i hmotion
        simp only [Action.yields_bind, yields_indexOf, Action.yields_get, Action.yields_log,
          Action.yields_pure, and_assoc, exists_and_left, exists_eq_left, exists_const] at h
        obtain ⟨m, p₁, hadd, _, p₂, hreplace, k, hk, _, p₃, hremove, rfl, rfl⟩ := h
        refine ⟨fixture, hfixture, length, hlength, i, hi, hj, hcheck, hcheck', ?_, p₁, hadd, p₂,
          hreplace, k, hk, hremove⟩
        simpa [Option.isSome_iff_ne_none] using hmotion
  · rintro ⟨fixture, hfixture, length, hlength, i, hi, hj, hcheck, hcheck', hmotion, p₁, hadd, p₂,
      hreplace, k, hk, hremove⟩
    refine ⟨(fixture, length), hfixture, hlength, i, hi, i + 1, hj, ?_⟩
    rw [if_neg (by simp)]
    simp only [Action.yields_bind, yields_checkOffset, Action.yields_get, and_assoc,
      exists_and_left, exists_eq_left, exists_const]
    refine ⟨hcheck, hcheck', ?_⟩
    rw [if_neg (by simpa [Option.isSome_iff_ne_none] using hmotion)]
    simp only [Action.yields_bind, yields_indexOf, Action.yields_get, Action.yields_log,
      Action.yields_pure, and_assoc, exists_and_left, exists_eq_left, exists_const]
    exact ⟨combined, p₁, hadd, (), p₂, hreplace, k, hk, (), p', hremove, rfl, rfl⟩

theorem combineOffsets_yields {combined : BlockId} (hp : p.Settled)
    (h : combineOffsets.Yields p combined p') :
    ∃ pre post fixture length, Combines p pre post fixture length combined p' := by
  obtain ⟨fixture, length, i, p₁, p₂, k, ⟨hfixture, hlength, hi, hj⟩, ⟨hcheck, hcheck', hmotion⟩,
    hadd, hreplace, hk, hremove⟩ := yields_combineOffsets.mp h
  obtain ⟨pre, post, horder, rfl⟩ := split_of_neighbours hi hj
  obtain ⟨horder', htext, hsame, hmark, hsettled⟩ :=
    replacePair_yields hp horder hadd hreplace hk hremove
  exact ⟨pre, post, fixture, length, horder, hfixture, hlength, hcheck, hcheck', hmotion, horder',
    htext, hsame, hmark, hsettled⟩

theorem combineOffsets_fresh {combined : BlockId} (hp : p.Settled)
    (h : combineOffsets.Yields p combined p') : combined ∉ p.order := by
  obtain ⟨fixture, length, i, p₁, p₂, k, -, -, hadd, -⟩ := yields_combineOffsets.mp h
  exact (addBlock_yields hp.reads hadd).1.notMem hp.reads.stored

theorem normalize_yields (hp : p.Settled) (h : normalize.Yields p u p') :
    p'.Settled ∧ p'.sections.map Sections.toolMark = p.sections.map Sections.toolMark := by
  simp only [normalize, Action.yields_bind, Action.yields_pure] at h
  obtain ⟨_, p₁, hmove, m, p₂, hcombine, -, rfl⟩ := h
  obtain ⟨_, _, _, _, -, -, -, -, hsame, hsettled⟩ := moveToolRemark_yields hp hmove
  obtain ⟨_, _, _, _, hcombines⟩ := combineOffsets_yields hsettled hcombine
  exact ⟨hcombines.settled, hcombines.mark.trans hsame.mark⟩

def IsFragment (p : Program) : Prop :=
  ∃ path mark ls, (readLines ls).Yields (start path (some mark)) () p

theorem IsFragment.settled (h : IsFragment p) : p.Settled := by
  obtain ⟨path, mark, ls, hread⟩ := h
  exact (readLines_yields hread).1

/-- A fragment with a header, a body and a footer. -/
def sampleFragment : Program :=
  ((readLines (["(T1)", "(A)", "", "N1 G0 E1 X1", "N2 H1 Z1", "", "M30"].map String.toList)).run
    (start none (some "(T".toList))).state

theorem sampleFragment_runs :
    ((readLines (["(T1)", "(A)", "", "N1 G0 E1 X1", "N2 H1 Z1", "", "M30"].map String.toList)).run
      (start none (some "(T".toList))).result = .ok () ∧
    (moveToolRemark.run sampleFragment).result = .ok () ∧
    (combineOffsets.run sampleFragment).result = .ok 7 ∧
    (combineOffsets.run (moveToolRemark.run sampleFragment).state).result = .ok 7 := by
  decide +kernel

theorem isFragment_sample : IsFragment sampleFragment :=
  ⟨none, "(T".toList, _, sampleFragment_runs.1, rfl⟩

end PartProgram.Program
