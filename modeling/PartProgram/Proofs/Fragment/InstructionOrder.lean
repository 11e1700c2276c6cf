import PartProgram.Proofs.Block.NormalForm
import PartProgram.Proofs.Fragment.MovedEntry
import PartProgram.Proofs.Fragment.Normalize

/-! # The order of instructions

A block that is passed over or a boundary has no words, so one with a comment counts
as a remark whatever it tells the machine. Bringing a fragment into its usual form
keeps its instructions in order, but for the two made one, exactly as long as no such
block is moved past another instruction.
-/
namespace PartProgram

open WordGraph

/-- The instruction part of a text without blanks. -/
def bare (s : Text) : Text := (Comment.split s).1.withoutBlanks

theorem isPassedOver_bare (s : Text) :
    Reading.isPassedOver (bare s) = Reading.isPassedOver (Reading.ofText s).instruction.trim := by
  rw [Reading.instruction_ofText]
  exact Reading.isPassedOver_congr (Text.head?_withoutBlanks _)

theorem bare_of_tokens_eq_nil {s : Text} (h : (Reading.ofText s).tokens = []) :
    bare s = [] ∨ Reading.isPassedOver (bare s) = true := by
  rw [isPassedOver_bare]
  rw [Reading.tokens_ofText, Reading.cut] at h
  split at h
  · exact .inr (by assumption)
  · split at h
    · cases h
    · refine .inl ?_
      rw [bare, ← Reading.instruction_ofText, ← Token.flatten_tokens, List.map_eq_nil_iff.mp h]
      rfl

theorem bare_of_tokens_ne_nil {s : Text} (h : (Reading.ofText s).tokens ≠ []) :
    bare s ≠ [] ∧ Reading.isPassedOver (bare s) = false := by
  rw [isPassedOver_bare]
  rw [Reading.tokens_ofText, Reading.cut] at h
  split at h
  · exact absurd rfl h
  · rename_i hover
    refine ⟨?_, by simpa using hover⟩
    have hne : (Reading.ofText s).instruction.trim ≠ [] := by
      intro hnil
      rw [hnil, if_neg (by simp), ← Token.tokens_trim, hnil] at h
      exact absurd rfl h
    rw [Reading.instruction_ofText] at hne
    intro hbare
    have hhead := Text.head?_withoutBlanks (Comment.split s).1
    rw [show (Comment.split s).1.withoutBlanks = [] from hbare] at hhead
    exact hne (List.head?_eq_none_iff.mp hhead.symm)

theorem upper_of_mem {d : Char} (hd : d ∈ [';', '(', '/', '%']) : Unicode.upper d = [d] := by
  have hall : ([';', '(', '/', '%'].all fun d => decide (Unicode.upper d = [d])) = true := by decide
  exact of_decide_eq_true (List.all_eq_true.mp hall d hd)

theorem bare_of_letter {c l : Char} {s : Text} (hl : l = 'N' ∨ l = 'G')
    (hc : Unicode.upper c = [l]) (hblank : Unicode.isBlank c = false) :
    bare (c :: s) ≠ [] ∧ Reading.isPassedOver (bare (c :: s)) = false := by
  have hne : ∀ d ∈ [';', '(', '/', '%'], c ≠ d := by
    rintro d hd rfl
    rw [upper_of_mem hd] at hc
    obtain rfl := List.singleton_inj.mp hc
    rcases hl with rfl | rfl <;> simp at hd
  have hbare : bare (c :: s) = c :: (Comment.scan .outside s).1.withoutBlanks := by
    simp [bare, Comment.split, Comment.scan, hne, Text.withoutBlanks, hblank]
  rw [hbare]
  exact ⟨by simp, by simp [Reading.isPassedOver, hne]⟩

theorem ne_of_passedOver {s t : Text} (hs : s ≠ [] ∧ Reading.isPassedOver s = false)
    (ht : t = [] ∨ Reading.isPassedOver t = true) : s ≠ t := by
  rintro rfl
  rcases ht with rfl | ht
  · exact hs.1 rfl
  · simp [hs.2] at ht

namespace Program

/-- The comment-free instruction of a block without blanks. -/
def bareText (p : Program) (id : BlockId) : Text := (p.block id).instruction.withoutBlanks

theorem bareText_eq {p : Program} {l : List BlockId} {id : BlockId} (hp : p.ReadsAll l)
    (hid : id ∈ l) : p.bareText id = bare (p.block id).text := by
  rw [bareText, (hp.reading id hid).instruction, Reading.instruction_ofText, bare]

theorem bareText_congr {p p' : Program} {l l' : List BlockId} {id : BlockId} (hp : p.ReadsAll l)
    (hp' : p'.ReadsAll l') (hid : id ∈ l) (hid' : id ∈ l')
    (h : (p'.block id).text = (p.block id).text) : p'.bareText id = p.bareText id := by
  rw [bareText_eq hp' hid', bareText_eq hp hid, h]

theorem words_isEmpty_iff {p : Program} {l : List BlockId} {id : BlockId} (hp : p.ReadsAll l)
    (hid : id ∈ l) : (p.block id).words = [] ↔ (Reading.ofText (p.block id).text).tokens = [] := by
  have hall := (hp.reading id hid).words
  constructor
  · intro h
    rw [h] at hall
    exact List.forall₂_nil_left_iff.mp hall
  · intro h
    rw [h] at hall
    exact List.forall₂_nil_right_iff.mp hall

theorem toolRemark_mem {p : Program} {tool : BlockId} (hp : p.Settled)
    (h : tool ∈ p.toolRemarks) : tool ∈ p.order ∧ (p.block tool).words = [] := by
  cases hs : p.sections with
  | none => simp [toolRemarks, hs] at h
  | some s =>
    simp only [toolRemarks, hs, Option.map_some, Option.getD_some] at h
    rw [hp.sections s hs, cutSections] at h
    simp only [List.mem_filter, isToolRemark, Block.isRemark, Bool.and_eq_true] at h
    exact ⟨h.1, List.isEmpty_iff.mp h.2.1.1⟩

theorem bareText_toolRemark {p : Program} {tool : BlockId} (hp : p.Settled)
    (h : p.toolRemarks = [tool]) :
    p.bareText tool = [] ∨ Reading.isPassedOver (p.bareText tool) = true := by
  obtain ⟨hid, hwords⟩ := toolRemark_mem hp (h ▸ List.mem_singleton_self tool)
  rw [bareText_eq hp.reads hid]
  exact bare_of_tokens_eq_nil ((words_isEmpty_iff hp.reads hid).mp hwords)

theorem body_subset {p : Program} (hp : p.Settled) : p.body ⊆ p.order := by
  cases hs : p.sections with
  | none => simp [body, hs]
  | some s =>
    simp only [body, hs, Option.map_some, Option.getD_some]
    rw [← cutSections_append p s.toolMark, ← hp.sections s hs]
    exact fun id hid => List.mem_append_left _ (List.mem_append_right _ hid)

theorem bareText_of_found {p : Program} {letter : Text} {id : BlockId} (hp : p.Settled)
    (h : p.body.find? (p.hasLetter letter) = some id) :
    p.bareText id ≠ [] ∧ Reading.isPassedOver (p.bareText id) = false := by
  have hid := body_subset hp (List.mem_of_find?_eq_some h)
  have hword := List.find?_some h
  rw [hasLetter, List.any_eq_true] at hword
  obtain ⟨w, hw, -⟩ := hword
  rw [bareText_eq hp.reads hid]
  refine bare_of_tokens_ne_nil fun hnil => ?_
  rw [(words_isEmpty_iff hp.reads hid).mpr hnil] at hw
  cases hw

theorem bare_textOf {p : Program} {l : List BlockId} {id : BlockId} {w : WordId} {c : Char}
    {s : Text} (hp : p.ReadsAll l) (hid : id ∈ l) (hw : w ∈ (p.block id).words)
    (hc : c = 'N' ∨ c = 'G') (hletter : p.graph.letterOf w = [c]) :
    bare (p.graph.textOf w ++ s) ≠ [] ∧
      Reading.isPassedOver (bare (p.graph.textOf w ++ s)) = false := by
  have hread := hp.reading id hid
  obtain ⟨x, hx, v, hv, hs⟩ := shows_of_mem hread.words w hw
  have htext : p.graph.textOf w = v.address :: v.rest := by
    simp only [textOf, hv, Option.map_some, Option.getD_some, Word.text]
  have hupper : Unicode.upper v.address = [c] := by
    rw [letterOf, hv] at hletter
    exact hletter
  rw [htext, List.cons_append]
  rw [Reading.tokens_ofText] at hx
  exact bare_of_letter hc hupper (Reading.isBlank_of_mem_cut hx hs.text.symm)

theorem firstText?_eq_some {p : Program} {id : BlockId} {letter t : Text}
    (h : p.firstText? id letter = some t) :
    ∃ w ∈ (p.block id).words, p.graph.letterOf w = Unicode.upperText letter ∧
      p.graph.textOf w = t := by
  obtain ⟨w, hw, rfl⟩ := Option.map_eq_some_iff.mp h
  exact ⟨w, List.mem_of_find?_eq_some hw, by simpa using List.find?_some hw, rfl⟩

theorem bare_offsetTexts {p : Program} {l : List BlockId} {fixture : BlockId} (length : BlockId)
    (hp : p.ReadsAll l) (hid : fixture ∈ l) (hmotion : (p.firstText? fixture ['G']).isSome = true) :
    bare ([' '].intercalate (p.offsetTexts fixture length)) ≠ [] ∧
      Reading.isPassedOver (bare ([' '].intercalate (p.offsetTexts fixture length))) = false := by
  have hintercalate : ∀ (t : Text) (ts : List Text),
      ∃ s, [' '].intercalate (t :: ts) = t ++ s := by
    intro t ts
    cases ts with
    | nil => exact ⟨[], by simp⟩
    | cons u ts => exact ⟨_, by rw [List.intercalate_cons_cons, List.append_assoc]⟩
  obtain ⟨motion, hmotion⟩ := Option.isSome_iff_exists.mp hmotion
  cases hn : p.firstText? fixture ['N'] with
  | some number =>
    obtain ⟨w, hw, hletter, rfl⟩ := firstText?_eq_some hn
    obtain ⟨s, hs⟩ := hintercalate (p.graph.textOf w) _
    simp only [offsetTexts, hn, List.filterMap_cons, id]
    rw [hs]
    exact bare_textOf hp hid hw (.inl rfl) (hletter.trans (by decide))
  | none =>
    obtain ⟨w, hw, hletter, rfl⟩ := firstText?_eq_some hmotion
    obtain ⟨s, hs⟩ := hintercalate (p.graph.textOf w) _
    simp only [offsetTexts, hn, hmotion, List.filterMap_cons, id]
    rw [hs]
    exact bare_textOf hp hid hw (.inr rfl) (hletter.trans (by decide))

/-- The instructions of blocks, in order, without empty ones. -/
def instructionsOf (p : Program) (l : List BlockId) : List Text := entries p.bareText l

/-- The instructions are those of before, in their order, but for the two neighbours whose place
one block has taken. -/
def OnlyCombined (p p' : Program) (fixture length combined : BlockId) : Prop :=
  ∃ pre mid post, p.order = pre ++ fixture :: (mid ++ length :: post) ∧ p.instructionsOf mid = [] ∧
    p'.instructionsOf p'.order =
      p.instructionsOf pre ++ p'.bareText combined :: p.instructionsOf post

/-- The move of the tool remark, seen as a move of one block past others. -/
theorem moveToolRemark_moved {p p' : Program} {u : Unit} {tool operation : BlockId} {i j : Nat}
    (hp : p.Settled) (htool : p.toolRemarks = [tool])
    (hoperation : p.otherRemarks.head? = some operation) (hi : p.order.idxOf? tool = some i)
    (hj : p.order.idxOf? operation = some j) (h : moveToolRemark.Yields p u p') :
    Moved tool (passed i j p.order) p.order p'.order ∧
      (∀ id ∈ p'.order, p'.bareText id = p.bareText id) ∧ p'.Settled := by
  obtain ⟨tool', operation', i', j', htool', hoperation', hi', hj', hsame, hp'⟩ :=
    moveToolRemark_yields hp h
  obtain rfl : tool = tool' := by simpa [htool] using htool'
  obtain rfl : operation = operation' := by simpa [hoperation] using hoperation'
  obtain rfl : i = i' := by simpa [hi] using hi'
  obtain rfl : j = j' := by simpa [hj] using hj'
  have hmoved : Moved tool (passed i j p.order) p.order p'.order := by
    obtain ⟨hilt, higet, -⟩ := List.idxOf?_eq_some_iff.mp hi
    obtain ⟨hjlt, -, -⟩ := List.idxOf?_eq_some_iff.mp hj
    rw [hsame.order]
    exact moved_moveItem (by rw [List.getElem?_eq_getElem hilt, higet]) hjlt
  refine ⟨hmoved, fun id hid => ?_, hp'⟩
  exact bareText_congr hp.reads hp'.reads (hmoved.perm.mem_iff.mpr hid) hid (hsame.text id)

section
variable {p p' : Program} {pre post : List BlockId} {fixture length combined : BlockId}

theorem Combines.mem (h : Combines p pre post fixture length combined p') {id : BlockId}
    (hid : id = fixture ∨ id = length ∨ id ∈ pre ∨ id ∈ post) : id ∈ p.order := by
  rw [h.order]
  simp only [List.mem_append, List.mem_cons]
  tauto

theorem Combines.mem_after (h : Combines p pre post fixture length combined p') {id : BlockId}
    (hid : id = combined ∨ id ∈ pre ∨ id ∈ post) : id ∈ p'.order := by
  rw [h.order_eq]
  simp only [List.mem_append, List.mem_cons]
  tauto

theorem Combines.bareText (hp : p.Settled) (h : Combines p pre post fixture length combined p') :
    p'.bareText combined ≠ [] ∧ Reading.isPassedOver (p'.bareText combined) = false := by
  rw [bareText_eq h.settled.reads (h.mem_after (.inl rfl)), h.text_eq]
  exact bare_offsetTexts length hp.reads (h.mem (.inl rfl)) h.motion

/-- The new block stands between the instructions that stood before and behind the two. -/
theorem Combines.instructionsOf (hp : p.Settled)
    (h : Combines p pre post fixture length combined p') :
    p'.instructionsOf p'.order =
      p.instructionsOf pre ++ p'.bareText combined :: p.instructionsOf post := by
  have hpart : ∀ part : List BlockId, (∀ id ∈ part, id ∈ pre ∨ id ∈ post) →
      entries p'.bareText part = entries p.bareText part := by
    intro part hpart
    refine entries_congr fun id hid => ?_
    have hmem := h.mem (.inr (.inr (hpart id hid)))
    exact bareText_congr hp.reads h.settled.reads hmem (h.mem_after (.inr (hpart id hid)))
      (h.text id hmem)
  rw [Program.instructionsOf, h.order_eq, entries_append, entries_cons,
    entries_singleton (h.bareText hp).1, hpart pre fun _ => .inl, hpart post fun _ => .inr]
  rfl

end

theorem onlyCombined_iff {p p₁ p₂ : Program} {u : Unit} {tool operation combined : BlockId}
    {i j : Nat} (hp : p.Settled) (htool : p.toolRemarks = [tool])
    (hoperation : p.otherRemarks.head? = some operation) (hi : p.order.idxOf? tool = some i)
    (hj : p.order.idxOf? operation = some j) (hmove : moveToolRemark.Yields p u p₁)
    (hcombine : combineOffsets.Yields p₁ combined p₂) :
    ∃ fixture length, p₁.body.find? (p₁.hasLetter ['E']) = some fixture ∧
      p₁.body.find? (p₁.hasLetter ['H']) = some length ∧
      (OnlyCombined p p₂ fixture length combined ↔
        p.bareText tool = [] ∨ ∀ id ∈ passed i j p.order,
          p.bareText id = [] ∨ p.bareText id = p.bareText tool) := by
  obtain ⟨hmoved, hsame, hp₁⟩ := moveToolRemark_moved hp htool hoperation hi hj hmove
  obtain ⟨pre, post, fixture, length, hc⟩ := combineOffsets_yields hp₁ hcombine
  -- no block of the offsets, nor the new one, has the text of the tool remark
  have hremark := bareText_toolRemark hp htool
  have hoffset : ∀ id letter, p₁.body.find? (p₁.hasLetter letter) = some id →
      id ≠ tool ∧ p.bareText id ≠ [] ∧ p.bareText id ≠ p.bareText tool := by
    intro id letter hfound
    have htext := bareText_of_found hp₁ hfound
    rw [hsame id (body_subset hp₁ (List.mem_of_find?_eq_some hfound))] at htext
    have hne := ne_of_passedOver htext hremark
    exact ⟨fun h => hne (h ▸ rfl), htext.1, hne⟩
  have hcombined := hc.bareText hp₁
  have hafter : p₂.instructionsOf p₂.order =
      p.instructionsOf pre ++ p₂.bareText combined :: p.instructionsOf post := by
    have hpre : p₁.instructionsOf pre = p.instructionsOf pre :=
      entries_congr fun id hid => hsame id (hc.mem (.inr (.inr (.inl hid))))
    have hpost : p₁.instructionsOf post = p.instructionsOf post :=
      entries_congr fun id hid => hsame id (hc.mem (.inr (.inr (.inr hid))))
    rw [hc.instructionsOf hp₁, hpre, hpost]
  refine ⟨fixture, length, hc.fixture_found, hc.length_found, ?_⟩
  rw [OnlyCombined, hafter]
  exact hmoved.kept_iff hc.order hp₁.nodup (hoffset fixture _ hc.fixture_found)
    (hoffset length _ hc.length_found) ⟨hcombined.1, ne_of_passedOver hcombined hremark⟩

/-- Bringing a fragment into its usual form keeps its instructions in order exactly if the block
moved as its tool remark has no instruction, or passes none but such as it has itself. -/
theorem instructions_in_order_iff {p p₁ p₂ : Program} {combined : BlockId} (hp : IsFragment p)
    (hmove : moveToolRemark.Yields p () p₁) (hcombine : combineOffsets.Yields p₁ combined p₂) :
    ∃ tool operation i j fixture length, p.toolRemarks = [tool] ∧
      p.otherRemarks.head? = some operation ∧ p.order.idxOf? tool = some i ∧
      p.order.idxOf? operation = some j ∧
      p₁.body.find? (p₁.hasLetter ['E']) = some fixture ∧
      p₁.body.find? (p₁.hasLetter ['H']) = some length ∧
      (OnlyCombined p p₂ fixture length combined ↔
        p.bareText tool = [] ∨ ∀ id ∈ passed i j p.order,
          p.bareText id = [] ∨ p.bareText id = p.bareText tool) := by
  obtain ⟨tool, operation, i, j, htool, hoperation, hi, hj, -, -⟩ :=
    moveToolRemark_yields hp.settled hmove
  obtain ⟨fixture, length, hfixture, hlength, hiff⟩ :=
    onlyCombined_iff hp.settled htool hoperation hi hj hmove hcombine
  exact ⟨tool, operation, i, j, fixture, length, htool, hoperation, hi, hj, hfixture, hlength, hiff⟩

theorem instructions_in_order_sample :
    ∃ p₁ combined p₂, moveToolRemark.Yields sampleFragment () p₁ ∧
      combineOffsets.Yields p₁ combined p₂ ∧
      ∃ tool operation i j fixture length, sampleFragment.toolRemarks = [tool] ∧
        sampleFragment.otherRemarks.head? = some operation ∧
        sampleFragment.order.idxOf? tool = some i ∧
        sampleFragment.order.idxOf? operation = some j ∧
        p₁.body.find? (p₁.hasLetter ['E']) = some fixture ∧
        p₁.body.find? (p₁.hasLetter ['H']) = some length ∧
        (OnlyCombined sampleFragment p₂ fixture length combined ↔
          sampleFragment.bareText tool = [] ∨ ∀ id ∈ passed i j sampleFragment.order,
            sampleFragment.bareText id = [] ∨
              sampleFragment.bareText id = sampleFragment.bareText tool) := by
  obtain ⟨-, hmoved, -, hcombined⟩ := sampleFragment_runs
  exact ⟨_, _, _, ⟨hmoved, rfl⟩, ⟨hcombined, rfl⟩,
    instructions_in_order_iff isFragment_sample ⟨hmoved, rfl⟩ ⟨hcombined, rfl⟩⟩

/-- A fragment with a motion that may be passed over and has its tool named behind it. -/
def strayFragment : Program :=
  ((readLines (["(A)", "N1 X1", "/X5 (T1)", "", "N2 G0 E1", "N3 H1"].map String.toList)).run
    (start none (some "(T".toList))).state

/-- The motion is moved before the one that stood before it. -/
theorem instructions_out_of_order :
    ∃ p₁ combined p₂ fixture length, IsFragment strayFragment ∧
      moveToolRemark.Yields strayFragment () p₁ ∧ combineOffsets.Yields p₁ combined p₂ ∧
      p₁.body.find? (p₁.hasLetter ['E']) = some fixture ∧
      p₁.body.find? (p₁.hasLetter ['H']) = some length ∧
      ¬ OnlyCombined strayFragment p₂ fixture length combined := by
  obtain ⟨hread, hmoved, hcombined, ⟨htool, hoperation, hi, hj⟩, hdiffer⟩ :
      ((readLines (["(A)", "N1 X1", "/X5 (T1)", "", "N2 G0 E1", "N3 H1"].map String.toList)).run
          (start none (some "(T".toList))).result = .ok () ∧
        (moveToolRemark.run strayFragment).result = .ok () ∧
        (combineOffsets.run (moveToolRemark.run strayFragment).state).result = .ok 6 ∧
        (strayFragment.toolRemarks = [2] ∧ strayFragment.otherRemarks.head? = some 0 ∧
          strayFragment.order.idxOf? 2 = some 2 ∧ strayFragment.order.idxOf? 0 = some 0) ∧
        ¬ (strayFragment.bareText 2 = [] ∨ ∀ id ∈ passed 2 0 strayFragment.order,
          strayFragment.bareText id = [] ∨
            strayFragment.bareText id = strayFragment.bareText 2) := by
    decide +kernel
  have hfragment : IsFragment strayFragment := ⟨none, "(T".toList, _, hread, rfl⟩
  obtain ⟨fixture, length, hfixture, hlength, hiff⟩ :=
    onlyCombined_iff hfragment.settled htool hoperation hi hj ⟨hmoved, rfl⟩ ⟨hcombined, rfl⟩
  exact ⟨_, _, _, fixture, length, hfragment, ⟨hmoved, rfl⟩, ⟨hcombined, rfl⟩, hfixture, hlength,
    fun hkept => hdiffer (hiff.mp hkept)⟩

end Program

end PartProgram
