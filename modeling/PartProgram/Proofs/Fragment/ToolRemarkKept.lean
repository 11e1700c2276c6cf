import PartProgram.Proofs.Fragment.InstructionOrder
import PartProgram.Proofs.Fragment.JoinedLines
import PartProgram.Proofs.Program.Section

/-! # The tool remark of a joined fragment

A fragment's tool remark is moved to the first other remark, wherever that stands. So
it comes into the joined program exactly if that remark does: from the body always,
from the header of the first fragment and from the footer of the last one only.
-/
namespace PartProgram

open WordGraph

section
variable {α : Type} {a b : α} {mid l l' : List α} {i j : Nat}

theorem Moved.filter_ne [DecidableEq α] (h : Moved a mid l l') :
    l.filter (· ≠ a) = l'.filter (· ≠ a) := by
  cases h with
  | forward pre post => simp [List.filter_append]
  | backward pre post => simp [List.filter_append]

theorem filter_mem_ends [DecidableEq α] {pre mid post : List α}
    (hn : (pre ++ (mid ++ post)).Nodup) :
    (pre ++ (mid ++ post)).filter (· ∈ pre ++ post) = pre ++ post := by
  have hmid : ∀ x ∈ mid, x ∉ pre ++ post := by
    intro x hx
    rw [List.mem_append, not_or]
    exact ⟨notMem_of_nodup_append hn (List.mem_append_left post hx),
      notMem_of_nodup_append' (List.nodup_append.mp hn).2.1 hx⟩
  rw [List.filter_append, List.filter_append,
    List.filter_eq_self.mpr fun x hx => decide_eq_true (List.mem_append_left post hx),
    List.filter_eq_nil_iff.mpr fun x hx => by simpa using hmid x hx,
    List.filter_eq_self.mpr fun x hx => decide_eq_true (List.mem_append_right pre hx),
    List.nil_append]

theorem mem_of_not_mem_ends {x : α} {pre mid post : List α} (h : x ∈ pre ++ (mid ++ post))
    (hout : x ∉ pre ++ post) : x ∈ mid := by
  rw [List.mem_append, not_or] at hout
  exact ((List.mem_append.mp ((List.mem_append.mp h).resolve_left hout.1))).resolve_right hout.2

theorem moveItem_behind (hi : l[i]? = some a) (hj : l[j]? = some b) (hij : i ≠ j) :
    ∃ pre post, moveItem i (j + 1) l = pre ++ b :: a :: post := by
  have hplace : (if i < j + 1 then j + 1 - 1 else j + 1) = (if i < j then j - 1 else j) + 1 := by
    split <;> split <;> omega
  have hget : (l.eraseIdx i)[if i < j then j - 1 else j]? = some b := by
    rcases Nat.lt_or_gt_of_ne hij with h | h
    · rw [if_pos h, List.getElem?_eraseIdx, if_neg (by omega), Nat.sub_add_cancel (by omega), hj]
    · rw [if_neg (Nat.lt_asymm h), List.getElem?_eraseIdx, if_pos h, hj]
  obtain ⟨pre, post, hsplit, hlength⟩ := exists_split_of_getElem? hget
  have hinsert := insertIdx_split (pre ++ [b]) post a
  refine ⟨pre, post, ?_⟩
  rw [moveItem, hi, hplace, ← hlength, hsplit]
  simpa using hinsert

theorem moveItem_behind_idxOf? [BEq α] [LawfulBEq α] (hi : l.idxOf? a = some i)
    (hj : l.idxOf? b = some j) (hab : a ≠ b) :
    ∃ pre post, moveItem i (j + 1) l = pre ++ b :: a :: post := by
  obtain ⟨hilt, higet, -⟩ := List.idxOf?_eq_some_iff.mp hi
  obtain ⟨hjlt, hjget, -⟩ := List.idxOf?_eq_some_iff.mp hj
  refine moveItem_behind (List.getElem?_eq_some_iff.mpr ⟨hilt, higet⟩)
    (List.getElem?_eq_some_iff.mpr ⟨hjlt, hjget⟩) ?_
  rintro rfl
  exact hab (higet.symm.trans hjget)

end

theorem Block.IsReading.isRemark_eq {g : WordGraph} {b : Block} (h : b.IsReading g) :
    b.isRemark = ((Reading.ofText b.text).tokens.isEmpty &&
      !(Reading.ofText b.text).comments.isEmpty) := by
  rw [Block.isRemark, h.comments, Bool.eq_iff_iff]
  simp only [Bool.and_eq_true, List.isEmpty_iff, h.words_eq_nil]

theorem Block.words_of_isRemark {b : Block} (h : b.isRemark = true) : b.words = [] :=
  List.isEmpty_iff.mp (Bool.and_eq_true_iff.mp h).1

namespace Program

variable {p p' q : Program} {u : Unit} {tool operation id : BlockId} {l : List BlockId}

theorem isSome_sections (htool : p.toolRemarks = [tool]) : p.sections.isSome = true := by
  cases hs : p.sections with
  | none => simp [toolRemarks, hs] at htool
  | some s => rfl

theorem mem_otherRemarks (hp : p.Settled) (htool : p.toolRemarks = [tool]) :
    id ∈ p.otherRemarks ↔ id ∈ p.order ∧ (p.block id).isRemark = true ∧ id ≠ tool := by
  obtain ⟨s, hs⟩ := Option.isSome_iff_exists.mp (isSome_sections htool)
  have hcut : s = p.cutSections s.toolMark := hp.sections s hs
  have hother : p.otherRemarks = p.order.filter (p.isOtherRemark s.toolMark) := by
    rw [otherRemarks, hs, hcut]
    rfl
  have hmem : id ∈ p.order.filter (p.isToolRemark s.toolMark) ↔ id = tool := by
    rw [← List.mem_singleton, ← htool, toolRemarks, hs, hcut]
    rfl
  rw [List.mem_filter] at hmem
  rw [hother, List.mem_filter, isOtherRemark, Bool.and_eq_true]
  refine and_congr_right fun hid => and_congr_right fun _ => ?_
  rw [Ne, ← hmem, and_iff_right hid]
  simp

theorem isRemark_toolRemark (hp : p.Settled) (htool : p.toolRemarks = [tool]) :
    tool ∈ p.order ∧ (p.block tool).isRemark = true := by
  obtain ⟨s, hs⟩ := Option.isSome_iff_exists.mp (isSome_sections htool)
  have hmem : tool ∈ p.toolRemarks := htool ▸ List.mem_singleton_self tool
  rw [toolRemarks, hs, hp.sections s hs] at hmem
  obtain ⟨hid, htool⟩ := List.mem_filter.mp hmem
  exact ⟨hid, (Bool.and_eq_true_iff.mp htool).1⟩

theorem isRemark_congr {l' : List BlockId} (hp : p.ReadsAll l) (hp' : p'.ReadsAll l')
    (hid : id ∈ l) (hid' : id ∈ l') (h : (p'.block id).text = (p.block id).text) :
    (p'.block id).isRemark = (p.block id).isRemark := by
  rw [(hp.reading id hid).isRemark_eq, (hp'.reading id hid').isRemark_eq, h]

theorem isEmptyBlock_of_isRemark (hp : p.ReadsAll l) (hid : id ∈ l)
    (h : (p.block id).isRemark = true) : p.isEmptyBlock id = false := by
  have hread := hp.reading id hid
  rw [Block.isRemark, Bool.and_eq_true, Bool.not_eq_true', hread.comments,
    Reading.comments_ofText] at h
  rw [hp.isEmptyBlock_eq hid, Comment.isBlankText_split, h.2, Bool.and_false]

theorem isEmptyBlock_of_bareText (hp : p.ReadsAll l) (hid : id ∈ l) (h : p.bareText id ≠ []) :
    p.isEmptyBlock id = false := by
  rw [bareText_eq hp hid] at h
  rw [hp.isEmptyBlock_eq hid, Comment.isBlankText_split, Bool.and_eq_false_iff]
  refine .inl (Bool.eq_false_iff.mpr fun hblank => h ?_)
  exact List.filter_eq_nil_iff.mpr fun c hc => by simp [List.all_eq_true.mp hblank c hc]

theorem isEmptyBlock_congr {l' : List BlockId} (hp : p.ReadsAll l) (hp' : p'.ReadsAll l')
    (hid : id ∈ l) (hid' : id ∈ l') (h : (p'.block id).text = (p.block id).text) :
    p'.isEmptyBlock id = p.isEmptyBlock id := by
  rw [hp.isEmptyBlock_eq hid, hp'.isEmptyBlock_eq hid', h]

/-- The tool remark comes into the section of the remark it is moved behind, and every other block
stays in its own. -/
theorem moveToolRemark_cuts (hp : p.Settled) (htool : p.toolRemarks = [tool])
    (hoperation : p.otherRemarks.head? = some operation) (h : moveToolRemark.Yields p u p') :
    p'.Settled ∧ p.order.Perm p'.order ∧ (∀ id, (p'.block id).text = (p.block id).text) ∧
      p'.sections.map Sections.toolMark = p.sections.map Sections.toolMark ∧
      p'.cuts tool = p.cuts operation ∧ ∀ id, id ≠ tool → p'.cuts id = p.cuts id := by
  obtain ⟨tool', operation', i, j, htool', hoperation', hi, hj, hsame, hp'⟩ :=
    moveToolRemark_yields hp h
  obtain rfl : tool = tool' := by simpa [htool] using htool'
  obtain rfl : operation = operation' := by simpa [hoperation] using hoperation'
  obtain ⟨hmoved, -, -⟩ := moveToolRemark_moved hp htool hoperation hi hj h
  have htext : ∀ id, (p'.block id).text = (p.block id).text := hsame.text
  have hempty : ∀ id ∈ p.order, p'.isEmptyBlock id = p.isEmptyBlock id := fun id hid =>
    isEmptyBlock_congr hp.reads hp'.reads hid (hmoved.perm.mem_iff.mp hid) (htext id)
  obtain ⟨htoolMem, hremark⟩ := isRemark_toolRemark hp htool
  -- A block that is not empty cuts nowhere, so the others are cut as they are without it.
  have htoolFull := isEmptyBlock_of_isRemark hp.reads htoolMem hremark
  have hcuts : ∀ id, id ≠ tool → p'.cuts id = p.cuts id := by
    intro id hne
    refine cutsBefore_eq_of_filter hmoved.filter_ne.symm (by simpa using hne)
      ?_ ?_ fun a ha _ => hempty a (hmoved.perm.mem_iff.mpr ha)
    · intro a ha hkeep
      obtain rfl : a = tool := by simpa using hkeep
      rw [hempty a htoolMem, htoolFull]
    · intro a ha hkeep
      obtain rfl : a = tool := by simpa using hkeep
      exact htoolFull
  refine ⟨hp', hmoved.perm, htext, hsame.mark, ?_, hcuts⟩
  obtain ⟨hopMem, hopRemark, hne⟩ :=
    (mem_otherRemarks hp htool).mp (List.mem_of_head? (Option.mem_def.mpr hoperation))
  obtain ⟨pre, post, hnext⟩ := moveItem_behind_idxOf? hi hj (Ne.symm hne)
  have horder : p'.order = pre ++ operation :: tool :: post := by
    rw [← hnext]
    exact hsame.order
  have hn := hp'.nodup
  have hopFull : p'.isEmptyBlock operation = false := by
    rw [hempty operation hopMem, isEmptyBlock_of_isRemark hp.reads hopMem hopRemark]
  rw [← hcuts operation hne, cuts, cuts, horder]
  rw [horder] at hn
  exact cutsBefore_next hn hopFull

theorem words_ne_nil_of_found {letter : Text} (h : p.body.find? (p.hasLetter letter) = some id) :
    (p.block id).words ≠ [] := by
  have hword := List.find?_some h
  rw [hasLetter, List.any_eq_true] at hword
  obtain ⟨w, hw, -⟩ := hword
  exact List.ne_nil_of_mem hw

section
variable {pre post : List BlockId} {fixture length combined : BlockId}

theorem Combines.words_ne_nil (hp : p.Settled)
    (h : Combines p pre post fixture length combined p') : (p'.block combined).words ≠ [] := by
  have hid := h.mem_after (.inl rfl)
  obtain ⟨hbare, hover⟩ := h.bareText hp
  rw [bareText_eq h.settled.reads hid] at hbare hover
  rw [Ne, words_isEmpty_iff h.settled.reads hid]
  intro htokens
  rcases bare_of_tokens_eq_nil htokens with hnil | hpassed
  · exact hbare hnil
  · rw [hover] at hpassed
    cases hpassed

/-- Neither the two blocks nor the one made of them is empty, so none of them cuts. -/
theorem Combines.cuts_beside (hp : p.Settled)
    (h : Combines p pre post fixture length combined p') (hid : id ∈ pre ++ post) :
    p'.cuts id = p.cuts id := by
  have hfull : ∀ letter id, p.body.find? (p.hasLetter letter) = some id →
      p.isEmptyBlock id = false := fun letter id hfound =>
    isEmptyBlock_of_bareText hp.reads (body_subset hp (List.mem_of_find?_eq_some hfound))
      (bareText_of_found hp hfound).1
  have hbefore : p.order = pre ++ ([fixture, length] ++ post) := h.order
  have hafter : p'.order = pre ++ ([combined] ++ post) := h.order_eq
  have hkept : p'.order.filter (· ∈ pre ++ post) = p.order.filter (· ∈ pre ++ post) := by
    rw [hbefore, filter_mem_ends (hbefore ▸ hp.nodup), hafter,
      filter_mem_ends (hafter ▸ h.settled.nodup)]
  refine cutsBefore_eq_of_filter hkept (by simpa using hid) ?_ ?_ fun a ha' ha =>
    isEmptyBlock_congr hp.reads h.settled.reads ha ha' (h.text a ha)
  · intro a ha hout
    rw [hafter] at ha
    obtain rfl : a = combined := by simpa using mem_of_not_mem_ends ha (by simpa using hout)
    exact isEmptyBlock_of_bareText h.settled.reads (hafter ▸ ha) (h.bareText hp).1
  · intro a ha hout
    rw [hbefore] at ha
    have hpair : a = fixture ∨ a = length := by
      simpa using mem_of_not_mem_ends ha (by simpa using hout)
    rcases hpair with rfl | rfl
    · exact hfull _ _ h.fixture_found
    · exact hfull _ _ h.length_found

theorem Combines.cuts (hp : p.Settled) (h : Combines p pre post fixture length combined p')
    (hid : id ∈ p.order) (hwords : (p.block id).words = []) :
    id ∈ p'.order ∧ p'.cuts id = p.cuts id := by
  have hne : id ≠ fixture ∧ id ≠ length := by
    constructor <;> rintro rfl
    · exact words_ne_nil_of_found h.fixture_found hwords
    · exact words_ne_nil_of_found h.length_found hwords
  have hrest : id ∈ pre ++ post := by
    rw [h.order] at hid
    simpa [hne.1, hne.2] using hid
  exact ⟨h.mem_after (.inr (List.mem_append.mp hrest)), h.cuts_beside hp hrest⟩

end

/-- A fragment in its usual form has the tool remark in the section of the remark it was moved
behind, and its other blocks without words in their own. -/
structure Relocated (tool operation : BlockId) (p q : Program) : Prop where
  settled : q.Settled
  mark : q.sections.map Sections.toolMark = p.sections.map Sections.toolMark
  text : ∀ id ∈ p.order, (q.block id).text = (p.block id).text
  mem_iff : ∀ id, id ∈ q.order ∧ (q.block id).words = [] ↔ id ∈ p.order ∧ (p.block id).words = []
  cuts_tool : q.cuts tool = p.cuts operation
  cuts : ∀ id ∈ p.order, (p.block id).words = [] → id ≠ tool → q.cuts id = p.cuts id

theorem words_eq_nil_congr {l' : List BlockId} (hp : p.ReadsAll l) (hp' : p'.ReadsAll l')
    (hid : id ∈ l) (hid' : id ∈ l') (h : (p'.block id).text = (p.block id).text) :
    (p'.block id).words = [] ↔ (p.block id).words = [] := by
  rw [words_isEmpty_iff hp' hid', h, words_isEmpty_iff hp hid]

theorem normalize_relocated (hp : p.Settled) (h : normalize.Yields p u q) :
    ∃ tool operation, p.toolRemarks = [tool] ∧ p.otherRemarks.head? = some operation ∧
      Relocated tool operation p q := by
  simp only [normalize, Action.yields_bind, Action.yields_pure] at h
  obtain ⟨_, p₁, hmove, combined, p₂, hcombine, -, rfl⟩ := h
  obtain ⟨tool, operation, -, -, htool, hoperation, -⟩ := moveToolRemark_yields hp hmove
  obtain ⟨hp₁, hperm, htext, hmark, hcutsTool, hcuts⟩ :=
    moveToolRemark_cuts hp htool hoperation hmove
  obtain ⟨pre, post, fixture, length, hc⟩ := combineOffsets_yields hp₁ hcombine
  have hwords : ∀ id ∈ p.order, (p₁.block id).words = [] ↔ (p.block id).words = [] :=
    fun id hid => words_eq_nil_congr hp.reads hp₁.reads hid (hperm.mem_iff.mp hid) (htext id)
  have hstays : ∀ id ∈ p.order, (p.block id).words = [] →
      id ∈ q.order ∧ q.cuts id = p₁.cuts id := fun id hid hnil =>
    hc.cuts hp₁ (hperm.mem_iff.mp hid) ((hwords id hid).mpr hnil)
  have htext' : ∀ id ∈ p.order, (q.block id).text = (p.block id).text := fun id hid =>
    (hc.text id (hperm.mem_iff.mp hid)).trans (htext id)
  obtain ⟨htoolMem, hremark⟩ := isRemark_toolRemark hp htool
  have htoolWords := Block.words_of_isRemark hremark
  refine ⟨tool, operation, htool, hoperation, hc.settled, hc.mark.trans hmark,
    htext', fun id => ⟨?_, ?_⟩, ?_, ?_⟩
  · rintro ⟨hid, hnil⟩
    have hne : id ≠ combined := by
      rintro rfl
      exact hc.words_ne_nil hp₁ hnil
    rw [hc.order_eq, List.mem_append, List.mem_cons] at hid
    have hid' : id ∈ p.order := hperm.mem_iff.mpr (hc.mem (by tauto))
    exact ⟨hid', (words_eq_nil_congr hp.reads hc.settled.reads hid' (hc.mem_after (by tauto))
      (htext' id hid')).mp hnil⟩
  · rintro ⟨hid, hnil⟩
    have hid' := (hstays id hid hnil).1
    exact ⟨hid', (words_eq_nil_congr hp.reads hc.settled.reads hid hid' (htext' id hid)).mpr hnil⟩
  · rw [(hstays tool htoolMem htoolWords).2, hcutsTool]
  · intro id hid hnil hne
    rw [(hstays id hid hnil).2, hcuts id hne]

variable {n : Int} {line : Text}

theorem IsLine.reading (hq : q.ReadsAll l) (hid : id ∈ l) (h : q.IsLine id n line) :
    (Reading.ofText line).tokens = (q.renumbered id n).shownWords id ∧
      (Reading.ofText line).comments = Comment.trimLast (q.block id).comments := by
  obtain ⟨body, hbody, hplain, hcut, -⟩ := instructions_renumbered hq hid n
  have hline : line = (body ++ (q.block id).comments.flatten).trim := by
    rw [h.rebuilt, ← hbody]
    rfl
  obtain ⟨htokens, hcomments, -⟩ :=
    Reading.ofText_rebuilt hplain (hq.reading id hid).segments
  rw [hline]
  exact ⟨htokens.trans hcut, hcomments⟩

theorem IsLine.isRemark_eq (hq : q.ReadsAll l) (hid : id ∈ l) (h : q.IsLine id n line) :
    (q.block id).isRemark =
      ((Reading.ofText line).tokens.isEmpty && !(Reading.ofText line).comments.isEmpty) := by
  obtain ⟨htokens, hcomments⟩ := h.reading hq hid
  rw [htokens, hcomments, Block.isRemark, shownWords, List.isEmpty_map, Bool.eq_iff_iff]
  simp only [Bool.and_eq_true, Bool.not_eq_true', List.isEmpty_eq_false_iff, Ne,
    Comment.trimLast_eq_nil]
  rfl

theorem isLine_iff_of_words (hq : q.ReadsAll l) (hid : id ∈ l) (hwords : (q.block id).words = []) :
    q.IsLine id n line ↔ line = q.rebuilt id := by
  have hnumber : (q.block id).number = none := by
    rw [(hq.reading id hid).number, hwords]
    rfl
  have hsame : q.renumbered id n = q := by rw [renumbered, hnumber]; rfl
  constructor
  · rintro ⟨hline, -⟩
    rwa [hsame] at hline
  · rintro rfl
    exact ⟨by rw [hsame], by simp [hnumber]⟩

end Program

section
open Program
variable {step n : Int} {l l' : List (Program × BlockId)} {lines : List Text}

theorem LinesFrom.exists_line (h : LinesFrom step n l lines) :
    ∀ x ∈ l, ∃ line ∈ lines, ∃ m, x.1.IsLine x.2 m line := by
  induction h with
  | nil => simp
  | cons hline _ ih =>
    refine List.forall_mem_cons.mpr ⟨⟨_, List.mem_cons_self, _, hline⟩, fun x hx => ?_⟩
    obtain ⟨line, hmem, h⟩ := ih x hx
    exact ⟨line, List.mem_cons_of_mem _ hmem, h⟩

theorem LinesFrom.exists_block (h : LinesFrom step n l lines) :
    ∀ line ∈ lines, ∃ x ∈ l, ∃ m, x.1.IsLine x.2 m line := by
  induction h with
  | nil => simp
  | cons hline _ ih =>
    refine List.forall_mem_cons.mpr ⟨⟨_, List.mem_cons_self, _, hline⟩, fun line hmem => ?_⟩
    obtain ⟨x, hx, h⟩ := ih line hmem
    exact ⟨x, List.mem_cons_of_mem _ hx, h⟩

theorem LinesFrom.split (h : LinesFrom step n (l ++ l') lines) :
    ∃ a b m, lines = a ++ b ∧ LinesFrom step n l a ∧ LinesFrom step m l' b := by
  induction l generalizing n lines with
  | nil => exact ⟨[], lines, n, rfl, .nil n, h⟩
  | cons x l ih =>
    cases h with
    | cons hline hrest =>
      obtain ⟨a, b, m, rfl, ha, hb⟩ := ih hrest
      exact ⟨_ :: a, b, m, rfl, .cons hline ha, hb⟩

/-- The lines of the joined program, fragment by fragment. -/
theorem LinesFrom.parts {count index : Nat} {qs : List Program}
    (h : LinesFrom step n (sharedFrom count index qs) lines) :
    ∃ parts : List (List Text), lines = parts.flatten ∧ parts.length = qs.length ∧
      ∀ (k : Nat) (q : Program) (part : List Text), qs[k]? = some q → parts[k]? = some part →
        ∃ m, LinesFrom step m (sharedBlocks (index + k) count q) part := by
  induction qs generalizing index n lines with
  | nil =>
    cases h
    exact ⟨[], rfl, rfl, by simp⟩
  | cons q qs ih =>
    obtain ⟨a, b, m, rfl, ha, hb⟩ := LinesFrom.split h
    obtain ⟨parts, rfl, hlength, hparts⟩ := ih hb
    refine ⟨a :: parts, rfl, by rw [List.length_cons, List.length_cons, hlength], ?_⟩
    intro k q' part hq hpart
    cases k with
    | zero =>
      obtain rfl := Option.some.inj hq
      obtain rfl := Option.some.inj hpart
      exact ⟨n, ha⟩
    | succ k =>
      rw [show index + (k + 1) = index + 1 + k by omega]
      exact hparts k q' part hq hpart

end

namespace Program

variable {p q : Program} {tool operation id : BlockId} {step m : Int} {part : List Text}
  {index count : Nat}

def shared (index count : Nat) (p : Program) : List BlockId :=
  share index count (p.sections.getD default)

theorem Relocated.mem_of_isRemark (hr : Relocated tool operation p q) (hid : id ∈ p.order)
    (h : (p.block id).isRemark = true) : id ∈ q.order ∧ (q.block id).words = [] :=
  (hr.mem_iff id).mpr ⟨hid, Block.words_of_isRemark h⟩

theorem Relocated.rebuilt_eq (hr : Relocated tool operation p q) (hp : p.Settled)
    (hid : id ∈ p.order) (hid' : id ∈ q.order) : q.rebuilt id = p.rebuilt id :=
  hp.reads.rebuilt_congr hr.settled.reads hid hid' (hr.text id hid)

theorem Relocated.isRemark_eq (hr : Relocated tool operation p q) (hp : p.Settled)
    (hid : id ∈ p.order) (hid' : id ∈ q.order) :
    (q.block id).isRemark = (p.block id).isRemark :=
  isRemark_congr hp.reads hr.settled.reads hid hid' (hr.text id hid)

theorem Relocated.rebuilt_mem (hr : Relocated tool operation p q) (hp : p.Settled)
    (hlines : LinesFrom step m (sharedBlocks index count q) part)
    (hid : id ∈ q.shared index count) (hmem : id ∈ p.order)
    (hremark : (p.block id).isRemark = true) : p.rebuilt id ∈ part := by
  obtain ⟨hmem', hwords⟩ := hr.mem_of_isRemark hmem hremark
  obtain ⟨line, hline, k, hisLine⟩ := hlines.exists_line _ (List.mem_map_of_mem hid)
  rw [isLine_iff_of_words hr.settled.reads hmem' hwords] at hisLine
  rw [← hr.rebuilt_eq hp hmem hmem', ← hisLine]
  exact hline

section
variable (hp : p.Settled) (htool : p.toolRemarks = [tool]) (hr : Relocated tool operation p q)
include htool hr

theorem Relocated.isSome_sections : p.sections.isSome = true ∧ q.sections.isSome = true := by
  have hsome := Program.isSome_sections htool
  have hmark := congrArg Option.isSome hr.mark
  rw [Option.isSome_map, Option.isSome_map] at hmark
  exact ⟨hsome, hmark.trans hsome⟩

include hp

theorem Relocated.remark_mem_shared (hid : id ∈ p.otherRemarks) :
    id ∈ q.shared index count ↔ id ∈ p.shared index count := by
  obtain ⟨hs, hs'⟩ := hr.isSome_sections htool
  obtain ⟨hmem, hremark, hne⟩ := (mem_otherRemarks hp htool).mp hid
  rw [shared, shared, hp.mem_share hs hmem,
    hr.settled.mem_share hs' (hr.mem_of_isRemark hmem hremark).1,
    hr.cuts id hmem (Block.words_of_isRemark hremark) hne]

/-- The tool remark is shared after the move exactly if the remark it was moved behind was shared
before it. -/
theorem Relocated.tool_mem_shared (hoperation : p.otherRemarks.head? = some operation) :
    tool ∈ q.shared index count ↔ operation ∈ p.shared index count := by
  obtain ⟨hs, hs'⟩ := hr.isSome_sections htool
  obtain ⟨hmem, hremark⟩ := isRemark_toolRemark hp htool
  obtain ⟨hmem', -, -⟩ :=
    (mem_otherRemarks hp htool).mp (List.mem_of_head? (Option.mem_def.mpr hoperation))
  rw [shared, shared, hp.mem_share hs hmem',
    hr.settled.mem_share hs' (hr.mem_of_isRemark hmem hremark).1, hr.cuts_tool]

theorem Relocated.exists_remark (hlines : LinesFrom step m (sharedBlocks index count q) part)
    (hpart : p.rebuilt tool ∈ part) :
    ∃ id ∈ q.shared index count, id = tool ∨
      id ∈ p.otherRemarks ∧ p.rebuilt id = p.rebuilt tool := by
  obtain ⟨htoolMem, htoolRemark⟩ := isRemark_toolRemark hp htool
  obtain ⟨x, hx, k, hisLine⟩ := hlines.exists_block _ hpart
  obtain ⟨id, hid, rfl⟩ := List.mem_map.mp hx
  have hid' := (hr.settled.share_nodup index count).2 hid
  obtain ⟨htoolMem', htoolWords⟩ := hr.mem_of_isRemark htoolMem htoolRemark
  have htoolLine : q.IsLine tool k (p.rebuilt tool) :=
    (isLine_iff_of_words hr.settled.reads htoolMem' htoolWords).mpr
      (hr.rebuilt_eq hp htoolMem htoolMem').symm
  -- What has the line of a remark is one.
  have hremark : (q.block id).isRemark = true := by
    rw [hisLine.isRemark_eq hr.settled.reads hid', ← htoolLine.isRemark_eq hr.settled.reads htoolMem',
      hr.isRemark_eq hp htoolMem htoolMem', htoolRemark]
  have hwords := Block.words_of_isRemark hremark
  obtain ⟨hmem, -⟩ := (hr.mem_iff id).mp ⟨hid', hwords⟩
  refine ⟨id, hid, or_iff_not_imp_left.mpr fun hne => ⟨?_, ?_⟩⟩
  · exact (mem_otherRemarks hp htool).mpr
      ⟨hmem, (hr.isRemark_eq hp hmem hid').symm.trans hremark, hne⟩
  · rw [← hr.rebuilt_eq hp hmem hid']
    exact ((isLine_iff_of_words hr.settled.reads hid' hwords).mp hisLine).symm

/-- The text of the tool remark is one of the lines a fragment gives exactly if the remark it is
moved behind was shared, or one that is made again to the same text. -/
theorem Relocated.rebuilt_mem_iff (hoperation : p.otherRemarks.head? = some operation)
    (hlines : LinesFrom step m (sharedBlocks index count q) part) :
    p.rebuilt tool ∈ part ↔ ∃ id ∈ p.shared index count,
      id = operation ∨ id ∈ p.otherRemarks ∧ p.rebuilt id = p.rebuilt tool := by
  constructor
  · intro hpart
    obtain ⟨id, hid, rfl | ⟨hother, hsame⟩⟩ := hr.exists_remark hp htool hlines hpart
    · exact ⟨operation, (hr.tool_mem_shared hp htool hoperation).mp hid, .inl rfl⟩
    · exact ⟨id, (hr.remark_mem_shared hp htool hother).mp hid, .inr ⟨hother, hsame⟩⟩
  · rintro ⟨id, hid, rfl | ⟨hother, hsame⟩⟩
    · obtain ⟨hmem, hremark⟩ := isRemark_toolRemark hp htool
      exact hr.rebuilt_mem hp hlines ((hr.tool_mem_shared hp htool hoperation).mpr hid) hmem hremark
    · obtain ⟨hmem, hremark, -⟩ := (mem_otherRemarks hp htool).mp hother
      rw [← hsame]
      exact hr.rebuilt_mem hp hlines ((hr.remark_mem_shared hp htool hother).mpr hid) hmem hremark

end

end Program

open Program

theorem joinFragments_parts {start step : Int} {fragments : List Program} {lines : List Text}
    (hread : ∀ p ∈ fragments, IsFragment p)
    (h : ((joinFragments start step).run fragments).result = .ok lines) :
    ∃ (normal : List Program) (parts : List (List Text)),
      List.Forall₂ (fun p q => normalize.Yields p () q) fragments normal ∧
      lines = parts.flatten ∧ parts.length = fragments.length ∧
      ∀ (i : Nat) (q : Program) (part : List Text), normal[i]? = some q → parts[i]? = some part →
        ∃ m, LinesFrom step m (sharedBlocks i fragments.length q) part := by
  have hyields := Action.yields_of_result h
  simp only [joinFragments, Action.yields_bind, Action.yields_get, Action.yields_pure, and_assoc,
    exists_and_left, exists_eq_left] at hyields
  obtain ⟨_, normal, hnormal, a, _, hjoin, rfl, -⟩ := hyields
  have hall := normalizeAll_yields hnormal
  obtain ⟨lines, hlines, heq⟩ := joinAll_yields (settled_of_normalized hread hall) hjoin
  obtain ⟨parts, rfl, hlength, hparts⟩ := hlines.parts
  simp only [Nat.zero_add, ← hall.length_eq] at hparts hlength
  exact ⟨normal, parts, hall, by rw [heq, List.append_nil, List.reverse_reverse], hlength, hparts⟩

/-- Among the lines that a fragment gives to the joined program is the text of its tool remark
exactly if the remark it is moved behind is among the blocks it shared as it was read, or another
remark that is made again to the same text. -/
theorem tool_remark_kept_iff {start step : Int} {fragments : List Program} {lines : List Text}
    (hread : ∀ p ∈ fragments, IsFragment p)
    (h : ((joinFragments start step).run fragments).result = .ok lines) :
    ∃ (normal : List Program) (parts : List (List Text)),
      List.Forall₂ (fun p q => normalize.Yields p () q) fragments normal ∧
      lines = parts.flatten ∧ parts.length = fragments.length ∧
      ∀ (i : Nat) (p q : Program) (part : List Text), fragments[i]? = some p →
        normal[i]? = some q → parts[i]? = some part →
        (∃ m, LinesFrom step m (sharedBlocks i fragments.length q) part) ∧
        ∃ tool operation, p.toolRemarks = [tool] ∧ p.otherRemarks.head? = some operation ∧
          (p.rebuilt tool ∈ part ↔ ∃ id ∈ p.shared i fragments.length,
            id = operation ∨ id ∈ p.otherRemarks ∧ p.rebuilt id = p.rebuilt tool) := by
  obtain ⟨normal, parts, hall, hlines, hlength, hparts⟩ := joinFragments_parts hread h
  refine ⟨normal, parts, hall, hlines, hlength, fun i p q part hp hq hpart => ?_⟩
  obtain ⟨m, hfrom⟩ := hparts i q part hq hpart
  have hsettled := (hread p (List.mem_of_getElem? hp)).settled
  have hnormal : normalize.Yields p () q := by
    obtain ⟨hi, rfl⟩ := List.getElem?_eq_some_iff.mp hp
    obtain ⟨hi', rfl⟩ := List.getElem?_eq_some_iff.mp hq
    exact hall.get hi hi'
  obtain ⟨tool, operation, htool, hoperation, hr⟩ := normalize_relocated hsettled hnormal
  exact ⟨⟨m, hfrom⟩, tool, operation, htool, hoperation,
    hr.rebuilt_mem_iff hsettled htool hoperation hfrom⟩

/-- Two fragments, the second with a remark in its header. -/
def firstFragment : Program :=
  ((readLines (["(A)", "(T1)", "", "N1 G0 E1", "N2 H1", "", "M30"].map String.toList)).run
    (start none (some "(T".toList))).state

def headedFragment : Program :=
  ((readLines (["(PART)", "(T2)", "", "(B)", "N1 G0 E2", "N2 H2", "", "M30"].map
    String.toList)).run (start none (some "(T".toList))).state

def headedLines : List Text :=
  ["(A)", "(T1)", "", "N10 G0 E1 H1", "", "(B)", "N20 G0 E2 H2", "", "M30"].map String.toList

theorem isFragment_headed : ∀ p ∈ [firstFragment, headedFragment], IsFragment p := by
  refine List.forall_mem_cons.mpr ⟨⟨none, "(T".toList, _, by decide +kernel, rfl⟩, ?_⟩
  exact List.forall_mem_singleton.mpr ⟨none, "(T".toList, _, by decide +kernel, rfl⟩

theorem joinFragments_headed :
    ((joinFragments 10 10).run [firstFragment, headedFragment]).result = .ok headedLines := by
  decide +kernel

theorem tool_remark_kept_headed :
    (∀ p ∈ [firstFragment, headedFragment], IsFragment p) ∧
      ((joinFragments 10 10).run [firstFragment, headedFragment]).result = .ok headedLines ∧
      ∃ (normal : List Program) (parts : List (List Text)),
        List.Forall₂ (fun p q => normalize.Yields p () q) [firstFragment, headedFragment] normal ∧
        headedLines = parts.flatten ∧ parts.length = 2 ∧
        ∀ (i : Nat) (p q : Program) (part : List Text),
          [firstFragment, headedFragment][i]? = some p → normal[i]? = some q →
          parts[i]? = some part →
          (∃ m, LinesFrom 10 m (sharedBlocks i 2 q) part) ∧
          ∃ tool operation, p.toolRemarks = [tool] ∧ p.otherRemarks.head? = some operation ∧
            (p.rebuilt tool ∈ part ↔ ∃ id ∈ p.shared i 2,
              id = operation ∨ id ∈ p.otherRemarks ∧ p.rebuilt id = p.rebuilt tool) :=
  ⟨isFragment_headed, joinFragments_headed,
    tool_remark_kept_iff isFragment_headed joinFragments_headed⟩

/-- The tool of the second fragment is named nowhere in the program they make. -/
theorem tool_remark_lost :
    (∀ p ∈ [firstFragment, headedFragment], IsFragment p) ∧
      ((joinFragments 10 10).run [firstFragment, headedFragment]).result = .ok headedLines ∧
      ∃ tool, headedFragment.toolRemarks = [tool] ∧
        headedFragment.rebuilt tool = "(T2)".toList ∧
        headedFragment.rebuilt tool ∉ headedLines :=
  ⟨isFragment_headed, joinFragments_headed, 1, by decide +kernel⟩

end PartProgram
