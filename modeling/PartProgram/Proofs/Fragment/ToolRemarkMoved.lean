import PartProgram.Proofs.Fragment.Refused
import PartProgram.Proofs.Fragment.ToolRemarkKept

/-! # The tool remark behind the operation

The tool remark is moved exactly if there is one and another remark to move it behind.
The other blocks keep their order and all remarks stay what they are, so the tool
remark is moved once only. Without such remarks the fragment stays as it was read.
-/
namespace PartProgram

open WordGraph

/-- The action is refused for the layout of the fragment, in its name, and by then has changed and
reported nothing. -/
def Action.Refuses {α : Type} (a : Action Program α) (p : Program) : Prop :=
  ∃ cause, a.run p = ⟨.error (.layout p.name cause), p, []⟩

namespace Action

variable {α β : Type} {a : Action Program α} {f : α → Action Program β} {p : Program} {x : α}

theorem Refuses.bind (f : α → Action Program β) (h : a.Refuses p) : (a >>= f).Refuses p := by
  obtain ⟨cause, hrun⟩ := h
  exact ⟨cause, run_bind_error f hrun⟩

theorem Refuses.after (ha : a.run p = ⟨.ok x, p, []⟩) (h : (f x).Refuses p) :
    (a >>= f).Refuses p := by
  obtain ⟨cause, hrun⟩ := h
  exact ⟨cause, by rw [run_bind_ok f ha, hrun]; rfl⟩

theorem Refuses.after_get {f : Program → Action Program β} (h : (f p).Refuses p) :
    (get >>= f).Refuses p := h.after (run_get p)

theorem Refuses.not_yields {p' : Program} (h : a.Refuses p) : ¬ a.Yields p x p' := by
  rintro ⟨hresult, -⟩
  obtain ⟨cause, hrun⟩ := h
  rw [hrun] at hresult
  cases hresult

end Action

namespace Program

variable {p p' : Program} {u : Unit} {tool operation id : BlockId} {l : List BlockId}

theorem refuses_refuse {α : Type} (cause : LayoutFault) (p : Program) :
    (refuse cause : Action Program α).Refuses p := ⟨cause, rfl⟩

theorem indexOf_run {i : Nat} (h : p.order.idxOf? id = some i) :
    (indexOf id).run p = ⟨.ok i, p, []⟩ := by
  rw [indexOf, Action.run_bind_ok _ (Action.run_get p), h]
  rfl

theorem findRemarks_refuses (h : ¬ ∃ tool, p.toolRemarks = [tool] ∧ p.otherRemarks ≠ []) :
    findRemarks.Refuses p := by
  refine Action.Refuses.after_get ?_
  split
  · rename_i tool operation rest htool hother
    exact absurd ⟨tool, htool, by rw [hother]; exact List.cons_ne_nil _ _⟩ h
  · exact refuses_refuse _ p
  · exact refuses_refuse _ p

/-- Blocks that were read can be read in any order. -/
theorem ReadsAll.reorder_succeeds {order : List BlockId} (hl : p.ReadsAll l) (h : order ⊆ l) :
    ∃ p', reread.Yields { p with order } () p' :=
  reread_succeeds (p := { p with order }) (fun id hid => hl.stored id (h hid))
    fun id hid => (hl.reading id (h hid)).isReadable

theorem moveBlock_succeeds {i j : Nat} (hp : p.Settled) (hi : i < p.length) (hj : j ≤ p.length) :
    ∃ p', (moveBlock i j).Yields p () p' := by
  have hrun : (moveBlock i j).run p = _ := moveBlock_run (by omega) (by omega)
  split at hrun
  · exact ⟨p, by rw [hrun], by rw [hrun]⟩
  · have hperm : (moveItem (i : Int).toNat (j : Int).toNat p.order).Perm p.order := moveItem_perm hj
    obtain ⟨p', hread⟩ := hp.reads.reorder_succeeds hperm.subset
    refine ⟨p', ?_⟩
    rw [Action.Yields, hrun]
    exact hread

theorem moveToolRemark_of_moveBlock {i j : Nat} (htool : p.toolRemarks = [tool])
    (hoperation : p.otherRemarks.head? = some operation) (hi : p.order.idxOf? tool = some i)
    (hj : p.order.idxOf? operation = some j) (h : (moveBlock i (j + 1)).Yields p () p') :
    moveToolRemark.Yields p () p' := by
  simp only [moveToolRemark, Action.yields_bind, yields_findRemarks, yields_indexOf,
    Action.yields_get, Action.yields_log]
  exact ⟨(tool, operation), p, ⟨htool, hoperation, rfl⟩, i, p, ⟨hi, rfl⟩, j, p, ⟨hj, rfl⟩, (), p',
    h, p', p', ⟨rfl, rfl⟩, rfl⟩

theorem moveToolRemark_succeeds (hp : p.Settled) (htool : p.toolRemarks = [tool])
    (hother : p.otherRemarks ≠ []) : ∃ p', moveToolRemark.Yields p () p' := by
  obtain ⟨operation, hoperation⟩ : ∃ operation, p.otherRemarks.head? = some operation :=
    Option.isSome_iff_exists.mp (List.isSome_head?.mpr hother)
  have hmem := otherRemark_mem hp (List.mem_of_head? hoperation)
  obtain ⟨i, hi⟩ := Option.isSome_iff_exists.mp
    (List.isSome_idxOf?.mpr (isRemark_toolRemark hp htool).1)
  obtain ⟨j, hj⟩ := Option.isSome_iff_exists.mp (List.isSome_idxOf?.mpr hmem)
  obtain ⟨p', hmove⟩ := moveBlock_succeeds hp (lt_of_idxOf? hi) (lt_of_idxOf? hj)
  exact ⟨p', moveToolRemark_of_moveBlock htool hoperation hi hj (by exact_mod_cast hmove)⟩

theorem Settled.remarks_eq (hp : p.Settled) {mark : Text}
    (hs : p.sections.map Sections.toolMark = some mark) :
    p.toolRemarks = p.order.filter (p.isToolRemark mark) ∧
      p.otherRemarks = p.order.filter (p.isOtherRemark mark) := by
  obtain ⟨s, hsome, rfl⟩ := Option.map_eq_some_iff.mp hs
  rw [toolRemarks, otherRemarks, hsome]
  exact ⟨congrArg Sections.toolRemarks (hp.sections s hsome),
    congrArg Sections.otherRemarks (hp.sections s hsome)⟩

theorem isToolRemark_congr {l' : List BlockId} (hp : p.ReadsAll l) (hp' : p'.ReadsAll l')
    (hid : id ∈ l) (hid' : id ∈ l') (h : (p'.block id).text = (p.block id).text) (mark : Text) :
    p'.isToolRemark mark id = p.isToolRemark mark id := by
  rw [isToolRemark, isToolRemark, isRemark_congr hp hp' hid hid' h,
    (hp.reading id hid).comments, (hp'.reading id hid').comments, h]

theorem isOtherRemark_congr {l' : List BlockId} (hp : p.ReadsAll l) (hp' : p'.ReadsAll l')
    (hid : id ∈ l) (hid' : id ∈ l') (h : (p'.block id).text = (p.block id).text) (mark : Text) :
    p'.isOtherRemark mark id = p.isOtherRemark mark id := by
  rw [isOtherRemark, isOtherRemark, isRemark_congr hp hp' hid hid' h,
    isToolRemark_congr hp hp' hid hid' h]

/-- Moving the tool remark alone leaves both lists of remarks. -/
theorem remarks_of_moved (hp : p.Settled) (hp' : p'.Settled) (htool : p.toolRemarks = [tool])
    (hmark : p'.sections.map Sections.toolMark = p.sections.map Sections.toolMark)
    (hperm : p'.order.Perm p.order)
    (hothers : p'.order.filter (· ≠ tool) = p.order.filter (· ≠ tool))
    (htext : ∀ id, (p'.block id).text = (p.block id).text) :
    p'.toolRemarks = p.toolRemarks ∧ p'.otherRemarks = p.otherRemarks := by
  obtain ⟨s, hs⟩ := Option.isSome_iff_exists.mp (isSome_sections htool)
  have hs : p.sections.map Sections.toolMark = some s.toolMark := by rw [hs]; rfl
  obtain ⟨htools, hother⟩ := hp.remarks_eq hs
  obtain ⟨htools', hother'⟩ := hp'.remarks_eq (hmark.trans hs)
  constructor
  · have hsame : p'.order.filter (p'.isToolRemark s.toolMark) =
        p'.order.filter (p.isToolRemark s.toolMark) :=
      List.filter_congr fun id hid =>
        isToolRemark_congr hp.reads hp'.reads (hperm.mem_iff.mp hid) hid (htext id) _
    have hfilter := hperm.filter (p.isToolRemark s.toolMark)
    rw [← hsame, ← htools', ← htools, htool] at hfilter
    rw [List.perm_singleton.mp hfilter, htool]
  · have hsame : p'.order.filter (p'.isOtherRemark s.toolMark) =
        p'.order.filter (p.isOtherRemark s.toolMark) :=
      List.filter_congr fun id hid =>
        isOtherRemark_congr hp.reads hp'.reads (hperm.mem_iff.mp hid) hid (htext id) _
    -- The tool remark is none of the others, so leaving it out first changes nothing.
    have hskip : ∀ order : List BlockId, order.filter (p.isOtherRemark s.toolMark) =
        (order.filter (· ≠ tool)).filter (p.isOtherRemark s.toolMark) := by
      intro order
      rw [List.filter_filter]
      refine List.filter_congr fun id _ => ?_
      by_cases hid : id = tool
      · have hmem : id ∈ p.order.filter (p.isToolRemark s.toolMark) := by
          rw [← htools, htool, hid]
          exact List.mem_singleton_self tool
        simp [isOtherRemark, (List.mem_filter.mp hmem).2]
      · simp [hid]
    rw [hother', hother, hsame, hskip p'.order, hothers, ← hskip]

/-- The tool remark stands where it belongs: nothing is moved again. -/
theorem moveToolRemark_again (hp : p.Settled) (htool : p.toolRemarks = [tool])
    (hoperation : p.otherRemarks.head? = some operation)
    (hbehind : ∃ pre post, p.order = pre ++ operation :: tool :: post) :
    moveToolRemark.Yields p () p := by
  obtain ⟨pre, post, horder⟩ := hbehind
  have hj : p.order.idxOf? operation = some pre.length := idxOf?_split horder hp.nodup
  have hi : p.order.idxOf? tool = some (pre.length + 1) := by
    have hsplit : p.order = (pre ++ [operation]) ++ tool :: post := by simpa using horder
    rw [idxOf?_split hsplit hp.nodup, List.length_append, List.length_singleton]
  have hlt := lt_of_idxOf? hi
  have hrun : (moveBlock (pre.length + 1 : Nat) (pre.length + 1 : Nat)).run p = _ :=
    moveBlock_run (by omega) (by omega)
  rw [if_pos (.inl rfl)] at hrun
  have hmove : (moveBlock (pre.length + 1 : Nat) (pre.length + 1 : Nat)).Yields p () p :=
    ⟨by rw [hrun], by rw [hrun]⟩
  exact moveToolRemark_of_moveBlock htool hoperation hi hj hmove

/-- The tool remark was moved behind another remark, and nothing else is different. -/
structure RemarkMoved (tool operation : BlockId) (p p' : Program) : Prop where
  perm : p'.order.Perm p.order
  others : p'.order.filter (· ≠ tool) = p.order.filter (· ≠ tool)
  behind : ∃ pre post, p'.order = pre ++ operation :: tool :: post
  text : ∀ id, (p'.block id).text = (p.block id).text
  toolRemarks : p'.toolRemarks = p.toolRemarks
  otherRemarks : p'.otherRemarks = p.otherRemarks
  again : moveToolRemark.Yields p' () p'

theorem moveToolRemark_remarkMoved (hp : p.Settled) (h : moveToolRemark.Yields p u p') :
    ∃ tool operation, p.toolRemarks = [tool] ∧ p.otherRemarks.head? = some operation ∧
      RemarkMoved tool operation p p' := by
  obtain ⟨tool, operation, i, j, htool, hoperation, hi, hj, hsame, hp'⟩ :=
    moveToolRemark_yields hp h
  obtain ⟨hmoved, -, -⟩ := moveToolRemark_moved hp htool hoperation hi hj h
  obtain ⟨-, -, hne⟩ :=
    (mem_otherRemarks hp htool).mp (List.mem_of_head? (Option.mem_def.mpr hoperation))
  have hbehind : ∃ pre post, p'.order = pre ++ operation :: tool :: post := by
    rw [show p'.order = moveItem i (j + 1) p.order from hsame.order]
    exact moveItem_behind_idxOf? hi hj hne.symm
  obtain ⟨htools, hothers⟩ := remarks_of_moved hp hp' htool hsame.mark hmoved.perm.symm
    hmoved.filter_ne.symm hsame.text
  exact ⟨tool, operation, htool, hoperation, hmoved.perm.symm, hmoved.filter_ne.symm, hbehind,
    hsame.text, htools, hothers, moveToolRemark_again hp' (htools.trans htool)
      (by rw [hothers, hoperation]) hbehind⟩

theorem moveToolRemark_refuses (h : ¬ ∃ tool, p.toolRemarks = [tool] ∧ p.otherRemarks ≠ []) :
    moveToolRemark.Refuses p :=
  (findRemarks_refuses h).bind _

/-- The tool remark of a fragment is moved exactly if there is one of them and another remark. Then
it stands right behind the first other remark, every other block keeps its order, all remarks are
what they were, and moving it again changes nothing. Else the fragment is refused and stays. -/
theorem tool_remark_moved_iff (hp : IsFragment p) :
    ((∃ p', moveToolRemark.Yields p () p') ↔
        ∃ tool, p.toolRemarks = [tool] ∧ p.otherRemarks ≠ []) ∧
      (∀ p', moveToolRemark.Yields p () p' → ∃ tool operation, p.toolRemarks = [tool] ∧
        p.otherRemarks.head? = some operation ∧ RemarkMoved tool operation p p') ∧
      ((¬ ∃ tool, p.toolRemarks = [tool] ∧ p.otherRemarks ≠ []) → moveToolRemark.Refuses p) := by
  refine ⟨⟨?_, ?_⟩, fun p' h => moveToolRemark_remarkMoved hp.settled h, moveToolRemark_refuses⟩
  · rintro ⟨p', h⟩
    by_contra hnone
    exact (moveToolRemark_refuses hnone).not_yields h
  · rintro ⟨tool, htool, hother⟩
    exact moveToolRemark_succeeds hp.settled htool hother

theorem tool_remark_moved_sample :
    IsFragment sampleFragment ∧ (moveToolRemark.run sampleFragment).result = .ok () ∧
      ((∃ p', moveToolRemark.Yields sampleFragment () p') ↔
        ∃ tool, sampleFragment.toolRemarks = [tool] ∧ sampleFragment.otherRemarks ≠ []) ∧
      (∀ p', moveToolRemark.Yields sampleFragment () p' →
        ∃ tool operation, sampleFragment.toolRemarks = [tool] ∧
          sampleFragment.otherRemarks.head? = some operation ∧
          RemarkMoved tool operation sampleFragment p') ∧
      ((¬ ∃ tool, sampleFragment.toolRemarks = [tool] ∧ sampleFragment.otherRemarks ≠ []) →
        moveToolRemark.Refuses sampleFragment) :=
  ⟨isFragment_sample, sampleFragment_runs.2.1, tool_remark_moved_iff isFragment_sample⟩

end Program

end PartProgram
