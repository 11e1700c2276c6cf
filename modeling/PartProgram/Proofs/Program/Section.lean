import Mathlib.Data.List.Nodup
import PartProgram.Fragment.Joined
import PartProgram.Proofs.Block.Rebuilt
import PartProgram.Proofs.Program.Edit

/-! # The section of a block

How many empty blocks stand before a block tells its section. Blocks that are not
empty do not count there, so the section of a block stays when such ones are moved,
put in or taken out.
-/
namespace PartProgram

section
variable {α : Type} [DecidableEq α] {e e' : α → Bool} {keep : α → Bool} {x : α} {l l' : List α}

/-- How many elements with the property stand before the first `x`. -/
def cutsBefore (e : α → Bool) (x : α) (l : List α) : Nat := (l.takeWhile (· ≠ x)).countP e

theorem cutsBefore_cons (e : α → Bool) (x a : α) (l : List α) :
    cutsBefore e x (a :: l) = if a = x then 0 else cutsBefore e x l + if e a then 1 else 0 := by
  unfold cutsBefore
  by_cases ha : a = x
  · simp [ha]
  · simp [ha, List.countP_cons]

theorem cutsBefore_append_cons {pre post : List α} (hx : x ∉ pre) :
    cutsBefore e x (pre ++ x :: post) = pre.countP e := by
  induction pre with
  | nil => simp [cutsBefore_cons]
  | cons a pre ih =>
    simp only [List.mem_cons, not_or] at hx
    rw [List.cons_append, cutsBefore_cons, if_neg (Ne.symm hx.1), ih hx.2, List.countP_cons]

theorem cutsBefore_next {a b : α} {pre post : List α} (hn : (pre ++ a :: b :: post).Nodup)
    (ha : e a = false) :
    cutsBefore e b (pre ++ a :: b :: post) = cutsBefore e a (pre ++ a :: b :: post) := by
  have hsplit : pre ++ a :: b :: post = (pre ++ [a]) ++ b :: post := by simp
  have hb : b ∉ pre ++ [a] := by
    rw [hsplit] at hn
    exact fun hmem => (List.nodup_append.mp hn).2.2 b hmem b List.mem_cons_self rfl
  have ha' : a ∉ pre := fun hmem => (List.nodup_append.mp hn).2.2 a hmem a List.mem_cons_self rfl
  rw [cutsBefore_append_cons ha', hsplit, cutsBefore_append_cons hb, List.countP_append]
  simp [ha]

theorem cutsBefore_congr (h : ∀ a ∈ l, e a = e' a) : cutsBefore e x l = cutsBefore e' x l :=
  List.countP_congr fun a ha => by rw [h a (List.takeWhile_subset _ ha)]

theorem cutsBefore_filter (hx : keep x = true) (h : ∀ a ∈ l, keep a = false → e a = false) :
    cutsBefore e x (l.filter keep) = cutsBefore e x l := by
  induction l with
  | nil => rfl
  | cons a l ih =>
    obtain ⟨ha, hl⟩ := List.forall_mem_cons.mp h
    cases hkeep : keep a with
    | true => rw [List.filter_cons_of_pos hkeep, cutsBefore_cons, cutsBefore_cons, ih hl]
    | false =>
      have hne : a ≠ x := by
        rintro rfl
        simp [hx] at hkeep
      rw [List.filter_cons_of_neg (by simp [hkeep]), cutsBefore_cons, if_neg hne, ih hl, ha hkeep]
      rfl

theorem cutsBefore_eq_of_filter (hl : l.filter keep = l'.filter keep) (hx : keep x = true)
    (h : ∀ a ∈ l, keep a = false → e a = false) (h' : ∀ a ∈ l', keep a = false → e' a = false)
    (he : ∀ a ∈ l, a ∈ l' → e a = e' a) : cutsBefore e x l = cutsBefore e' x l' := by
  rw [← cutsBefore_filter hx h, ← cutsBefore_filter hx h', ← hl]
  refine cutsBefore_congr fun a ha => he a (List.mem_of_mem_filter ha) ?_
  rw [hl] at ha
  exact List.mem_of_mem_filter ha

theorem mem_cutAfter_fst (hx : x ∈ l) : x ∈ (cutAfter e l).1 ↔ cutsBefore e x l = 0 := by
  induction l with
  | nil => cases hx
  | cons a l ih =>
    rw [cutsBefore_cons, cutAfter]
    by_cases ha : a = x
    · subst ha
      split <;> simp
    · have hx' := (List.mem_cons.mp hx).resolve_left (Ne.symm ha)
      cases he : e a <;> simp [ha, Ne.symm ha, ih hx']

theorem mem_cutAfter_snd (hn : l.Nodup) (hx : x ∈ l) :
    x ∈ (cutAfter e l).2 ↔ cutsBefore e x l ≠ 0 := by
  have hall := cutAfter_append e l
  rw [← hall, List.nodup_append] at hn
  rw [← hall, List.mem_append] at hx
  rw [Ne, ← mem_cutAfter_fst (by rw [← hall, List.mem_append]; exact hx)]
  exact ⟨fun hsnd hfst => hn.2.2 x hfst x hsnd rfl, hx.resolve_left⟩

theorem cutsBefore_cutAfter_snd (hx : cutsBefore e x l ≠ 0) :
    cutsBefore e x (cutAfter e l).2 + 1 = cutsBefore e x l := by
  induction l with
  | nil => exact absurd rfl hx
  | cons a l ih =>
    rw [cutsBefore_cons] at hx ⊢
    rw [cutAfter]
    split at hx
    · exact absurd rfl hx
    · rename_i ha
      cases he : e a with
      | true => simp [ha]
      | false =>
        rw [he] at hx
        simpa [ha] using ih (by simpa using hx)

end

namespace Program

variable {p : Program} {s : Sections} {id : BlockId}

def cuts (p : Program) (id : BlockId) : Nat := cutsBefore p.isEmptyBlock id p.order

theorem Settled.mem_sections (hp : p.Settled) (hs : p.sections = some s) (hid : id ∈ p.order) :
    (id ∈ s.header ↔ p.cuts id = 0) ∧ (id ∈ s.body ↔ p.cuts id = 1) ∧
      (id ∈ s.footer ↔ 2 ≤ p.cuts id) := by
  have hcut : s = p.cutSections s.toolMark := hp.sections s hs
  have hrest := mem_cutAfter_snd (e := p.isEmptyBlock) hp.nodup hid
  have hn : (cutAfter p.isEmptyBlock p.order).2.Nodup := by
    have hnodup := hp.nodup
    rw [← cutAfter_append p.isEmptyBlock p.order] at hnodup
    exact (List.nodup_append.mp hnodup).2.1
  have hfst : id ∈ s.header ↔ p.cuts id = 0 := by
    rw [hcut]
    exact mem_cutAfter_fst hid
  refine ⟨hfst, ?_⟩
  by_cases hzero : p.cuts id = 0
  · have hnot : id ∉ (cutAfter p.isEmptyBlock p.order).2 := fun h => hrest.mp h hzero
    rw [← cutAfter_append p.isEmptyBlock (cutAfter p.isEmptyBlock p.order).2, List.mem_append,
      not_or] at hnot
    rw [hcut, hzero]
    exact ⟨iff_of_false hnot.1 (by simp), iff_of_false hnot.2 (by simp)⟩
  · have hmem := hrest.mpr hzero
    have hcount := cutsBefore_cutAfter_snd hzero
    rw [hcut]
    refine ⟨(mem_cutAfter_fst hmem).trans ?_, (mem_cutAfter_snd hn hmem).trans ?_⟩
    · rw [cuts]
      omega
    · rw [cuts]
      omega

/-- The sections are the parts of the sequence between the empty blocks. -/
theorem Settled.sections_eq_filter (hp : p.Settled) (hs : p.sections = some s) :
    s.header = p.order.filter (p.cuts · = 0) ∧ s.body = p.order.filter (p.cuts · = 1) ∧
      s.footer = p.order.filter (2 ≤ p.cuts ·) := by
  have happend : s.header ++ s.body ++ s.footer = p.order := by
    rw [hp.sections s hs]
    exact cutSections_append p s.toolMark
  have hsub : ∀ id, id ∈ s.header ∨ id ∈ s.body ∨ id ∈ s.footer → id ∈ p.order := by
    intro id hid
    rw [← happend, List.mem_append, List.mem_append, or_assoc]
    exact hid
  have hheader : ∀ id ∈ s.header, p.cuts id = 0 := fun id hid =>
    (hp.mem_sections hs (hsub id (.inl hid))).1.mp hid
  have hbody : ∀ id ∈ s.body, p.cuts id = 1 := fun id hid =>
    (hp.mem_sections hs (hsub id (.inr (.inl hid)))).2.1.mp hid
  have hfooter : ∀ id ∈ s.footer, 2 ≤ p.cuts id := fun id hid =>
    (hp.mem_sections hs (hsub id (.inr (.inr hid)))).2.2.mp hid
  have hother : ∀ id ∈ s.footer, p.cuts id ≠ 0 ∧ p.cuts id ≠ 1 := by
    intro id hid
    have := hfooter id hid
    omega
  refine ⟨?_, ?_, ?_⟩ <;> rw [← happend, List.filter_append, List.filter_append]
  · rw [List.filter_eq_self.mpr fun id hid => by simp [hheader id hid],
      List.filter_eq_nil_iff.mpr fun id hid => by simp [hbody id hid],
      List.filter_eq_nil_iff.mpr fun id hid => by simp [hother id hid]]
    simp
  · rw [List.filter_eq_nil_iff.mpr fun id hid => by simp [hheader id hid],
      List.filter_eq_self.mpr fun id hid => by simp [hbody id hid],
      List.filter_eq_nil_iff.mpr fun id hid => by simp [hother id hid]]
    simp
  · rw [List.filter_eq_nil_iff.mpr fun id hid => by simp [hheader id hid],
      List.filter_eq_nil_iff.mpr fun id hid => by simp [hbody id hid],
      List.filter_eq_self.mpr fun id hid => by simpa using hfooter id hid]
    simp

theorem Settled.mem_share {index count : Nat} (hp : p.Settled)
    (hs : p.sections.isSome = true) (hid : id ∈ p.order) :
    id ∈ share index count (p.sections.getD default) ↔
      index = 0 ∧ p.cuts id = 0 ∨ p.cuts id = 1 ∨ index + 1 = count ∧ 2 ≤ p.cuts id := by
  obtain ⟨s, hs⟩ := Option.isSome_iff_exists.mp hs
  obtain ⟨hheader, hbody, hfooter⟩ := hp.mem_sections hs hid
  rw [hs, Option.getD_some, share, List.mem_append, List.mem_append, hbody, or_assoc]
  refine or_congr ?_ (or_congr Iff.rfl ?_)
  · split <;> simp [*]
  · split <;> simp [*]

end Program

end PartProgram
