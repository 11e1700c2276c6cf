import Mathlib.Data.List.Basic
import PartProgram.Proofs.Program.Edit

/-! # An entry moved past others

The texts along a list, empty ones left out, stay as they are when one element is
moved exactly if it has no text or passes no text but its own. The elements moved
past a pair of neighbours pass both of them or none.
-/
namespace PartProgram

variable {α β : Type}

/-- The texts along a list, without empty ones. -/
def entries (f : α → List β) (l : List α) : List (List β) := (l.map f).filter (!·.isEmpty)

@[simp] theorem entries_nil (f : α → List β) : entries f [] = [] := rfl

@[simp] theorem entries_append (f : α → List β) (l l' : List α) :
    entries f (l ++ l') = entries f l ++ entries f l' := by
  simp [entries]

theorem entries_cons (f : α → List β) (a : α) (l : List α) :
    entries f (a :: l) = entries f [a] ++ entries f l := by
  rw [← List.singleton_append, entries_append]

theorem entries_singleton {f : α → List β} {a : α} (h : f a ≠ []) : entries f [a] = [f a] := by
  simp [entries, h]

theorem entries_singleton_nil {f : α → List β} {a : α} (h : f a = []) : entries f [a] = [] := by
  simp [entries, h]

theorem entries_congr {f g : α → List β} {l : List α} (h : ∀ a ∈ l, f a = g a) :
    entries f l = entries g l := by
  rw [entries, entries, List.map_congr_left h]

theorem mem_entries {f : α → List β} {l : List α} {s : List β} :
    s ∈ entries f l ↔ s ≠ [] ∧ ∃ a ∈ l, f a = s := by
  simp only [entries, List.mem_filter, List.mem_map, Bool.not_eq_true', List.isEmpty_eq_false_iff]
  exact and_comm

/-- A list that stays the same when its head is put at its end repeats its head. -/
theorem cons_eq_concat_iff {x : β} {l : List β} : x :: l = l ++ [x] ↔ ∀ y ∈ l, y = x := by
  induction l with
  | nil => simp
  | cons y l ih =>
    simp only [List.cons_append, List.cons.injEq, List.forall_mem_cons, eq_comm (a := x)]
    constructor
    · rintro ⟨rfl, h⟩
      exact ⟨rfl, ih.mp h⟩
    · rintro ⟨rfl, h⟩
      exact ⟨rfl, ih.mpr h⟩

/-- One element stands behind those between in one of the lists, before them in the other. -/
inductive Moved (a : α) (mid : List α) : List α → List α → Prop where
  | forward (pre post : List α) : Moved a mid (pre ++ a :: (mid ++ post)) (pre ++ (mid ++ a :: post))
  | backward (pre post : List α) : Moved a mid (pre ++ (mid ++ a :: post)) (pre ++ a :: (mid ++ post))

theorem entries_move {f : α → List β} {a : α} {pre mid post : List α} :
    entries f (pre ++ a :: (mid ++ post)) = entries f (pre ++ (mid ++ a :: post)) ↔
      f a = [] ∨ ∀ c ∈ mid, f c = [] ∨ f c = f a := by
  have hleft : entries f (pre ++ a :: (mid ++ post)) =
      entries f pre ++ ((entries f [a] ++ entries f mid) ++ entries f post) := by
    rw [entries_append, entries_cons, entries_append, List.append_assoc]
  have hright : entries f (pre ++ (mid ++ a :: post)) =
      entries f pre ++ ((entries f mid ++ entries f [a]) ++ entries f post) := by
    rw [entries_append, entries_append, entries_cons, List.append_assoc]
  rw [hleft, hright, List.append_cancel_left_eq, List.append_cancel_right_eq]
  by_cases ha : f a = []
  · simp [entries_singleton_nil ha, ha]
  · rw [entries_singleton ha, List.singleton_append, cons_eq_concat_iff]
    simp only [mem_entries, ha, false_or]
    constructor
    · intro h c hc
      by_cases hfc : f c = []
      · exact .inl hfc
      · exact .inr (h _ ⟨hfc, c, hc, rfl⟩)
    · rintro h y ⟨hy, c, hc, rfl⟩
      exact (h c hc).resolve_left hy

theorem Moved.entries_eq_iff {f : α → List β} {a : α} {mid l l' : List α} (h : Moved a mid l l') :
    entries f l = entries f l' ↔ f a = [] ∨ ∀ c ∈ mid, f c = [] ∨ f c = f a := by
  cases h with
  | forward pre post => exact entries_move
  | backward pre post => exact eq_comm.trans entries_move

/-- What an element passes that is taken from place `i` and put behind the one at place `j`. -/
def passed (i j : Nat) (l : List α) : List α :=
  if i < j then (l.drop (i + 1)).take (j - i) else (l.drop (j + 1)).take (i - (j + 1))

theorem moved_moveItem {a : α} {i j : Nat} {l : List α} (hi : l[i]? = some a) (hj : j < l.length) :
    Moved a (passed i j l) l (moveItem i (j + 1) l) := by
  obtain ⟨hlt, rfl⟩ := List.getElem?_eq_some_iff.mp hi
  rcases Nat.lt_trichotomy i j with hij | rfl | hij
  · have hl : l = l.take i ++ l[i] :: (passed i j l ++ (l.drop (i + 1)).drop (j - i)) := by
      rw [passed, if_pos hij, List.take_append_drop, ← List.drop_eq_getElem_cons hlt,
        List.take_append_drop]
    have hlength : (passed i j l).length = j - i := by
      rw [passed, if_pos hij, List.length_take, List.length_drop]
      omega
    have hmove := moveItem_forward (l.take i) (passed i j l) ((l.drop (i + 1)).drop (j - i)) l[i]
    rw [← hl, List.length_take_of_le (Nat.le_of_lt hlt), hlength,
      show i + 1 + (j - i) = j + 1 by omega] at hmove
    have h : Moved l[i] (passed i j l) _ _ :=
      .forward (l.take i) ((l.drop (i + 1)).drop (j - i))
    rwa [← hl, ← hmove] at h
  · have hl : l = l.take i ++ l[i] :: l.drop (i + 1) := by
      rw [← List.drop_eq_getElem_cons hlt, List.take_append_drop]
    have hpassed : passed i i l = [] := by simp [passed]
    rw [moveItem_eq_self (.inr rfl), hpassed]
    have h : Moved l[i] [] _ _ := .forward (l.take i) (l.drop (i + 1))
    rwa [List.nil_append, List.nil_append, ← hl] at h
  · have hl : l = l.take (j + 1) ++ (passed i j l ++ l[i] :: l.drop (i + 1)) := by
      have hdrop : l.drop i = (l.drop (j + 1)).drop (i - (j + 1)) := by
        rw [List.drop_drop, show j + 1 + (i - (j + 1)) = i by omega]
      rw [← List.drop_eq_getElem_cons hlt, passed, if_neg (by omega), hdrop,
        List.take_append_drop, List.take_append_drop]
    have hlength : (passed i j l).length = i - (j + 1) := by
      rw [passed, if_neg (by omega), List.length_take, List.length_drop]
      omega
    have hmove := moveItem_backward (l.take (j + 1)) (passed i j l) (l.drop (i + 1)) l[i]
    rw [← hl, List.length_take_of_le hj, hlength, show j + 1 + (i - (j + 1)) = i by omega] at hmove
    have h : Moved l[i] (passed i j l) _ _ := .backward (l.take (j + 1)) (l.drop (i + 1))
    rwa [← hl, ← hmove] at h

section
variable {a b c : α} {mid l l' pre post : List α}

theorem append_cons_eq_neighbours {A B : List α} (h : A ++ a :: B = pre ++ b :: c :: post)
    (hb : b ≠ a) (hc : c ≠ a) :
    (∃ W, B = W ++ b :: c :: post ∧ pre = A ++ a :: W) ∨
      ∃ W, A = pre ++ b :: c :: W ∧ post = W ++ a :: B := by
  rcases List.append_eq_append_iff.mp h with ⟨as, hpre, has⟩ | ⟨bs, hA, hbs⟩
  · rcases List.cons_eq_append_iff.mp has with ⟨-, heq⟩ | ⟨W, rfl, hB⟩
    · exact absurd (List.cons.inj heq).1 hb
    · exact .inl ⟨W, hB, hpre⟩
  · rcases List.cons_eq_append_iff.mp hbs with ⟨-, heq⟩ | ⟨bs', rfl, hbs'⟩
    · exact absurd (List.cons.inj heq).1.symm hb
    · rcases List.cons_eq_append_iff.mp hbs' with ⟨-, heq⟩ | ⟨W, rfl, hpost⟩
      · exact absurd (List.cons.inj heq).1.symm hc
      · exact .inr ⟨W, hA, hpost⟩

theorem append_eq_neighbours {A B : List α} (h : A ++ B = pre ++ b :: c :: post) :
    (∃ W, B = W ++ b :: c :: post ∧ pre = A ++ W) ∨ (A = pre ++ [b] ∧ B = c :: post) ∨
      ∃ W, A = pre ++ b :: c :: W ∧ post = W ++ B := by
  rcases List.append_eq_append_iff.mp h with ⟨W, hpre, hB⟩ | ⟨bs, hA, hbs⟩
  · exact .inl ⟨W, hB, hpre⟩
  · rcases List.cons_eq_append_iff.mp hbs with ⟨rfl, hB⟩ | ⟨bs', rfl, hbs'⟩
    · exact .inl ⟨[], hB, by simpa using hA.symm⟩
    · rcases List.cons_eq_append_iff.mp hbs' with ⟨rfl, hB⟩ | ⟨W, rfl, hpost⟩
      · exact .inr (.inl ⟨hA, hB⟩)
      · exact .inr (.inr ⟨W, hA, hpost⟩)

theorem notMem_of_nodup_append {A B : List α} (h : (A ++ B).Nodup) {x : α} (hx : x ∈ B) : x ∉ A :=
  fun hA => (List.nodup_append.mp h).2.2 x hA x hx rfl

theorem notMem_of_nodup_append' {A B : List α} (h : (A ++ B).Nodup) {x : α} (hx : x ∈ A) : x ∉ B :=
  fun hB => (List.nodup_append.mp h).2.2 x hx x hB rfl

/-- Neighbours after a move were neighbours before it and both or neither were passed, or the
element stood between them and one of them was passed. -/
theorem Moved.neighbours (h : Moved a mid l l') (hl' : l' = pre ++ b :: c :: post)
    (hn : l'.Nodup) (hb : b ≠ a) (hc : c ≠ a) :
    (∃ pre post, l = pre ++ b :: c :: post ∧ (b ∈ mid ↔ c ∈ mid)) ∨
      ∃ pre post, l = pre ++ b :: a :: c :: post ∧ (b ∈ mid ∨ c ∈ mid) := by
  cases h with
  | forward A B =>
    rw [← List.append_assoc] at hl' hn
    rcases append_cons_eq_neighbours hl' hb hc with ⟨W, rfl, -⟩ | ⟨W, hA, -⟩
    · have hout : ∀ x ∈ [b, c], x ∉ mid := fun x hx hm =>
        notMem_of_nodup_append hn (x := x) (by grind) (List.mem_append_right A hm)
      exact .inl ⟨A ++ a :: (mid ++ W), post, by simp, by simp [hout]⟩
    · rcases append_eq_neighbours hA with ⟨Z, rfl, -⟩ | ⟨rfl, rfl⟩ | ⟨Z, rfl, -⟩
      · exact .inl ⟨A ++ a :: Z, W ++ B, by simp, by simp⟩
      · exact .inr ⟨pre, W ++ B, by simp, .inr (by simp)⟩
      · have hout : ∀ x ∈ [b, c], x ∉ mid := fun x hx =>
          notMem_of_nodup_append' (List.nodup_append.mp hn).1 (x := x) (by grind)
        exact .inl ⟨pre, Z ++ a :: (mid ++ B), by simp, by simp [hout]⟩
  | backward A B =>
    rcases append_cons_eq_neighbours hl' hb hc with ⟨W, hB, -⟩ | ⟨W, rfl, -⟩
    · rcases append_eq_neighbours hB with ⟨Z, rfl, -⟩ | ⟨rfl, rfl⟩ | ⟨Z, rfl, -⟩
      · have hinner := (List.nodup_cons.mp (List.nodup_append.mp hn).2.1).2
        have hout : ∀ x ∈ [b, c], x ∉ mid := fun x hx =>
          notMem_of_nodup_append hinner (x := x) (by grind)
        exact .inl ⟨A ++ (mid ++ a :: Z), post, by simp, by simp [hout]⟩
      · exact .inr ⟨A ++ W, post, by simp, .inl (by simp)⟩
      · exact .inl ⟨A ++ W, Z ++ a :: B, by simp, by simp⟩
    · have hout : ∀ x ∈ [b, c], x ∉ mid := fun x hx hm =>
        notMem_of_nodup_append' hn (x := x) (by grind) (by simp [hm])
      exact .inl ⟨pre, W ++ (mid ++ a :: B), by simp, by simp [hout]⟩

theorem Moved.perm (h : Moved a mid l l') : l.Perm l' := by
  cases h with
  | forward A B => exact (List.perm_middle.symm).append_left A
  | backward A B => exact List.perm_middle.append_left A

theorem notMem_of_nodup (h : (pre ++ b :: (mid ++ c :: post)).Nodup) :
    (b ∉ pre ∧ b ∉ mid ∧ b ≠ c ∧ b ∉ post) ∧ c ∉ pre ∧ c ∉ mid ∧ c ∉ post := by
  obtain ⟨hb, hrest⟩ := List.nodup_cons.mp (List.perm_middle.nodup_iff.mp h)
  rw [← List.append_assoc] at hrest
  obtain ⟨hc, -⟩ := List.nodup_cons.mp (List.perm_middle.nodup_iff.mp hrest)
  simp only [List.mem_append, List.mem_cons, not_or] at hb hc
  exact ⟨⟨hb.1, hb.2.1, hb.2.2.1, hb.2.2.2⟩, hc.1.1, hc.1.2, hc.2⟩

/-- Texts after the text of `b` was replaced and that of `c` left out. -/
def replaced [DecidableEq α] (f : α → List β) (b c : α) (e : List β) (x : α) : List β :=
  if x = b then e else if x = c then [] else f x

variable {f : α → List β} {e : List β}

theorem entries_replaced [DecidableEq α] (he : e ≠ []) (hl : l = pre ++ b :: (mid ++ c :: post)) (hn : l.Nodup) :
    entries (replaced f b c e) l =
      entries f pre ++ e :: (entries f mid ++ entries f post) := by
  subst hl
  obtain ⟨⟨hbpre, hbmid, hbc, hbpost⟩, hcpre, hcmid, hcpost⟩ := notMem_of_nodup hn
  have hsame : ∀ part : List α, b ∉ part → c ∉ part →
      entries (replaced f b c e) part = entries f part := by
    intro part hb hc
    refine entries_congr fun x hx => ?_
    rw [replaced, if_neg (ne_of_mem_of_not_mem hx hb), if_neg (ne_of_mem_of_not_mem hx hc)]
  have hb : entries (replaced f b c e) [b] = [e] := by
    have h : replaced f b c e b = e := if_pos rfl
    rw [entries_singleton (by rwa [h]), h]
  have hc : entries (replaced f b c e) [c] = [] :=
    entries_singleton_nil (by rw [replaced, if_neg hbc.symm, if_pos rfl])
  rw [entries_append, entries_cons _ b, entries_append, entries_cons _ c, hb, hc,
    hsame pre hbpre hcpre, hsame mid hbmid hcmid, hsame post hbpost hcpost]
  rfl

theorem between_unique {mid' pre' post' : List α} (hl : l = pre ++ b :: (mid ++ c :: post))
    (hl' : l = pre' ++ b :: (mid' ++ c :: post')) (hn : l.Nodup) : mid = mid' := by
  subst hl
  obtain ⟨⟨hbpre, hbmid, hbc, hbpost⟩, -, hcmid, hcpost⟩ := notMem_of_nodup hn
  obtain ⟨-, -, hrest⟩ :=
    (List.append_cons_inj_of_notMem hbpre (by simp [hbmid, hbc, hbpost])).mp hl'
  exact ((List.append_cons_inj_of_notMem hcmid hcpost).mp hrest).1

theorem replaced_eq_self [DecidableEq α] {x : α} (hb : x ≠ b) (hc : x ≠ c) :
    replaced f b c e x = f x := by
  rw [replaced, if_neg hb, if_neg hc]

section
variable [DecidableEq α] (h : Moved a mid l l') (hl' : l' = pre ++ b :: c :: post) (hn : l'.Nodup)
  (hb : b ≠ a ∧ f b ≠ [] ∧ f b ≠ f a) (hc : c ≠ a ∧ f c ≠ [] ∧ f c ≠ f a) (he : e ≠ [] ∧ e ≠ f a)
include h hl' hn hb hc he

/-- The texts stay with one text in place of the pair exactly if they do so at the move. -/
theorem Moved.replaced_iff :
    entries (replaced f b c e) l = entries f pre ++ e :: entries f post ↔
      f a = [] ∨ ∀ x ∈ mid, replaced f b c e x = [] ∨ replaced f b c e x = f a := by
  have hl'' : l' = pre ++ b :: ([] ++ c :: post) := hl'
  have hafter : entries (replaced f b c e) l' = entries f pre ++ e :: entries f post :=
    entries_replaced he.1 hl'' hn
  rw [← hafter, h.entries_eq_iff, replaced_eq_self hb.1.symm hc.1.symm]

theorem Moved.passes_of_kept {pre' mid' post' : List α} (hl : l = pre' ++ b :: (mid' ++ c :: post'))
    (hmid : entries f mid' = [])
    (heq : entries f pre ++ e :: entries f post = entries f pre' ++ e :: entries f post') :
    f a = [] ∨ ∀ x ∈ mid, f x = [] ∨ f x = f a := by
  by_cases ha : f a = []
  · exact .inl ha
  have hnl : l.Nodup := h.perm.nodup_iff.mpr hn
  have hbefore := entries_replaced (f := f) he.1 hl hnl
  rw [hmid, List.nil_append, ← heq] at hbefore
  have hpassed := ((h.replaced_iff hl' hn hb hc he).mp hbefore).resolve_left ha
  have hbmid : b ∉ mid := by
    intro hbm
    have := hpassed b hbm
    simp only [replaced, if_true] at this
    exact this.elim he.1 he.2
  rcases h.neighbours hl' hn hb.1 hc.1 with ⟨-, -, -, hboth⟩ | ⟨pre₁, post₁, hl₁, -⟩
  · refine .inr fun x hx => ?_
    have := hpassed x hx
    rwa [replaced_eq_self (ne_of_mem_of_not_mem hx hbmid)
      (ne_of_mem_of_not_mem hx fun hcm => hbmid (hboth.mpr hcm))] at this
  · -- the element would stand between the pair, where there are no texts
    have hl₁' : l = pre₁ ++ b :: ([a] ++ c :: post₁) := hl₁
    rw [between_unique hl hl₁' hnl, entries_singleton ha] at hmid
    cases hmid

theorem Moved.kept_of_passes (hpasses : f a = [] ∨ ∀ x ∈ mid, f x = [] ∨ f x = f a) :
    ∃ pre' mid' post', l = pre' ++ b :: (mid' ++ c :: post') ∧ entries f mid' = [] ∧
      entries f pre ++ e :: entries f post = entries f pre' ++ e :: entries f post' := by
  have hnl : l.Nodup := h.perm.nodup_iff.mpr hn
  have hnone : f a ≠ [] → b ∉ mid ∧ c ∉ mid := by
    intro ha
    have hpassed := hpasses.resolve_left ha
    exact ⟨fun hm => (hpassed b hm).elim hb.2.1 hb.2.2, fun hm => (hpassed c hm).elim hc.2.1 hc.2.2⟩
  have hbefore : entries (replaced f b c e) l = entries f pre ++ e :: entries f post := by
    refine (h.replaced_iff hl' hn hb hc he).mpr ?_
    by_cases ha : f a = []
    · exact .inl ha
    · refine .inr fun x hx => ?_
      rw [replaced_eq_self (ne_of_mem_of_not_mem hx (hnone ha).1)
        (ne_of_mem_of_not_mem hx (hnone ha).2)]
      exact hpasses.resolve_left ha x hx
  rcases h.neighbours hl' hn hb.1 hc.1 with ⟨pre₁, post₁, hl, -⟩ | ⟨pre₁, post₁, hl, hone⟩
  · have hl₁ : l = pre₁ ++ b :: ([] ++ c :: post₁) := hl
    refine ⟨pre₁, [], post₁, hl₁, rfl, ?_⟩
    rw [← hbefore, entries_replaced he.1 hl₁ hnl]
    rfl
  · have ha : f a = [] := by
      by_contra ha
      exact hone.elim (hnone ha).1 (hnone ha).2
    have hl₁ : l = pre₁ ++ b :: ([a] ++ c :: post₁) := hl
    refine ⟨pre₁, [a], post₁, hl₁, entries_singleton_nil ha, ?_⟩
    rw [← hbefore, entries_replaced he.1 hl₁ hnl, entries_singleton_nil ha]
    rfl

end

/-- A move keeps the order of the texts, but for a pair made one text, exactly if the element moved
has no text or passes no text but its own. -/
theorem Moved.kept_iff (h : Moved a mid l l') (hl' : l' = pre ++ b :: c :: post) (hn : l'.Nodup)
    (hb : b ≠ a ∧ f b ≠ [] ∧ f b ≠ f a) (hc : c ≠ a ∧ f c ≠ [] ∧ f c ≠ f a)
    (he : e ≠ [] ∧ e ≠ f a) :
    (∃ pre' mid' post', l = pre' ++ b :: (mid' ++ c :: post') ∧ entries f mid' = [] ∧
        entries f pre ++ e :: entries f post = entries f pre' ++ e :: entries f post') ↔
      f a = [] ∨ ∀ x ∈ mid, f x = [] ∨ f x = f a := by
  classical
  constructor
  · rintro ⟨pre', mid', post', hl, hmid, heq⟩
    exact h.passes_of_kept hl' hn hb hc he hl hmid heq
  · exact h.kept_of_passes hl' hn hb hc he

end

end PartProgram
