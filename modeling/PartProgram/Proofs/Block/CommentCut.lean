import PartProgram.Proofs.Block.CommentOrder

/-! # What the split is, without the scan

A text can be cut into plain pieces with comments between them in one way only, if all
comments are closed but one that runs to the end. The split is that cut.
-/
namespace PartProgram.Comment

/-- Plain pieces, each with the comment behind it, and the plain rest. A comment that is not closed
has nothing behind it. -/
structure Cut where
  pieces : List (Text × Text)
  rest : Text
  isPlain_piece : ∀ x ∈ pieces, IsPlain x.1
  isPlain_rest : IsPlain rest
  comment : ∀ front x back, pieces = front ++ x :: back →
    IsClosed x.2 ∨ IsOpen x.2 ∧ back = [] ∧ rest = []

namespace Cut

def text (cut : Cut) : Text := cut.pieces.flatMap (fun x => x.1 ++ x.2) ++ cut.rest

def plain (cut : Cut) : Text := cut.pieces.flatMap Prod.fst ++ cut.rest

def comments (cut : Cut) : List Text := cut.pieces.map Prod.snd

variable {i c : Text}

def ofPlain (hi : IsPlain i) : Cut where
  pieces := []
  rest := i
  isPlain_piece := by simp
  isPlain_rest := hi
  comment := by simp

def ofOpen (hi : IsPlain i) (hc : IsOpen c) : Cut where
  pieces := [(i, c)]
  rest := []
  isPlain_piece := by simpa using hi
  isPlain_rest := isPlain_nil
  comment := by
    intro front x back h
    obtain ⟨rfl, h⟩ | ⟨front, rfl, h⟩ := List.cons_eq_append_iff.mp h
    · obtain ⟨rfl, rfl⟩ := List.cons.inj h
      exact .inr ⟨hc, rfl, rfl⟩
    · simp at h

/-- A piece with a closed comment in front of a cut. -/
def cons (hi : IsPlain i) (hc : IsClosed c) (cut : Cut) : Cut where
  pieces := (i, c) :: cut.pieces
  rest := cut.rest
  isPlain_piece := List.forall_mem_cons.mpr ⟨hi, cut.isPlain_piece⟩
  isPlain_rest := cut.isPlain_rest
  comment := by
    intro front x back h
    obtain ⟨rfl, h⟩ | ⟨front, rfl, h⟩ := List.cons_eq_append_iff.mp h
    · obtain ⟨rfl, -⟩ := List.cons.inj h
      exact .inl hc
    · exact cut.comment front x back (List.cons.inj h).2

theorem split_text (cut : Cut) : split cut.text = (cut.plain, cut.comments) := by
  obtain ⟨pieces, rest, hplain, hrest, hcomment⟩ := cut
  simp only [text, plain, comments]
  -- Behind the first comment stands a shorter cut, unless it is open; then nothing does.
  induction pieces with
  | nil => simpa using split_append hrest .nil
  | cons x pieces ih =>
    obtain ⟨hx, hplain⟩ := List.forall_mem_cons.mp hplain
    have hsplit := ih hplain fun front y back h => hcomment (x :: front) y back (by rw [h]; rfl)
    rw [List.flatMap_cons, List.append_assoc, List.append_assoc, split_plain_append hx]
    rcases hcomment [] x pieces rfl with hc | ⟨ho, rfl, rfl⟩
    · have hall : ∀ c ∈ [x.2], IsClosed c := by simpa using hc
      have hclosed := scan_closed hall (pieces.flatMap (fun y => y.1 ++ y.2) ++ rest)
      rw [List.flatten_singleton, ← split, ← split, hsplit] at hclosed
      simp [hclosed]
    · have hopen := scan_flatten (.last ho)
      rw [List.flatten_singleton] at hopen
      simp [split, hopen]

theorem exists_of_not_runsOn {m : Text} (h : ¬ RunsOn m) :
    ∃ a b, m = a ++ ')' :: b ∧ ')' ∉ a ∧ ';' ∉ a := by
  induction m with
  | nil => exact absurd (by simp [RunsOn]) h
  | cons d m ih =>
    obtain ⟨hsemicolon, hrest⟩ := not_or.mp (mt runsOn_cons_iff.mpr h)
    by_cases hd : d = ')'
    · exact ⟨[], m, by rw [hd]; rfl, by simp, by simp⟩
    · obtain ⟨a, b, rfl, ha, ha'⟩ := ih fun hm => hrest ⟨hd, hm⟩
      exact ⟨d :: a, b, rfl, by simp [ha, Ne.symm hd], by simp [ha', Ne.symm hsemicolon]⟩

/-- Every text has a cut. -/
theorem exists_text (s : Text) : ∃ cut : Cut, cut.text = s := by
  -- What is left behind a closed comment is shorter, but no tail of the list the induction sees.
  induction h : s.length using Nat.strong_induction_on generalizing s with
  | _ n ih =>
    obtain ⟨i, t, rfl, hi, ht⟩ := exists_first_comment s
    cases t with
    | nil => exact ⟨ofPlain hi, by simp [text, ofPlain]⟩
    | cons d m =>
      obtain rfl | rfl := ht d rfl
      · by_cases hm : RunsOn m
        · exact ⟨ofOpen hi (.inr ⟨m, rfl, hm⟩), by simp [text, ofOpen]⟩
        · obtain ⟨a, b, rfl, ha, ha'⟩ := exists_of_not_runsOn hm
          obtain ⟨cut, hcut⟩ := ih b.length (by rw [← h]; simp; omega) b rfl
          refine ⟨cons hi ⟨a, rfl, ha, ha'⟩ cut, ?_⟩
          rw [← hcut]
          simp [text, cons]
      · exact ⟨ofOpen hi (.inl ⟨m, rfl⟩), by simp [text, ofOpen]⟩

theorem mem_text (cut : Cut) (a : Char) :
    a ∈ cut.text ↔ a ∈ cut.plain ∨ a ∈ cut.comments.flatten := by
  simp only [text, plain, comments, ← List.flatMap_def, List.mem_append, List.mem_flatMap,
    and_or_left, exists_or]
  exact or_right_comm

end Cut

theorem mem_split_iff {s : Text} {a : Char} : a ∈ s ↔ a ∈ (split s).1 ∨ a ∈ (split s).2.flatten := by
  obtain ⟨cut, rfl⟩ := Cut.exists_text s
  rw [cut.split_text]
  exact cut.mem_text a

/-- The split of a text is its one cut, and splitting the parts it is made of changes nothing. -/
theorem split_exact (s : Text) :
    (∀ plain cs, split s = (plain, cs) ↔
      ∃ cut : Cut, cut.text = s ∧ cut.plain = plain ∧ cut.comments = cs) ∧
    split (split s).1 = ((split s).1, []) ∧
    split (split s).2.flatten = ([], (split s).2) ∧
    ∀ t, IsPlain t → split (t ++ (split s).2.flatten) = (t, (split s).2) := by
  refine ⟨fun plain cs => ⟨fun h => ?_, ?_⟩, ?_, scan_flatten (isSegments_split s), fun t ht => ?_⟩
  · obtain ⟨cut, rfl⟩ := Cut.exists_text s
    exact ⟨cut, rfl, Prod.mk.inj (cut.split_text.symm.trans h)⟩
  · rintro ⟨cut, rfl, rfl, rfl⟩
    exact cut.split_text
  · simpa using split_append (isPlain_split s) .nil
  · exact split_append ht (isSegments_split s)

theorem split_exact_sample :
    split "G0 (A;B) X1;(C".toList = ("G0 ".toList, ["(A;B) X1;(C".toList]) ∧
      IsPlain "X2".toList ∧
      split ("X2".toList ++ (split "G0 (A) X1;(C".toList).2.flatten) =
        ("X2".toList, ["(A)".toList, ";(C".toList]) := by
  have hplain : IsPlain "X2".toList := ⟨by decide, by decide⟩
  obtain ⟨-, -, -, hsplit⟩ := split_exact "G0 (A) X1;(C".toList
  exact ⟨by decide +kernel, hplain, (hsplit _ hplain).trans (by decide +kernel)⟩

end PartProgram.Comment
