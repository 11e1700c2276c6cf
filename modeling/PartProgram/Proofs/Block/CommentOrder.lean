import PartProgram.Proofs.Block.Rebuilt

/-! # Instructions behind comments

A block that is made again has its comments behind its instruction text, wherever in
the text they stood. Up to blanks that is the text itself exactly if nothing but blanks
stood outside comments behind a comment.
-/
namespace PartProgram.Comment

open Unicode

/-- A character behind this text stands outside comments. -/
def IsOutside (a : Text) (c : Char) : Prop := (split (a ++ [c])).1 = (split a).1 ++ [c]

/-- Outside comments there are only blanks behind a comment. -/
def CommentsLast (s : Text) : Prop :=
  ∀ a c b, s = a ++ c :: b → IsOutside a c → (split a).2 ≠ [] → isBlank c = true

section
variable {place : Place} {s a : Text} {c : Char}

/-- One character is passed: it stands outside comments or not, and so does what is behind it. -/
theorem scan_cons_fst (place : Place) (hc : c ≠ ';') : ∃ next passed,
    (passed = [] ∨ place = .outside ∧ c ≠ '(' ∧ passed = [c]) ∧
      ∀ s, (scan place (c :: s)).1 = passed ++ (scan next s).1 := by
  cases place with
  | outside =>
    by_cases hp : c = '('
    · exact ⟨.inside, [], .inl rfl, fun s => by simp [scan, hp, grow_fst]⟩
    · exact ⟨.outside, [c], .inr ⟨rfl, hp, rfl⟩, fun s => by simp [scan, hc, hp]⟩
  | inside =>
    by_cases hp : c = ')'
    · exact ⟨.outside, [], .inl rfl, fun s => by simp [scan, hp]⟩
    · exact ⟨.inside, [], .inl rfl, fun s => by simp [scan, hc, hp, grow_fst]⟩

theorem scan_semicolon (place : Place) (s : Text) : scan place (';' :: s) = ([], [';' :: s]) := by
  cases place <;> simp [scan]

/-- What stands outside comments does not depend on what is behind it. -/
theorem scan_isPrefix (place : Place) (s t : Text) : (scan place s).1 <+: (scan place (s ++ t)).1 := by
  induction s generalizing place with
  | nil => cases place <;> exact List.nil_prefix
  | cons c s ih =>
    by_cases hc : c = ';'
    · subst hc
      rw [scan_semicolon]
      exact List.nil_prefix
    · obtain ⟨next, passed, -, hscan⟩ := scan_cons_fst place hc
      rw [List.cons_append, hscan, hscan]
      exact (List.prefix_append_right_inj passed).mpr (ih next)

theorem exists_of_mem_scan (hc : c ∈ (scan place s).1) :
    ∃ a b, s = a ++ c :: b ∧ (scan place (a ++ [c])).1 = (scan place a).1 ++ [c] := by
  induction s generalizing place with
  | nil => cases place <;> cases hc
  | cons d s ih =>
    by_cases hd : d = ';'
    · subst hd
      rw [scan_semicolon] at hc
      cases hc
    · obtain ⟨next, passed, hpassed, hscan⟩ := scan_cons_fst place hd
      rw [hscan, List.mem_append] at hc
      rcases hc with hc | hc
      · obtain rfl | ⟨rfl, hp, rfl⟩ := hpassed
        · cases hc
        · obtain rfl := List.mem_singleton.mp hc
          exact ⟨[], s, rfl, by simp [scan, hd, hp]⟩
      · obtain ⟨a, b, rfl, hplace⟩ := ih hc
        exact ⟨d :: a, b, rfl, by rw [List.cons_append, hscan, hscan, hplace, List.append_assoc]⟩

theorem withoutBlanks_of_scan (h : Text.isBlankText (scan place s).1 = true) :
    s.withoutBlanks = Text.withoutBlanks (scan place s).2.flatten := by
  have hcons : ∀ (c : Char) (s : Text),
      Text.withoutBlanks (c :: s) = Text.withoutBlanks [c] ++ s.withoutBlanks :=
    fun c s => Text.withoutBlanks_append [c] s
  induction s generalizing place with
  | nil => cases place <;> rfl
  | cons c s ih =>
    by_cases hc : c = ';'
    · subst hc
      rw [scan_semicolon, List.flatten_singleton]
    · cases place with
      | outside =>
        simp only [scan, if_neg hc] at h ⊢
        split at h
        · rename_i hp
          rw [grow_fst] at h
          rw [if_pos hp, flatten_grow, hcons, ih h, ← hcons]
        · rename_i hp
          obtain ⟨hblank, hrest⟩ := Bool.and_eq_true_iff.mp h
          rw [if_neg hp, ← ih hrest]
          simp [Text.withoutBlanks, hblank]
      | inside =>
        simp only [scan, if_neg hc] at h ⊢
        split at h
        · rename_i hp
          rw [if_pos hp, List.flatten_cons, List.singleton_append, hcons, ih h, ← hcons]
        · rename_i hp
          rw [grow_fst] at h
          rw [if_neg hp, flatten_grow, hcons, ih h, ← hcons]

end

/-- The text is empty or opens a comment at once. -/
def Opens (t : Text) : Prop := ∀ c, t.head? = some c → c = '(' ∨ c = ';'

section
variable {i t : Text} {c : Char}

theorem exists_first_comment (s : Text) : ∃ i t, s = i ++ t ∧ IsPlain i ∧ Opens t := by
  induction s with
  | nil => exact ⟨[], [], rfl, isPlain_nil, fun c hc => by cases hc⟩
  | cons c s ih =>
    by_cases hc : c = '(' ∨ c = ';'
    · exact ⟨[], c :: s, rfl, isPlain_nil, fun d hd => Option.some.inj hd ▸ hc⟩
    · obtain ⟨i, t, rfl, hi, ht⟩ := ih
      exact ⟨c :: i, t, rfl, isPlain_cons.mpr ⟨not_or.mp hc, hi⟩, ht⟩

theorem split_plain_append (hi : IsPlain i) (t : Text) :
    split (i ++ t) = (i ++ (split t).1, (split t).2) := scan_plain hi t

theorem Opens.split_ne_nil (ht : Opens (c :: t)) : (split (c :: t)).2 ≠ [] := by
  rcases ht c rfl with rfl | rfl
  · simpa [split, scan] using grow_ne_nil '(' (scan .inside t)
  · simp [split, scan]

/-- Behind plain text the instruction characters that follow a comment are those of the rest. -/
theorem commentsLast_append_iff (hi : IsPlain i) (ht : Opens t) :
    CommentsLast (i ++ t) ↔ Text.isBlankText (split t).1 = true := by
  constructor
  · intro h
    refine List.all_eq_true.mpr fun c hc => ?_
    obtain ⟨a, b, rfl, hplace⟩ := exists_of_mem_scan hc
    refine h (i ++ a) c b (by rw [List.append_assoc]) ?_ ?_
    · rw [IsOutside, List.append_assoc, split_plain_append hi, split_plain_append hi,
        List.append_assoc]
      exact congrArg (i ++ ·) hplace
    · -- The rest opens a comment at once, so something stands before the character.
      rw [split_plain_append hi]
      cases a with
      | nil =>
        have hplain := isPlain_split ([] ++ c :: b)
        rcases ht c rfl with rfl | rfl
        · exact absurd hc hplain.parenthesis
        · exact absurd hc hplain.semicolon
      | cons d a => exact Opens.split_ne_nil fun e he => ht e he
  · intro hblank a c b hs hplace hcomment
    -- A comment that precedes the character begins behind the plain text.
    obtain ⟨a', rfl⟩ : i <+: a := by
      rcases List.append_eq_append_iff.mp hs with ⟨a', rfl, -⟩ | ⟨b', rfl, -⟩
      · exact List.prefix_append _ _
      · have hplain : IsPlain a := hi.of_isInfix (List.prefix_append _ _).isInfix
        have hsplit := split_append hplain .nil
        rw [List.flatten_nil, List.append_nil] at hsplit
        exact absurd (by rw [hsplit]) hcomment
    rw [List.append_assoc, List.append_cancel_left_eq] at hs
    rw [IsOutside, List.append_assoc, split_plain_append hi, split_plain_append hi,
      List.append_assoc, List.append_cancel_left_eq] at hplace
    have hpre := scan_isPrefix .outside (a' ++ [c]) b
    rw [List.append_assoc, List.singleton_append, ← hs] at hpre
    exact List.all_eq_true.mp hblank c (hpre.subset (by rw [← split, hplace]; simp))

end

/-- With the comments behind the instruction text it is the same text up to blanks exactly if no
instruction follows a comment. -/
theorem withoutBlanks_split_iff (s : Text) :
    (split s).1.withoutBlanks ++ Text.withoutBlanks (split s).2.flatten = s.withoutBlanks ↔
      CommentsLast s := by
  obtain ⟨i, t, rfl, hi, ht⟩ := exists_first_comment s
  rw [commentsLast_append_iff hi ht, split_plain_append hi, Text.withoutBlanks_append,
    Text.withoutBlanks_append, List.append_assoc, List.append_cancel_left_eq]
  constructor
  · intro heq
    refine by_contra fun hblank => ?_
    obtain ⟨c, rest, hc⟩ := List.exists_cons_of_ne_nil (mt Text.withoutBlanks_eq_nil.mp hblank)
    have hmem : c ∈ (split t).1 := List.mem_of_mem_filter (hc ▸ List.mem_cons_self)
    -- The instructions begin with a mark that opens a comment, which they do not hold.
    cases t with
    | nil => cases hmem
    | cons d t =>
      have hd : isBlank d = false := by rcases ht d rfl with rfl | rfl <;> decide
      have hplain := isPlain_split (d :: t)
      have hfront : Text.withoutBlanks (d :: t) = d :: Text.withoutBlanks t :=
        List.filter_cons_of_pos (by simp [hd])
      rw [hc, hfront, List.cons_append] at heq
      obtain rfl := (List.cons.inj heq).1
      rcases ht c rfl with rfl | rfl
      · exact hplain.parenthesis hmem
      · exact hplain.semicolon hmem
  · intro hblank
    rw [Text.withoutBlanks_eq_nil.mpr hblank, List.nil_append]
    exact (withoutBlanks_of_scan hblank).symm

end PartProgram.Comment
