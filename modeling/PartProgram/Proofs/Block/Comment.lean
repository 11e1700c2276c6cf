import PartProgram.Block.Comment
import PartProgram.Proofs.Block.Token

/-! # Splitting text twice

A text splits into plain text, which holds no mark that opens a comment, and into
comments of which only the last may be left open. Plain text with such comments
behind it splits into just these parts again, also when it was trimmed.
-/
namespace PartProgram.Comment

open Unicode

structure IsPlain (s : Text) : Prop where
  parenthesis : '(' ∉ s
  semicolon : ';' ∉ s

theorem isPlain_nil : IsPlain [] := ⟨by simp, by simp⟩

theorem isPlain_cons {c : Char} {s : Text} :
    IsPlain (c :: s) ↔ (c ≠ '(' ∧ c ≠ ';') ∧ IsPlain s := by
  constructor
  · rintro ⟨hp, hs⟩
    simp only [List.mem_cons, not_or] at hp hs
    exact ⟨⟨fun h => hp.1 h.symm, fun h => hs.1 h.symm⟩, hp.2, hs.2⟩
  · rintro ⟨⟨hp, hs⟩, hs'⟩
    refine ⟨?_, ?_⟩ <;> simp only [List.mem_cons, not_or]
    · exact ⟨fun h => hp h.symm, hs'.parenthesis⟩
    · exact ⟨fun h => hs h.symm, hs'.semicolon⟩

theorem IsPlain.append {s t : Text} (hs : IsPlain s) (ht : IsPlain t) : IsPlain (s ++ t) :=
  ⟨by simp [hs.parenthesis, ht.parenthesis], by simp [hs.semicolon, ht.semicolon]⟩

theorem IsPlain.of_isInfix {s t : Text} (ht : IsPlain t) (h : s <:+: t) : IsPlain s :=
  ⟨fun hc => ht.parenthesis (h.subset hc), fun hc => ht.semicolon (h.subset hc)⟩

/-- Ended by the first closing parenthesis, before any semicolon. -/
def IsClosed (c : Text) : Prop := ∃ m, c = '(' :: m ++ [')'] ∧ ')' ∉ m ∧ ';' ∉ m

/-- The rest of a comment that nothing ends: no closing parenthesis before the first semicolon. -/
def RunsOn (m : Text) : Prop := ')' ∉ m.takeWhile (· ≠ ';')

def IsOpen (c : Text) : Prop := (∃ m, c = ';' :: m) ∨ ∃ m, c = '(' :: m ∧ RunsOn m

/-- Comments, of which only the last may be open. -/
inductive IsSegments : List Text → Prop where
  | nil : IsSegments []
  | last {c : Text} : IsOpen c → IsSegments [c]
  | cons {c : Text} {rest : List Text} : IsClosed c → IsSegments rest → IsSegments (c :: rest)

theorem grow_fst (c : Char) (found : Text × List Text) : (grow c found).1 = found.1 := by
  unfold grow
  split <;> rfl

theorem flatten_grow (c : Char) (found : Text × List Text) :
    (grow c found).2.flatten = c :: found.2.flatten := by
  unfold grow
  split <;> rfl

/-- What a scan that begins inside a comment finds: the rest of that comment, and what is behind. -/
def IsRest (found : Text × List Text) : Prop :=
  (∃ m rest, found.2 = (m ++ [')']) :: rest ∧ (')' ∉ m ∧ ';' ∉ m) ∧ IsPlain found.1 ∧
    IsSegments rest) ∨
  ∃ m, found = ([], [m]) ∧ RunsOn m

theorem runsOn_cons {c : Char} {m : Text} (hc : c ≠ ')') (h : RunsOn m) : RunsOn (c :: m) := by
  unfold RunsOn at *
  rw [List.takeWhile_cons]
  split
  · exact fun hm => (List.mem_cons.mp hm).elim (fun he => hc he.symm) h
  · simp

theorem RunsOn.of_isPrefix {m n : Text} (h : RunsOn n) (hp : m <+: n) : RunsOn m := by
  induction m generalizing n with
  | nil => simp [RunsOn]
  | cons c m ih =>
    obtain ⟨rest, rfl⟩ := hp
    unfold RunsOn at *
    rw [List.cons_append, List.takeWhile_cons] at h
    rw [List.takeWhile_cons]
    split
    · rename_i hc
      rw [if_pos hc] at h
      simp only [List.mem_cons, not_or] at h ⊢
      exact ⟨h.1, ih h.2 (List.prefix_append _ _)⟩
    · simp

theorem isRest_grow {c : Char} {found : Text × List Text} (h : IsRest found) (hc : c ≠ ')')
    (hs : c ≠ ';') : IsRest (grow c found) := by
  obtain ⟨plain, comments⟩ := found
  rcases h with ⟨m, rest, hm, hn, hp, hrest⟩ | ⟨m, hm, hn⟩
  · cases hm
    refine Or.inl ⟨c :: m, rest, rfl, ?_, hp, hrest⟩
    simp only [List.mem_cons, not_or]
    exact ⟨⟨hc.symm, hn.1⟩, hs.symm, hn.2⟩
  · cases hm
    exact Or.inr ⟨c :: m, rfl, runsOn_cons hc hn⟩

theorem isSegments_grow {found : Text × List Text} (h : IsRest found) :
    IsPlain (grow '(' found).1 ∧ IsSegments (grow '(' found).2 := by
  obtain ⟨plain, comments⟩ := found
  rcases h with ⟨m, rest, hm, hn, hp, hrest⟩ | ⟨m, hm, hn⟩
  · cases hm
    exact ⟨hp, .cons ⟨m, rfl, hn⟩ hrest⟩
  · cases hm
    exact ⟨isPlain_nil, .last (Or.inr ⟨m, rfl, hn⟩)⟩

theorem scan_found (s : Text) :
    (IsPlain (scan .outside s).1 ∧ IsSegments (scan .outside s).2) ∧ IsRest (scan .inside s) := by
  induction s with
  | nil => exact ⟨⟨isPlain_nil, .nil⟩, Or.inr ⟨[], rfl, by simp [RunsOn]⟩⟩
  | cons c s ih =>
    obtain ⟨⟨hplain, hsegments⟩, hrest⟩ := ih
    by_cases hs : c = ';'
    · subst hs
      exact ⟨⟨isPlain_nil, .last (Or.inl ⟨s, rfl⟩)⟩, Or.inr ⟨';' :: s, rfl, by simp [RunsOn]⟩⟩
    · constructor
      · simp only [scan, if_neg hs]
        by_cases hp : c = '('
        · subst hp
          exact isSegments_grow hrest
        · rw [if_neg hp]
          exact ⟨isPlain_cons.mpr ⟨⟨hp, hs⟩, hplain⟩, hsegments⟩
      · simp only [scan, if_neg hs]
        by_cases hp : c = ')'
        · subst hp
          exact Or.inl ⟨[], _, rfl, ⟨by simp, by simp⟩, hplain, hsegments⟩
        · rw [if_neg hp]
          exact isRest_grow hrest hp hs

theorem isPlain_split (s : Text) : IsPlain (split s).1 := (scan_found s).1.1

theorem isSegments_split (s : Text) : IsSegments (split s).2 := (scan_found s).1.2

theorem scan_inside_of_runsOn {m : Text} (h : RunsOn m) : scan .inside m = ([], [m]) := by
  induction m with
  | nil => rfl
  | cons c m ih =>
    by_cases hs : c = ';'
    · subst hs
      rfl
    · have hc : c ≠ ')' ∧ RunsOn m := by
        unfold RunsOn at h
        rw [List.takeWhile_cons, if_pos (by simpa using hs)] at h
        exact ⟨fun he => h (by simp [he]), fun hm => h (List.mem_cons_of_mem _ hm)⟩
      simp only [scan, if_neg hs, if_neg hc.1, ih hc.2]
      rfl

theorem scan_inside_append {m rest : Text} (hc : ')' ∉ m) (hs : ';' ∉ m) :
    scan .inside (m ++ ')' :: rest) =
      ((scan .outside rest).1, (m ++ [')']) :: (scan .outside rest).2) := by
  induction m with
  | nil => simp [scan]
  | cons c m ih =>
    simp only [List.mem_cons, not_or] at hc hs
    rw [List.cons_append, scan, if_neg (Ne.symm hs.1)]
    simp only [if_neg (Ne.symm hc.1), ih hc.2 hs.2]
    rfl

theorem scan_flatten {cs : List Text} (h : IsSegments cs) : scan .outside cs.flatten = ([], cs) := by
  induction h with
  | nil => rfl
  | last ho =>
    rcases ho with ⟨m, rfl⟩ | ⟨m, rfl, hm⟩
    · simp [scan]
    · simp [scan, scan_inside_of_runsOn hm, grow]
  | cons hc _ ih =>
    obtain ⟨m, rfl, hp, hs⟩ := hc
    rw [List.flatten_cons, List.append_assoc, List.cons_append, scan, if_neg (by decide)]
    simp only [if_true, List.singleton_append, scan_inside_append hp hs, ih]
    rfl

theorem scan_plain {s : Text} (hs : IsPlain s) (rest : Text) :
    scan .outside (s ++ rest) = (s ++ (scan .outside rest).1, (scan .outside rest).2) := by
  induction s with
  | nil => rfl
  | cons c s ih =>
    obtain ⟨⟨hp, hc⟩, hs⟩ := isPlain_cons.mp hs
    rw [List.cons_append, scan, if_neg hc]
    simp only [if_neg hp, ih hs]
    rfl

/-- Plain text with comments behind it is split into just these. -/
theorem split_append {s : Text} {cs : List Text} (hs : IsPlain s) (hcs : IsSegments cs) :
    split (s ++ cs.flatten) = (s, cs) := by
  rw [split, scan_plain hs, scan_flatten hcs, List.append_nil]

/-- The comments with the blanks behind the last one taken off. -/
def trimLast : List Text → List Text
  | [] => []
  | [c] => [c.trimRight]
  | c :: d :: rest => c :: trimLast (d :: rest)

theorem isBlank_parenthesis : isBlank '(' = false := by decide

theorem isBlank_semicolon : isBlank ';' = false := by decide

theorem isBlank_closing : isBlank ')' = false := by decide

theorem IsClosed.trimRight {c : Text} (h : IsClosed c) : c.trimRight = c := by
  obtain ⟨m, rfl, -⟩ := h
  exact Text.trimRight_concat isBlank_closing _

theorem IsOpen.trimRight {c : Text} (h : IsOpen c) : IsOpen c.trimRight := by
  rcases h with ⟨m, rfl⟩ | ⟨m, rfl, hm⟩
  · exact Or.inl ⟨Text.trimRight m, Text.trimRight_cons isBlank_semicolon m⟩
  · refine Or.inr ⟨Text.trimRight m, Text.trimRight_cons isBlank_parenthesis m, ?_⟩
    exact hm.of_isPrefix (Text.trimRight_isPrefix m)

theorem IsSegments.trimLast {cs : List Text} (h : IsSegments cs) : IsSegments (trimLast cs) := by
  induction h with
  | nil => exact .nil
  | last ho => exact .last ho.trimRight
  | @cons c rest hc hrest ih =>
    cases rest with
    | nil =>
      change IsSegments [c.trimRight]
      rw [hc.trimRight]
      exact .cons hc .nil
    | cons d rest => exact .cons hc ih

theorem trimLast_trimLast (cs : List Text) : trimLast (trimLast cs) = trimLast cs := by
  induction cs with
  | nil => rfl
  | cons c rest ih =>
    cases rest with
    | nil => simp [trimLast, Text.trimRight_trimRight]
    | cons d rest =>
      cases rest <;> simpa [trimLast] using ih

theorem trimLast_eq_nil {cs : List Text} : trimLast cs = [] ↔ cs = [] := by
  cases cs with
  | nil => simp [trimLast]
  | cons c rest => cases rest <;> simp [trimLast]

theorem IsSegments.flatten_eq_cons {cs : List Text} (h : IsSegments cs) (hne : cs ≠ []) :
    ∃ c m, isBlank c = false ∧ cs.flatten = c :: m := by
  cases h with
  | nil => exact absurd rfl hne
  | last ho =>
    rcases ho with ⟨m, rfl⟩ | ⟨m, rfl, -⟩
    · exact ⟨';', m, isBlank_semicolon, by simp⟩
    · exact ⟨'(', m, isBlank_parenthesis, by simp⟩
  | @cons _ rest hc _ =>
    obtain ⟨m, rfl, -⟩ := hc
    exact ⟨'(', m ++ [')'] ++ rest.flatten, isBlank_parenthesis, by simp⟩

theorem IsSegments.flatten_trimLast {cs : List Text} (h : IsSegments cs) :
    (Comment.trimLast cs).flatten = Text.trimRight cs.flatten := by
  induction h with
  | nil => rfl
  | last ho => simp [Comment.trimLast]
  | @cons c rest hc hrest ih =>
    cases rest with
    | nil => simp [Comment.trimLast]
    | cons d rest =>
      obtain ⟨e, m, he, hm⟩ := hrest.flatten_eq_cons (by simp)
      rw [Comment.trimLast, List.flatten_cons, ih, show (c :: d :: rest).flatten =
        c ++ (d :: rest).flatten from rfl, Text.trimRight_append, hm]
      simp [he]

/-- What is left of the plain text before comments when the whole is trimmed. -/
def trimPlain (s : Text) (cs : List Text) : Text := if cs.isEmpty then s.trim else s.trimLeft

theorem trim_append_flatten {cs : List Text} (h : IsSegments cs) (s : Text) :
    (s ++ cs.flatten).trim = trimPlain s cs ++ (trimLast cs).flatten := by
  cases cs with
  | nil => simp [trimPlain, trimLast]
  | cons c rest =>
    obtain ⟨d, m, hd, hm⟩ := h.flatten_eq_cons (by simp)
    rw [h.flatten_trimLast, hm, Text.trim_append hd]
    simp [trimPlain]

theorem trimPlain_isInfix (s : Text) (cs : List Text) : trimPlain s cs <:+: s := by
  unfold trimPlain
  split
  · exact Text.trim_isInfix s
  · exact (Text.trimLeft_isSuffix s).isInfix

theorem trim_trimPlain (s : Text) (cs : List Text) : (trimPlain s cs).trim = s.trim := by
  unfold trimPlain
  split
  · exact Text.trim_trim s
  · exact Text.trim_trimLeft s

theorem tokens_trimPlain (s : Text) (cs : List Text) :
    Token.tokens (trimPlain s cs) = Token.tokens s := by
  unfold trimPlain
  split
  · exact Token.tokens_trim s
  · exact Token.tokens_trimLeft s

/-- Trimming takes blanks off the ends of the parts and moves nothing between them. -/
theorem split_trim {s : Text} {cs : List Text} (hs : IsPlain s) (hcs : IsSegments cs) :
    split (s ++ cs.flatten).trim = (trimPlain s cs, trimLast cs) := by
  rw [trim_append_flatten hcs]
  exact split_append (hs.of_isInfix (trimPlain_isInfix s cs)) hcs.trimLast

theorem trim_append_trimLast {cs : List Text} (h : IsSegments cs) (s : Text) :
    (s ++ (trimLast cs).flatten).trim = (s ++ cs.flatten).trim := by
  rw [trim_append_flatten h, trim_append_flatten h.trimLast, trimLast_trimLast]
  simp only [trimPlain, List.isEmpty_iff, trimLast_eq_nil]

end PartProgram.Comment
