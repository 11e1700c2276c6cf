import PartProgram.Proofs.Block.Token

/-! # What the tokens are, without the scan

A text is cut at its blanks and before its letters. This leaves one list of tokens, which
is the one that the scan finds, and it is found again wherever a single blank stands
between the tokens.
-/
namespace PartProgram

open Unicode Text

namespace Token

variable {s t : Text} {ts : List Text}

/-- The text is cut into the tokens: nothing but blanks stands between them, and each ends at a
blank, before a letter or with the text. -/
inductive Cuts : Text → List Text → Prop
  | blank {g : Text} (hg : isBlankText g = true) : Cuts g []
  | token {g t s : Text} {ts : List Text} (hg : isBlankText g = true) (ht : IsToken t)
    (hs : Breaks s) (h : Cuts s ts) : Cuts (g ++ t ++ s) (t :: ts)

theorem Cuts.tokens_eq (h : Cuts s ts) : tokens s = ts := by
  induction h with
  | blank hg => exact tokens_of_isBlankText hg
  | token hg ht hs _ ih =>
    rw [List.append_assoc, tokens_blanks_append hg, tokens_append _ hs, ht.tokens_eq, ih]
    rfl

theorem isToken_singleton {c : Char} (h : isBlank c = false) : IsToken [c] :=
  ⟨by simp, by simpa using h, by simp⟩

theorem IsToken.cons {c d : Char} (h : IsToken (d :: t)) (hc : isBlank c = false)
    (hd : isLetter d = false) : IsToken (c :: d :: t) :=
  ⟨by simp, List.forall_mem_cons.mpr ⟨hc, h.solid⟩, List.forall_mem_cons.mpr ⟨hd, h.tail⟩⟩

/-- One more character in front is a blank, or a token of its own, or goes before the first token. -/
theorem Cuts.exists_cons (h : Cuts s ts) (c : Char) : ∃ us, Cuts (c :: s) us := by
  cases hc : isBlank c with
  | true =>
    cases h with
    | blank hg => exact ⟨[], .blank (by simp [hc, hg])⟩
    | token hg ht hs h =>
      exact ⟨_, .token (g := c :: _) (by simp [hc, hg]) ht hs h⟩
  | false =>
    by_cases hbreaks : Breaks s
    · exact ⟨_, .token (g := []) rfl (isToken_singleton hc) hbreaks h⟩
    · cases h with
      | blank hg => exact absurd (breaks_of_isBlankText hg) hbreaks
      | @token g t s ts hg ht hs h =>
        cases g with
        | nil =>
          obtain ⟨d, t, rfl⟩ := List.exists_cons_of_ne_nil ht.ne_nil
          have hd : isLetter d = false :=
            Bool.eq_false_iff.mpr fun hd => hbreaks (breaks_cons.mpr (.inr hd))
          exact ⟨_, .token (g := []) rfl (ht.cons hc hd) hs h⟩
        | cons e g =>
          exact absurd (breaks_cons.mpr (.inl (Bool.and_eq_true_iff.mp hg).1)) hbreaks

theorem tokens_eq_iff : tokens s = ts ↔ Cuts s ts := by
  refine ⟨?_, Cuts.tokens_eq⟩
  rintro rfl
  have hexists : ∃ us, Cuts s us := by
    induction s with
    | nil => exact ⟨[], .blank rfl⟩
    | cons c s ih =>
      obtain ⟨us, hus⟩ := ih
      exact hus.exists_cons c
  obtain ⟨us, hus⟩ := hexists
  rwa [hus.tokens_eq]

/-- The text before a token holds the tokens before it, and the text behind it those behind it. If
no letter begins the token, it begins the text or a blank stands before it. -/
theorem Cuts.place {before after : List Text} (h : Cuts s (before ++ t :: after)) :
    IsToken t ∧ ∃ u v, s = u ++ t ++ v ∧ Cuts u before ∧ Cuts v after ∧
      (t.head?.any isLetter = false → u = [] ∨ u.getLast?.any isBlank = true) := by
  induction before generalizing s with
  | nil =>
    cases h with
    | @token g _ v _ hg ht _ h =>
      refine ⟨ht, g, v, rfl, .blank hg, h, fun _ => ?_⟩
      cases hlast : g.getLast? with
      | none => exact .inl (List.getLast?_eq_none_iff.mp hlast)
      | some c => exact .inr (List.all_eq_true.mp hg c (List.mem_of_getLast? hlast))
  | cons b before ih =>
    cases h with
    | @token g _ s _ hg hb hs h =>
      obtain ⟨ht, u, v, rfl, hu, hv, hbegins⟩ := ih h
      have hbreaks : Breaks u := hs.of_isPrefix (by simp)
      refine ⟨ht, g ++ b ++ u, v, by simp, .token hg hb hbreaks hu, hv, fun hplain => .inr ?_⟩
      rcases hbegins hplain with rfl | hlast
      · -- The token before goes on into a token that neither a letter nor a blank sets apart.
        obtain ⟨d, r, rfl⟩ := List.exists_cons_of_ne_nil ht.ne_nil
        rcases breaks_cons.mp hs with hblank | hletter
        · exact absurd hblank (by simp [ht.solid d List.mem_cons_self])
        · exact absurd hletter (by simpa using hplain)
      · have hne : u ≠ [] := by
          rintro rfl
          cases hlast
        rwa [List.getLast?_append_of_ne_nil _ hne]

theorem tokens_intercalate (h : ∀ t ∈ ts, IsToken t) : tokens ([' '].intercalate ts) = ts := by
  induction ts with
  | nil => rfl
  | cons t ts ih =>
    obtain ⟨ht, hts⟩ := List.forall_mem_cons.mp h
    cases ts with
    | nil => simpa using ht.tokens_eq
    | cons u ts =>
      rw [List.intercalate_cons_cons, List.append_assoc, List.singleton_append, ht.tokens_append,
        ih hts]

end Token

theorem Anomaly.map_character_ofTokens (atEnd : Bool) (ts : List Text) :
    (ofTokens atEnd ts).map (fun a => [a.character]) = ts.filter (·.length = 1) := by
  have one (b : Bool) (t : Text) :
      (ofToken b t).toList.map (fun a => [a.character]) = [t].filter (·.length = 1) := by
    match t with
    | [] => rfl
    | [c] => rfl
    | c :: d :: rest => simp [ofToken]
  induction ts with
  | nil => rfl
  | cons t rest ih =>
    cases rest with
    | nil => exact one atEnd t
    | cons u rest =>
      have htail : ofTokens atEnd (t :: u :: rest) =
          (ofToken false t).toList ++ ofTokens atEnd (u :: rest) := rfl
      rw [htail, List.map_append, one, ih, ← List.filter_append, List.singleton_append]

namespace Token

/-- The tokens of a text are those it is cut into at blanks and before letters, and no others. They
are the text without its blanks, each in its place; no letter stands in one but at its beginning,
and one that begins with none begins the text or follows a blank. With single blanks between them
they are found again. There is an anomaly for each token of one character, in their order. -/
theorem tokens_exact (s : Text) :
    (∀ ts, tokens s = ts ↔ Cuts s ts) ∧
      (tokens s).flatten = s.withoutBlanks ∧
      (∀ before t after, tokens s = before ++ t :: after →
        IsToken t ∧ ∃ u v, s = u ++ t ++ v ∧ tokens u = before ∧ tokens v = after ∧
          (t.head?.any isLetter = false → u = [] ∨ u.getLast?.any isBlank = true)) ∧
      tokens ([' '].intercalate (tokens s)) = tokens s ∧
      tokens ([' '].intercalate (tokens s) ++ [' ']) = tokens s ∧
      (Anomaly.find s).length = (tokens s).countP (·.length = 1) ∧
      (Anomaly.find s).map (fun a => [a.character]) = (tokens s).filter (·.length = 1) := by
  have hjoined : tokens ([' '].intercalate (tokens s)) = tokens s :=
    tokens_intercalate fun _ => isToken_of_mem_tokens
  refine ⟨fun _ => tokens_eq_iff, flatten_tokens s, fun before t after h => ?_, hjoined, ?_,
    Anomaly.length_ofTokens _ _, Anomaly.map_character_ofTokens _ _⟩
  · obtain ⟨ht, u, v, hs, hu, hv, hbegins⟩ := (tokens_eq_iff.mp h).place
    exact ⟨ht, u, v, hs, hu.tokens_eq, hv.tokens_eq, hbegins⟩
  · rw [tokens_concat_of_blank isBlank_space, hjoined]

theorem tokens_exact_sample :
    tokens "1G0M 2é ".toList = ["1", "G0", "M"].map String.toList ++ ['2'] :: [['é']] ∧
      (['2'].head?.any isLetter = false ∧
        IsToken ['2'] ∧ ∃ u v, "1G0M 2é ".toList = u ++ ['2'] ++ v ∧
          tokens u = ["1", "G0", "M"].map String.toList ∧ tokens v = [['é']] ∧
            (u = [] ∨ u.getLast?.any isBlank = true)) := by
  have hcut : tokens "1G0M 2é ".toList = ["1", "G0", "M"].map String.toList ++ ['2'] :: [['é']] := by
    decide +kernel
  have hplain : ['2'].head?.any isLetter = false := by decide
  obtain ⟨ht, u, v, hs, hu, hv, hbegins⟩ := (tokens_exact "1G0M 2é ".toList).2.2.1 _ _ _ hcut
  exact ⟨hcut, hplain, ht, u, v, hs, hu, hv, hbegins hplain⟩

end Token

end PartProgram
