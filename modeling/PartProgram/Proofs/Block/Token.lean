import PartProgram.Block.Token
import PartProgram.Proofs.Number.Integer
import PartProgram.Proofs.Text.Parts

/-! # Cutting text twice

Tokens written with a blank behind each of them are cut into the same tokens again,
and no meta command arises where they meet.
-/
namespace PartProgram

open Unicode

theorem isBlank_space : isBlank ' ' = true := by decide

namespace Token

/-- Not empty, without blanks, and with no letter behind the first character. -/
structure IsToken (t : Text) : Prop where
  ne_nil : t ≠ []
  solid : ∀ c ∈ t, isBlank c = false
  tail : ∀ c ∈ t.tail, isLetter c = false

namespace Scan

def ofText (s : Text) : Scan := s.foldr step ⟨[], []⟩

theorem ofText_cons (c : Char) (s : Text) : ofText (c :: s) = (ofText s).step c := rfl

/-- The token under way goes on, and the tokens behind it are complete. -/
structure IsSound (scan : Scan) : Prop where
  solid : ∀ c ∈ scan.current, isBlank c = false
  plain : ∀ c ∈ scan.current, isLetter c = false
  behind : ∀ t ∈ scan.behind, IsToken t

theorem IsSound.close {scan : Scan} (h : scan.IsSound) : ∀ t ∈ scan.close, IsToken t := by
  intro t ht
  unfold Scan.close at ht
  split at ht
  · exact h.behind t ht
  · rename_i hc
    rcases List.mem_cons.mp ht with rfl | ht
    · exact ⟨by simpa using hc, h.solid, fun c hc => h.plain c (List.mem_of_mem_tail hc)⟩
    · exact h.behind t ht

theorem IsSound.step {scan : Scan} (h : scan.IsSound) (c : Char) : (scan.step c).IsSound := by
  unfold Scan.step
  split
  · exact ⟨by simp, by simp, h.close⟩
  · rename_i hb
    have hb' : isBlank c = false := by simpa using hb
    split
    · refine ⟨by simp, by simp, ?_⟩
      intro t ht
      rcases List.mem_cons.mp ht with rfl | ht
      · refine ⟨by simp, ?_, h.plain⟩
        intro d hd
        rcases List.mem_cons.mp hd with rfl | hd
        · exact hb'
        · exact h.solid d hd
      · exact h.behind t ht
    · rename_i hl
      refine ⟨?_, ?_, h.behind⟩
      · intro d hd
        rcases List.mem_cons.mp hd with rfl | hd
        · exact hb'
        · exact h.solid d hd
      · intro d hd
        rcases List.mem_cons.mp hd with rfl | hd
        · simpa using hl
        · exact h.plain d hd

theorem isSound_ofText (s : Text) : (ofText s).IsSound := by
  induction s with
  | nil => exact ⟨by simp [ofText], by simp [ofText], by simp [ofText]⟩
  | cons c s ih => exact ih.step c

end Scan

theorem tokens_eq_close (s : Text) : tokens s = (Scan.ofText s).close := rfl

theorem isToken_of_mem_tokens {s t : Text} (h : t ∈ tokens s) : IsToken t :=
  (Scan.isSound_ofText s).close t h

/-- No token goes on into this text: it is empty, or a blank or a letter begins it. -/
def Breaks (s : Text) : Prop := ∀ c ∈ s.head?, isBlank c = true ∨ isLetter c = true

theorem breaks_cons {c : Char} {s : Text} :
    Breaks (c :: s) ↔ isBlank c = true ∨ isLetter c = true := by simp [Breaks]

theorem breaks_of_isBlankText {g : Text} (h : Text.isBlankText g = true) : Breaks g :=
  fun c hc => .inl (List.all_eq_true.mp h c (List.mem_of_mem_head? hc))

theorem Breaks.of_isPrefix {s t : Text} (h : Breaks t) (hp : s <+: t) : Breaks s := by
  obtain ⟨u, rfl⟩ := hp
  cases s with
  | nil => simp [Breaks]
  | cons c s => exact h

namespace Scan

theorem close_append (scan : Scan) (behind : List Text) :
    close ⟨scan.current, scan.behind ++ behind⟩ = scan.close ++ behind := by
  unfold close
  dsimp only
  split <;> rfl

/-- The scan does not look at the tokens found before. -/
theorem foldr_step_behind (u : Text) (behind : List Text) :
    u.foldr step ⟨[], behind⟩ = ⟨(ofText u).current, (ofText u).behind ++ behind⟩ := by
  induction u with
  | nil => rfl
  | cons c u ih =>
    rw [List.foldr_cons, ih, ofText_cons, step, step, close_append]
    split
    · rfl
    · split <;> rfl

theorem ofText_of_breaks {s : Text} (h : Breaks s) : ofText s = ⟨[], tokens s⟩ := by
  cases s with
  | nil => rfl
  | cons c s =>
    rw [tokens_eq_close, ofText_cons, step]
    split
    · rfl
    · rename_i hblank
      rw [if_pos ((breaks_cons.mp h).resolve_left hblank)]
      rfl

end Scan

theorem tokens_append {s : Text} (u : Text) (h : Breaks s) :
    tokens (u ++ s) = tokens u ++ tokens s := by
  have hs : s.foldr Scan.step ⟨[], []⟩ = ⟨[], tokens s⟩ := Scan.ofText_of_breaks h
  rw [tokens, List.foldr_append, hs, Scan.foldr_step_behind, Scan.close_append, ← tokens_eq_close]

@[simp] theorem tokens_nil : tokens [] = [] := rfl

theorem tokens_cons_of_blank {c : Char} (h : isBlank c = true) (s : Text) :
    tokens (c :: s) = tokens s := by
  rw [tokens_eq_close, Scan.ofText_cons, Scan.step, if_pos h]
  rfl

theorem tokens_blanks_append {g : Text} (h : Text.isBlankText g = true) (s : Text) :
    tokens (g ++ s) = tokens s := by
  induction g with
  | nil => rfl
  | cons c g ih =>
    obtain ⟨hc, hg⟩ := Bool.and_eq_true_iff.mp h
    rw [List.cons_append, tokens_cons_of_blank hc, ih hg]

theorem tokens_of_isBlankText {g : Text} (h : Text.isBlankText g = true) : tokens g = [] := by
  simpa using tokens_blanks_append h []

theorem tokens_append_blanks {g : Text} (h : Text.isBlankText g = true) (s : Text) :
    tokens (s ++ g) = tokens s := by
  rw [tokens_append s (breaks_of_isBlankText h), tokens_of_isBlankText h, List.append_nil]

theorem tokens_trimLeft (s : Text) : tokens s.trimLeft = tokens s := by
  induction s with
  | nil => rfl
  | cons c s ih =>
    cases hc : isBlank c with
    | true => rw [Text.trimLeft_cons_of_blank hc, tokens_cons_of_blank hc, ih]
    | false => rw [Text.trimLeft_cons hc]

theorem tokens_concat_of_blank {c : Char} (h : isBlank c = true) (s : Text) :
    tokens (s ++ [c]) = tokens s :=
  tokens_append_blanks (by simpa [Text.isBlankText] using h) s

theorem tokens_trimRight (s : Text) : tokens s.trimRight = tokens s := by
  induction s using List.reverseRecOn with
  | nil => rfl
  | append_singleton s c ih =>
    cases hc : isBlank c with
    | true => rw [Text.trimRight_concat_of_blank hc, tokens_concat_of_blank hc, ih]
    | false => rw [Text.trimRight_concat hc]

theorem tokens_trim (s : Text) : tokens s.trim = tokens s := by
  rw [Text.trim, tokens_trimRight, tokens_trimLeft]

def spaced (ts : List Text) : Text := ts.flatMap (· ++ [' '])

@[simp] theorem spaced_nil : spaced [] = [] := rfl

@[simp] theorem spaced_cons (t : Text) (ts : List Text) :
    spaced (t :: ts) = t ++ ' ' :: spaced ts := by simp [spaced]

theorem Scan.ofText_of_plain {s : Text} (hb : ∀ c ∈ s, isBlank c = false)
    (hl : ∀ c ∈ s, isLetter c = false) : ofText s = ⟨s, []⟩ := by
  induction s with
  | nil => rfl
  | cons c s ih =>
    rw [ofText_cons, ih (fun d hd => hb d (List.mem_cons_of_mem _ hd))
      (fun d hd => hl d (List.mem_cons_of_mem _ hd))]
    simp [Scan.step, hb c List.mem_cons_self, hl c List.mem_cons_self]

theorem IsToken.tokens_eq {t : Text} (h : IsToken t) : tokens t = [t] := by
  cases t with
  | nil => exact absurd rfl h.ne_nil
  | cons c s =>
    rw [tokens_eq_close, Scan.ofText_cons, Scan.ofText_of_plain
      (fun d hd => h.solid d (List.mem_cons_of_mem _ hd)) h.tail]
    simp only [Scan.step, h.solid c List.mem_cons_self, Bool.false_eq_true, if_false]
    split <;> simp [Scan.close]

theorem IsToken.tokens_append {t : Text} (h : IsToken t) (s : Text) :
    tokens (t ++ ' ' :: s) = t :: tokens s := by
  rw [Token.tokens_append t (breaks_cons.mpr (.inl isBlank_space)), h.tokens_eq,
    tokens_cons_of_blank isBlank_space, List.singleton_append]

theorem tokens_spaced {ts : List Text} (h : ∀ t ∈ ts, IsToken t) : tokens (spaced ts) = ts := by
  induction ts with
  | nil => rfl
  | cons t ts ih =>
    rw [spaced_cons, (h t List.mem_cons_self).tokens_append,
      ih fun u hu => h u (List.mem_cons_of_mem _ hu)]

theorem tokens_isInfix {s t : Text} (h : t ∈ tokens s) : t <:+: s := by
  have key : (Scan.ofText s).current <+: s ∧ ∀ u ∈ (Scan.ofText s).behind, u <:+: s := by
    clear h
    induction s with
    | nil => exact ⟨List.prefix_refl _, by simp [Scan.ofText]⟩
    | cons c s ih =>
      obtain ⟨hcur, hbehind⟩ := ih
      have hbehind' : ∀ u ∈ (Scan.ofText s).behind, u <:+: c :: s :=
        fun u hu => List.infix_cons (hbehind u hu)
      rw [Scan.ofText_cons, Scan.step]
      split
      · refine ⟨List.nil_prefix, ?_⟩
        intro u hu
        unfold Scan.close at hu
        split at hu
        · exact hbehind' u hu
        · rcases List.mem_cons.mp hu with rfl | hu
          · exact List.infix_cons hcur.isInfix
          · exact hbehind' u hu
      · split
        · refine ⟨List.nil_prefix, ?_⟩
          intro u hu
          rcases List.mem_cons.mp hu with rfl | hu
          · exact (List.cons_prefix_cons.mpr ⟨rfl, hcur⟩).isInfix
          · exact hbehind' u hu
        · exact ⟨List.cons_prefix_cons.mpr ⟨rfl, hcur⟩, hbehind'⟩
  rw [tokens_eq_close, Scan.close] at h
  split at h
  · exact key.2 t h
  · rcases List.mem_cons.mp h with rfl | h
    · exact key.1.isInfix
    · exact key.2 t h

theorem head?_tokens_trimLeft (s : Text) :
    (s.trimLeft).head? = (tokens s).head?.bind List.head? := by
  rw [← tokens_trimLeft]
  cases hs : s.trimLeft with
  | nil => rfl
  | cons c rest =>
    have hc := Text.isBlank_head_trimLeft hs
    rw [tokens_eq_close, Scan.ofText_cons, Scan.step, if_neg (by simp [hc])]
    split <;> simp [Scan.close]

end Token

theorem metaMarkers_solid : ∀ m ∈ metaMarkers, m ≠ [] ∧ ' ' ∉ m := by decide

theorem upper_space : upper ' ' = [' '] := by decide

theorem hasMeta_iff {s : Text} : hasMeta s = true ↔ ∃ m ∈ metaMarkers, m <:+: upperText s := by
  simp [hasMeta, Text.hasPart_iff]

theorem upperText_isInfix {s t : Text} (h : s <:+: t) : upperText s <:+: upperText t := by
  obtain ⟨u, v, rfl⟩ := h
  rw [upperText_append, upperText_append]
  exact ⟨upperText u, upperText v, rfl⟩

theorem hasMeta_of_isInfix {s t : Text} (h : s <:+: t) (hs : hasMeta s = true) : hasMeta t = true := by
  obtain ⟨m, hm, hp⟩ := hasMeta_iff.mp hs
  exact hasMeta_iff.mpr ⟨m, hm, hp.trans (upperText_isInfix h)⟩

@[simp] theorem hasMeta_nil : hasMeta [] = false := by decide

theorem hasMeta_append_space {s t : Text} :
    hasMeta (s ++ ' ' :: t) = true ↔ hasMeta s = true ∨ hasMeta t = true := by
  have hu : upperText (s ++ ' ' :: t) = upperText s ++ ' ' :: upperText t := by
    rw [upperText_append, show ' ' :: t = [' '] ++ t from rfl, upperText_append]
    simp [upperText, upper_space]
  constructor
  · intro h
    obtain ⟨m, hm, hp⟩ := hasMeta_iff.mp h
    rw [hu, Text.infix_append_cons (metaMarkers_solid m hm).2] at hp
    exact hp.imp (fun hp => hasMeta_iff.mpr ⟨m, hm, hp⟩) (fun hp => hasMeta_iff.mpr ⟨m, hm, hp⟩)
  · rintro (h | h)
    · exact hasMeta_of_isInfix (List.prefix_append _ _).isInfix h
    · exact hasMeta_of_isInfix ((List.suffix_cons ' ' t).trans (List.suffix_append _ _)).isInfix h

theorem hasMeta_spaced {ts : List Text} :
    hasMeta (Token.spaced ts) = true ↔ ∃ t ∈ ts, hasMeta t = true := by
  induction ts with
  | nil => simp
  | cons t ts ih => simp [hasMeta_append_space, ih]

end PartProgram
