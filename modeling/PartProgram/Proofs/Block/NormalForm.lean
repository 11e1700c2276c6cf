import PartProgram.Block.Basic
import PartProgram.Proofs.Block.Comment

/-! # The normal form of a block

The words of a block with a blank behind each, its comments behind them and the
whole trimmed: such a text is read as the same words and comments again, also after
some words that are not kept as they stand were replaced.
-/
namespace PartProgram

open Unicode

theorem trim_concat_of_blank {c : Char} (h : isBlank c = true) (s : Text) :
    (s ++ [c]).trim = s.trim := by
  unfold Text.trim
  rw [Text.trimLeft_append]
  split
  · rename_i hs
    rw [Text.trimLeft_cons_of_blank h, Text.trimLeft_eq_nil.mpr hs]
    rfl
  · exact Text.trimRight_concat_of_blank h _

namespace Reading

def cut (instruction : Text) : List (Text × Bool) :=
  if isPassedOver instruction.trim then []
  else if hasMeta instruction.trim then [(instruction.trim, true)]
  else (Token.tokens instruction).map (·, false)

theorem instruction_ofText (s : Text) : (ofText s).instruction = (Comment.split s).1 := by
  simp only [ofText]
  split
  · rfl
  · split <;> rfl

theorem comments_ofText (s : Text) : (ofText s).comments = (Comment.split s).2 := by
  simp only [ofText]
  split
  · rfl
  · split <;> rfl

theorem tokens_ofText (s : Text) : (ofText s).tokens = cut (ofText s).instruction := by
  rw [instruction_ofText]
  simp only [ofText, cut]
  split
  · rfl
  · split <;> rfl

theorem cut_congr {s t : Text} (htrim : s.trim = t.trim)
    (htokens : Token.tokens s = Token.tokens t) : cut s = cut t := by
  simp only [cut, htrim, htokens]

theorem isPassedOver_congr {s t : Text} (h : s.head? = t.head?) :
    isPassedOver s = isPassedOver t := by simp only [isPassedOver, h]

theorem isBlank_of_mem_cut {s : Text} {x : Text × Bool} {c : Char} {rest : Text} (hx : x ∈ cut s)
    (hc : x.1 = c :: rest) : isBlank c = false := by
  unfold cut at hx
  split at hx
  · cases hx
  · split at hx
    · obtain rfl := List.mem_singleton.mp hx
      have hhead := Text.head?_trim s
      rw [show s.trim = c :: rest from hc] at hhead
      obtain ⟨rest', hleft⟩ := List.head?_eq_some_iff.mp hhead.symm
      exact Text.isBlank_head_trimLeft hleft
    · obtain ⟨t, ht, rfl⟩ := List.mem_map.mp hx
      obtain rfl : t = c :: rest := hc
      exact (Token.isToken_of_mem_tokens ht).solid c List.mem_cons_self

/-- The text of a word that is read alike wherever it stands. -/
structure IsWordText (t : Text) : Prop where
  isToken : Token.IsToken t
  isPlain : Comment.IsPlain t
  not_meta : hasMeta t = false

/-- Words that some instruction text is cut into. -/
inductive IsCut : List (Text × Bool) → Prop where
  | verbatim {t : Text} : t.trim = t → hasMeta t = true → isPassedOver t = false →
      Comment.IsPlain t → IsCut [(t, true)]
  | words {l : List (Text × Bool)} : (∀ x ∈ l, x.2 = false ∧ IsWordText x.1) →
      (∀ x, l.head? = some x → isPassedOver x.1 = false) → IsCut l

theorem isCut_cut {s : Text} (hs : Comment.IsPlain s) : IsCut (cut s) := by
  unfold cut
  split
  · exact .words (by simp) (by simp)
  · rename_i hover
    split
    · rename_i hmeta
      exact .verbatim (Text.trim_trim s) hmeta (by simpa using hover)
        (hs.of_isInfix (Text.trim_isInfix s))
    · rename_i hmeta
      have htoken : ∀ t ∈ Token.tokens s, IsWordText t := by
        intro t ht
        have hpart : t <:+: s.trim := Token.tokens_isInfix (by rwa [Token.tokens_trim])
        refine ⟨Token.isToken_of_mem_tokens ht, hs.of_isInfix (hpart.trans (Text.trim_isInfix s)), ?_⟩
        exact Bool.eq_false_iff.mpr fun h => hmeta (hasMeta_of_isInfix hpart h)
      refine .words ?_ ?_
      · intro x hx
        obtain ⟨t, ht, rfl⟩ := List.mem_map.mp hx
        exact ⟨rfl, htoken t ht⟩
      · intro x hx
        rw [List.head?_map] at hx
        obtain ⟨t, ht, rfl⟩ := Option.map_eq_some_iff.mp hx
        have hhead : t.head? = s.trim.head? := by
          rw [Text.head?_trim, Token.head?_tokens_trimLeft, ht]
          rfl
        rw [isPassedOver_congr hhead]
        simpa using hover

theorem IsCut.isPlain {l : List (Text × Bool)} (h : IsCut l) :
    Comment.IsPlain (Token.spaced (l.map Prod.fst)) := by
  have hspace : Comment.IsPlain [' '] := ⟨by decide, by decide⟩
  have key : ∀ ts : List Text, (∀ t ∈ ts, Comment.IsPlain t) → Comment.IsPlain (Token.spaced ts) := by
    intro ts
    induction ts with
    | nil => exact fun _ => Comment.isPlain_nil
    | cons t ts ih =>
      intro hts
      rw [Token.spaced_cons]
      exact (hts t List.mem_cons_self).append
        (hspace.append (ih fun u hu => hts u (List.mem_cons_of_mem _ hu)))
  apply key
  cases h with
  | verbatim _ _ _ hplain => simpa using hplain
  | words hl _ =>
    intro t ht
    obtain ⟨x, hx, rfl⟩ := List.mem_map.mp ht
    exact (hl x hx).2.isPlain

/-- Words written side by side are read as the same words. -/
theorem IsCut.cut_spaced {l : List (Text × Bool)} (h : IsCut l) (hne : l ≠ []) :
    cut (Token.spaced (l.map Prod.fst)) = l := by
  cases h with
  | @verbatim t htrim hmeta hover hplain =>
    have hs : (Token.spaced ([(t, true)].map Prod.fst)).trim = t := by
      rw [show Token.spaced ([(t, true)].map Prod.fst) = t ++ [' '] by simp,
        trim_concat_of_blank isBlank_space, htrim]
    rw [cut, hs, if_neg (by simp [hover]), if_pos hmeta]
  | words hl hhead =>
    have htokens : Token.tokens (Token.spaced (l.map Prod.fst)) = l.map Prod.fst := by
      apply Token.tokens_spaced
      intro t ht
      obtain ⟨x, hx, rfl⟩ := List.mem_map.mp ht
      exact (hl x hx).2.isToken
    have hover : isPassedOver (Token.spaced (l.map Prod.fst)).trim = false := by
      cases l with
      | nil => exact absurd rfl hne
      | cons x rest =>
        rw [isPassedOver_congr (t := x.1)]
        · exact hhead x rfl
        · rw [Text.head?_trim, Token.head?_tokens_trimLeft, htokens]
          rfl
    have hmeta : hasMeta (Token.spaced (l.map Prod.fst)).trim = false := by
      refine Bool.eq_false_iff.mpr fun hm => ?_
      obtain ⟨t, ht, hm⟩ := hasMeta_spaced.mp (hasMeta_of_isInfix (Text.trim_isInfix _) hm)
      obtain ⟨x, hx, rfl⟩ := List.mem_map.mp ht
      exact absurd hm (by simp [(hl x hx).2.not_meta])
    rw [cut, hover, if_neg (by simp), hmeta, if_neg (by simp), htokens, List.map_map]
    refine (List.map_congr_left fun x hx => ?_).trans (List.map_id l)
    exact Prod.ext rfl (hl x hx).1.symm

theorem IsCut.replace {l l' : List (Text × Bool)} (h : IsCut l)
    (hl : List.Forall₂ (fun x y => x = y ∨
      x.2 = false ∧ y.2 = false ∧ IsWordText y.1 ∧ isPassedOver y.1 = false) l l') : IsCut l' := by
  cases h with
  | @verbatim t htrim hmeta hover hplain =>
    cases hl with
    | cons hx hrest =>
      cases hrest
      rcases hx with rfl | ⟨hx, -⟩
      · exact .verbatim htrim hmeta hover hplain
      · cases hx
  | words hwords hhead =>
    refine .words ?_ ?_
    · clear hhead
      induction hl with
      | nil => simp
      | @cons x y rest rest' hx _ ih =>
        intro z hz
        rcases List.mem_cons.mp hz with rfl | hz
        · rcases hx with rfl | ⟨-, hy, hy', -⟩
          · exact hwords _ List.mem_cons_self
          · exact ⟨hy, hy'⟩
        · exact ih (fun w hw => hwords w (List.mem_cons_of_mem _ hw)) z hz
    · intro z hz
      cases hl with
      | nil => cases hz
      | cons hx _ =>
        cases hz
        rcases hx with rfl | ⟨-, -, -, hy⟩
        · exact hhead _ rfl
        · exact hy

/-- What a rebuilt block is read as: its words and comments. -/
theorem ofText_rebuilt {body : Text} {cs : List Text} (hbody : Comment.IsPlain body)
    (hcs : Comment.IsSegments cs) :
    (ofText (body ++ cs.flatten).trim).tokens = cut body ∧
      (ofText (body ++ cs.flatten).trim).comments = Comment.trimLast cs ∧
      (ofText (body ++ cs.flatten).trim).instruction = Comment.trimPlain body cs := by
  have hsplit := Comment.split_trim hbody hcs
  refine ⟨?_, by rw [comments_ofText, hsplit], by rw [instruction_ofText, hsplit]⟩
  rw [tokens_ofText, instruction_ofText, hsplit]
  exact cut_congr (Comment.trim_trimPlain _ _) (Comment.tokens_trimPlain _ _)

theorem numeral_characters : ∀ c ∈ "N-0123456789".toList,
    upper c = [c] ∧ isBlank c = false ∧ ∀ m ∈ metaMarkers, c ∉ m := by
  have hall : ("N-0123456789".toList.all fun c =>
      decide (upper c = [c] ∧ isBlank c = false ∧ ∀ m ∈ metaMarkers, c ∉ m)) = true := by decide
  exact fun c hc => of_decide_eq_true (List.all_eq_true.mp hall c hc)

theorem isWordText_numbered (n : Int) : IsWordText ('N' :: Number.text n) := by
  have hmem : ∀ c ∈ 'N' :: Number.text n, c ∈ "N-0123456789".toList := by
    intro c hc
    rcases List.mem_cons.mp hc with rfl | hc
    · decide
    · rcases Number.mem_text hc with rfl | hc
      · decide
      · exact List.mem_cons_of_mem _ (List.mem_cons_of_mem _ (Number.mem_digits_of_isDigit hc))
  have hupper : upperText ('N' :: Number.text n) = 'N' :: Number.text n := by
    rw [upperText, List.flatMap_congr (g := fun c => [c])
      fun c hc => (numeral_characters c (hmem c hc)).1]
    simp
  refine ⟨⟨by simp, fun c hc => (numeral_characters c (hmem c hc)).2.1, ?_⟩, ⟨?_, ?_⟩, ?_⟩
  · intro c hc
    rcases Number.mem_text hc with rfl | hc
    · decide
    · exact isLetter_of_isDigit hc
  · exact fun hc => absurd (hmem _ hc) (by decide)
  · exact fun hc => absurd (hmem _ hc) (by decide)
  · refine Bool.eq_false_iff.mpr fun hm => ?_
    obtain ⟨m, hm, hp⟩ := hasMeta_iff.mp hm
    rw [hupper] at hp
    obtain ⟨c, hc⟩ := List.exists_mem_of_ne_nil m (metaMarkers_solid m hm).1
    exact (numeral_characters c (hmem c (hp.subset hc))).2.2 m hm hc

end Reading

end PartProgram
