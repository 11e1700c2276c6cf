import PartProgram.Proofs.Fragment.InstructionOrder
import PartProgram.Proofs.Fragment.Renumbered

/-! # The words of the offsets

The blocks with the offsets may have a few words, each a letter with a number, and none
twice. No such word is part of a meta command, so none is kept as it stands, and
written side by side they are read as themselves.
-/
namespace PartProgram

open Unicode WordGraph

def IsFixtureWord (w : Word) : Prop :=
  (w.letter = ['N'] ∨ w.letter = ['E']) ∧ w.int?.isSome = true ∨
    w.letter = ['G'] ∧ (w.int? = some 0 ∨ w.int? = some 1) ∨
    (w.letter = ['X'] ∨ w.letter = ['Y'] ∨ w.letter = ['F']) ∧ w.real?.isSome = true

def IsLengthWord (w : Word) : Prop :=
  (w.letter = ['N'] ∨ w.letter = ['H']) ∧ w.int?.isSome = true ∨
    w.letter = ['Z'] ∧ w.real?.isSome = true

theorem allows_fixture {w : Word} : OffsetRole.allows .fixture w = true ↔ IsFixtureWord w := by
  unfold OffsetRole.allows IsFixtureWord
  split <;> simp_all

theorem allows_length {w : Word} : OffsetRole.allows .length w = true ↔ IsLengthWord w := by
  unfold OffsetRole.allows IsLengthWord
  split <;> simp_all

theorem OffsetRole.check_nil (role : OffsetRole) (block : Text) (seen : List Text) :
    role.check block seen [] = .ok () := rfl

theorem OffsetRole.check_cons (role : OffsetRole) (block : Text) (seen : List Text) (w : Word)
    (ws : List Word) : role.check block seen (w :: ws) =
      if !role.allows w then .error (.strangeWord w.text role block)
      else if w.letter ∈ seen then .error (.repeatedWord w.letter w.text role block)
      else role.check block (w.letter :: seen) ws := rfl

/-- A block passes exactly if all its words are allowed and none has a letter for the second time. -/
theorem OffsetRole.check_ok_iff {role : OffsetRole} {block : Text} {seen : List Text}
    {ws : List Word} : role.check block seen ws = .ok () ↔
      (∀ w ∈ ws, role.allows w = true) ∧ (ws.map Word.letter).Nodup ∧
        ∀ w ∈ ws, w.letter ∉ seen := by
  induction ws generalizing seen with
  | nil => simp [check_nil]
  | cons w ws ih =>
    rw [check_cons]
    cases hallows : role.allows w with
    | false => simp [hallows]
    | true =>
      by_cases hseen : w.letter ∈ seen
      · simp [hseen]
      · rw [if_neg (by simp), if_neg hseen, ih, List.forall_mem_cons, List.forall_mem_cons,
          List.map_cons, List.nodup_cons, List.mem_map]
        simp only [List.mem_cons, not_or]
        constructor
        · rintro ⟨hall, hnodup, hnew⟩
          exact ⟨⟨hallows, hall⟩, ⟨fun ⟨v, hv, hsame⟩ => (hnew v hv).1 hsame, hnodup⟩, hseen,
            fun v hv => (hnew v hv).2⟩
        · rintro ⟨⟨-, hall⟩, ⟨hfirst, hnodup⟩, -, hnew⟩
          exact ⟨hall, hnodup, fun v hv => ⟨fun hsame => hfirst ⟨v, hv, hsame⟩, hnew v hv⟩⟩

theorem allows_numeric {role : OffsetRole} {w : Word} (h : role.allows w = true) :
    (∃ c ∈ "NGEXYFHZ".toList, w.letter = [c]) ∧
      (w.int?.isSome = true ∨ w.real?.isSome = true) := by
  cases role with
  | fixture =>
    rcases allows_fixture.mp h with ⟨hl | hl, hi⟩ | ⟨hl, hi⟩ | ⟨hl | hl | hl, hr⟩
    · exact ⟨⟨_, by decide, hl⟩, .inl hi⟩
    · exact ⟨⟨_, by decide, hl⟩, .inl hi⟩
    · exact ⟨⟨_, by decide, hl⟩, .inl (by rcases hi with hi | hi <;> rw [hi] <;> rfl)⟩
    · exact ⟨⟨_, by decide, hl⟩, .inr hr⟩
    · exact ⟨⟨_, by decide, hl⟩, .inr hr⟩
    · exact ⟨⟨_, by decide, hl⟩, .inr hr⟩
  | length =>
    rcases allows_length.mp h with ⟨hl | hl, hi⟩ | ⟨hl, hr⟩
    · exact ⟨⟨_, by decide, hl⟩, .inl hi⟩
    · exact ⟨⟨_, by decide, hl⟩, .inl hi⟩
    · exact ⟨⟨_, by decide, hl⟩, .inr hr⟩

def numeralCharacters : Text := "+-.0123456789".toList

theorem Number.mem_of_isDigit {c : Char} (h : isDigit c = true) : c ∈ numeralCharacters :=
  List.mem_of_mem_drop (i := 3) (mem_digits_of_isDigit h)

theorem Number.mem_of_splitSign {s : Text} (h : ∀ c ∈ (splitSign s).2, c ∈ numeralCharacters) :
    ∀ c ∈ s, c ∈ numeralCharacters := by
  unfold splitSign at h
  split at h
  · exact List.forall_mem_cons.mpr ⟨by decide, h⟩
  · exact List.forall_mem_cons.mpr ⟨by decide, h⟩
  · exact h

theorem Number.mem_of_read {s : Text} {i : Int} (h : Number.read s = .value i) :
    ∀ c ∈ s, c ∈ numeralCharacters := by
  refine mem_of_splitSign fun c hc => mem_of_isDigit ?_
  simp only [Number.read, readDigits] at h
  split at h
  · cases h
  · rename_i hdigits
    rw [Bool.or_eq_true, not_or, Bool.not_eq_true', Bool.not_eq_false] at hdigits
    exact List.all_eq_true.mp hdigits.2 c hc

theorem Number.Decimal.mem_of_read? {s : Text} {d : Decimal} (h : read? s = some d) :
    ∀ c ∈ s, c ∈ numeralCharacters := by
  refine mem_of_splitSign fun c hc => ?_
  simp only [read?] at h
  obtain ⟨fraction, hfraction, h⟩ := Option.bind_eq_some_iff.mp h
  have hdigits : ∀ c ∈ fraction, c ∈ numeralCharacters := by
    intro c hc
    split at h
    · cases h
    · rename_i hall
      rw [Bool.or_eq_true, not_or, Bool.not_eq_true', Bool.not_eq_false] at hall
      exact mem_of_isDigit (List.all_eq_true.mp hall.1 c hc)
  rw [← List.takeWhile_append_dropWhile (p := isDigit) (l := (splitSign s).2), List.mem_append] at hc
  rcases hc with hc | hc
  · exact mem_of_isDigit (List.mem_takeWhile_imp hc)
  · split at hfraction
    · rename_i hnil
      rw [hnil] at hc
      cases hc
    · rename_i rest hrest
      obtain rfl := Option.some.inj hfraction
      rw [hrest] at hc
      rcases List.mem_cons.mp hc with rfl | hc
      · decide
      · exact hdigits c hc
    · cases hfraction

theorem Text.mem_trim {s : Text} {c : Char} (hc : c ∈ s) : isBlank c = true ∨ c ∈ s.trim := by
  rw [or_iff_not_imp_left, Bool.not_eq_true]
  intro hblank
  have hleft : c ∈ s.trimLeft := by
    rw [← List.takeWhile_append_dropWhile (p := isBlank) (l := s), List.mem_append] at hc
    exact hc.resolve_left fun hc => by simp [List.mem_takeWhile_imp hc] at hblank
  rw [← List.mem_reverse, ← List.takeWhile_append_dropWhile (p := isBlank) (l := s.trimLeft.reverse),
    List.mem_append] at hleft
  have hright := hleft.resolve_left fun hc => by simp [List.mem_takeWhile_imp hc] at hblank
  rw [Text.trim, Text.trimRight, List.mem_reverse]
  exact hright

theorem Numbers.mem_of_read {s : Text} {numbers : Numbers} (h : Numbers.read s = .ok numbers)
    (hn : numbers.int?.isSome = true ∨ numbers.real?.isSome = true) :
    ∀ c ∈ s, isBlank c = true ∨ c ∈ numeralCharacters := by
  refine fun c hc => (Text.mem_trim hc).imp_right fun hc => ?_
  simp only [Numbers.read] at h
  split at h
  · cases h
  · rename_i hread
    exact Number.mem_of_read hread c hc
  · obtain rfl := Except.ok.inj h
    obtain ⟨d, hd⟩ := Option.isSome_iff_exists.mp (hn.resolve_left (by simp))
    exact Number.Decimal.mem_of_read? hd c hc

/-- Every marker has one of these, and they are upper case of no blank and no number. -/
def markerCharacters : Text := "IO=#[]".toList

theorem metaMarkers_marked : ∀ m ∈ metaMarkers, ∃ c ∈ m, c ∈ markerCharacters := by
  have hall : (metaMarkers.all fun m => m.any fun c => decide (c ∈ markerCharacters)) = true := by
    decide
  intro m hm
  obtain ⟨c, hc, hmarked⟩ := List.any_eq_true.mp (List.all_eq_true.mp hall m hm)
  exact ⟨c, hc, of_decide_eq_true hmarked⟩

/-- The letters of the allowed words occur in no marker and open no comment, and no block that is
passed over begins with one. -/
theorem offset_letters : ∀ c ∈ "NGEXYFHZ".toList,
    c ∉ markerCharacters ∧ c ∉ [';', '(', '/', '%'] := by
  have hall : ("NGEXYFHZ".toList.all fun c =>
      decide (c ∉ markerCharacters ∧ c ∉ [';', '(', '/', '%'])) = true := by decide
  exact fun c hc => of_decide_eq_true (List.all_eq_true.mp hall c hc)

theorem upper_numeral : ∀ c ∈ numeralCharacters, ∀ d ∈ upper c, d ∉ markerCharacters := by
  have hall : (numeralCharacters.all fun c =>
      (upper c).all fun d => decide (d ∉ markerCharacters)) = true := by decide
  exact fun c hc d hd =>
    of_decide_eq_true (List.all_eq_true.mp (List.all_eq_true.mp hall c hc) d hd)

theorem upper_blank {c : Char} (hc : isBlank c = true) : ∀ d ∈ upper c, d ∉ markerCharacters := by
  have hall : (blankRanges.all fun r => (List.range' r.1 (r.2 + 1 - r.1)).all fun n =>
      (upper (Char.ofNat n)).all fun d => decide (d ∉ markerCharacters)) = true := by
    decide +kernel
  have hcovers : ∃ r ∈ blankRanges, r.1 ≤ c.toNat ∧ c.toNat ≤ r.2 :=
    (Ranges.covers_iff (by simp [blankRanges, Ranges.Ascending]) _).mp hc
  obtain ⟨r, hr, hlow, hhigh⟩ := hcovers
  have hmem : c.toNat ∈ List.range' r.1 (r.2 + 1 - r.1) :=
    List.mem_range'_1.mpr ⟨hlow, by omega⟩
  have hupper := List.all_eq_true.mp (List.all_eq_true.mp hall r hr) _ hmem
  rw [Char.ofNat_toNat] at hupper
  exact fun d hd => of_decide_eq_true (List.all_eq_true.mp hupper d hd)

theorem hasMeta_of_allows {role : OffsetRole} {w : Word} {x : Text × Bool} (hs : w.Says x)
    (h : role.allows w = true) : hasMeta x.1 = false := by
  obtain ⟨⟨l, hl, hletter⟩, hnumber⟩ := allows_numeric h
  have hrest := Numbers.mem_of_read hs.numbers hnumber
  refine Bool.eq_false_iff.mpr fun hmeta => ?_
  obtain ⟨m, hm, hpart⟩ := hasMeta_iff.mp hmeta
  obtain ⟨d, hdm, hd⟩ := metaMarkers_marked m hm
  have hmem := hpart.subset hdm
  rw [← hs.text, Word.text, upperText, List.flatMap_cons, List.mem_append] at hmem
  rcases hmem with hmem | hmem
  · rw [show upper w.address = [l] from hletter, List.mem_singleton] at hmem
    subst hmem
    exact (offset_letters d hl).1 hd
  · obtain ⟨c, hc, hdc⟩ := List.mem_flatMap.mp hmem
    rcases hrest c hc with hblank | hnumeral
    · exact upper_blank hblank d hdc hd
    · exact upper_numeral c hnumeral d hdc hd

theorem allows_plain {role : OffsetRole} {w : Word} {s : Text} {x : Text × Bool}
    (hx : x ∈ (Reading.ofText s).tokens) (hs : w.Says x) (h : role.allows w = true) :
    x.2 = false ∧ Reading.IsWordText x.1 ∧ Reading.isPassedOver x.1 = false := by
  have hmeta := hasMeta_of_allows hs h
  have hcut : Reading.IsCut (Reading.ofText s).tokens := by
    rw [Reading.tokens_ofText, Reading.instruction_ofText]
    exact Reading.isCut_cut (Comment.isPlain_split s)
  have hover : Reading.isPassedOver x.1 = false := by
    obtain ⟨⟨l, hl, hletter⟩, -⟩ := allows_numeric h
    have hne : ∀ d ∈ [';', '(', '/', '%'], w.address ≠ d := by
      intro d hd hsame
      rw [Word.letter, hsame, upper_of_mem hd, List.singleton_inj] at hletter
      exact (offset_letters l hl).2 (hletter ▸ hd)
    rw [← hs.text, Word.text, Reading.isPassedOver, List.head?_cons]
    simp [hne]
  cases hall : (Reading.ofText s).tokens with
  | nil => simp [hall] at hx
  | cons y rest =>
    rw [hall] at hcut hx
    cases hcut with
    | verbatim _ hverbatim =>
      obtain rfl := List.mem_singleton.mp hx
      rw [hmeta] at hverbatim
      cases hverbatim
    | words hwords _ => exact ⟨(hwords x hx).1, (hwords x hx).2, hover⟩

theorem Token.spaced_eq {ts : List Text} (hne : ts ≠ []) :
    spaced ts = [' '].intercalate ts ++ [' '] := by
  induction ts with
  | nil => exact absurd rfl hne
  | cons t ts ih =>
    cases ts with
    | nil => simp
    | cons u ts =>
      rw [spaced_cons, ih (List.cons_ne_nil u ts), List.intercalate_cons_cons]
      simp

/-- Words with blanks between them are read as these words, without a comment. -/
theorem Reading.ofText_intercalate {ts : List Text} (hne : ts ≠ [])
    (h : ∀ t ∈ ts, IsWordText t ∧ isPassedOver t = false) :
    (ofText ([' '].intercalate ts)).tokens = ts.map (·, false) ∧
      (ofText ([' '].intercalate ts)).comments = [] := by
  have hcut : IsCut (ts.map (·, false)) := by
    refine .words (fun x hx => ?_) fun x hx => ?_
    · obtain ⟨t, ht, rfl⟩ := List.mem_map.mp hx
      exact ⟨rfl, (h t ht).1⟩
    · obtain ⟨t, ht, rfl⟩ := List.mem_map.mp (List.mem_of_head? hx)
      exact (h t ht).2
  have hfst : (ts.map ((·, false) : Text → Text × Bool)).map Prod.fst = ts := by
    rw [List.map_map]
    exact List.map_id ts
  have hspaced := hcut.cut_spaced (by simpa using hne)
  have hplain := hcut.isPlain
  rw [hfst, Token.spaced_eq hne] at hspaced hplain
  have hsplit := Comment.split_append (hplain.of_isInfix (List.prefix_append _ _).isInfix) .nil
  rw [List.flatten_nil, List.append_nil] at hsplit
  refine ⟨?_, by rw [comments_ofText, hsplit]⟩
  rw [tokens_ofText, instruction_ofText, hsplit, ← hspaced]
  exact cut_congr (trim_concat_of_blank isBlank_space _).symm
    (Token.tokens_concat_of_blank isBlank_space _).symm

section
variable {α κ : Type} [DecidableEq κ] {key : α → κ} {l : List α}

theorem filter_key_eq (hn : (l.map key).Nodup) (k : κ) :
    l.filter (key · = k) = (l.find? (key · = k)).toList := by
  induction l with
  | nil => rfl
  | cons a l ih =>
    obtain ⟨ha, hn⟩ := List.nodup_cons.mp hn
    by_cases hk : key a = k
    · subst hk
      have hrest : l.filter (key · = key a) = [] :=
        List.filter_eq_nil_iff.mpr fun b hb => by
          simpa using fun h : key b = key a => ha (h ▸ List.mem_map_of_mem hb)
      simp [hrest]
    · simpa [hk] using ih hn

theorem flatMap_filter_perm {ks : List κ} (hks : ks.Nodup) (h : ∀ a ∈ l, key a ∈ ks) :
    (ks.flatMap fun k => l.filter (key · = k)).Perm l := by
  induction ks generalizing l with
  | nil =>
    obtain rfl : l = [] := List.eq_nil_iff_forall_not_mem.mpr fun a ha => absurd (h a ha) (by simp)
    simp
  | cons k ks ih =>
    obtain ⟨hk, hks⟩ := List.nodup_cons.mp hks
    have hrest : (ks.flatMap fun k' => l.filter (key · = k')) =
        ks.flatMap fun k' => (l.filter fun a => !decide (key a = k)).filter (key · = k') := by
      refine List.flatMap_congr fun k' hk' => ?_
      rw [List.filter_filter]
      refine List.filter_congr fun a _ => ?_
      by_cases hak : key a = k'
      · simp [hak, ne_of_mem_of_not_mem hk' hk]
      · simp [hak]
    rw [List.flatMap_cons, hrest]
    refine (List.Perm.append_left _ (ih hks fun a ha => ?_)).trans
      (List.filter_append_perm (key · = k) l)
    obtain ⟨ha, hne⟩ := List.mem_filter.mp ha
    exact (List.mem_cons.mp (h a ha)).resolve_left (by simpa using hne)

end

end PartProgram
