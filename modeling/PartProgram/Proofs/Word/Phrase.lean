import PartProgram.Program.Description
import PartProgram.Proofs.Number.Integer
import PartProgram.Proofs.Text.Lines

/-! # Phrases inside a comment

A phrase holds nothing that closes a comment or ends a line, and no blank stands at its
end. Nor is there any of it in the phrases of a block, joined by a text that holds
nothing of the kind.
-/
namespace PartProgram

open Text

/-- Nothing in the text closes a comment or ends a line. -/
structure IsInner (t : Text) : Prop where
  closing : ')' ∉ t
  unbroken : IsUnbroken t

/-- The text may stand inside a comment, and does not end in a blank. -/
structure IsPhrase (t : Text) : Prop extends IsInner t where
  trimRight : t.trimRight = t

instance (t : Text) : Decidable (IsInner t) :=
  decidable_of_iff (')' ∉ t ∧ IsUnbroken t)
    ⟨fun h => ⟨h.1, h.2⟩, fun h => ⟨h.closing, h.unbroken⟩⟩

instance (t : Text) : Decidable (IsPhrase t) :=
  decidable_of_iff (IsInner t ∧ t.trimRight = t)
    ⟨fun h => ⟨h.1, h.2⟩, fun h => ⟨h.toIsInner, h.trimRight⟩⟩

variable {s t : Text}

theorem isPhrase_nil : IsPhrase [] := by decide

theorem IsInner.append (hs : IsInner s) (ht : IsInner t) : IsInner (s ++ t) :=
  ⟨by simp [hs.closing, ht.closing], isUnbroken_append.mpr ⟨hs.unbroken, ht.unbroken⟩⟩

theorem Text.trimRight_append_of_eq (h : t.trimRight = t) (hne : t ≠ []) (s : Text) :
    Text.trimRight (s ++ t) = s ++ t := by
  have hblank : isBlankText t = false := by
    by_contra hblank
    refine hne (h.symm.trans ?_)
    rw [trimRight_eq_rdropWhile, List.rdropWhile_eq_nil_iff]
    simpa [isBlankText] using hblank
  rw [trimRight_append, hblank, h]
  rfl

theorem IsPhrase.prepend (ht : IsPhrase t) (hne : t ≠ []) (hs : IsInner s) : IsPhrase (s ++ t) :=
  ⟨hs.append ht.toIsInner, trimRight_append_of_eq ht.trimRight hne s⟩

theorem isPhrase_number (n : Int) : IsPhrase (Number.text n) := by
  have hall : ("-0123456789".toList.all fun c =>
      decide (c ≠ ')' ∧ isLineBreak c = false ∧ Unicode.isBlank c = false)) = true := by decide
  have hchar : ∀ c ∈ Number.text n, c ≠ ')' ∧ isLineBreak c = false ∧ Unicode.isBlank c = false := by
    intro c hc
    refine of_decide_eq_true (List.all_eq_true.mp hall c ?_)
    rcases Number.mem_text hc with rfl | hc
    · decide
    · exact List.mem_cons_of_mem _ (Number.mem_digits_of_isDigit hc)
  refine ⟨⟨fun hc => (hchar _ hc).1 rfl, fun c hc => (hchar c hc).2.1⟩, ?_⟩
  have hrev : (Number.text n).reverse.dropWhile Unicode.isBlank = (Number.text n).reverse := by
    cases hrev : (Number.text n).reverse with
    | nil => rfl
    | cons c rest =>
      have hc : c ∈ Number.text n := List.mem_reverse.mp (hrev ▸ List.mem_cons_self)
      exact List.dropWhile_cons_of_neg (by simp [(hchar c hc).2.2])
  rw [Text.trimRight, hrev, List.reverse_reverse]

theorem number_ne_nil (n : Int) : Number.text n ≠ [] := by
  cases n with
  | ofNat n => exact Number.digits_ne_nil n
  | negSucc n => simp [Number.text]

theorem IsInner.number (hs : IsInner s) (n : Int) : IsPhrase (s ++ Number.text n) :=
  (isPhrase_number n).prepend (number_ne_nil n) hs

theorem isPhrase_phraseIn {table : List (Int × String)}
    (h : ∀ entry ∈ table, IsPhrase entry.2.toList) {letter : Char} (hl : IsInner [letter])
    (code : Int) : IsPhrase (phraseIn table letter code) := by
  unfold phraseIn
  split
  · rename_i phrase hlookup
    obtain ⟨l, m, rfl, -⟩ := List.lookup_eq_some_iff.mp hlookup
    exact h (code, phrase) (by simp)
  · have hunknown : IsInner "UNKNOWN ".toList := by decide
    have hcommand : IsPhrase " COMMAND".toList := by decide
    exact hcommand.prepend (by decide) (hunknown.append (hl.number code).toIsInner)

/-- Printable, and no closing parenthesis. Comparing numbers keeps this quick to evaluate. -/
def isPlainCharacter (least : Nat) (c : Char) : Bool :=
  Nat.ble least c.toNat && Nat.ble c.toNat 126 && !Nat.beq c.toNat 41

/-- Plain characters, of which the last is not blank. -/
def isPlainPhrase : Text → Bool
  | [] => true
  | [c] => isPlainCharacter 33 c
  | c :: d :: rest => isPlainCharacter 32 c && isPlainPhrase (d :: rest)

theorem isInner_of_plain {least : Nat} {c : Char} (hl : 32 ≤ least)
    (h : isPlainCharacter least c = true) : IsInner [c] := by
  simp only [isPlainCharacter, Bool.and_eq_true, Nat.ble_eq, Bool.not_eq_true'] at h
  obtain ⟨⟨hleast, hmost⟩, hclosing⟩ := h
  have hlow : 32 ≤ c.toNat := Nat.le_trans hl hleast
  refine ⟨fun hc => ?_, fun d hd => ?_⟩
  · rw [List.mem_singleton] at hc
    subst hc
    exact absurd hclosing (by decide)
  · rw [List.mem_singleton] at hd
    subst hd
    rw [isLineBreak, decide_eq_false_iff_not]
    intro hmem
    have hbreak : (['\n', '\r', '\x0b', '\x0c', '\x1c', '\x1d', '\x1e', '\u0085', '\u2028',
        '\u2029'].all fun b => decide (b.toNat < 32 ∨ 126 < b.toNat)) = true := by decide
    have := of_decide_eq_true (List.all_eq_true.mp hbreak d hmem)
    omega

theorem isPhrase_of_plain {c : Char} (h : isPlainCharacter 33 c = true) : IsPhrase [c] := by
  refine ⟨isInner_of_plain (by decide) h, ?_⟩
  simp only [isPlainCharacter, Bool.and_eq_true, Nat.ble_eq] at h
  obtain ⟨⟨hleast, hmost⟩, -⟩ := h
  refine trimRight_concat ?_ []
  simp only [Unicode.isBlank, Unicode.blankRanges, Unicode.Ranges.covers]
  grind

theorem isPhrase_of_isPlainPhrase {t : Text} (h : isPlainPhrase t = true) : IsPhrase t := by
  induction t using isPlainPhrase.induct with
  | case1 => exact isPhrase_nil
  | case2 c => exact isPhrase_of_plain h
  | case3 c d rest ih =>
    rw [isPlainPhrase, Bool.and_eq_true] at h
    exact (ih h.2).prepend (by simp) (isInner_of_plain (Nat.le_refl _) h.1)

-- A literal is rewritten as the list it is made from: evaluating `toList` on one would decode
-- its bytes.
theorem preparatoryPhrases_isPhrase : ∀ entry ∈ preparatoryPhrases, IsPhrase entry.2.toList := by
  simp only [preparatoryPhrases, List.forall_mem_cons, List.not_mem_nil, false_imp_iff,
    implies_true, and_true]
  and_intros
  all_goals
    rw [String.toList_ofList]
    exact isPhrase_of_isPlainPhrase rfl

theorem miscellaneousPhrases_isPhrase :
    ∀ entry ∈ miscellaneousPhrases, IsPhrase entry.2.toList := by
  simp only [miscellaneousPhrases, List.forall_mem_cons, List.not_mem_nil, false_imp_iff,
    implies_true, and_true]
  and_intros
  all_goals
    rw [String.toList_ofList]
    exact isPhrase_of_isPlainPhrase rfl

theorem isPhrase_preparatory (code : Int) (fixture? : Option Int) :
    IsPhrase (preparatoryPhrase code fixture?) := by
  unfold preparatoryPhrase
  split
  · exact IsInner.number (by decide) _
  · exact isPhrase_phraseIn preparatoryPhrases_isPhrase (by decide) code

theorem isPhrase_miscellaneous (code : Int) (program? count? : Option Int) :
    IsPhrase (miscellaneousPhrase code program? count?) := by
  have htimes : IsPhrase " TIMES".toList := by decide
  have hspace : IsInner [' '] := by decide
  unfold miscellaneousPhrase
  split
  · rename_i program count
    have hcalled : IsPhrase ("CALL SUBPROGRAM ".toList ++ Number.text program) :=
      IsInner.number (by decide) _
    have hcounted := hcalled.toIsInner.append (hspace.number count).toIsInner
    exact htimes.prepend (by decide) hcounted
  · exact IsInner.number (by decide) _
  · exact htimes.prepend (by decide) (IsInner.number (by decide) _).toIsInner
  · exact IsInner.number (by decide) _
  · exact isPhrase_phraseIn miscellaneousPhrases_isPhrase (by decide) code

theorem WordGraph.isPhrase_phrase (g : WordGraph) (v : Word) : IsPhrase (g.phrase v) := by
  unfold WordGraph.phrase
  split
  · exact isPhrase_nil
  split
  · decide
  split
  · decide
  split
  · exact isPhrase_nil
  split
  · exact isPhrase_preparatory _ _
  split
  · exact isPhrase_miscellaneous _ _ _
  · exact isPhrase_nil

theorem isPhrase_intercalate {delimiter : Text} (hd : IsInner delimiter) {phrases : List Text}
    (h : ∀ t ∈ phrases, IsPhrase t ∧ t ≠ []) :
    IsPhrase (delimiter.intercalate phrases) ∧ (phrases ≠ [] → delimiter.intercalate phrases ≠ []) := by
  induction phrases with
  | nil => exact ⟨isPhrase_nil, fun hne => absurd rfl hne⟩
  | cons t rest ih =>
    obtain ⟨⟨ht, htne⟩, hrest⟩ := List.forall_mem_cons.mp h
    obtain ⟨hphrase, hne⟩ := ih hrest
    cases rest with
    | nil => simpa using ⟨ht, htne⟩
    | cons u rest =>
      rw [List.intercalate_cons_cons]
      exact ⟨hphrase.prepend (hne (by simp)) (ht.toIsInner.append hd),
        fun _ => by simp [hne (by simp)]⟩

theorem Program.isPhrase_joinPhrases {delimiter : Text} (hd : IsInner delimiter)
    {phrases : List Text} (h : ∀ t ∈ phrases, IsPhrase t) :
    IsPhrase (joinPhrases delimiter phrases) := by
  refine (isPhrase_intercalate hd fun t ht => ?_).1
  obtain ⟨hmem, hblank⟩ := List.mem_filter.mp ht
  refine ⟨h t hmem, ?_⟩
  rintro rfl
  simp at hblank

end PartProgram
