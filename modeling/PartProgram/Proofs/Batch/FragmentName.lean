import PartProgram.Batch.FragmentName
import Mathlib.Data.List.Basic

/-! # Cuts of names

A stem may be cut into a program name, the separator and a number in several ways. The
search takes the cut with the shortest name. Where the separator is not all digits there
is one cut at most, so a name and a number are read back from their concatenation.
-/
namespace PartProgram

variable {separator stem name name' ds ds' : Text}

/-- A stem cut into the name of a program, the separator and the digits of a number. -/
structure IsCut (separator stem name ds : Text) : Prop where
  stem_eq : stem = name ++ separator ++ ds
  name_ne : name ≠ []
  oneLine : '\n' ∉ name
  digits_ne : ds ≠ []
  digits : ∀ c ∈ ds, Number.isDigit c = true

theorem IsCut.length_lt (h : IsCut separator stem name ds) : ds.length < stem.length := by
  have hname := List.length_pos_iff.mpr h.name_ne
  rw [h.stem_eq, List.length_append, List.length_append]
  omega

theorem digitsAfter?_eq_some {rest : Text} :
    digitsAfter? separator rest = some ds ↔
      rest = separator ++ ds ∧ ds ≠ [] ∧ ∀ c ∈ ds, Number.isDigit c = true := by
  unfold digitsAfter?
  by_cases hpre : separator <+: rest
  · obtain ⟨more, rfl⟩ := hpre
    rw [if_pos (List.isPrefixOf_iff_prefix.mpr (List.prefix_append separator more)),
      List.drop_left]
    simp only [Bool.and_eq_true, Bool.not_eq_true', List.isEmpty_eq_false_iff, List.all_eq_true,
      Option.ite_none_right_eq_some, Option.some.injEq, List.append_cancel_left_eq]
    constructor
    · rintro ⟨⟨hne, hall⟩, rfl⟩
      exact ⟨rfl, hne, hall⟩
    · rintro ⟨rfl, hne, hall⟩
      exact ⟨⟨hne, hall⟩, rfl⟩
  · rw [if_neg (mt List.isPrefixOf_iff_prefix.mp hpre)]
    constructor
    · rintro ⟨⟩
    · rintro ⟨rfl, -⟩
      exact absurd (List.prefix_append separator ds) hpre

/-- The cut with the shortest name among those whose name has no fewer than `least` characters. -/
structure IsFirstCut (separator stem : Text) (least : Nat) (name ds : Text) : Prop
    extends IsCut separator stem name ds where
  least_le : least ≤ name.length
  length_le : ∀ name' ds', IsCut separator stem name' ds' → least ≤ name'.length →
    name.length ≤ name'.length

theorem IsCut.at_passed {before rest : Text} (h : IsCut separator (before ++ rest) name ds)
    (hl : name.length = before.length) : name = before ∧ rest = separator ++ ds := by
  have heq := h.stem_eq
  rw [List.append_assoc] at heq
  obtain ⟨hname, hrest⟩ := List.append_inj heq hl.symm
  exact ⟨hname.symm, hrest⟩

theorem IsCut.length_gt {before rest : Text} (h : IsCut separator (before.reverse ++ rest) name ds)
    (hnone : (if before.isEmpty then none else digitsAfter? separator rest) = none)
    (hl : before.length ≤ name.length) : before.length < name.length := by
  refine Nat.lt_of_le_of_ne hl fun heq => ?_
  obtain ⟨hname, hrest⟩ := h.at_passed (heq.symm.trans List.length_reverse.symm)
  rw [if_neg (by simpa [hname] using h.name_ne),
    digitsAfter?_eq_some.mpr ⟨hrest, h.digits_ne, h.digits⟩] at hnone
  cases hnone

theorem IsCut.mem_name {before rest : Text} {c : Char}
    (h : IsCut separator (before.reverse ++ c :: rest) name ds)
    (hl : before.length < name.length) : c ∈ name := by
  have hget := congrArg (·[before.length]?) h.stem_eq
  rw [List.append_assoc] at hget
  simp only [List.getElem?_append_left hl] at hget
  rw [List.getElem?_append_right (by simp)] at hget
  exact List.mem_of_getElem? (hget.symm.trans (by simp))

theorem isFirstCut_here {before rest : Text} (hbefore : '\n' ∉ before)
    (hhere : (if before.isEmpty then none else digitsAfter? separator rest) = some ds) :
    IsFirstCut separator (before.reverse ++ rest) before.length before.reverse ds := by
  split at hhere
  · cases hhere
  · rename_i hne
    obtain ⟨hrest, hds, hdigits⟩ := digitsAfter?_eq_some.mp hhere
    exact ⟨⟨by rw [hrest, List.append_assoc], by simpa using hne, by simpa using hbefore, hds,
      hdigits⟩, by simp, fun name' ds' _ hl => by simpa using hl⟩

theorem IsFirstCut.here {before rest : Text}
    (h : IsFirstCut separator (before.reverse ++ rest) (before.length + 1) name ds)
    (hnone : (if before.isEmpty then none else digitsAfter? separator rest) = none) :
    IsFirstCut separator (before.reverse ++ rest) before.length name ds :=
  ⟨h.toIsCut, Nat.le_of_succ_le h.least_le, fun name' ds' h' hl =>
    h.length_le name' ds' h' (h'.length_gt hnone hl)⟩

/-- The search finds the first cut from where it stands, and misses none. -/
theorem cutName?_spec {before : Text} (rest : Text) (hbefore : '\n' ∉ before) :
    match cutName? separator before rest with
    | some (name, ds) =>
      IsFirstCut separator (before.reverse ++ rest) before.length name ds
    | none =>
      ∀ name ds, IsCut separator (before.reverse ++ rest) name ds → name.length < before.length := by
  induction rest generalizing before with
  | nil =>
    intro name ds h
    have hlength := congrArg List.length h.stem_eq
    have hds := List.length_pos_iff.mpr h.digits_ne
    simp only [List.length_append, List.length_reverse, List.length_nil] at hlength
    omega
  | cons c rest ih =>
    rw [cutName?]
    split
    · rename_i name ds heq
      split at heq
      · rename_i ds' hhere
        obtain ⟨rfl, rfl⟩ := Prod.mk.inj (Option.some.inj heq)
        exact isFirstCut_here hbefore hhere
      · rename_i hhere
        split at heq
        · cases heq
        · rename_i hc
          have hfirst := @ih (c :: before) (by simp [Ne.symm hc, hbefore])
          rw [heq, List.reverse_cons, List.append_assoc] at hfirst
          exact hfirst.here hhere
    · rename_i heq
      intro name ds h
      split at heq
      · cases heq
      · rename_i hhere
        by_contra hl
        have hgt := h.length_gt hhere (Nat.le_of_not_lt hl)
        split at heq
        · rename_i hc
          exact h.oneLine (hc ▸ h.mem_name hgt)
        · rename_i hc
          have hnone := @ih (c :: before) (by simp [Ne.symm hc, hbefore])
          rw [heq, List.reverse_cons, List.append_assoc] at hnone
          exact absurd (hnone name ds h) (Nat.not_lt.mpr hgt)

/-- A cut with a name that is not longer than that of any other. -/
def IsShortestCut (separator stem name ds : Text) : Prop :=
  IsCut separator stem name ds ∧
    ∀ name' ds', IsCut separator stem name' ds' → name.length ≤ name'.length

theorem isShortestCut_of_cutName? (h : cutName? separator [] stem = some (name, ds)) :
    IsShortestCut separator stem name ds := by
  have hfirst := @cutName?_spec separator [] stem (by simp)
  rw [h] at hfirst
  exact ⟨hfirst.toIsCut, fun name' ds' h' => hfirst.length_le name' ds' h' (Nat.zero_le _)⟩

theorem not_isCut_of_cutName? (h : cutName? separator [] stem = none) :
    ¬ IsCut separator stem name ds := by
  have hnone := @cutName?_spec separator [] stem (by simp)
  rw [h] at hnone
  exact fun hcut => absurd (hnone name ds hcut) (Nat.not_lt_zero _)

theorem IsShortestCut.unique (h : IsShortestCut separator stem name ds)
    (h' : IsShortestCut separator stem name' ds') : name = name' ∧ ds = ds' := by
  have hl := Nat.le_antisymm (h.2 _ _ h'.1) (h'.2 _ _ h.1)
  have heq := h.1.stem_eq.symm.trans h'.1.stem_eq
  rw [List.append_assoc, List.append_assoc] at heq
  obtain ⟨rfl, hrest⟩ := List.append_inj heq hl
  exact ⟨rfl, List.append_cancel_left hrest⟩

theorem cutName?_eq_some :
    cutName? separator [] stem = some (name, ds) ↔ IsShortestCut separator stem name ds := by
  refine ⟨isShortestCut_of_cutName?, fun h => ?_⟩
  cases hcut : cutName? separator [] stem with
  | none => exact absurd h.1 (not_isCut_of_cutName? hcut)
  | some cut =>
    obtain ⟨rfl, rfl⟩ := (isShortestCut_of_cutName? hcut).unique h
    rfl

/-- Behind the last character that is no digit nothing is left to choose. -/
theorem cut_unique_of_last {u v : Text} {c : Char} (hc : Number.isDigit c = false)
    (hv : ∀ d ∈ v, Number.isDigit d = true) (hds : ∀ d ∈ ds, Number.isDigit d = true)
    (hds' : ∀ d ∈ ds', Number.isDigit d = true)
    (h : name ++ (u ++ c :: v) ++ ds = name' ++ (u ++ c :: v) ++ ds') : name = name' ∧ ds = ds' := by
  have hrun : ∀ name ds : Text, (∀ d ∈ ds, Number.isDigit d = true) →
      (name ++ (u ++ c :: v) ++ ds).reverse.takeWhile Number.isDigit = (v ++ ds).reverse := by
    intro name ds hds
    have hall : ∀ d ∈ (v ++ ds).reverse, Number.isDigit d = true := by
      simpa [or_imp, forall_and] using ⟨hds, hv⟩
    have hcut : (name ++ (u ++ c :: v) ++ ds).reverse =
        (v ++ ds).reverse ++ c :: (name ++ u).reverse := by simp
    rw [hcut, List.takeWhile_append_of_pos hall, List.takeWhile_cons_of_neg (by simp [hc]),
      List.append_nil]
  have htail := (hrun name ds hds).symm.trans ((congrArg _ (congrArg _ h)).trans (hrun name' ds' hds'))
  obtain rfl := List.append_cancel_left (List.reverse_inj.mp htail)
  exact ⟨List.append_cancel_right (List.append_cancel_right h), rfl⟩

theorem exists_last_nondigit (h : ∃ c ∈ separator, Number.isDigit c = false) :
    ∃ u c v, separator = u ++ c :: v ∧ Number.isDigit c = false ∧
      ∀ d ∈ v, Number.isDigit d = true := by
  induction separator with
  | nil => simp at h
  | cons a rest ih =>
    by_cases hrest : ∃ c ∈ rest, Number.isDigit c = false
    · obtain ⟨u, c, v, rfl, hc, hv⟩ := ih hrest
      exact ⟨a :: u, c, v, rfl, hc, hv⟩
    · obtain ⟨c, hmem, hc⟩ := h
      rcases List.mem_cons.mp hmem with rfl | hmem
      · exact ⟨[], c, rest, rfl, hc, by simpa using hrest⟩
      · exact absurd ⟨c, hmem, hc⟩ hrest

theorem IsCut.unique (hsep : ∃ c ∈ separator, Number.isDigit c = false)
    (h : IsCut separator stem name ds) (h' : IsCut separator stem name' ds') :
    name = name' ∧ ds = ds' := by
  obtain ⟨u, c, v, rfl, hc, hv⟩ := exists_last_nondigit hsep
  exact cut_unique_of_last hc hv h.digits h'.digits (h.stem_eq.symm.trans h'.stem_eq)

theorem IsCut.isShortest (hsep : ∃ c ∈ separator, Number.isDigit c = false)
    (h : IsCut separator stem name ds) : IsShortestCut separator stem name ds :=
  ⟨h, fun _ _ h' => Nat.le_of_eq (congrArg List.length (h.unique hsep h').1)⟩

theorem splitFragmentName_of_shortest (h : IsShortestCut separator stem name ds) :
    splitFragmentName separator stem =
      if Number.digitLimit < ds.length then .error (.longNumeral ds.length)
      else .ok (some (name, Number.ofDigits ds)) := by
  rw [splitFragmentName, cutName?_eq_some.mpr h]

theorem splitFragmentName_eq_none :
    splitFragmentName separator stem = .ok none ↔ ∀ name ds, ¬ IsCut separator stem name ds := by
  cases hcut : cutName? separator [] stem with
  | none =>
    simp only [splitFragmentName, hcut, true_iff]
    exact fun _ _ => not_isCut_of_cutName? hcut
  | some cut =>
    have h := isShortestCut_of_cutName? hcut
    rw [splitFragmentName_of_shortest h]
    refine ⟨fun hnone => ?_, fun hnot => absurd h.1 (hnot _ _)⟩
    split at hnone <;> cases hnone

theorem splitFragmentName_eq_some {n : Nat} :
    splitFragmentName separator stem = .ok (some (name, n)) ↔
      ∃ ds, IsShortestCut separator stem name ds ∧ ds.length ≤ Number.digitLimit ∧
        Number.ofDigits ds = n := by
  constructor
  · intro h
    cases hcut : cutName? separator [] stem with
    | none => simp [splitFragmentName, hcut] at h
    | some cut =>
      have hshort := isShortestCut_of_cutName? hcut
      rw [splitFragmentName_of_shortest hshort] at h
      split at h
      · cases h
      · rename_i hlimit
        obtain ⟨rfl, rfl⟩ := Prod.mk.inj (Option.some.inj (Except.ok.inj h))
        exact ⟨cut.2, hshort, Nat.le_of_not_lt hlimit, rfl⟩
  · rintro ⟨ds, hshort, hlimit, rfl⟩
    rw [splitFragmentName_of_shortest hshort, if_neg (Nat.not_lt.mpr hlimit)]

/-- Where the separator is not all digits, a name and a number are read from a stem exactly if it is
cut into them, and it is so in one way at most. A stem without a cut has neither, and one with a
number over the limit is refused. Where there are several cuts the shortest name counts. -/
theorem splitFragmentName_decodes (separator stem : Text) :
    ((∃ c ∈ separator, Number.isDigit c = false) →
      (∀ name n, splitFragmentName separator stem = .ok (some (name, n)) ↔
        ∃ ds, IsCut separator stem name ds ∧ ds.length ≤ Number.digitLimit ∧
          Number.ofDigits ds = n) ∧
      (∀ name ds name' ds', IsCut separator stem name ds → IsCut separator stem name' ds' →
        name = name' ∧ ds = ds')) ∧
    (splitFragmentName separator stem = .ok none ↔ ∀ name ds, ¬ IsCut separator stem name ds) ∧
    ∀ name ds, IsShortestCut separator stem name ds →
      splitFragmentName separator stem =
        if Number.digitLimit < ds.length then .error (.longNumeral ds.length)
        else .ok (some (name, Number.ofDigits ds)) := by
  refine ⟨fun hsep => ⟨fun name n => ?_, fun _ _ _ _ h h' => h.unique hsep h'⟩,
    splitFragmentName_eq_none, fun _ _ h => splitFragmentName_of_shortest h⟩
  rw [splitFragmentName_eq_some]
  exact exists_congr fun ds => and_congr_left fun _ => ⟨And.left, fun h => h.isShortest hsep⟩

theorem splitFragmentName_decodes_nested :
    (∃ c ∈ "-".toList, Number.isDigit c = false) ∧
      splitFragmentName "-".toList "PART-1-02".toList = .ok (some ("PART-1".toList, 2)) := by
  have hsep : ∃ c ∈ "-".toList, Number.isDigit c = false := ⟨'-', by decide, by decide⟩
  obtain ⟨hread, -⟩ := (splitFragmentName_decodes "-".toList "PART-1-02".toList).1 hsep
  have hcut : IsCut "-".toList "PART-1-02".toList "PART-1".toList "02".toList :=
    ⟨by decide, by decide, by decide, by decide, List.all_eq_true.mp (by decide)⟩
  exact ⟨hsep, (hread _ _).mpr ⟨_, hcut, by decide, by decide⟩⟩

def overlongStem : Text := "A-".toList ++ List.replicate 4301 '9'

theorem isCut_overlongStem :
    IsCut "-".toList overlongStem "A".toList (List.replicate 4301 '9') := by
  refine ⟨rfl, by decide, by decide, ?_, fun c hc => ?_⟩
  · rw [Ne, List.replicate_eq_nil_iff]
    decide
  · obtain ⟨-, rfl⟩ := List.mem_replicate.mp hc
    decide

/-- Without a cut into a name and a number that can be read, a stem may still be refused. -/
theorem overlong_number_refused :
    (∃ c ∈ "-".toList, Number.isDigit c = false) ∧
      ¬ (splitFragmentName "-".toList overlongStem = .ok none ↔
        ¬ ∃ name ds, IsCut "-".toList overlongStem name ds ∧ ds.length ≤ Number.digitLimit) := by
  have hsep : ∃ c ∈ "-".toList, Number.isDigit c = false := ⟨'-', by decide, by decide⟩
  refine ⟨hsep, fun hiff => ?_⟩
  have hnone := hiff.mpr fun ⟨name, ds, hcut, hlimit⟩ => by
    obtain ⟨-, rfl⟩ := hcut.unique hsep isCut_overlongStem
    rw [List.length_replicate] at hlimit
    exact absurd hlimit (by decide)
  exact splitFragmentName_eq_none.mp hnone _ _ isCut_overlongStem

end PartProgram
