import PartProgram.Text.Basic

/-! # The order of texts

The order in which texts are sorted is linear, so a list of texts has one sorted form
however its members stood before.
-/
namespace PartProgram.Text

variable {s t u : Text}

theorem notAfter_total (s t : Text) : (notAfter s t || notAfter t s) = true := by
  induction s generalizing t with
  | nil => simp [notAfter]
  | cons c s ih =>
    cases t with
    | nil => simp [notAfter]
    | cons d t =>
      by_cases h : c = d
      · subst h
        simpa [notAfter] using ih t
      · have hne : c.toNat ≠ d.toNat := fun heq => h (Char.toNat_inj.mp heq)
        simp only [notAfter, if_neg h, if_neg (Ne.symm h), Bool.or_eq_true, decide_eq_true_eq]
        omega

theorem notAfter_antisymm (h : notAfter s t = true) (h' : notAfter t s = true) : s = t := by
  induction s generalizing t with
  | nil =>
    cases t with
    | nil => rfl
    | cons d t => cases h'
  | cons c s ih =>
    cases t with
    | nil => cases h
    | cons d t =>
      by_cases heq : c = d
      · subst heq
        rw [notAfter, if_pos rfl] at h h'
        rw [ih h h']
      · rw [notAfter, if_neg heq, decide_eq_true_eq] at h
        rw [notAfter, if_neg (Ne.symm heq), decide_eq_true_eq] at h'
        omega

theorem notAfter_trans (h : notAfter s t = true) (h' : notAfter t u = true) :
    notAfter s u = true := by
  induction s generalizing t u with
  | nil => rfl
  | cons a s ih =>
    cases t with
    | nil => cases h
    | cons b t =>
      cases u with
      | nil => cases h'
      | cons c u =>
        by_cases hab : a = b
        · subst hab
          by_cases hac : a = c
          · subst hac
            rw [notAfter, if_pos rfl] at h h' ⊢
            exact ih h h'
          · rw [notAfter, if_neg hac] at h' ⊢
            exact h'
        · rw [notAfter, if_neg hab, decide_eq_true_eq] at h
          have hlt : a.toNat < c.toNat := by
            by_cases hbc : b = c
            · exact hbc ▸ h
            · rw [notAfter, if_neg hbc, decide_eq_true_eq] at h'
              omega
          have hac : a ≠ c := fun heq => absurd hlt (by rw [heq]; exact Nat.lt_irrefl _)
          rw [notAfter, if_neg hac, decide_eq_true_eq]
          exact hlt

theorem pairwise_sorted (l : List Text) :
    (l.mergeSort notAfter).Pairwise fun a b => notAfter a b = true :=
  @List.pairwise_mergeSort _ notAfter (fun _ _ _ => notAfter_trans) notAfter_total l

theorem pairwise_sorted_strict {l : List Text} (h : l.Nodup) :
    (l.mergeSort notAfter).Pairwise fun a b => notAfter b a = false := by
  have hnodup : (l.mergeSort notAfter).Nodup := (List.mergeSort_perm l notAfter).nodup_iff.mpr h
  refine ((pairwise_sorted l).and hnodup).imp fun ⟨hle, hne⟩ => ?_
  rw [Bool.eq_false_iff]
  exact fun hge => hne (notAfter_antisymm hle hge)

theorem sorted_eq_of_perm {l l' : List Text} (h : l.Perm l') :
    l.mergeSort notAfter = l'.mergeSort notAfter := by
  refine List.Perm.eq_of_pairwise (fun a b _ _ hab hba => notAfter_antisymm hab hba)
    (pairwise_sorted l) (pairwise_sorted l') ?_
  exact (List.mergeSort_perm l _).trans (h.trans (List.mergeSort_perm l' _).symm)

end PartProgram.Text
