import PartProgram.Unicode.Case

/-! # Capitals

The upper case of a character, if that is one character, is its own upper case: no run
of the table leads to a character that another run moves on or that is expanded.
-/
namespace PartProgram.Unicode

namespace CaseRun

/-- The code points that a run moves. -/
def Moves (r : CaseRun) (n : Nat) : Prop :=
  r.first ≤ n ∧ n ≤ r.last ∧ (n - r.first) % r.stride = 0

def target (r : CaseRun) (n : Nat) : Nat := (n + r.shift).toNat

/-- No code point that the run leads to stands in the span from `low` to `high`. Comparing numbers
keeps this quick to evaluate. -/
def misses (r : CaseRun) (low high : Nat) : Bool :=
  Nat.blt high (r.target r.first) || Nat.blt (r.target r.last) low

/-- Where one run leads between the code points of the other, it leads to none of them. -/
def passes (r s : CaseRun) : Bool :=
  r.misses s.first s.last ||
    (Nat.beq s.stride 2 && (Nat.beq r.stride 2 || Nat.beq r.first r.last) &&
      Nat.beq ((r.target r.first + s.first) % 2) 1)

variable {r s : CaseRun} {n : Nat}

theorem Moves.not_misses (h : r.Moves n) {low high : Nat} (hlow : low ≤ r.target n)
    (hhigh : r.target n ≤ high) : r.misses low high = false := by
  obtain ⟨hfirst, hlast, -⟩ := h
  simp only [target] at hlow hhigh
  rw [Bool.eq_false_iff]
  simp only [misses, target, ne_eq, Bool.or_eq_true, Nat.blt_eq]
  omega

theorem Moves.not_moves (h : r.Moves n) (hr : 0 ≤ r.first + r.shift) (hp : r.passes s = true) :
    ¬ s.Moves (r.target n) := by
  rintro ⟨hfirst, hlast, hstep⟩
  rw [passes, h.not_misses hfirst hlast, Bool.false_or] at hp
  simp only [Bool.and_eq_true, Bool.or_eq_true, Nat.beq_eq] at hp
  obtain ⟨⟨hstride, hr'⟩, hodd⟩ := hp
  obtain ⟨hlow, hhigh, hmod⟩ := h
  have heven : (n - r.first) % 2 = 0 := by
    rcases hr' with hr' | hr'
    · rwa [hr'] at hmod
    · rw [Nat.le_antisymm (hr' ▸ hhigh) hlow, Nat.sub_self]
  rw [hstride] at hstep
  simp only [target] at hfirst hstep hodd
  omega

end CaseRun

theorem shiftIn_eq_self {runs : List CaseRun} {n : Nat} (h : ∀ r ∈ runs, ¬ r.Moves n) :
    shiftIn n runs = n := by
  induction runs with
  | nil => rfl
  | cons r runs ih =>
    obtain ⟨hr, hruns⟩ := List.forall_mem_cons.mp h
    rw [shiftIn]
    split
    · rfl
    · rename_i hfirst
      rw [if_neg fun hmoves => hr ⟨Nat.le_of_not_lt hfirst, hmoves⟩, ih hruns]

theorem shiftIn_cases (runs : List CaseRun) (n : Nat) :
    shiftIn n runs = n ∨ ∃ r ∈ runs, r.Moves n ∧ shiftIn n runs = r.target n := by
  induction runs with
  | nil => exact .inl rfl
  | cons r runs ih =>
    rw [shiftIn]
    split
    · exact .inl rfl
    · rename_i hfirst
      split
      · rename_i hmoves
        exact .inr ⟨r, List.mem_cons_self, ⟨Nat.le_of_not_lt hfirst, hmoves⟩, rfl⟩
      · exact ih.imp_right fun ⟨s, hs, h⟩ => ⟨s, List.mem_cons_of_mem _ hs, h⟩

theorem upperRuns_pass : ∀ r ∈ upperRuns, 0 ≤ r.first + r.shift ∧
    (∀ s ∈ upperRuns, r.passes s = true) ∧ ∀ e ∈ upperExpansions, r.misses e.1 e.1 = true := by
  have hall : (upperRuns.all fun r => decide (0 ≤ r.first + r.shift) && (upperRuns.all r.passes &&
      upperExpansions.all fun e => r.misses e.1 e.1)) = true := by decide +kernel
  simpa only [List.all_eq_true, Bool.and_eq_true, decide_eq_true_eq] using hall

theorem upperExpansions_several : ∀ e ∈ upperExpansions, e.2.length ≠ 1 := by decide

theorem upper_nul : upper '\x00' = ['\x00'] := by decide

theorem upper_upper {c d : Char} (h : upper c = [d]) : upper d = [d] := by
  have hupper := h
  rw [upper] at h
  split at h
  · rename_i expansion hlookup
    obtain ⟨front, back, htable, -⟩ := List.lookup_eq_some_iff.mp hlookup
    have hmem : (c.toNat, expansion) ∈ upperExpansions := by simp [htable]
    have hlength := congrArg List.length h
    rw [List.length_map] at hlength
    exact absurd hlength (upperExpansions_several _ hmem)
  · obtain rfl := List.singleton_inj.mp h
    rcases shiftIn_cases upperRuns c.toNat with hsame | ⟨r, hr, hmoves, htarget⟩
    · rw [hsame, Char.ofNat_toNat] at hupper ⊢
      exact hupper
    · obtain ⟨hnonneg, hruns, hexpansions⟩ := upperRuns_pass r hr
      have hstays : shiftIn (r.target c.toNat) upperRuns = r.target c.toNat :=
        shiftIn_eq_self fun s hs => hmoves.not_moves hnonneg (hruns s hs)
      have hlookup : upperExpansions.lookup (r.target c.toNat) = none := by
        rw [List.lookup_eq_none_iff]
        intro e he
        rw [bne_iff_ne]
        intro heq
        have hmisses := hmoves.not_misses (Nat.le_of_eq heq.symm) (Nat.le_of_eq heq)
        rw [hexpansions e he] at hmisses
        cases hmisses
      rw [htarget]
      by_cases hvalid : (r.target c.toNat).isValidChar
      · have htoNat : (Char.ofNat (r.target c.toNat)).toNat = r.target c.toNat := by
          rw [Char.ofNat, dif_pos hvalid]
          rfl
        rw [upper, htoNat, hlookup, hstays]
      · have hnul : Char.ofNat (r.target c.toNat) = '\x00' := by
          rw [Char.ofNat, dif_neg hvalid]
          rfl
        rw [hnul, upper_nul]

end PartProgram.Unicode
