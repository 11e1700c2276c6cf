import PartProgram.Program.Description
import PartProgram.Proofs.Program.Threaded

/-! # Commands and what depends on them

In a program that was read every word is governed by the last command before it, on
its own block or on an earlier one; the dependents of a command are the words behind
it up to the next command, that one included; and the numbers a command takes up in
its phrase are those of the first of these words with the letter in question.
-/
namespace PartProgram

namespace WordGraph

variable {g : WordGraph}

def firstWith (g : WordGraph) (ws : List WordId) (letter : Text) : Option WordId :=
  ws.find? fun w => g[w]?.map Word.letter = some (Unicode.upperText letter)

def firstIntWith (g : WordGraph) (ws : List WordId) (letter : Text) : Option Int :=
  (g.firstWith ws letter).bind fun w => g[w]?.bind Word.int?

theorem dependent?_eq (g : WordGraph) (v : Word) (letter : Text) :
    g.dependent? v letter = g.firstWith v.dependents.toList letter := by
  rw [dependent?, firstWith, Array.find?_toList]

theorem dependentInt?_eq (g : WordGraph) (v : Word) (letter : Text) :
    g.dependentInt? v letter = g.firstIntWith v.dependents.toList letter := by
  rw [dependentInt?, firstIntWith, dependent?_eq]

/-- A word with the words `before` it and `behind` it in the program. -/
structure Stands (g : WordGraph) (before : List WordId) (v : Word) (behind : List WordId) :
    Prop where
  governing : v.governing = g.inForce before
  dependents : v.dependents.toList = if v.governs then g.upToCommand behind else []
  dependent : ∀ letter, g.dependent? v letter =
    if v.governs then g.firstWith (g.upToCommand behind) letter else none
  preparatory : ∀ code, v.governs = true → v.letter = ['G'] → v.int? = some code →
    g.phrase v = preparatoryPhrase code (g.firstIntWith (g.upToCommand behind) ['E'])
  miscellaneous : ∀ code, v.governs = true → v.letter = ['M'] → v.int? = some code →
    g.phrase v = miscellaneousPhrase code (g.firstIntWith (g.upToCommand behind) ['P'])
      (g.firstIntWith (g.upToCommand behind) ['L'])

theorem phrase_preparatory {v : Word} {code : Int} (hv : v.verbatim = false)
    (hletter : v.letter = ['G']) (hcode : v.int? = some code) :
    g.phrase v = preparatoryPhrase code (g.dependentInt? v ['E']) := by
  simp [phrase, hv, hletter, hcode]

theorem phrase_miscellaneous {v : Word} {code : Int} (hv : v.verbatim = false)
    (hletter : v.letter = ['M']) (hcode : v.int? = some code) :
    g.phrase v = miscellaneousPhrase code (g.dependentInt? v ['P']) (g.dependentInt? v ['L']) := by
  simp [phrase, hv, hletter, hcode]

theorem Tied.stands {ws before behind : List WordId} {w : WordId} (h : g.Tied ws)
    (hws : ws = before ++ w :: behind) : ∃ v, g[w]? = some v ∧ g.Stands before v behind := by
  obtain ⟨v, hv, hgoverning, hdependents⟩ := h before w behind hws
  have hrun : v.governs = true → v.dependents.toList = g.upToCommand behind := fun hgoverns => by
    rw [hdependents, if_pos hgoverns]
  have hverbatim : v.governs = true → v.verbatim = false := fun hgoverns => by
    simpa using (Bool.and_eq_true_iff.mp hgoverns).2
  refine ⟨v, hv, hgoverning, hdependents, fun letter => ?_, ?_, ?_⟩
  · rw [dependent?_eq, hdependents]
    split <;> rfl
  · intro code hgoverns hletter hcode
    rw [phrase_preparatory (hverbatim hgoverns) hletter hcode, dependentInt?_eq, hrun hgoverns]
  · intro code hgoverns hletter hcode
    rw [phrase_miscellaneous (hverbatim hgoverns) hletter hcode, dependentInt?_eq, dependentInt?_eq,
      hrun hgoverns]

end WordGraph

namespace Program

end Program

end PartProgram
