import PartProgram.Proofs.Program.Governed
import PartProgram.Proofs.Program.Remembered

/-! # Numbers written into words

A word that is given a number keeps its letter and is read as that number again. It
forgets its phrase, the words it is tied to stay, and no other word changes; what it
said before has no say in it.
-/
namespace PartProgram

open Unicode WordGraph

namespace Program

variable {p p' : Program} {w : WordId} {v v' : Word} {c : Char} {n : Int}

theorem toldWord_of_stale (hw : p.graph[w]? = some v) (hstale : v.description = .stale) :
    p.toldWord w = p.graph.phrase v := by
  rw [toldWord_eq, phraseOf, hw, Option.map_some, Option.map_some, Option.getD_some,
    Option.getD_some, hstale]
  rfl

/-- The word `w`, which was `v`, has the number `n` behind its letter `c` now and is `v'`. What is
told of it next is made from that number, and all else is as it was. -/
structure TakesNumber (p : Program) (w : WordId) (v : Word) (c : Char) (n : Int) (p' : Program)
    (v' : Word) : Prop where
  word : p'.graph[w]? = some v'
  text : v'.text = c :: Number.text n
  letter : v'.letter = [c]
  int : v'.int? = some n
  real : v'.real? = some ⟨decide (n < 0), n.natAbs, 0⟩
  governing : v'.governing = v.governing
  dependents : v'.dependents = v.dependents
  verbatim : v'.verbatim = v.verbatim
  stale : v'.description = .stale
  told : p'.toldWord w = p'.graph.phrase v'
  preparatory : v.verbatim = false → c = 'G' →
    p'.toldWord w = preparatoryPhrase n (p'.graph.dependentInt? v' ['E'])
  miscellaneous : v.verbatim = false → c = 'M' →
    p'.toldWord w =
      miscellaneousPhrase n (p'.graph.dependentInt? v' ['P']) (p'.graph.dependentInt? v' ['L'])
  others : ∀ u ≠ w, p'.graph[u]? = p.graph[u]?
  beside : p' = { p with graph := p'.graph }

theorem takesNumber_modifyWord (hw : p.graph[w]? = some v) (hletter : v.letter = [c]) (n : Int) :
    p.TakesNumber w v c n (p.modifyWord w fun _ => v.withNumber c n) (v.withNumber c n) := by
  have hword := getElem?_modifyWord hw fun _ => v.withNumber c n
  have hletter' := Word.letter_withNumber hletter n
  have htold := toldWord_of_stale hword rfl
  exact {
    word := hword
    text := rfl
    letter := hletter'
    int := rfl
    real := rfl
    governing := rfl
    dependents := rfl
    verbatim := rfl
    stale := rfl
    told := htold
    preparatory := by
      rintro hverbatim rfl
      exact htold.trans (phrase_preparatory hverbatim hletter' rfl)
    miscellaneous := by
      rintro hverbatim rfl
      exact htold.trans (phrase_miscellaneous hverbatim hletter' rfl)
    others := fun u hu => getElem?_modifyWord_of_ne hu _
    beside := rfl }

/-- Any word whose letter is one character takes any number that can be written. It says the number
behind its letter, reads as it, and forgets its phrase, whatever it said and told before; all else
stays as it is. Another number given to it later leaves what giving it that one first would. -/
theorem number_written (hw : p.graph[w]? = some v) (hletter : v.letter = [c])
    (hn : Number.digitCount n ≤ Number.digitLimit) :
    ∃ p' v', (setWordInt w n).Yields p () p' ∧ p.TakesNumber w v c n p' v' ∧
      ∀ m, Number.digitCount m ≤ Number.digitLimit →
        (setWordInt w m).run p' = (setWordInt w m).run p := by
  have hrun := setWordInt_run hw hletter hn
  have htakes := takesNumber_modifyWord hw hletter n
  refine ⟨_, _, ⟨by rw [hrun], by rw [hrun]⟩, htakes, fun m hm => ?_⟩
  rw [setWordInt_run htakes.word htakes.letter hm, setWordInt_run hw hletter hm,
    modifyWord_modifyWord]
  rfl

/-- A call of a subprogram in a small letter, with the count on the next block. It was described
once. -/
def describedCall : Program :=
  ((readLines (["m98 P7", "L2"].map String.toList)).run (start none none)).state.look
    " | ".toList (.word 0)

/-- The call becomes a jump to what was the program called. -/
theorem number_written_call : ∃ v, describedCall.graph[0]? = some v ∧ v.letter = ['M'] ∧
    v.description = .fresh "CALL SUBPROGRAM 7 2 TIMES".toList ∧
    Number.digitCount 99 ≤ Number.digitLimit ∧ Number.digitCount (-60) ≤ Number.digitLimit ∧
    ∃ p' v', (setWordInt 0 99).Yields describedCall () p' ∧
      describedCall.TakesNumber 0 v 'M' 99 p' v' ∧
      p'.toldWord 0 = "LINE JUMP TO 7".toList ∧
      (setWordInt 0 (-60)).run p' = (setWordInt 0 (-60)).run describedCall := by
  have hcall : describedCall.graph[0]?.map (fun v => (v.letter, v.description)) =
      some (['M'], .fresh "CALL SUBPROGRAM 7 2 TIMES".toList) := by decide +kernel
  obtain ⟨v, hv, hsays⟩ := Option.map_eq_some_iff.mp hcall
  obtain ⟨hletter, hdescription⟩ := Prod.mk.inj hsays
  have hn : Number.digitCount 99 ≤ Number.digitLimit := by decide
  have hm : Number.digitCount (-60) ≤ Number.digitLimit := by decide
  obtain ⟨p', v', hset, htakes, hagain⟩ := number_written hv hletter hn
  have htold : ((setWordInt 0 99).run describedCall).state.toldWord 0 = "LINE JUMP TO 7".toList := by
    decide +kernel
  exact ⟨v, hv, hletter, hdescription, hn, hm, p', v', hset, htakes, hset.2 ▸ htold, hagain _ hm⟩

end Program

end PartProgram
