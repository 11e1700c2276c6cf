import Mathlib.Data.List.Forall2
import PartProgram.Block.Basic

/-! # What the words of a graph say

A place of the graph shows the text of its word and whether the word is kept as it
stands. Making further words changes neither: it only enters dependents.
-/
namespace PartProgram

open Unicode

/-- The word has this text and is kept as it stands or not; its numbers are read from the text. -/
structure Word.Says (w : Word) (x : Text × Bool) : Prop where
  text : w.text = x.1
  verbatim : w.verbatim = x.2
  numbers : Numbers.read w.rest = .ok w.numbers

theorem Word.says_ofText {x : Text × Bool} {governing : Option WordId} {w : Word}
    (h : Word.ofText x.1 governing x.2 = .ok w) : w.Says x := by
  obtain ⟨address, rest, numbers, htext, hnumbers, rfl⟩ := ofText_eq_ok h
  exact ⟨htext.symm, rfl, hnumbers⟩

def isSequence (x : Text × Bool) : Bool := x.1.head?.any (fun c => upper c = ['N']) && !x.2

theorem Word.Says.isSequence {w : Word} {x : Text × Bool} (h : w.Says x) :
    isSequence x = (decide (w.letter = ['N']) && !w.verbatim) := by
  rw [PartProgram.isSequence, ← h.text, ← h.verbatim]
  rfl

namespace WordGraph

def Shows (g : WordGraph) (id : WordId) (x : Text × Bool) : Prop := ∃ w, g[id]? = some w ∧ w.Says x

variable {g g' g'' : WordGraph} {id : WordId} {x y : Text × Bool}

theorem Shows.lt (h : g.Shows id x) : id < g.size := by
  obtain ⟨w, hw, -⟩ := h
  exact (Array.getElem?_eq_some_iff.mp hw).1

theorem Shows.textOf (h : g.Shows id x) : g.textOf id = x.1 := by
  obtain ⟨w, hw, hs⟩ := h
  simp only [WordGraph.textOf, hw, Option.map_some, Option.getD_some, hs.text]

theorem Shows.unique (h : g.Shows id x) (h' : g.Shows id y) : x = y := by
  obtain ⟨w, hw, hs⟩ := h
  obtain ⟨w', hw', hs'⟩ := h'
  obtain rfl := Option.some.inj (hw.symm.trans hw')
  exact Prod.ext (hs.text.symm.trans hs'.text) (hs.verbatim.symm.trans hs'.verbatim)

/-- Words are made, none is lost and none says anything else. -/
structure Grows (g g' : WordGraph) : Prop where
  size : g.size ≤ g'.size
  shows : ∀ {id : WordId} {x : Text × Bool}, g.Shows id x → g'.Shows id x

theorem Grows.refl (g : WordGraph) : Grows g g := ⟨Nat.le_refl _, fun h => h⟩

theorem Grows.trans (h : Grows g g') (h' : Grows g' g'') : Grows g g'' :=
  ⟨Nat.le_trans h.size h'.size, fun hx => h'.shows (h.shows hx)⟩

theorem Grows.forall₂ (h : Grows g g') {ids : List WordId} {xs : List (Text × Bool)}
    (hx : List.Forall₂ g.Shows ids xs) : List.Forall₂ g'.Shows ids xs :=
  hx.imp fun _ _ => h.shows

theorem exists_shows {ids : List WordId} {xs : List (Text × Bool)}
    (h : List.Forall₂ g.Shows ids xs) : ∀ x ∈ xs, ∃ id, g.Shows id x := by
  induction h with
  | nil => simp
  | cons hx _ ih => exact List.forall_mem_cons.mpr ⟨⟨_, hx⟩, ih⟩

theorem shows_of_mem {ids : List WordId} {xs : List (Text × Bool)}
    (h : List.Forall₂ g.Shows ids xs) : ∀ id ∈ ids, ∃ x ∈ xs, g.Shows id x := by
  induction h with
  | nil => simp
  | @cons id x ids xs hx _ ih =>
    intro i hi
    rcases List.mem_cons.mp hi with rfl | hi
    · exact ⟨x, List.mem_cons_self, hx⟩
    · obtain ⟨y, hy, hshow⟩ := ih i hi
      exact ⟨y, List.mem_cons_of_mem _ hy, hshow⟩

/-- Up to dependents the graph with a new word is the old one with the word at its end. -/
theorem getElem?_register (g : WordGraph) (w : Word) (id : WordId) :
    ∃ f : Word → Word, (g.register w)[id]? = (g.push w)[id]?.map f ∧
      ∀ v, (f v).text = v.text ∧ (f v).verbatim = v.verbatim ∧ (f v).numbers = v.numbers ∧
        (f v).rest = v.rest := by
  unfold register
  split
  · exact ⟨fun v => v, by simp, fun v => ⟨rfl, rfl, rfl, rfl⟩⟩
  · rename_i command _
    rw [Array.getElem?_modify]
    split
    · exact ⟨_, rfl, fun v => ⟨rfl, rfl, rfl, rfl⟩⟩
    · exact ⟨fun v => v, by simp, fun v => ⟨rfl, rfl, rfl, rfl⟩⟩

theorem shows_register {w : Word} (h : Shows (g.push w) id x) : (g.register w).Shows id x := by
  obtain ⟨v, hv, hs⟩ := h
  obtain ⟨f, hf, hsame⟩ := getElem?_register g w id
  obtain ⟨htext, hverbatim, hnumbers, hrest⟩ := hsame v
  refine ⟨f v, by rw [hf, hv, Option.map_some], ?_⟩
  exact ⟨htext.trans hs.text, hverbatim.trans hs.verbatim, by rw [hrest, hnumbers, hs.numbers]⟩

theorem grows_register (g : WordGraph) (w : Word) : Grows g (g.register w) := by
  refine ⟨by rw [size_register]; omega, fun {id x} h => shows_register ?_⟩
  have hlt := h.lt
  obtain ⟨v, hv, hs⟩ := h
  exact ⟨v, by rw [Array.getElem?_push_lt hlt, ← hv, Array.getElem?_eq_getElem hlt], hs⟩

theorem shows_register_size {w : Word} (h : w.Says x) : (g.register w).Shows g.size x :=
  shows_register ⟨w, Array.getElem?_push_size, h⟩

end WordGraph

def addressOf (t : Text) : Text := (t.head?.map upper).getD []

theorem Word.Says.letter {w : Word} {x : Text × Bool} (h : w.Says x) : w.letter = addressOf x.1 := by
  rw [← h.text]
  rfl

namespace WordGraph

variable {g : WordGraph} {ids : List WordId} {xs : List (Text × Bool)}

theorem Shows.letterOf {id : WordId} {x : Text × Bool} (h : g.Shows id x) :
    g.letterOf id = addressOf x.1 := by
  obtain ⟨w, hw, hs⟩ := h
  rw [WordGraph.letterOf, hw]
  exact hs.letter

theorem map_letterOf (h : List.Forall₂ g.Shows ids xs) :
    ids.map g.letterOf = xs.map (addressOf ·.1) := by
  induction h with
  | nil => rfl
  | cons hx _ ih => rw [List.map_cons, List.map_cons, hx.letterOf, ih]

theorem says_filterMap (h : List.Forall₂ g.Shows ids xs) :
    List.Forall₂ Word.Says (ids.filterMap (g[·]?)) xs := by
  induction h with
  | nil => exact .nil
  | cons hx _ ih =>
    obtain ⟨w, hw, hs⟩ := hx
    rw [List.filterMap_cons, hw]
    exact .cons hs ih

theorem exists_says {ws : List Word} (h : List.Forall₂ Word.Says ws xs) :
    ∀ x ∈ xs, ∃ w ∈ ws, w.Says x := by
  induction h with
  | nil => simp
  | cons hs _ ih =>
    refine List.forall_mem_cons.mpr ⟨⟨_, List.mem_cons_self, hs⟩, fun x hx => ?_⟩
    obtain ⟨w, hw, hs⟩ := ih x hx
    exact ⟨w, List.mem_cons_of_mem _ hw, hs⟩

theorem map_letter {ws : List Word} (h : List.Forall₂ Word.Says ws xs) :
    ws.map Word.letter = xs.map (addressOf ·.1) := by
  induction h with
  | nil => rfl
  | cons hs _ ih => rw [List.map_cons, List.map_cons, hs.letter, ih]

theorem any_letterOf (h : List.Forall₂ g.Shows ids xs) (letter : Text) :
    (ids.any fun id => g.letterOf id = letter) = xs.any fun x => addressOf x.1 = letter := by
  induction h with
  | nil => rfl
  | cons hx _ ih => rw [List.any_cons, List.any_cons, hx.letterOf, ih]

theorem find?_textOf {f : WordId → Bool} {f' : Text × Bool → Bool}
    (h : List.Forall₂ g.Shows ids xs) (hf : ∀ id x, g.Shows id x → f id = f' x) :
    (ids.find? f).map g.textOf = (xs.find? f').map Prod.fst := by
  induction h with
  | nil => rfl
  | cons hx _ ih =>
    rw [List.find?_cons, List.find?_cons, hf _ _ hx]
    split
    · rw [Option.map_some, Option.map_some, hx.textOf]
    · exact ih

theorem find?_letterOf (h : List.Forall₂ g.Shows ids xs) (letter : Text) :
    (ids.find? fun id => g.letterOf id = letter).map g.textOf =
      (xs.find? fun x => addressOf x.1 = letter).map Prod.fst :=
  find?_textOf h fun _ _ hx => by rw [hx.letterOf]

end WordGraph

end PartProgram
