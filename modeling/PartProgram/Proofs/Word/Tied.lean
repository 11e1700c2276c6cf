import Mathlib.Data.List.Find
import Mathlib.Data.List.Nodup
import PartProgram.Program.Section
import PartProgram.Proofs.Word.Graph

/-! # Words tied to commands

In a program that was read every word is governed by the last command before it, and
the dependents of a command are the words behind it up to the next command, that one
included. Both are said of a list of words in the order of the program, and both
still hold when one more word is made and put behind them.
-/
namespace PartProgram

open Unicode

variable {α : Type}

theorem cutAfter_concat (p : α → Bool) (l : List α) (a : α) :
    (cutAfter p (l ++ [a])).1 = if l.any p then (cutAfter p l).1 else l ++ [a] := by
  induction l with
  | nil => simp [cutAfter]
  | cons b rest ih =>
    rw [List.cons_append, cutAfter, cutAfter]
    cases hb : p b with
    | true => simp [hb]
    | false =>
      simp only [Bool.false_eq_true, if_false, List.any_cons, hb, Bool.false_or, ih]
      split <;> rfl

theorem cutAfter_of_any_eq_false {p : α → Bool} {l : List α} (h : l.any p = false) :
    (cutAfter p l).1 = l := by
  induction l with
  | nil => rfl
  | cons b rest ih =>
    rw [List.any_cons, Bool.or_eq_false_iff] at h
    simp only [cutAfter, h.1, Bool.false_eq_true, if_false, ih h.2]

theorem cutAfter_congr {p q : α → Bool} {l : List α} (h : ∀ a ∈ l, p a = q a) :
    cutAfter p l = cutAfter q l := by
  induction l with
  | nil => rfl
  | cons b rest ih =>
    rw [cutAfter, cutAfter, h b List.mem_cons_self, ih fun a ha => h a (List.mem_cons_of_mem _ ha)]

def isCommandText (x : Text × Bool) : Bool :=
  x.1.head?.any (fun c => upper c = ['G'] || upper c = ['M']) && !x.2

theorem Word.Says.governs {v : Word} {x : Text × Bool} (h : v.Says x) : v.governs = isCommandText x := by
  rw [isCommandText, ← h.text, ← h.verbatim]
  rfl

namespace WordGraph

def isCommandAt (g : WordGraph) (w : WordId) : Bool := g[w]?.any Word.governs

def inForce (g : WordGraph) (ws : List WordId) : Option WordId := ws.reverse.find? g.isCommandAt

/-- The words up to the first command, that one included. -/
def upToCommand (g : WordGraph) (ws : List WordId) : List WordId := (cutAfter g.isCommandAt ws).1

variable {g g' : WordGraph} {ws pre post : List WordId} {w : WordId}

@[simp] theorem inForce_nil : g.inForce [] = none := rfl

theorem inForce_concat (g : WordGraph) (ws : List WordId) (w : WordId) :
    g.inForce (ws ++ [w]) = if g.isCommandAt w then some w else g.inForce ws := by
  rw [inForce, List.reverse_append, List.reverse_singleton, List.singleton_append,
    List.find?_cons]
  cases g.isCommandAt w <;> rfl

theorem inForce_congr (h : ∀ w ∈ ws, g'.isCommandAt w = g.isCommandAt w) :
    g'.inForce ws = g.inForce ws :=
  List.find?_congr fun w hw => h w (List.mem_reverse.mp hw)

theorem any_isCommandAt_congr (h : ∀ w ∈ ws, g'.isCommandAt w = g.isCommandAt w) :
    ws.any g'.isCommandAt = ws.any g.isCommandAt := by
  induction ws with
  | nil => rfl
  | cons w ws ih =>
    rw [List.any_cons, List.any_cons, h w List.mem_cons_self,
      ih fun i hi => h i (List.mem_cons_of_mem _ hi)]

theorem upToCommand_congr (h : ∀ w ∈ ws, g'.isCommandAt w = g.isCommandAt w) :
    g'.upToCommand ws = g.upToCommand ws := by
  rw [upToCommand, upToCommand, cutAfter_congr h]

theorem upToCommand_concat (g : WordGraph) (ws : List WordId) (w : WordId) :
    g.upToCommand (ws ++ [w]) = if ws.any g.isCommandAt then g.upToCommand ws else ws ++ [w] :=
  cutAfter_concat _ _ _

theorem mem_of_inForce (h : g.inForce ws = some w) : w ∈ ws :=
  List.mem_reverse.mp (List.mem_of_find?_eq_some h)

/-- A word is the last command of words that are all different exactly if it is a command and
none stands behind it. -/
theorem inForce_split (hn : (pre ++ w :: post).Nodup) : g.inForce (pre ++ w :: post) = some w ↔
    g.isCommandAt w = true ∧ post.any g.isCommandAt = false := by
  have hpost : w ∉ post := (List.nodup_cons.mp hn.of_append_right).1
  rw [inForce, List.reverse_append, List.reverse_cons, List.append_assoc, List.find?_append]
  cases hfind : post.reverse.find? g.isCommandAt with
  | some v =>
    have hv : v ∈ post := List.mem_reverse.mp (List.mem_of_find?_eq_some hfind)
    have hne : v ≠ w := fun h => hpost (h ▸ hv)
    have hany : post.any g.isCommandAt = true := List.any_eq_true.mpr ⟨v, hv, List.find?_some hfind⟩
    simp [hne, hany]
  | none =>
    have hany : post.any g.isCommandAt = false := by
      simpa using hfind
    have hpre : ∀ v, pre.reverse.find? g.isCommandAt = some v → v ≠ w := by
      rintro v hv rfl
      have hmem := List.mem_reverse.mp (List.mem_of_find?_eq_some hv)
      exact (List.nodup_append.mp hn).2.2 v hmem v List.mem_cons_self rfl
    rw [Option.none_or, List.singleton_append, List.find?_cons]
    cases hw : g.isCommandAt w with
    | true => simp [hany]
    | false => simpa [hany] using fun h => hpre w h rfl

/-- The words stand in this order: each is governed by the last command before it, and on a command
depend those behind it up to the next. -/
def Tied (g : WordGraph) (ws : List WordId) : Prop :=
  ∀ pre w post, ws = pre ++ w :: post → ∃ v, g[w]? = some v ∧ v.governing = g.inForce pre ∧
    v.dependents.toList = if v.governs then g.upToCommand post else []

theorem tied_nil (g : WordGraph) : g.Tied [] := by
  intro pre w post h
  simp at h

theorem Tied.lt (h : g.Tied ws) (hw : w ∈ ws) : w < g.size := by
  obtain ⟨pre, post, rfl⟩ := List.append_of_mem hw
  obtain ⟨v, hv, -⟩ := h pre w post rfl
  exact (Array.getElem?_eq_some_iff.mp hv).1

theorem getElem?_register_of_lt {v : Word} (hw : w < g.size) :
    (g.register v)[w]? = g[w]?.map fun c =>
      if v.governing = some w then { c with dependents := c.dependents.push g.size } else c := by
  have hpush : (g.push v)[w]? = g[w]? := by
    rw [Array.getElem?_push_lt hw, Array.getElem?_eq_getElem hw]
  unfold register
  split
  · rename_i hnone
    simp [hpush, hnone]
  · rename_i command hsome
    rw [Array.getElem?_modify, hpush, hsome]
    by_cases hc : command = w <;> simp [hc]

theorem getElem?_register_size {v : Word} (hv : ∀ c, v.governing = some c → c < g.size) :
    (g.register v)[g.size]? = some v := by
  unfold register
  split
  · exact Array.getElem?_push_size
  · rename_i command hsome
    rw [Array.getElem?_modify, if_neg (Nat.ne_of_lt (hv command hsome)), Array.getElem?_push_size]

theorem isCommandAt_register_of_lt {v : Word} (hw : w < g.size) :
    (g.register v).isCommandAt w = g.isCommandAt w := by
  rw [isCommandAt, isCommandAt, getElem?_register_of_lt hw]
  cases g[w]? with
  | none => rfl
  | some c =>
    simp only [Option.map_some, Option.any_some]
    split <;> rfl

/-- A new word depends on the last command. So it is behind the words that depend on a command if
that has no other behind it. -/
theorem dependents_push {c : Word} (x : WordId) (hn : (pre ++ w :: post).Nodup) (hc : g[w]? = some c)
    (hdependents : c.dependents.toList = if c.governs then g.upToCommand post else []) :
    (if g.inForce (pre ++ w :: post) = some w then { c with dependents := c.dependents.push x }
      else c).dependents.toList = if c.governs then g.upToCommand (post ++ [x]) else [] := by
  have hcommand : g.isCommandAt w = c.governs := by rw [isCommandAt, hc, Option.any_some]
  rw [upToCommand_concat]
  by_cases hlast : g.inForce (pre ++ w :: post) = some w
  · obtain ⟨hw, hnone⟩ := (inForce_split hn).mp hlast
    rw [hcommand] at hw
    rw [hw, if_pos rfl, upToCommand, cutAfter_of_any_eq_false hnone] at hdependents
    rw [if_pos hlast, hw, if_pos rfl, hnone, Array.toList_push, hdependents]
    rfl
  · rw [if_neg hlast, hdependents]
    cases hgoverns : c.governs with
    | false => rfl
    | true =>
      have hany : post.any g.isCommandAt = true := by
        by_contra hnone
        exact hlast ((inForce_split hn).mpr ⟨hcommand.trans hgoverns, by simpa using hnone⟩)
      simp only [hany, if_true]

theorem Tied.register (h : g.Tied ws) (hn : ws.Nodup) {v : Word}
    (hgoverning : v.governing = g.inForce ws) (hdependents : v.dependents = #[]) : (g.register v).Tied (ws ++ [g.size]) := by
  have hcommand : ∀ i ∈ ws, (g.register v).isCommandAt i = g.isCommandAt i :=
    fun i hi => isCommandAt_register_of_lt (h.lt hi)
  intro pre w post hws
  -- The word in question is the new one itself, or has it at the end of what stands behind.
  rcases List.eq_nil_or_concat post with rfl | ⟨post, x, rfl⟩
  · obtain ⟨rfl, hw⟩ := List.append_inj' hws rfl
    obtain rfl : g.size = w := by simpa using hw
    refine ⟨v, getElem?_register_size fun c hc => ?_, ?_, ?_⟩
    · exact h.lt (mem_of_inForce (hgoverning.symm.trans hc))
    · rw [hgoverning, inForce_congr hcommand]
    · rw [hdependents]
      split <;> rfl
  · rw [List.concat_eq_append, ← List.cons_append, ← List.append_assoc] at hws
    obtain ⟨rfl, hx⟩ := List.append_inj' hws rfl
    obtain rfl : g.size = x := by simpa using hx
    obtain ⟨c, hc, hcgoverning, hcdependents⟩ := h pre w post rfl
    refine ⟨_, by rw [getElem?_register_of_lt (h.lt (by simp)), hc, Option.map_some], ?_, ?_⟩
    · rw [inForce_congr fun i hi => hcommand i (by simp [hi]), ← hcgoverning]
      split <;> rfl
    · have hpost : ∀ i ∈ post, (g.register v).isCommandAt i = g.isCommandAt i :=
        fun i hi => hcommand i (by simp [hi])
      have hup : (g.register v).upToCommand (post ++ [g.size]) = g.upToCommand (post ++ [g.size]) := by
        rw [upToCommand_concat, upToCommand_concat, any_isCommandAt_congr hpost,
          upToCommand_congr hpost]
      have hgoverns : (if g.inForce (pre ++ w :: post) = some w then
          { c with dependents := c.dependents.push g.size } else c).governs = c.governs := by
        split <;> rfl
      rw [hgoverning, List.concat_eq_append, dependents_push g.size hn hc hcdependents, hup, hgoverns]

theorem Shows.isCommandAt {x : Text × Bool} (h : g.Shows w x) : g.isCommandAt w = isCommandText x := by
  obtain ⟨v, hv, hs⟩ := h
  rw [WordGraph.isCommandAt, hv, Option.any_some, hs.governs]

theorem Grows.isCommandAt {x : Text × Bool} (h : Grows g g') (hw : g.Shows w x) :
    g'.isCommandAt w = g.isCommandAt w := by
  rw [(h.shows hw).isCommandAt, hw.isCommandAt]

/-- Words were made in this order, one after the other, and none of them was described. -/
structure Made (g : WordGraph) (ws : List WordId) : Prop where
  tied : g.Tied ws
  nodup : ws.Nodup
  stale : ∀ w ∈ ws, ∀ v, g[w]? = some v → v.description = .stale

theorem Made.register (h : g.Made ws) {v : Word} (hgoverning : v.governing = g.inForce ws)
    (hdependents : v.dependents = #[]) (hstale : v.description = .stale) :
    (g.register v).Made (ws ++ [g.size]) := by
  refine ⟨h.tied.register h.nodup hgoverning hdependents, ?_, fun w hw u hu => ?_⟩
  · refine List.nodup_append.mpr ⟨h.nodup, List.nodup_singleton _, fun a ha b hb => ?_⟩
    obtain rfl := List.mem_singleton.mp hb
    exact Nat.ne_of_lt (h.tied.lt ha)
  · rcases List.mem_append.mp hw with hw | hw
    · rw [getElem?_register_of_lt (h.tied.lt hw), Option.map_eq_some_iff] at hu
      obtain ⟨c, hc, rfl⟩ := hu
      have hstale' := h.stale w hw c hc
      split <;> exact hstale'
    · obtain rfl := List.mem_singleton.mp hw
      rw [getElem?_register_size fun c hc => h.tied.lt (mem_of_inForce (hgoverning.symm.trans hc))] at hu
      exact Option.some.inj hu ▸ hstale

end WordGraph

end PartProgram
