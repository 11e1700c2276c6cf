import PartProgram.Files.Disk
import PartProgram.Proofs.Action.Refusals
import PartProgram.Proofs.Files.Changed

/-! # Steps on a disk

What each step on a file tree needs to succeed and what it leaves behind. All but
three of them only read.
-/
namespace PartProgram.FileTree

open PartProgram.Action
open Text (Bytes)

variable {t t' : FileTree} {p : Path} {place : Place} {c : Bytes} {I : FileTree → Prop}

/-- A path leads to a file, which stands at the place and has the content. -/
structure HoldsFile (t : FileTree) (p : Path) (place : Place) (c : Bytes) : Prop where
  plain : p.holdsNull = false
  walk : t.walk .content p = .ok place
  node : t.node? place = some (.file c)

theorem readsOnly_locate (aim : Aim) (p : Path) : (locate aim p).ReadsOnly := by
  unfold locate
  split
  · exact readsOnly_throw_bind _ _
  · refine readsOnly_get.bind fun t => ?_
    split
    · exact readsOnly_pure _
    · exact readsOnly_throw _

theorem locate_yields {aim : Aim} :
    (locate aim p).Yields t place t' ↔
      p.holdsNull = false ∧ t.walk aim p = .ok place ∧ t' = t := by
  unfold locate
  cases hp : p.holdsNull with
  | true => simp
  | false =>
    simp only [Bool.false_eq_true, if_false, yields_bind, yields_get]
    rw [true_and]
    constructor
    · rintro ⟨_, _, ⟨rfl, rfl⟩, h⟩
      split at h
      · rename_i hwalk
        obtain ⟨rfl, rfl⟩ := yields_pure.mp h
        exact ⟨hwalk, rfl⟩
      · exact absurd h yields_throw
    · rintro ⟨hwalk, rfl⟩
      refine ⟨t', t', ⟨rfl, rfl⟩, ?_⟩
      rw [hwalk]
      exact yields_pure.mpr ⟨rfl, rfl⟩

theorem readsOnly_find (p : Path) : (find p).ReadsOnly := by
  refine readsOnly_get.bind fun t => ?_
  split
  · exact readsOnly_pure _
  · exact readsOnly_throw _

theorem find_yields {node : Option Node} :
    (find p).Yields t node t' ↔ t.look p = .ok node ∧ t' = t := by
  simp only [find, yields_bind, yields_get]
  constructor
  · rintro ⟨_, _, ⟨rfl, rfl⟩, h⟩
    split at h
    · rename_i hlook
      obtain ⟨rfl, rfl⟩ := yields_pure.mp h
      exact ⟨hlook, rfl⟩
    · exact absurd h yields_throw
  · rintro ⟨hlook, rfl⟩
    refine ⟨t', t', ⟨rfl, rfl⟩, ?_⟩
    rw [hlook]
    exact yields_pure.mpr ⟨rfl, rfl⟩

theorem find_result : ((find p).run t).result =
    (t.look p).mapError fun cause => Fault.file cause p.text := by
  rw [find, readsOnly_get.result_bind]
  dsimp only [Bind.bind, Except.bind, run_get]
  cases t.look p <;> rfl

theorem look_eq_some {node : Node} :
    t.look p = .ok (some node) ↔
      p.holdsNull = false ∧ ∃ place, t.walk .content p = .ok place ∧ t.node? place = some node := by
  unfold look
  cases hp : p.holdsNull with
  | true => simp
  | false =>
    rw [if_neg (by simp)]
    cases hw : t.walk .content p with
    | ok place => simp
    | error cause => cases cause <;> simp

theorem look_eq_file : t.look p = .ok (some (.file c)) ↔ ∃ place, t.HoldsFile p place c := by
  rw [look_eq_some]
  constructor
  · rintro ⟨hp, place, hw, hn⟩
    exact ⟨place, hp, hw, hn⟩
  · rintro ⟨place, h⟩
    exact ⟨h.plain, place, h.walk, h.node⟩

theorem HoldsFile.unique {place' : Place} {c' : Bytes} (h : t.HoldsFile p place c)
    (h' : t.HoldsFile p place' c') : place = place' ∧ c = c' := by
  obtain rfl : place = place' := Except.ok.inj (h.walk.symm.trans h'.walk)
  obtain rfl : c = c' := Node.file.inj (Option.some.inj (h.node.symm.trans h'.node))
  exact ⟨rfl, rfl⟩

theorem readsOnly_isFile (p : Path) : (Disk.isFile p : Action FileTree Bool).ReadsOnly :=
  (readsOnly_find p).bind fun _ => readsOnly_pure _

theorem readsOnly_isDirectory (p : Path) :
    (Disk.isDirectory p : Action FileTree Bool).ReadsOnly :=
  (readsOnly_find p).bind fun _ => readsOnly_pure _

theorem isFile_yields :
    (Disk.isFile p : Action FileTree Bool).Yields t true t' ↔
      (∃ place c, t.HoldsFile p place c) ∧ t' = t := by
  refine yields_bind.trans ?_
  simp only [find_yields, yields_pure]
  constructor
  · rintro ⟨node, _, ⟨hlook, rfl⟩, htrue, rfl⟩
    split at htrue
    · obtain ⟨place, h⟩ := look_eq_file.mp hlook
      exact ⟨⟨place, _, h⟩, rfl⟩
    · cases htrue
  · rintro ⟨⟨place, c, h⟩, rfl⟩
    exact ⟨_, _, ⟨look_eq_file.mpr ⟨place, h⟩, rfl⟩, rfl, rfl⟩

theorem isDirectory_yields :
    (Disk.isDirectory p : Action FileTree Bool).Yields t true t' ↔
      t.look p = .ok (some .directory) ∧ t' = t := by
  refine yields_bind.trans ?_
  simp only [find_yields, yields_pure]
  constructor
  · rintro ⟨node, _, ⟨hlook, rfl⟩, htrue, rfl⟩
    split at htrue
    · exact ⟨hlook, rfl⟩
    · cases htrue
  · rintro ⟨hlook, rfl⟩
    exact ⟨_, _, ⟨hlook, rfl⟩, rfl, rfl⟩

theorem readsOnly_read (p : Path) : (Disk.read p : Action FileTree Bytes).ReadsOnly := by
  refine (readsOnly_locate _ _).bind fun place => readsOnly_get.bind fun t => ?_
  split
  · exact readsOnly_pure _
  · exact readsOnly_throw _
  · exact readsOnly_throw _

theorem read_yields :
    (Disk.read p : Action FileTree Bytes).Yields t c t' ↔
      (∃ place, t.HoldsFile p place c) ∧ t' = t := by
  have hdef : (Disk.read p : Action FileTree Bytes) = read p := rfl
  rw [hdef, read, yields_bind]
  simp only [locate_yields, yields_bind, yields_get]
  constructor
  · rintro ⟨place, _, ⟨hp, hw, rfl⟩, _, _, ⟨rfl, rfl⟩, h⟩
    split at h
    · rename_i hn
      obtain ⟨rfl, rfl⟩ := yields_pure.mp h
      exact ⟨⟨place, hp, hw, hn⟩, rfl⟩
    · exact absurd h yields_throw
    · exact absurd h yields_throw
  · rintro ⟨⟨place, h⟩, rfl⟩
    refine ⟨place, t', ⟨h.plain, h.walk, rfl⟩, t', t', ⟨rfl, rfl⟩, ?_⟩
    simp only [h.node]
    exact yields_pure.mpr ⟨rfl, rfl⟩

theorem read_result :
    ((Disk.read p : Action FileTree Bytes).run t).result = .ok c ↔
      ∃ place, t.HoldsFile p place c :=
  ⟨fun h => (read_yields.mp (yields_of_result h)).1, fun h => (read_yields.mpr ⟨h, rfl⟩).1⟩

theorem readsOnly_children (p : Path) :
    (Disk.children p : Action FileTree (List Text)).ReadsOnly := by
  refine (readsOnly_locate _ _).bind fun place => readsOnly_get.bind fun t => ?_
  split
  · exact readsOnly_get.bind fun _ => readsOnly_pure _
  · exact readsOnly_throw _
  · exact readsOnly_throw _

theorem children_yields {names : List Text}
    (h : (Disk.children p : Action FileTree (List Text)).Yields t names t') :
    ∃ place, t.walk .content p = .ok place ∧ t.node? place = some .directory ∧
      names = t.children place := by
  have hdef : (Disk.children p : Action FileTree (List Text)) = list p := rfl
  rw [hdef, list, yields_bind] at h
  simp only [locate_yields, yields_bind, yields_get] at h
  obtain ⟨place, _, ⟨-, hw, rfl⟩, _, _, ⟨rfl, rfl⟩, h⟩ := h
  split at h
  · rename_i hn
    simp only [yields_bind, yields_get, yields_pure] at h
    obtain ⟨_, _, ⟨rfl, rfl⟩, rfl, -⟩ := h
    exact ⟨place, hw, hn, rfl⟩
  · exact absurd h yields_throw
  · exact absurd h yields_throw

theorem children_of_directory (hp : p.holdsNull = false) (hw : t.walk .content p = .ok place)
    (hd : t.node? place = some .directory) :
    (Disk.children p : Action FileTree (List Text)).Yields t (t.children place) t := by
  have hdef : (Disk.children p : Action FileTree (List Text)) = list p := rfl
  rw [hdef, list, yields_bind]
  refine ⟨place, t, locate_yields.mpr ⟨hp, hw, rfl⟩, ?_⟩
  rw [yields_bind]
  refine ⟨t, t, yields_get.mpr ⟨rfl, rfl⟩, ?_⟩
  rw [hd]
  exact yields_bind.mpr ⟨t, t, yields_get.mpr ⟨rfl, rfl⟩, yields_pure.mpr ⟨rfl, rfl⟩⟩

theorem readsOnly_resolve (depth : Nat) (p : Path) :
    (Disk.resolve depth p : Action FileTree Path).ReadsOnly := by
  have hdef : (Disk.resolve depth p : Action FileTree Path) = resolved depth p := rfl
  rw [hdef, resolved]
  split
  · exact readsOnly_throw_bind _ _
  · refine readsOnly_get.bind fun t => ?_
    split
    · exact readsOnly_pure _
    · exact readsOnly_throw _

/-- With its links replaced, the path is the other one. -/
def Resolves (t : FileTree) (depth : Nat) (p r : Path) : Prop :=
  p.holdsNull = false ∧ t.resolve depth p = .ok r

theorem Resolves.unique {depth : Nat} {r r' : Path} (h : t.Resolves depth p r)
    (h' : t.Resolves depth p r') : r = r' :=
  Except.ok.inj (h.2.symm.trans h'.2)

theorem resolve_yields {depth : Nat} {r : Path} :
    (Disk.resolve depth p : Action FileTree Path).Yields t r t' ↔
      t.Resolves depth p r ∧ t' = t := by
  have hdef : (Disk.resolve depth p : Action FileTree Path) = resolved depth p := rfl
  rw [hdef, resolved, Resolves]
  cases hp : p.holdsNull with
  | true => simp
  | false =>
    simp only [Bool.false_eq_true, if_false, yields_bind, yields_get]
    rw [true_and]
    constructor
    · rintro ⟨_, _, ⟨rfl, rfl⟩, h⟩
      split at h
      · rename_i hr
        obtain ⟨rfl, rfl⟩ := yields_pure.mp h
        exact ⟨hr, rfl⟩
      · exact absurd h yields_throw
    · rintro ⟨hr, rfl⟩
      refine ⟨t', t', ⟨rfl, rfl⟩, ?_⟩
      rw [hr]
      exact yields_pure.mpr ⟨rfl, rfl⟩

theorem write_yields :
    (Disk.write p c : Action FileTree Unit).Yields t () t' ↔
      ∃ place, p.holdsNull = false ∧ t.walk .filling p = .ok place ∧
        t.node? place ≠ some .directory ∧ t' = t.put place (.file c) := by
  have hdef : (Disk.write p c : Action FileTree Unit) = write p c := rfl
  rw [hdef, write, yields_bind]
  simp only [locate_yields, yields_bind, yields_get]
  constructor
  · rintro ⟨place, _, ⟨hp, hw, rfl⟩, _, _, ⟨rfl, rfl⟩, h⟩
    split at h
    · exact absurd h yields_throw
    · rename_i hn
      exact ⟨place, hp, hw, hn, yields_modify.mp h⟩
  · rintro ⟨place, hp, hw, hn, rfl⟩
    refine ⟨place, t, ⟨hp, hw, rfl⟩, t, t, ⟨rfl, rfl⟩, ?_⟩
    split
    · rename_i hd
      exact absurd hd hn
    · exact yields_modify.mpr rfl

theorem write_refuses {fault : Fault}
    (h : (Disk.write p c : Action FileTree Unit).RefusedFor t fault t') : t' = t := by
  have hdef : (Disk.write p c : Action FileTree Unit) = write p c := rfl
  rw [hdef, write] at h
  rcases refusedFor_bind.mp h with hlocate | ⟨place, t₁, hlocate, hrest⟩
  · exact hlocate.readsOnly (readsOnly_locate _ _)
  · obtain ⟨-, -, rfl⟩ := locate_yields.mp hlocate
    rcases refusedFor_bind.mp hrest with hget | ⟨_, _, hget, hput⟩
    · exact hget.readsOnly readsOnly_get
    · obtain ⟨rfl, rfl⟩ := yields_get.mp hget
      split at hput
      · exact (refusedFor_throw.mp hput).2
      · cases hput.1

theorem preserves_makeDirectory (h : ∀ t place, I t → t.walk .entry p = .ok place →
      t.node? place = none → I (t.put place .directory)) :
    (Disk.makeDirectory p : Action FileTree Unit).Preserves I := by
  have hdef : (Disk.makeDirectory p : Action FileTree Unit) = makeDirectory p := rfl
  rw [hdef, makeDirectory]
  refine preserves_bind_of (readsOnly_locate _ _).preserves fun t place ht hplace => ?_
  obtain ⟨-, hw, heq⟩ := locate_yields.mp hplace
  rw [heq, state_get_bind]
  split
  · exact ht
  · rename_i hn
    exact h t place ht hw hn

theorem remove_yields {node : Node} (hp : p.holdsNull = false) (hw : t.walk .entry p = .ok place)
    (hn : t.node? place = some node) (hd : node ≠ .directory) :
    (Disk.remove p : Action FileTree Unit).Yields t () (t.erase place) := by
  have hdef : (Disk.remove p : Action FileTree Unit) = remove p := rfl
  rw [hdef, remove, yields_bind]
  refine ⟨place, t, locate_yields.mpr ⟨hp, hw, rfl⟩, ?_⟩
  rw [yields_bind]
  refine ⟨t, t, yields_get.mpr ⟨rfl, rfl⟩, ?_⟩
  simp only [hn]
  exact yields_modify.mpr rfl

end PartProgram.FileTree
