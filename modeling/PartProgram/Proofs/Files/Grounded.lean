import PartProgram.Proofs.Files.Disk
import PartProgram.Proofs.Text.Pieces
import Mathlib.Data.List.Nodup
import Mathlib.Logic.Function.Iterate

/-! # Trees as they are found

A tree in which every entry stands in a directory, once, under a name that a name
can be. Walks through such a tree end at a directory or below one, so what a disk
makes or fills stands in a directory again.
-/
namespace PartProgram.FileTree

open PartProgram.Action
open Text (Bytes)

variable {t t' : FileTree} {place found : Place} {names : List Text} {n : Nat} {aim : Aim}

structure WellFormed (t : FileTree) : Prop where
  nodup : (t.entries.map Prod.fst).Nodup
  above : ∀ e ∈ t.entries, t.node? e.1.dropLast = some .directory
  named : ∀ e ∈ t.entries, ∀ name ∈ e.1, staysAt name = false ∧ isUp name = false ∧ '/' ∉ name
  current : t.node? t.current = some .directory

instance (t : FileTree) : Decidable t.WellFormed :=
  decidable_of_iff ((t.entries.map Prod.fst).Nodup ∧
      (∀ e ∈ t.entries, t.node? e.1.dropLast = some .directory) ∧
      (∀ e ∈ t.entries, ∀ name ∈ e.1, staysAt name = false ∧ isUp name = false ∧ '/' ∉ name) ∧
      t.node? t.current = some .directory)
    ⟨fun ⟨h₁, h₂, h₃, h₄⟩ => ⟨h₁, h₂, h₃, h₄⟩, fun h => ⟨h.nodup, h.above, h.named, h.current⟩⟩

theorem WellFormed.grounded (h : t.WellFormed) : t.Grounded := by
  refine ⟨fun q hq => ?_, h.current⟩
  by_cases hnil : q = []
  · rw [hnil]
    rfl
  · rw [node?_of_ne hnil] at hq
    exact h.above _ (mem_of_lookup hq)

theorem WellFormed.child (h : t.WellFormed) {name : Text} (hname : name ∈ t.children place) :
    staysAt name = false ∧ isUp name = false ∧ '/' ∉ name := by
  obtain ⟨⟨q, node⟩, he, hq⟩ := List.mem_filterMap.mp hname
  dsimp only at hq
  split at hq
  · exact h.named _ he name (List.mem_of_getLast? hq)
  · cases hq

theorem WellFormed.children_nodup (h : t.WellFormed) (place : Place) :
    (t.children place).Nodup := by
  have hmap : t.children place =
      (t.entries.map Prod.fst).filterMap fun q => if q.dropLast = place then q.getLast? else none := by
    rw [List.filterMap_map]
    rfl
  rw [hmap]
  refine List.Nodup.filterMap (fun q q' name hq hq' => ?_) h.nodup
  have hcut : ∀ q : Place, name ∈ (if q.dropLast = place then q.getLast? else none) →
      q = place ++ [name] := by
    intro q hq
    split at hq
    · rename_i hplace
      rw [← hplace, List.dropLast_append_getLast? name hq]
    · cases hq
  rw [hcut q hq, hcut q' hq']

theorem namesOf_eq_singleton {name : Text} (h : '/' ∉ name) : namesOf name = [name] :=
  Text.splitOn_of_notMem h

/-- A directory, or a place in one. -/
def Stands (t : FileTree) (place : Place) : Prop :=
  t.node? place = some .directory ∨
    ∃ directory name, place = directory ++ [name] ∧ t.node? directory = some .directory

/-- A walk stopped at such a place, or at a link in a directory. -/
def Halts (t : FileTree) : Halt → Prop
  | .at found => t.Stands found
  | .link directory _ _ => t.node? directory = some .directory

theorem descend_halts (hg : t.Grounded) (hd : t.node? place = some .directory) {halt : Halt}
    (h : descend t aim place names = .ok halt) : t.Halts halt := by
  have hdescends := descends t aim place names
  generalize descend t aim place names = found at h hdescends
  induction hdescends with
  | here =>
    cases h
    exact .inl hd
  | stay _ _ ih => exact ih hd h
  | up _ _ _ ih => exact ih (hg.up _ hd) h
  | down _ hnode _ ih => exact ih hnode h
  | last | entry =>
    cases h
    exact .inr ⟨_, _, rfl, hd⟩
  | link =>
    cases h
    exact hd
  | refused => cases h

theorem Walks.stands {links : Nat} (h : Walks t aim found links place names) (hg : t.Grounded)
    (hd : t.node? place = some .directory) : t.Stands found := by
  induction h with
  | stop h => exact descend_halts hg hd h
  | follow h _ ih =>
    have hdirectory : t.node? _ = some .directory := descend_halts hg hd h
    exact ih (node?_originOf hdirectory _)

theorem walk_stands (hg : t.Grounded) {p : Path} (h : t.walk aim p = .ok found) :
    t.Stands found := by
  rw [walk] at h
  split at h
  · cases h
  · exact (walks_of_walkFrom h).stands hg (hg.origin p)

theorem Leads.not_link (hg : t.Grounded) (h : Leads t place names found n)
    (hd : t.node? place = some .directory) (target : Text) :
    t.node? found ≠ some (.link target) := by
  induction h with
  | here place => simp [hd]
  | stay _ _ ih => exact ih hd
  | up _ _ _ ih => exact ih (hg.up _ hd)
  | down _ hd' _ ih => exact ih hd'
  | follow _ _ _ ih => exact ih (node?_originOf hd _)
  | last _ _ hl => exact hl target

theorem AddsDirectories.grounded_put (hg : t.Grounded) (hs : t.Stands place)
    (hnone : t.node? place = none) : (t.put place .directory).Grounded := by
  have hadds := AddsDirectories.put hnone
  have hplace : place ≠ [] := by
    rintro rfl
    cases hnone
  refine ⟨fun q hq => ?_, hadds.node_eq hg.current⟩
  rw [node?_put hplace] at hq
  split at hq
  · rename_i heq
    rcases hs with hd | ⟨directory, name, hdirectory, hd⟩
    · rw [hnone] at hd
      cases hd
    · have hup : q.dropLast = directory := by rw [heq, hdirectory, List.dropLast_concat]
      rw [hup]
      exact hadds.node_eq hd
  · exact hadds.node_eq (hg.up q hq)

theorem Fills.grounded {S : Place → Prop} (h : Fills S t t') (hg : t.Grounded) : t'.Grounded :=
  ⟨fun q hq => h.keepsWays.1.directory _ (hg.up q (h.keepsWays.2.directory q hq)),
    h.current ▸ h.keepsWays.1.directory _ hg.current⟩

/-- Filling the file that a path leads to fills a place that it led to from the start. -/
theorem Fills.write {S : Place → Prop} {p : Path} (h : Fills S t t') (hg : t.Grounded)
    (hw : t'.walk .content p = .ok place) (hd : t'.node? place ≠ some .directory)
    (hS : t.walk .content p = .ok place → S place) (c : Bytes) :
    Fills S t (t'.put place (.file c)) := by
  have hg' := h.grounded hg
  obtain ⟨n, -, hleads⟩ := leads_of_walk (by decide) hw
  have hold : t'.node? place = none ∨ ∃ c, t'.node? place = some (.file c) := by
    cases hnode : t'.node? place with
    | none => exact .inl rfl
    | some node =>
      cases node with
      | file c => exact .inr ⟨c, rfl⟩
      | directory => exact absurd hnode hd
      | link target => exact absurd hnode (hleads.not_link hg' (hg'.origin p) target)
  exact h.trans (.put (hS (h.keepsWays.2.walk hw)) hold)

section
variable {I : FileTree → Prop}

theorem makeDirectoryOnce_preserves {p : Path}
    (h : (Disk.makeDirectory p : Action FileTree Unit).Preserves I) :
    (Disk.makeDirectoryOnce p : Action FileTree Unit).Preserves I := by
  refine h.orElse fun fault => ?_
  split
  · exact preserves_throw _
  · refine (readsOnly_isDirectory p).preserves.bind fun isThere => ?_
    split
    · exact preserves_pure _
    · exact preserves_throw _

theorem preserves_makeDirectories (depth : Nat) (p : Path)
    (h : ∀ k, (Disk.makeDirectory (Path.parent^[k] p) : Action FileTree Unit).Preserves I) :
    (Disk.makeDirectories depth p : Action FileTree Unit).Preserves I := by
  induction depth generalizing p with
  | zero => exact preserves_throw _
  | succ depth ih =>
    refine (h 0).orElse fun fault => ?_
    split
    · split
      · exact preserves_throw _
      · exact (ih p.parent fun k => h (k + 1)).bind fun _ => makeDirectoryOnce_preserves (h 0)
    · refine (readsOnly_isDirectory p).preserves.bind fun isThere => ?_
      split
      · exact preserves_pure _
      · exact preserves_throw _

end

/-- Whatever becomes of it, making directories makes nothing else. -/
theorem makeDirectories_grounded (depth : Nat) (p : Path) (t : FileTree) :
    (Disk.makeDirectories depth p : Action FileTree Unit).Preserves
      fun t' => AddsDirectories t t' ∧ t'.Grounded := by
  refine preserves_makeDirectories depth p fun k => preserves_makeDirectory ?_
  rintro t' place ⟨hadds, hg⟩ hwalk hnone
  exact ⟨hadds.trans (.put hnone), AddsDirectories.grounded_put hg (walk_stands hg hwalk) hnone⟩

end PartProgram.FileTree
