import PartProgram.Proofs.Files.Grounded

/-! # Directories towards a path

Making directories for a path makes those that it leads to or through. Each of them is
found there afterwards.
-/
namespace PartProgram.FileTree

open PartProgram.Action

variable {t t' : FileTree} {place found : Place} {names : List Text} {p : Path}

/-- A walk that stops, if at a place then at no link. -/
def Halt.NoLink (t : FileTree) : Halt → Prop
  | .at found => ∀ target, t.node? found ≠ some (.link target)
  | .link _ _ _ => True

theorem descend_content {halt : Halt} (h : descend t .entry place names = .ok halt)
    (hl : halt.NoLink t) : descend t .content place names = .ok halt := by
  have hd := descends t .entry place names
  generalize descend t .entry place names = result at h hd
  induction hd with
  | here => exact h
  | stay hs _ ih => rw [descend_stay hs, ih h]
  | up hs hu _ ih => rw [descend_up hs hu, ih h]
  | down hn hnode _ ih => rw [descend_down hn hnode, ih h]
  | last hn hd hnot => rw [descend_last hn hd hnot, h]
  | entry _ hnode =>
    cases h
    exact absurd hnode (hl _)
  | link hn hnode => rw [descend_follow hn hnode (.inr (by decide)) rfl, h]
  | refused => cases h

theorem Walks.content {links : Nat} (h : Walks t .entry found links place names)
    (hl : ∀ target, t.node? found ≠ some (.link target)) :
    Walks t .content found links place names := by
  induction h with
  | stop h => exact .stop (descend_content h hl)
  | follow h _ ih => exact .follow (descend_content h trivial) ih

theorem walk_content_of_entry (h : t.walk .entry p = .ok found)
    (hl : ∀ target, t.node? found ≠ some (.link target)) : t.walk .content p = .ok found := by
  have hshort := not_isLong_of_walk h
  rw [walk, hshort] at h ⊢
  exact ((walks_of_walkFrom h).content hl).walkFrom

/-- Directories were made, those that the path leads to or through, and nothing else changed. -/
structure MakesTowards (p : Path) (t t' : FileTree) : Prop where
  adds : AddsDirectories t t'
  towards : ∀ q, t'.node? q ≠ t.node? q → ∃ k, t'.walk .content (Path.parent^[k] p) = .ok q

theorem MakesTowards.refl (p : Path) (t : FileTree) : MakesTowards p t t :=
  ⟨.refl t, fun _ h => absurd rfl h⟩

theorem MakesTowards.put (h : MakesTowards p t t') {k : Nat}
    (hw : t'.walk .entry (Path.parent^[k] p) = .ok place) (hnone : t'.node? place = none) :
    MakesTowards p t (t'.put place .directory) := by
  have hadds := AddsDirectories.put hnone
  have hw' := walk_content_of_entry hw (by simp [hnone])
  refine ⟨h.adds.trans hadds, fun q hq => ?_⟩
  by_cases hplace : q = place
  · exact ⟨k, hplace ▸ hadds.keepsWays.walk hw'⟩
  · have hsame : (t'.put place .directory).node? q = t'.node? q := by
      rw [node?_put (by rintro rfl; cases hnone), if_neg hplace]
    rw [hsame] at hq
    obtain ⟨j, hj⟩ := h.towards q hq
    exact ⟨j, hadds.keepsWays.walk hj⟩

/-- Whatever becomes of it, making the directories of a path makes no others. -/
theorem makeDirectories_towards (depth : Nat) (p : Path) (t : FileTree) :
    (Disk.makeDirectories depth p : Action FileTree Unit).Preserves
      fun t' => MakesTowards p t t' := by
  refine preserves_makeDirectories depth p fun k => preserves_makeDirectory ?_
  exact fun t' place h hw hnone => h.put hw hnone

end PartProgram.FileTree
