import PartProgram.Proofs.Files.Grounded
import PartProgram.Proofs.Number.Integer

/-! # Paths in normal form

A path that was read from a text is read from its own text as it stands, and so is any
path with another plain name in its place.
-/
namespace PartProgram

namespace Path

open FileTree

variable {p q : Path} {name : Text}

/-- A name as it may stand in a path. -/
structure IsPlain (name : Text) : Prop where
  ne_nil : name ≠ []
  ne_dot : name ≠ ['.']
  no_slash : '/' ∉ name

structure IsNormal (p : Path) : Prop where
  root : p.root = [] ∨ p.root = ['/'] ∨ p.root = ['/', '/']
  names : ∀ name ∈ p.names, IsPlain name

theorem rootOf_cases (s : Text) :
    rootOf s = [] ∨ rootOf s = ['/'] ∨ rootOf s = ['/', '/'] := by
  unfold rootOf
  split <;> simp

theorem isNormal_ofText (s : Text) : (ofText s).IsNormal := by
  refine ⟨rootOf_cases s, fun name hname => ?_⟩
  obtain ⟨hmem, hkept⟩ := List.mem_filter.mp hname
  simp only [Bool.and_eq_true, Bool.not_eq_true', List.isEmpty_eq_false_iff, decide_eq_true_eq]
    at hkept
  exact ⟨hkept.1, hkept.2, Text.mem_splitOn hmem⟩

theorem rootOf_append {root rest : Text} (hroot : root = [] ∨ root = ['/'] ∨ root = ['/', '/'])
    (hrest : rest.head? ≠ some '/') : rootOf (root ++ rest) = root := by
  cases rest with
  | nil => rcases hroot with rfl | rfl | rfl <;> rfl
  | cons c rest =>
    have hc : c ≠ '/' := by simpa using hrest
    rcases hroot with rfl | rfl | rfl <;> simp [rootOf, hc]

theorem splitOn_root {root : Text} (hroot : root = [] ∨ root = ['/'] ∨ root = ['/', '/'])
    (rest : Text) :
    (Text.splitOn '/' (root ++ rest)).filter (fun name => !name.isEmpty && name ≠ ['.']) =
      (Text.splitOn '/' rest).filter fun name => !name.isEmpty && name ≠ ['.'] := by
  rcases hroot with rfl | rfl | rfl
  · rfl
  · rw [List.singleton_append, Text.splitOn_cons_self]
    rfl
  · rw [List.cons_append, Text.splitOn_cons_self, List.singleton_append, Text.splitOn_cons_self]
    rfl

theorem IsNormal.normal_eq (h : p.IsNormal) : p.normal = p := by
  obtain ⟨root, names⟩ := p
  obtain ⟨hroot, hnames⟩ := h
  cases names with
  | nil =>
    rcases hroot with hroot | hroot | hroot
    all_goals
      dsimp only at hroot
      subst hroot
      rfl
  | cons first rest =>
    have htext : (⟨root, first :: rest⟩ : Path).text = root ++ ['/'].intercalate (first :: rest) := by
      simp [text]
    have hsplit : Text.splitOn '/' (['/'].intercalate (first :: rest)) = first :: rest :=
      Text.splitOn_intercalate (by simp) fun name hname => (hnames name hname).no_slash
    have hhead : (['/'].intercalate (first :: rest)).head? ≠ some '/' := by
      obtain ⟨c, tail, rfl⟩ := List.exists_cons_of_ne_nil (hnames first List.mem_cons_self).ne_nil
      have hc : c ≠ '/' := fun heq =>
        (hnames _ List.mem_cons_self).no_slash (heq ▸ List.mem_cons_self)
      cases rest <;> simpa using hc
    have hkeep : (first :: rest).filter (fun name => !name.isEmpty && name ≠ ['.']) = first :: rest :=
      List.filter_eq_self.mpr fun name hname => by
        simp [(hnames name hname).ne_nil, (hnames name hname).ne_dot]
    rw [normal, htext, ofText, rootOf_append hroot hhead, splitOn_root hroot, hsplit, hkeep]

theorem IsNormal.pathNames_eq (h : p.IsNormal) : pathNames p = p.names := by
  have hone : ∀ name ∈ p.names, namesOf name = [name] :=
    fun name hname => namesOf_eq_singleton (h.names name hname).no_slash
  rw [pathNames, List.flatMap_congr hone, List.flatMap_singleton']

theorem IsNormal.child (h : p.IsNormal) (hname : IsPlain name) : (p.child name).IsNormal :=
  ⟨h.root, List.forall_mem_append.mpr ⟨h.names, by simpa using hname⟩⟩

theorem IsNormal.parent (h : p.IsNormal) : p.parent.IsNormal :=
  ⟨h.root, fun name hname => h.names name (List.dropLast_subset _ hname)⟩

end Path

end PartProgram
