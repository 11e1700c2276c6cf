import PartProgram.Proofs.Files.Grounded

/-! # Trees listed in another order

What a path leads to depends on the entries of a tree and not on the order in which they
are listed; a directory has the same names in each.
-/
namespace PartProgram.FileTree

variable {t t' : FileTree} {aim : Aim} {place : Place}

/-- The same entries, listed in another order. -/
structure Relists (t t' : FileTree) : Prop where
  entries : t'.entries.Perm t.entries
  current : t'.current = t.current

theorem lookup_eq_some_of_nodup {l : List (Place × Node)} (h : (l.map Prod.fst).Nodup) {q : Place}
    {node : Node} : l.lookup q = some node ↔ (q, node) ∈ l := by
  refine ⟨mem_of_lookup, fun hmem => ?_⟩
  obtain ⟨pre, post, rfl⟩ := List.append_of_mem hmem
  refine List.lookup_eq_some_iff.mpr ⟨pre, post, rfl, fun e he => ?_⟩
  rw [List.map_append, List.map_cons] at h
  have hne := (List.nodup_append.mp h).2.2 e.1 (List.mem_map_of_mem he) q (by simp)
  simpa using Ne.symm hne

theorem Relists.node?_eq (h : Relists t t') (ht : t.WellFormed) (q : Place) :
    t'.node? q = t.node? q := by
  by_cases hq : q = []
  · subst hq
    rfl
  · have hnodup : (t'.entries.map Prod.fst).Nodup :=
      (h.entries.map Prod.fst).nodup_iff.mpr ht.nodup
    rw [node?_of_ne hq, node?_of_ne hq]
    ext node
    rw [lookup_eq_some_of_nodup hnodup, lookup_eq_some_of_nodup ht.nodup, h.entries.mem_iff]

theorem descend_eq_of_nodes (h : ∀ q, t'.node? q = t.node? q) (place : Place) (names : List Text) :
    descend t' aim place names = descend t aim place names := by
  induction names generalizing place with
  | nil => rfl
  | cons name rest ih => simp only [descend, h, ih]

theorem walkFrom_eq_of_nodes (h : ∀ q, t'.node? q = t.node? q) (links : Nat) (place : Place)
    (names : List Text) : walkFrom t' aim links place names = walkFrom t aim links place names := by
  induction links generalizing place names with
  | zero => rw [walkFrom_eq, walkFrom_eq, descend_eq_of_nodes h]
  | succ links ih => simp only [walkFrom_eq _ _ (links + 1), descend_eq_of_nodes h, ih]

theorem Relists.walk_eq (h : Relists t t') (ht : t.WellFormed) (p : Path) :
    t'.walk aim p = t.walk aim p := by
  rw [walk, walk, origin, origin, h.current, walkFrom_eq_of_nodes (h.node?_eq ht)]

theorem Relists.look_eq (h : Relists t t') (ht : t.WellFormed) (p : Path) :
    t'.look p = t.look p := by
  simp only [look, h.walk_eq ht, h.node?_eq ht]

theorem Relists.children_perm (h : Relists t t') (place : Place) :
    (t'.children place).Perm (t.children place) := h.entries.filterMap _

end PartProgram.FileTree
