import PartProgram.Batch.Grouped
import PartProgram.Proofs.Files.Grounded

/-! # Fragments found

The files gathered into groups are entries of the directory, each of them once, that
lead to files.
-/
namespace PartProgram

open PartProgram.Action FileTree
open Text (Bytes)

namespace Group

theorem insertMember_perm (index : Nat) (path : Path) (members : List (Nat × Path)) :
    (insertMember index path members).Perm ((index, path) :: members) := by
  fun_induction insertMember index path members with
  | case1 => rfl
  | case2 => rfl
  | case3 i p rest _ ih => exact (ih.cons _).trans (.swap _ _ _)

theorem enter_perm {name : Text} {index : Nat} {path : Path} {groups groups' : List Group}
    (h : enter name index path groups = .ok groups') :
    (groups'.flatMap paths).Perm (path :: groups.flatMap paths) := by
  induction groups generalizing groups' with
  | nil =>
    rw [enter] at h
    obtain rfl := Except.ok.inj h
    rfl
  | cons g rest ih =>
    rw [enter] at h
    split at h
    · split at h
      · cases h
      · obtain rfl := Except.ok.inj h
        rw [List.flatMap_cons, List.flatMap_cons, ← List.cons_append]
        exact ((insertMember_perm index path g.members).map Prod.snd).append_right _
    · cases hrest : enter name index path rest with
      | error cause =>
        rw [hrest] at h
        cases h
      | ok groups =>
        rw [hrest] at h
        obtain rfl := Except.ok.inj h
        rw [List.flatMap_cons, List.flatMap_cons]
        exact ((ih hrest).append_left _).trans List.perm_middle

end Group

namespace FileTree

/-- A name in a directory leads to a file, of itself or by way of links. -/
structure EntryOf (t : FileTree) (directory : Path) (place : Place) (name : Text) (file : Place)
    (c : Bytes) : Prop where
  isName : IsName name
  names : pathNames (directory.child name) = pathNames directory ++ [name]
  above : ∃ n ≤ linkLimit, Leads t (t.origin directory) (pathNames directory) place n
  isDirectory : t.node? place = some .directory
  leads : ∃ n, Leads t place [name] file n
  holds : t.HoldsFile (directory.child name) file c

variable {t t' : FileTree} {directory : Path} {place file : Place} {name : Text} {c : Bytes}

theorem isName_of_leads {n : Nat} (h : Leads t place [name] file n) (hs : staysAt name = false)
    (hu : isUp name = false) : IsName name := by
  cases h with
  | stay hs' => exact absurd hs' (by simp [hs])
  | up _ hu' => exact absurd hu' (by simp [hu])
  | down hn => exact hn
  | follow hn => exact hn
  | last hn => exact hn

theorem origin_child (t : FileTree) (p : Path) (name : Text) : t.origin (p.child name) = t.origin p :=
  rfl

theorem entryOf_of_holds (ht : t.WellFormed) (hw : t.walk .content directory = .ok place)
    (hd : t.node? place = some .directory) (hname : name ∈ t.children place)
    (h : t.HoldsFile (directory.child name) file c) : t.EntryOf directory place name file c := by
  obtain ⟨hs, hu, hslash⟩ := ht.child hname
  have hnames : pathNames (directory.child name) = pathNames directory ++ [name] := by
    simp only [pathNames, Path.child, List.flatMap_append, List.flatMap_cons, List.flatMap_nil,
      List.append_nil, namesOf_eq_singleton hslash]
  obtain ⟨n, hn, habove⟩ := leads_of_walk (by decide) hw
  obtain ⟨k, -, hleads⟩ := leads_of_walk (by decide) h.walk
  rw [hnames, origin_child] at hleads
  obtain ⟨middle, m, l, hmiddle, hlast, -⟩ := hleads.split
  obtain ⟨rfl, -⟩ := habove.unique hmiddle
  exact ⟨isName_of_leads hlast hs hu, hnames, ⟨n, hn, habove⟩, hd, ⟨l, hlast⟩, h⟩

theorem EntryOf.walk_entry_of (h : t.EntryOf directory place name file c) {n : Nat} (hn : n ≤ linkLimit)
    (habove : Leads t' (t'.origin directory) (pathNames directory) place n)
    (hd : t'.node? place = some .directory) :
    t'.walk .entry (directory.child name) = .ok (place ++ [name]) := by
  rw [walk, if_neg (by simp [not_isLong_of_walk h.holds.walk]), h.names, origin_child]
  exact habove.walkEntry hd hn h.isName

theorem EntryOf.walk_entry (h : t.EntryOf directory place name file c) :
    t.walk .entry (directory.child name) = .ok (place ++ [name]) := by
  obtain ⟨n, hn, habove⟩ := h.above
  exact h.walk_entry_of hn habove h.isDirectory

theorem EntryOf.leadsToFile (h : t.EntryOf directory place name file c) :
    t.LeadsToFile (place ++ [name]) file := by
  obtain ⟨n, hn⟩ := h.leads
  exact ⟨place, name, n, c, rfl, hn, h.holds.node⟩

theorem EntryOf.node (h : t.EntryOf directory place name file c) :
    ∃ node, t.node? (place ++ [name]) = some node ∧ node ≠ .directory := by
  obtain ⟨n, hn⟩ := h.leads
  have hnode := h.holds.node
  cases hn with
  | stay hs => exact absurd hs (by simp [h.isName.not_stays])
  | up _ hu => exact absurd hu (by simp [h.isName.not_up])
  | down _ hd hrest =>
    cases hrest
    rw [hd] at hnode
    cases hnode
  | follow _ hl => exact ⟨_, hl, by simp⟩
  | last => exact ⟨_, hnode, by simp⟩

theorem EntryOf.keeps (h : t.EntryOf directory place name file c) (hk : KeepsWays t t') {d : Bytes}
    (hfile : t'.node? file = some (.file d)) : t'.EntryOf directory place name file d := by
  obtain ⟨n, hn, habove⟩ := h.above
  obtain ⟨k, hleads⟩ := h.leads
  exact ⟨h.isName, h.names, ⟨n, hn, origin_eq hk directory ▸ habove.keeps hk⟩,
    hk.directory _ h.isDirectory, ⟨k, hleads.keeps hk⟩, ⟨h.holds.plain, hk.walk h.holds.walk, hfile⟩⟩

/-- Paths of different names in a directory that all lead to files. -/
structure Fragments (t : FileTree) (directory : Path) (place : Place) (names : List Text)
    (paths : List Path) : Prop where
  paths_eq : paths = names.map directory.child
  nodup : names.Nodup
  entry : ∀ name ∈ names, ∃ file c, t.EntryOf directory place name file c

end FileTree

namespace Disk

variable {t t' : FileTree} {isFragment : Path → Action FileTree Bool} {separator : Text}

/-- A test that takes nothing but files for fragments. -/
structure TakesFiles (isFragment : Path → Action FileTree Bool) : Prop where
  reads : ∀ p, (isFragment p).ReadsOnly
  file : ∀ t p t', (isFragment p).Yields t true t' → ∃ place c, t.HoldsFile p place c

theorem takesFiles_isFragmentFile (extension : Text) :
    TakesFiles (isFragmentFile extension) := by
  refine ⟨fun p => (readsOnly_isFile p).bind fun isFile => ?_, fun t p t' h => ?_⟩
  · split <;> exact readsOnly_pure _
  · rw [isFragmentFile, yields_bind] at h
    obtain ⟨isFile, t₁, hfile, h⟩ := h
    cases isFile with
    | true => exact (isFile_yields.mp hfile).1
    | false => simp at h

theorem readsOnly_ofExcept {α : Type} (e : Except Fault α) :
    (Disk.ofExcept e : Action FileTree α).ReadsOnly := by
  cases e with
  | error fault => exact readsOnly_throw fault
  | ok x => exact readsOnly_pure x

theorem readsOnly_gather (hf : TakesFiles isFragment) (groups : List Group) (p : Path) :
    (gather isFragment separator groups p).ReadsOnly := by
  refine (hf.reads p).bind fun takes => ?_
  split
  · refine (readsOnly_ofExcept _).bind fun cut => ?_
    split
    · exact (readsOnly_report _).bind fun _ => readsOnly_pure _
    · split
      · exact readsOnly_pure _
      · exact readsOnly_throw _
  · exact readsOnly_pure _

theorem readsOnly_findGroupsBy (hf : TakesFiles isFragment) (directory : Path) (separator : Text) :
    (findGroupsBy isFragment directory separator).ReadsOnly := by
  have hgather : ∀ paths : List Path, (paths.foldlM (gather isFragment separator) []).ReadsOnly :=
    fun _ => readsOnly_iff.mpr fun _ => Preserves.foldlM fun groups p _ =>
      (readsOnly_gather hf groups p).preserves
  refine (readsOnly_isDirectory directory).bind fun isThere => ?_
  dsimp only
  split
  · exact (readsOnly_children directory).bind fun _ => (hgather _).bind fun _ =>
      (readsOnly_report _).bind fun _ => readsOnly_pure _
  · exact readsOnly_throw_bind _ _

theorem ofExcept_yields {α : Type} {e : Except Fault α} {x : α} :
    (Disk.ofExcept e : Action FileTree α).Yields t x t' ↔ e = .ok x ∧ t' = t := by
  cases e with
  | error fault => simp [Disk.ofExcept]
  | ok y => simp only [Disk.ofExcept, yields_pure, Except.ok.injEq, eq_comm (a := y)]

theorem gather_yields (hf : TakesFiles isFragment) {groups groups' : List Group} {p : Path}
    (h : (gather isFragment separator groups p).Yields t groups' t') :
    t' = t ∧ (groups' = groups ∨ (∃ place c, t.HoldsFile p place c) ∧
      (groups'.flatMap Group.paths).Perm (p :: groups.flatMap Group.paths)) := by
  rw [gather, yields_bind] at h
  obtain ⟨takes, t₁, hfragment, h⟩ := h
  obtain rfl := hfragment.readsOnly (hf.reads p)
  cases takes with
  | false =>
    obtain ⟨rfl, rfl⟩ := yields_pure.mp h
    exact ⟨rfl, .inl rfl⟩
  | true =>
    simp only [if_true, yields_bind, ofExcept_yields] at h
    obtain ⟨cut, _, ⟨-, rfl⟩, h⟩ := h
    split at h
    · obtain ⟨_, _, hlog, h⟩ := yields_bind.mp h
      obtain rfl := yields_log.mp hlog
      obtain ⟨rfl, rfl⟩ := yields_pure.mp h
      exact ⟨rfl, .inl rfl⟩
    · split at h
      · rename_i henter
        obtain ⟨rfl, rfl⟩ := yields_pure.mp h
        exact ⟨rfl, .inr ⟨hf.file _ _ _ hfragment, Group.enter_perm henter⟩⟩
      · exact absurd h yields_throw

theorem gatherAll_yields (hf : TakesFiles isFragment) {groups groups' : List Group}
    {paths : List Path} (h : (paths.foldlM (gather isFragment separator) groups).Yields t groups' t') :
    t' = t ∧ ∃ kept : List Path, kept.Sublist paths ∧ (∀ p ∈ kept, ∃ place c, t.HoldsFile p place c) ∧
      (groups'.flatMap Group.paths).Perm (kept ++ groups.flatMap Group.paths) := by
  induction paths generalizing groups with
  | nil =>
    obtain ⟨rfl, rfl⟩ := yields_pure.mp h
    exact ⟨rfl, [], .slnil, by simp, .refl _⟩
  | cons p rest ih =>
    rw [List.foldlM_cons, yields_bind] at h
    obtain ⟨groups₁, t₁, hp, h⟩ := h
    obtain ⟨rfl, hstep⟩ := gather_yields hf hp
    obtain ⟨rfl, kept, hsub, hfiles, hperm⟩ := ih h
    rcases hstep with rfl | ⟨hfile, hentered⟩
    · exact ⟨rfl, kept, hsub.cons p, hfiles, hperm⟩
    · refine ⟨rfl, p :: kept, hsub.cons_cons p, List.forall_mem_cons.mpr ⟨hfile, hfiles⟩, ?_⟩
      exact hperm.trans ((hentered.append_left kept).trans List.perm_middle)

theorem name_child (p : Path) (name : Text) : (p.child name).name = name := by
  simp [Path.name, Path.child]

theorem fragments_of_perm (ht : t.WellFormed) {directory : Path} {place : Place}
    {names : List Text} {paths : List Path} (hwalk : t.walk .content directory = .ok place)
    (hd : t.node? place = some .directory) (hnodup : names.Nodup)
    (hchild : ∀ name ∈ names, name ∈ t.children place)
    (hfiles : ∀ p ∈ names.map directory.child, ∃ file c, t.HoldsFile p file c)
    (hperm : paths.Perm (names.map directory.child)) :
    t.Fragments directory place (paths.map Path.name) paths := by
  have hname : ∀ p ∈ paths, directory.child p.name = p := by
    intro p hp
    obtain ⟨name, -, rfl⟩ := List.mem_map.mp (hperm.mem_iff.mp hp)
    rw [name_child]
  have hnames : (paths.map Path.name).Perm names := by
    have hback : (names.map directory.child).map Path.name = names := by
      rw [List.map_map]
      exact List.map_id'' (name_child directory) names
    exact hback ▸ hperm.map Path.name
  refine ⟨?_, hnames.nodup_iff.mpr hnodup, fun name hmem => ?_⟩
  · rw [List.map_map]
    exact ((List.map_congr_left hname).trans (List.map_id _)).symm
  · have hmem' := hnames.mem_iff.mp hmem
    obtain ⟨file, c, hfile⟩ := hfiles _ (List.mem_map_of_mem hmem')
    exact ⟨file, c, entryOf_of_holds ht hwalk hd (hchild name hmem') hfile⟩

/-- The groups found hold entries of the directory that lead to files, each of them once. -/
theorem findGroupsBy_yields (hf : TakesFiles isFragment) (ht : t.WellFormed) {directory : Path}
    {groups : List Group} (h : (findGroupsBy isFragment directory separator).Yields t groups t') :
    t' = t ∧ ∃ place names, t.Fragments directory place names (groups.flatMap Group.paths) := by
  rw [findGroupsBy, yields_bind] at h
  obtain ⟨isThere, t₁, hthere, h⟩ := h
  obtain rfl := hthere.readsOnly (readsOnly_isDirectory directory)
  cases isThere with
  | false => simp at h
  | true =>
    rw [if_pos rfl, yields_bind] at h
    obtain ⟨all, t₂, hchildren, h⟩ := h
    obtain rfl := hchildren.readsOnly (readsOnly_children directory)
    obtain ⟨place, hwalk, hd, rfl⟩ := children_yields hchildren
    rw [yields_bind] at h
    obtain ⟨found, t₃, hgather, h⟩ := h
    obtain ⟨rfl, kept, hsub, hfiles, hperm⟩ := gatherAll_yields hf hgather
    obtain ⟨_, _, hlog, h⟩ := yields_bind.mp h
    obtain rfl := yields_log.mp hlog
    obtain ⟨rfl, rfl⟩ := yields_pure.mp h
    rw [List.flatMap_nil, List.append_nil] at hperm
    obtain ⟨names, hnames, rfl⟩ := List.sublist_map_iff.mp hsub
    have hsorted := List.mergeSort_perm (t'.children place) Text.notAfter
    have hnodup : names.Nodup :=
      hnames.nodup (hsorted.nodup_iff.mpr (ht.children_nodup place))
    have hchild : ∀ name ∈ names, name ∈ t'.children place := fun name hname =>
      hsorted.mem_iff.mp (hnames.subset hname)
    exact ⟨rfl, place, _, fragments_of_perm ht hwalk hd hnodup hchild hfiles hperm⟩

theorem findGroupsBy_of_sorted {directory : Path} {names : List Text} {groups : List Group}
    (hthere : (isDirectory directory : Action FileTree Bool).Yields t true t)
    (hchildren : (children directory : Action FileTree (List Text)).Yields t names t)
    (hsorted : names.Pairwise fun a b => Text.notAfter a b = true)
    (h : ((names.map directory.child).foldlM (gather isFragment separator) []).Yields t groups t) :
    (findGroupsBy isFragment directory separator).Yields t groups t := by
  rw [findGroupsBy, yields_bind]
  refine ⟨true, t, hthere, ?_⟩
  rw [if_pos rfl, yields_bind]
  refine ⟨names, t, hchildren, ?_⟩
  rw [List.mergeSort_of_pairwise hsorted, yields_bind]
  exact ⟨groups, t, h, yields_bind.mpr ⟨(), t, yields_log.mpr rfl, yields_pure.mpr ⟨rfl, rfl⟩⟩⟩

end Disk

end PartProgram
