import PartProgram.Proofs.Batch.Partition
import PartProgram.Proofs.Files.Relisted

/-! # The search of a directory

A directory is searched name by name, in the order of the names. It is found to be
partitioned into groups, or refused for two fragments with one number, just if no entry
that cannot be looked at is met first.
-/
namespace PartProgram

open PartProgram.Action FileTree Unicode

variable {t t' : FileTree} {directory p q x : Path} {extension separator program : Text}
  {index : Nat} {place : Place}

def FileTree.HasEntry (t : FileTree) (directory p : Path) : Prop :=
  ∃ place, t.walk .content directory = .ok place ∧ ∃ name ∈ t.children place, p = directory.child name

/-- A file of the directory with the extension, letter case aside, whose stem is cut into the name of
a program and a number. -/
structure FileTree.IsFragment (t : FileTree) (directory : Path) (extension separator : Text) (p : Path)
    (program : Text) (index : Nat) : Prop where
  listed : t.HasEntry directory p
  file : ∃ c, t.look p = .ok (some (.file c))
  suffix : lowerText p.suffix = lowerText extension
  cut : splitFragmentName separator p.stem = .ok (some (program, index))

def FileTree.Clash (t : FileTree) (directory : Path) (extension separator : Text) (p q : Path) :
    Prop :=
  p ≠ q ∧ ∃ program index, t.IsFragment directory extension separator p program index ∧
    t.IsFragment directory extension separator q program index

def sortOf (t : FileTree) (extension separator : Text) : Sorting := fun p =>
  match t.look p with
  | .error cause => .error (.file cause p.text)
  | .ok (some (.file _)) =>
    if lowerText p.suffix = lowerText extension then splitFragmentName separator p.stem
    else .ok none
  | .ok _ => .ok none

theorem sortOf_eq_some : sortOf t extension separator p = .ok (some (program, index)) ↔
    (∃ c, t.look p = .ok (some (.file c))) ∧ lowerText p.suffix = lowerText extension ∧
      splitFragmentName separator p.stem = .ok (some (program, index)) := by
  rw [sortOf]
  rcases t.look p with cause | _ | node
  · simp
  · simp
  · cases node with
    | file c =>
      dsimp only
      split <;> simp_all
    | directory => simp
    | link target => simp

theorem Text.length_le_encode (s : Text) : s.length ≤ (Text.encode s).length := by
  induction s with
  | nil => exact Nat.le_refl 0
  | cons c s ih =>
    have hc : 1 ≤ (Text.encodeChar c).length := by
      unfold Text.encodeChar
      dsimp only
      split
      · simp
      · split
        · simp
        · split <;> simp
    rw [Text.encode, List.flatMap_cons, List.length_append, ← Text.encode, List.length_cons]
    omega

theorem splitFragmentName_of_short (separator : Text) (h : isLong nameLimit p.name = false) :
    ∃ found, splitFragmentName separator p.stem = .ok found := by
  rw [splitFragmentName]
  split
  · exact ⟨_, rfl⟩
  · rename_i name ds hcut
    have hds := (isShortestCut_of_cutName? hcut).1.length_lt
    have hstem := congrArg List.length (Path.cutName_append p.name)
    have hname := Text.length_le_encode p.name
    rw [isLong, decide_eq_false_iff_not, nameLimit] at h
    rw [List.length_append] at hstem
    rw [Path.stem] at hds
    rw [if_neg (by rw [Number.digitLimit]; omega)]
    exact ⟨_, rfl⟩

theorem sortOf_eq_error (ht : t.WellFormed) (hd : t.look directory = .ok (some .directory))
    (hp : t.HasEntry directory p) {fault : Fault} :
    sortOf t extension separator p = .error fault ↔
      ∃ cause, t.look p = .error cause ∧ fault = .file cause p.text := by
  obtain ⟨place, hw, name, hname, rfl⟩ := hp
  rw [sortOf]
  cases hlook : t.look (directory.child name) with
  | error cause => simp [eq_comm]
  | ok found =>
    refine ⟨fun h => ?_, by simp⟩
    split at h
    · rename_i hcause
      cases hcause
    · rename_i c hfile
      obtain ⟨file, hfile⟩ := look_eq_file.mp (hlook.trans hfile)
      obtain ⟨-, place', hw', hd⟩ := look_eq_some.mp hd
      obtain rfl : place = place' := Except.ok.inj (hw.symm.trans hw')
      have hshort := (entryOf_of_holds ht hw hd hname hfile).isName.short
      rw [← Disk.name_child directory name] at hshort
      obtain ⟨cut, hcut⟩ := splitFragmentName_of_short separator hshort
      split at h
      · rw [hcut] at h
        cases h
      · cases h
    · cases h

namespace Disk

theorem isFragmentFile_result :
    ((isFragmentFile extension p : Action FileTree Bool).run t).result =
      match t.look p with
      | .error cause => .error (.file cause p.text)
      | .ok (some (.file _)) => .ok (lowerText p.suffix = lowerText extension)
      | .ok _ => .ok false := by
  have hfile : (isFile p : Action FileTree Bool) = find p >>= _ := rfl
  rw [isFragmentFile, (readsOnly_isFile p).result_bind, hfile, (readsOnly_find p).result_bind,
    find_result]
  rcases t.look p with cause | _ | node
  · rfl
  · rfl
  · cases node <;> rfl

theorem gather_result {groups : List Group} :
    ((gather (isFragmentFile extension) separator groups p :
      Action FileTree (List Group)).run t).result =
        Group.collect (sortOf t extension separator) groups p := by
  rw [gather, ((takesFiles_isFragmentFile extension).reads p).result_bind,
    isFragmentFile_result, Group.collect, sortOf]
  rcases t.look p with cause | _ | node
  · rfl
  · rfl
  · cases node with
    | directory => rfl
    | link target => rfl
    | file c =>
      dsimp only
      by_cases hsuffix : lowerText p.suffix = lowerText extension
      · rw [if_pos hsuffix, decide_eq_true hsuffix]
        change ((if true = true then _ else _ : Action FileTree (List Group)).run t).result = _
        rw [if_pos rfl, (readsOnly_ofExcept _).result_bind]
        cases splitFragmentName separator p.stem with
        | error fault => rfl
        | ok cut =>
          cases cut with
          | none => rfl
          | some fragment =>
            obtain ⟨name, index⟩ := fragment
            have hcut : ((ofExcept (.ok (some (name, index))) :
                Action FileTree (Option (Text × Nat))).run t).result = .ok (some (name, index)) := rfl
            rw [hcut]
            dsimp only [Bind.bind, Except.bind]
            cases Group.enter name index p groups <;> rfl
      · rw [if_neg hsuffix, decide_eq_false hsuffix]
        rfl

def sortedPaths (t : FileTree) (directory : Path) (place : Place) : List Path :=
  ((t.children place).mergeSort Text.notAfter).map directory.child

theorem mem_sortedPaths (hw : t.walk .content directory = .ok place) :
    p ∈ sortedPaths t directory place ↔ t.HasEntry directory p := by
  rw [sortedPaths, List.mem_map, HasEntry, hw]
  simp only [Except.ok.injEq, exists_eq_left', List.mem_mergeSort, eq_comm (b := p)]

theorem pairwise_sortedPaths (ht : t.WellFormed) :
    (sortedPaths t directory place).Pairwise Path.Precedes := by
  refine List.pairwise_map.mpr ((Text.pairwise_sorted_strict (ht.children_nodup place)).imp ?_)
  intro a b h
  rwa [Path.Precedes, name_child, name_child]

theorem findGroups_result (hp : directory.holdsNull = false)
    (hw : t.walk .content directory = .ok place) (hd : t.node? place = some .directory) :
    ((findGroups directory extension separator : Action FileTree (List Group)).run t).result =
      (sortedPaths t directory place).foldlM (Group.collect (sortOf t extension separator)) [] := by
  have hreads : ∀ groups p, (gather (isFragmentFile extension) separator groups p :
      Action FileTree (List Group)).ReadsOnly :=
    readsOnly_gather (takesFiles_isFragmentFile extension)
  have hall : ∀ ps : List Path, (ps.foldlM (gather (isFragmentFile extension) separator) [] :
      Action FileTree (List Group)).ReadsOnly := fun ps => readsOnly_iff.mpr fun _ =>
    Preserves.foldlM fun groups p _ => (hreads groups p).preserves
  have hthere : (isDirectory directory : Action FileTree Bool).Yields t true t :=
    isDirectory_yields.mpr ⟨look_eq_some.mpr ⟨hp, place, hw, hd⟩, rfl⟩
  rw [findGroups, findGroupsBy, (readsOnly_isDirectory directory).result_bind, hthere.1]
  change ((if true = true then _ else _ : Action FileTree (List Group)).run t).result = _
  rw [if_pos rfl, (readsOnly_children directory).result_bind, (children_of_directory hp hw hd).1]
  change ((((sortedPaths t directory place).foldlM
    (gather (isFragmentFile extension) separator) []) >>= fun groups => _ :
      Action FileTree (List Group)).run t).result = _
  rw [(hall _).result_bind, ReadsOnly.foldlM_result hreads]
  simp only [gather_result]
  cases (sortedPaths t directory place).foldlM
    (Group.collect (sortOf t extension separator)) [] <;> rfl

/-- Listed in another order, the directory is searched to the same end. -/
theorem findGroups_relisted (h : Relists t t') (ht : t.WellFormed)
    (hd : t.look directory = .ok (some .directory)) :
    ((findGroups directory extension separator : Action FileTree (List Group)).run t').result =
      ((findGroups directory extension separator : Action FileTree (List Group)).run t).result := by
  obtain ⟨hp, place, hw, hplace⟩ := look_eq_some.mp hd
  have hpaths : sortedPaths t' directory place = sortedPaths t directory place := by
    rw [sortedPaths, sortedPaths, Text.sorted_eq_of_perm (h.children_perm place)]
  have hsort : sortOf t' extension separator = sortOf t extension separator := by
    funext p
    rw [sortOf, sortOf, h.look_eq ht]
  rw [findGroups_result hp hw hplace,
    findGroups_result hp ((h.walk_eq ht directory).trans hw) ((h.node?_eq ht place).trans hplace),
    hpaths, hsort]

end Disk

/-- The search of the directory is refused for two fragments with one number just if there are two;
if not, it finds the fragments arranged. The order in which the tree lists its entries is nothing
to it. -/
structure Grouped (t : FileTree) (directory : Path) (extension separator : Text) : Prop where
  refused : (∃ cause, ((Disk.findGroups directory extension separator :
      Action FileTree (List Group)).run t).result = .error (.grouping cause)) ↔
    ∃ p q, t.Clash directory extension separator p q
  found : (¬ ∃ p q, t.Clash directory extension separator p q) →
    ∃ groups, ((Disk.findGroups directory extension separator :
        Action FileTree (List Group)).run t).result = .ok groups ∧
      Arranged (t.IsFragment directory extension separator) groups
  relisted : ∀ t', Relists t t' →
    ((Disk.findGroups directory extension separator : Action FileTree (List Group)).run t').result =
      ((Disk.findGroups directory extension separator : Action FileTree (List Group)).run t).result

section
variable (hmem : ∀ p, p ∈ Disk.sortedPaths t directory place ↔ t.HasEntry directory p)
include hmem

theorem isFragment_eq : t.IsFragment directory extension separator =
    Among (sortOf t extension separator) (Disk.sortedPaths t directory place) := by
  funext p program index
  rw [Among, sortOf_eq_some, hmem]
  refine propext ⟨fun h => ⟨h.listed, h.file, h.suffix, h.cut⟩, ?_⟩
  rintro ⟨hlisted, hfile, hsuffix, hcut⟩
  exact ⟨hlisted, hfile, hsuffix, hcut⟩

theorem clash_eq : t.Clash directory extension separator =
    Clashing (sortOf t extension separator) (Disk.sortedPaths t directory place) := by
  funext p q
  rw [Clash, isFragment_eq hmem, Clashing]

theorem grouped_iff_partitions (ht : t.WellFormed) (hd : t.look directory = .ok (some .directory)) :
    Grouped t directory extension separator ↔
      Partitions (sortOf t extension separator) (Disk.sortedPaths t directory place)
        ((Disk.findGroups directory extension separator :
          Action FileTree (List Group)).run t).result := by
  constructor
  · rintro ⟨hrefused, hfound, -⟩
    rw [clash_eq hmem] at hrefused hfound
    rw [isFragment_eq hmem] at hfound
    exact ⟨hrefused, hfound⟩
  · rintro ⟨hrefused, hfound⟩
    rw [← clash_eq hmem] at hrefused hfound
    rw [← isFragment_eq hmem] at hfound
    exact ⟨hrefused, hfound, fun t' ht' => Disk.findGroups_relisted ht' ht hd⟩

theorem clashesBefore_iff (ht : t.WellFormed) (hd : t.look directory = .ok (some .directory)) :
    ClashesBefore (sortOf t extension separator) (Disk.sortedPaths t directory place) ↔
      ∀ p, t.HasEntry directory p → (∃ cause, t.look p = .error cause) →
        ∃ q r, t.Clash directory extension separator q r ∧ q.Precedes p ∧ r.Precedes p := by
  rw [ClashesBefore, clash_eq hmem]
  refine forall_congr' fun p => ?_
  rw [hmem]
  refine imp_congr_right fun hp => ?_
  simp only [sortOf_eq_error ht hd hp, exists_comm (α := Fault), exists_and_left, exists_eq,
    and_true]

end

/-- The directory is grouped exactly if two files with one number of one program stand before each
entry that the file system refuses to look at. -/
theorem grouped_iff (ht : t.WellFormed) (hd : t.look directory = .ok (some .directory)) :
    Grouped t directory extension separator ↔
      ∀ p, t.HasEntry directory p → (∃ cause, t.look p = .error cause) →
        ∃ q r, t.Clash directory extension separator q r ∧ q.Precedes p ∧ r.Precedes p := by
  obtain ⟨hplain, place, hw, hplace⟩ := look_eq_some.mp hd
  have hmem : ∀ p, p ∈ Disk.sortedPaths t directory place ↔ t.HasEntry directory p :=
    fun p => Disk.mem_sortedPaths hw
  have horder : (Disk.sortedPaths t directory place).Pairwise Path.Precedes :=
    Disk.pairwise_sortedPaths ht
  have hfault : ∀ p ∈ Disk.sortedPaths t directory place, ∀ cause,
      sortOf t extension separator p ≠ .error (.grouping cause) := by
    intro p hp cause hgrouping
    obtain ⟨_, -, hfile⟩ := (sortOf_eq_error ht hd ((hmem p).mp hp)).mp hgrouping
    cases hfile
  have hcollects : Collects (sortOf t extension separator) (Disk.sortedPaths t directory place)
      ((Disk.findGroups directory extension separator :
        Action FileTree (List Group)).run t).result := by
    rw [Disk.findGroups_result hplain hw hplace]
    exact collects horder
  rw [grouped_iff_partitions hmem ht hd, ← clashesBefore_iff hmem ht hd]
  exact ⟨hcollects.clashesBefore horder hfault, hcollects.partitions horder⟩

/-- Numbers of one digit and of two, and a file whose name has none. -/
def numberedTree : FileTree where
  entries := [(["PART-10.nc".toList], .file []), (["PART-2.nc".toList], .file []),
    (["README.nc".toList], .file [])]

theorem grouped_numbered :
    numberedTree.WellFormed ∧ numberedTree.look {} = .ok (some .directory) ∧
      Grouped numberedTree {} ".nc".toList "-".toList := by
  have ht : numberedTree.WellFormed := by decide +kernel
  have hd : numberedTree.look {} = .ok (some .directory) := by decide +kernel
  have hlook : ∀ name ∈ numberedTree.children [], (numberedTree.look (Path.child {} name)).isOk := by
    decide +kernel
  refine ⟨ht, hd, (grouped_iff ht hd).mpr fun p hp hcause => ?_⟩
  obtain ⟨place, hw, name, hname, rfl⟩ := hp
  obtain rfl : place = [] := Except.ok.inj (hw.symm.trans (by decide +kernel))
  obtain ⟨cause, hcause⟩ := hcause
  have hok := hlook name hname
  rw [hcause] at hok
  cases hok

/-- A fragment, and a link whose target is too long for a name. -/
def unreadableTree : FileTree where
  entries := [(["PART-0.nc".toList], .file []), (["notes.txt".toList], .link (List.replicate 256 'a'))]

/-- The search ends at the link, although no two fragments have one number. -/
theorem fragment_not_found :
    unreadableTree.WellFormed ∧ unreadableTree.look {} = .ok (some .directory) ∧
      ¬ Grouped unreadableTree {} ".nc".toList "-".toList := by
  have hnames : (unreadableTree.children []).mergeSort Text.notAfter =
      ["PART-0.nc".toList, "notes.txt".toList] := List.mergeSort_of_pairwise (by decide +kernel)
  have hresult : ((Disk.findGroups {} ".nc".toList "-".toList :
      Action FileTree (List Group)).run unreadableTree).result =
        .error (.file .nameTooLong "notes.txt".toList) := by
    have hw : unreadableTree.walk .content {} = .ok [] := by decide +kernel
    rw [Disk.findGroups_result (by decide +kernel) hw rfl, Disk.sortedPaths, hnames]
    decide +kernel
  refine ⟨by decide +kernel, by decide +kernel, fun hgrouped => ?_⟩
  by_cases hclash : ∃ p q, unreadableTree.Clash {} ".nc".toList "-".toList p q
  · obtain ⟨cause, hrefused⟩ := hgrouped.refused.mpr hclash
    rw [hresult] at hrefused
    cases hrefused
  · obtain ⟨groups, hfound, -⟩ := hgrouped.found hclash
    rw [hresult] at hfound
    cases hfound

end PartProgram
