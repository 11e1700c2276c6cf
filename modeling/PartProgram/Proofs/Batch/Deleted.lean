import PartProgram.Batch.Merged
import PartProgram.Proofs.Batch.Grouped
import PartProgram.Proofs.Files.Relisted

/-! # Fragments deleted

Entries of one directory that lead to files can be taken away one after the other:
none of them is on the way to another, so no removal is refused. What was read before is
still read if it is none of them, and neither is anything on the way to it.
-/
namespace PartProgram

open PartProgram.Action FileTree
open Text (Bytes)

namespace FileTree

variable {t t' : FileTree} {R : Place → Prop} {directory : Path} {place file found : Place}
  {name : Text} {names removed : List Text} {c : Bytes} {p : Path} {paths : List Path}

/-- Entries are gone, and nothing else has changed. -/
structure Removes (R : Place → Prop) (t t' : FileTree) : Prop where
  current : t'.current = t.current
  gone : ∀ q, R q → t'.node? q = none
  kept : ∀ q, ¬ R q → t'.node? q = t.node? q

def IsEntry (place : Place) (names : List Text) (q : Place) : Prop :=
  ∃ name ∈ names, q = place ++ [name]

theorem not_isEntry_self (place : Place) (names : List Text) : ¬ IsEntry place names place := by
  rintro ⟨name, -, h⟩
  simpa using congrArg List.length h

theorem EntryOf.file_eq (h : t.EntryOf directory place name file c) {d : Bytes}
    (hd : t.node? (place ++ [name]) = some (.file d)) : file = place ++ [name] := by
  obtain ⟨n, hn⟩ := h.leads
  exact ((leads_last_iff h.isName (by simp [hd]) (by simp [hd])).mp hn).2.1

theorem Removes.lost (hr : Removes (IsEntry place removed) t t')
    (hentry : ∀ name ∈ removed, ∃ file c, t.EntryOf directory place name file c)
    (hfound : ∀ name ∈ removed, ∀ file c, t.EntryOf directory place name file c → found ≠ file)
    (q : Place) (hq : t'.node? q ≠ t.node? q) : ∃ file, LeadsToFile t q file ∧ found ≠ file := by
  obtain ⟨name, hname, rfl⟩ : IsEntry place removed q := by
    by_contra hnot
    exact hq (hr.kept q hnot)
  obtain ⟨file, c, h⟩ := hentry name hname
  exact ⟨file, h.leadsToFile, hfound name hname file c h⟩

/-- A path that leads to none of the files keeps its way. -/
theorem Removes.walk (hg : t.Grounded) (hr : Removes (IsEntry place removed) t t')
    (hentry : ∀ name ∈ removed, ∃ file c, t.EntryOf directory place name file c)
    (hfound : ∀ name ∈ removed, ∀ file c, t.EntryOf directory place name file c → found ≠ file)
    (h : t.walk .content p = .ok found) : t'.walk .content p = .ok found := by
  obtain ⟨n, hn, hleads⟩ := leads_of_walk (by decide) h
  have horigin : t'.origin p = t.origin p := by rw [origin, origin, hr.current]
  refine Leads.walk ?_ hn (not_isLong_of_walk h)
  rw [horigin]
  exact hleads.spared hg (hg.origin p) (hr.lost hentry hfound)

theorem EntryOf.place_ne (h : t.EntryOf directory place name file c) : place ≠ file := by
  rintro rfl
  have hnode := h.holds.node
  rw [h.isDirectory] at hnode
  cases hnode

theorem Removes.remove (hg : t.Grounded) (hr : Removes (IsEntry place removed) t t')
    (hentry : ∀ name ∈ removed, ∃ file c, t.EntryOf directory place name file c)
    (h : t.EntryOf directory place name file c) (hnew : name ∉ removed) :
    (Disk.remove (directory.child name) : Action FileTree Unit).Yields t' ()
        (t'.erase (place ++ [name])) ∧
      Removes (IsEntry place (removed ++ [name])) t (t'.erase (place ++ [name])) := by
  have hthere : ¬ IsEntry place removed (place ++ [name]) := by
    rintro ⟨name', hname', heq⟩
    obtain rfl : name = name' := by simpa using heq
    exact hnew hname'
  obtain ⟨n, hn, habove⟩ := h.above
  obtain ⟨node, hnode, hd⟩ := h.node
  have horigin : t'.origin directory = t.origin directory := by rw [origin, origin, hr.current]
  have habove' : Leads t' (t'.origin directory) (pathNames directory) place n := by
    rw [horigin]
    exact habove.spared hg (hg.origin directory)
      (hr.lost hentry fun name _ file c h => h.place_ne)
  have hplace : t'.node? place = some .directory :=
    (hr.kept place (not_isEntry_self _ _)).trans h.isDirectory
  refine ⟨remove_yields h.holds.plain (h.walk_entry_of hn habove' hplace)
    ((hr.kept _ hthere).trans hnode) hd, hr.current, ?_, fun q hq => ?_⟩
  · rintro q ⟨name', hname', rfl⟩
    rw [node?_erase (by simp)]
    split
    · rfl
    · rename_i hne
      rcases List.mem_append.mp hname' with hname' | hname'
      · exact hr.gone _ ⟨name', hname', rfl⟩
      · exact absurd (by rw [List.mem_singleton.mp hname']) hne
  · rw [node?_erase (by simp), if_neg fun heq => hq ⟨name, by simp, heq⟩]
    refine hr.kept q ?_
    rintro ⟨name', hname', heq⟩
    exact hq ⟨name', List.mem_append_left _ hname', heq⟩

theorem Removes.leads_back (hr : Removes R t t') {start found : Place} {n : Nat}
    (h : Leads t' start names found n) (hfound : ¬ R found) : Leads t start names found n := by
  have hkept : ∀ {q node}, t'.node? q = some node → t.node? q = some node := by
    intro q node hq
    rw [← hr.kept q fun hR => ?_, hq]
    rw [hr.gone q hR] at hq
    cases hq
  induction h with
  | here place => exact .here place
  | stay hs _ ih => exact .stay hs (ih hfound)
  | up hs hu _ ih => exact .up hs hu (ih hfound)
  | down hn hd _ ih => exact .down hn (hkept hd) (ih hfound)
  | follow hn hl _ ih => exact .follow hn (hkept hl) (ih hfound)
  | last hn hd hl =>
    rw [hr.kept _ hfound] at hd
    exact .last hn hd fun target => hr.kept _ hfound ▸ hl target

theorem Removes.holdsFile_back (hr : Removes R t t') (h : t'.HoldsFile p file c) :
    ¬ R file ∧ t.HoldsFile p file c := by
  have hfile : ¬ R file := by
    intro hR
    have hnode := h.node
    rw [hr.gone file hR] at hnode
    cases hnode
  obtain ⟨n, hn, hleads⟩ := leads_of_walk (by decide) h.walk
  have horigin : t'.origin p = t.origin p := by rw [origin, origin, hr.current]
  rw [horigin] at hleads
  exact ⟨hfile, h.plain, (hr.leads_back hleads hfile).walk hn (not_isLong_of_walk h.walk),
    (hr.kept file hfile).symm.trans h.node⟩

/-- Without the entries the path still leads to the place, which is none of them. -/
structure Bypasses (R : Place → Prop) (t : FileTree) (p : Path) (place : Place) : Prop where
  kept : ¬ R place
  walk : ∀ bare, Removes R t bare → bare.walk .content p = .ok place

theorem Removes.walk_eq {bare : FileTree} (hr : Removes R t t') (hr' : Removes R t bare) (p : Path) :
    bare.walk .content p = t'.walk .content p := by
  have hnode : ∀ q, bare.node? q = t'.node? q := by
    intro q
    by_cases hR : R q
    · rw [hr.gone q hR, hr'.gone q hR]
    · rw [hr.kept q hR, hr'.kept q hR]
  rw [FileTree.walk, FileTree.walk, origin, origin, hr.current, hr'.current,
    walkFrom_eq_of_nodes hnode]

/-- Of what was read at a path, just that is left which bypasses the entries. -/
theorem Removes.read_iff (hr : Removes R t t') (h : t.HoldsFile p file c) {d : Bytes} :
    (∃ q, t'.HoldsFile p q d) ↔ d = c ∧ Bypasses R t p file := by
  constructor
  · rintro ⟨q, hq⟩
    obtain ⟨hkept, hback⟩ := hr.holdsFile_back hq
    obtain ⟨rfl, rfl⟩ := hback.unique h
    exact ⟨rfl, hkept, fun bare hbare => (hr.walk_eq hbare p).trans hq.walk⟩
  · rintro ⟨rfl, hbypasses⟩
    exact ⟨file, h.plain, hbypasses.walk t' hr, (hr.kept file hbypasses.kept).trans h.node⟩

theorem Fragments.holdsFile (h : t.Fragments directory place names paths)
    (hp : p ∈ paths) : ∃ file c, t.HoldsFile p file c := by
  obtain ⟨name, hname, rfl⟩ := List.mem_map.mp (h.paths_eq ▸ hp)
  obtain ⟨file, c, he⟩ := h.entry name hname
  exact ⟨file, c, he.holds⟩

theorem Fragments.bypasses (h : t.Fragments directory place names paths)
    (hg : t.Grounded) (hfile : t.HoldsFile p file c)
    (hapart : ∀ q ∈ paths, t.walk .content q ≠ .ok file) :
    Bypasses (IsEntry place names) t p file := by
  have hother : ∀ name ∈ names, ∀ other d, t.EntryOf directory place name other d → file ≠ other := by
    rintro name hname other d he rfl
    exact hapart _ (h.paths_eq ▸ List.mem_map_of_mem hname) he.holds.walk
  refine ⟨?_, fun bare hbare => hbare.walk hg h.entry hother hfile.walk⟩
  -- an entry that is a file itself is the file it leads to
  rintro ⟨name, hname, heq⟩
  obtain ⟨other, d, he⟩ := h.entry name hname
  exact hother name hname other d he (heq.trans (he.file_eq (heq ▸ hfile.node)).symm)

end FileTree

namespace Disk

variable {t u : FileTree} {directory : Path} {place : Place} {names : List Text}

theorem removeAll_yields (removed : List Text) (hg : t.Grounded)
    (hentry : ∀ name ∈ removed ++ names, ∃ file c, t.EntryOf directory place name file c)
    (hnodup : (removed ++ names).Nodup) (hr : Removes (IsEntry place removed) t u) :
    ∃ t', ((names.map directory.child).forM (remove : Path → Action FileTree Unit)).Yields u () t' ∧
      Removes (IsEntry place (removed ++ names)) t t' := by
  induction names generalizing removed u with
  | nil => exact ⟨u, yields_pure.mpr ⟨rfl, rfl⟩, by simpa using hr⟩
  | cons name rest ih =>
    obtain ⟨file, c, h⟩ := hentry name (by simp)
    have hremoved : ∀ name ∈ removed, ∃ file c, t.EntryOf directory place name file c :=
      fun name hname => hentry name (List.mem_append_left _ hname)
    have hnew : name ∉ removed := fun hmem =>
      List.disjoint_of_nodup_append hnodup hmem List.mem_cons_self
    obtain ⟨hyields, hr'⟩ := hr.remove hg hremoved h hnew
    have hassoc : removed ++ name :: rest = removed ++ [name] ++ rest := by simp
    rw [hassoc] at hentry hnodup
    obtain ⟨t', hrest, hall⟩ := ih (removed ++ [name]) hentry hnodup hr'
    rw [hassoc]
    exact ⟨t', forM_cons_yields.mpr ⟨_, hyields, hrest⟩, hall⟩

/-- Deleting the entries of a directory that lead to files succeeds and takes away just these. -/
theorem deleteFragments_yields (hg : t.Grounded) {paths : List Path}
    (h : t.Fragments directory place names paths) :
    ∃ t', (deleteFragments paths : Action FileTree Nat).Yields t paths.length t' ∧
      Removes (IsEntry place names) t t' := by
  have hnone : Removes (IsEntry place []) t t :=
    ⟨rfl, fun _ ⟨_, hname, _⟩ => absurd hname List.not_mem_nil, fun _ _ => rfl⟩
  obtain ⟨t', hall, hr⟩ := removeAll_yields [] hg h.entry h.nodup hnone
  rw [← h.paths_eq] at hall
  refine ⟨t', yields_bind.mpr ⟨(), t', hall, yields_bind.mpr ⟨(), t', yields_log.mpr rfl, ?_⟩⟩, hr⟩
  exact yields_pure.mpr ⟨rfl, rfl⟩

end Disk

end PartProgram
