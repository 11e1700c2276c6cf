import PartProgram.Proofs.Batch.Grouped
import PartProgram.Proofs.Batch.Merged
import PartProgram.Proofs.Files.NormalPath
import Mathlib.Data.List.Perm.Subperm

/-! # Free names

The numbered names of a path differ, and each that is taken is the name of an entry in
one directory. So the search for a free one ends, and an annotated copy is written where
nothing was.
-/
namespace PartProgram

open PartProgram.Action FileTree
open Text (Bytes)

variable {t t' : FileTree} {p q : Path} {i j : Nat} {place : Place}

namespace Path

def numberedName (p : Path) (i : Nat) : Text := p.stem ++ (' ' :: Number.digits i) ++ p.suffix

theorem withName_eq_ok {name : Text} (h : p.withName name = .ok q) :
    p.name ≠ [] ∧ q = p.parent.child name := by
  rw [withName] at h
  split at h
  · cases h
  · rename_i hname
    dsimp only at h
    split at h
    · cases h
    · exact ⟨by simpa using hname, (Except.ok.inj h).symm⟩

theorem numbered_eq_ok (h : p.numbered i = .ok q) : q = p.parent.child (p.numberedName i) :=
  (withName_eq_ok h).2

theorem numberedName_injective (h : p.numberedName i = p.numberedName j) : i = j := by
  rw [numberedName, numberedName] at h
  have hdigits := (List.cons.inj (List.append_cancel_left (List.append_cancel_right h))).2
  rw [← Number.ofDigits_digits i, hdigits, Number.ofDigits_digits]

theorem space_mem_numberedName (p : Path) (i : Nat) : ' ' ∈ p.numberedName i := by
  simp [numberedName]

theorem IsNormal.name_no_slash (h : p.IsNormal) : '/' ∉ p.name := by
  rw [name]
  cases hlast : p.names.getLast? with
  | none => simp
  | some last => exact (h.names last (List.mem_of_getLast? hlast)).no_slash

theorem IsNormal.isPlain_numberedName (h : p.IsNormal) (i : Nat) : IsPlain (p.numberedName i) := by
  have hspace := space_mem_numberedName p i
  refine ⟨List.ne_nil_of_mem hspace, fun heq => ?_, fun hslash => ?_⟩
  · rw [heq] at hspace
    simp at hspace
  · have hname := h.name_no_slash
    rw [← cutName_append p.name] at hname
    obtain ⟨hstem, hsuffix⟩ := not_or.mp (mt List.mem_append.mpr hname)
    simp only [numberedName, List.mem_append, List.mem_cons] at hslash
    rcases hslash with (hslash | hslash | hslash) | hslash
    · exact hstem hslash
    · cases hslash
    · exact absurd (Number.isDigit_of_mem_digits hslash) (by decide)
    · exact hsuffix hslash

theorem IsNormal.numbered (h : p.IsNormal) (hq : p.numbered i = .ok q) : q.IsNormal :=
  numbered_eq_ok hq ▸ h.parent.child (h.isPlain_numberedName i)

end Path

namespace FileTree

def Taken (t : FileTree) (p : Path) : Prop := ∃ node, t.look p = .ok (some node)

theorem mem_children {name : Text} (h : ∃ node, t.node? (place ++ [name]) = some node) :
    name ∈ t.children place := by
  obtain ⟨node, h⟩ := h
  refine List.mem_filterMap.mpr ⟨_, mem_entries_of_node? (by simp) h, ?_⟩
  dsimp only
  rw [if_pos List.dropLast_concat, List.getLast?_concat]

theorem Leads.mem_children {name : Text} {found : Place} {n : Nat} {names : List Text} {start : Place}
    (h : Leads t start (names ++ [name]) found n) (hs : staysAt name = false) (hu : isUp name = false)
    (hnode : ∃ node, t.node? found = some node) :
    ∃ directory m, Leads t start names directory m ∧ name ∈ t.children directory := by
  obtain ⟨directory, m, k, hdirectory, hlast, -⟩ := h.split
  refine ⟨directory, m, hdirectory, FileTree.mem_children ?_⟩
  cases hlast with
  | stay hs' => exact absurd hs' (by simp [hs])
  | up _ hu' => exact absurd hu' (by simp [hu])
  | down _ hd => exact ⟨_, hd⟩
  | follow _ hl => exact ⟨_, hl⟩
  | last => exact hnode

theorem Taken.mem_children (h : t.Taken q) (hp : p.IsNormal) (hq : p.numbered i = .ok q) :
    ∃ directory m, Leads t (t.origin p) p.parent.names directory m ∧
      p.numberedName i ∈ t.children directory := by
  obtain ⟨node, hlook⟩ := h
  obtain ⟨-, found, hw, hnode⟩ := look_eq_some.mp hlook
  obtain ⟨n, -, hleads⟩ := leads_of_walk (by decide) hw
  have hplain := hp.isPlain_numberedName i
  have hs : staysAt (p.numberedName i) = false := by
    simp [staysAt, hplain.ne_nil, hplain.ne_dot]
  have hu : isUp (p.numberedName i) = false := by
    rw [isUp, decide_eq_false_iff_not]
    intro hdots
    have hspace := Path.space_mem_numberedName p i
    rw [hdots] at hspace
    simp at hspace
  rw [(hp.numbered hq).pathNames_eq, Path.numbered_eq_ok hq] at hleads
  exact hleads.mem_children hs hu ⟨node, hnode⟩

theorem not_taken_of_look (h : t.look p = .ok none) : ¬ t.Taken p := by
  rintro ⟨node, hlook⟩
  rw [h] at hlook
  cases hlook

/-- So many numbered names are taken at most as the directory has entries. -/
theorem length_of_taken (hp : p.IsNormal) {directory : Place} {m : Nat}
    (hd : Leads t (t.origin p) p.parent.names directory m) {count : Nat}
    (h : ∀ i, 1 ≤ i → i ≤ count → ∃ q, p.numbered i = .ok q ∧ t.Taken q) :
    count ≤ (t.children directory).length := by
  have hnodup : ((List.range' 1 count).map p.numberedName).Nodup :=
    List.Nodup.map (fun _ _ => Path.numberedName_injective) List.nodup_range'
  have hsubset : (List.range' 1 count).map p.numberedName ⊆ t.children directory := by
    intro name hname
    obtain ⟨i, hi, rfl⟩ := List.mem_map.mp hname
    obtain ⟨hle, hlt⟩ := List.mem_range'_1.mp hi
    obtain ⟨q, hq, htaken⟩ := h i hle (by omega)
    obtain ⟨directory', m', hd', hmem⟩ := htaken.mem_children hp hq
    obtain ⟨rfl, -⟩ := hd.unique hd'
    exact hmem
  simpa using (List.subperm_of_subset hnodup hsubset).length_le

/-- The search for a free name ends. -/
theorem exists_untaken (t : FileTree) (hp : p.IsNormal) :
    ∃ i, 1 ≤ i ∧ ∀ q, p.numbered i = .ok q → ¬ t.Taken q := by
  by_contra hnone
  have hall : ∀ i, 1 ≤ i → ∃ q, p.numbered i = .ok q ∧ t.Taken q := by
    simpa only [not_exists, not_and, not_forall, not_not, exists_prop] using hnone
  obtain ⟨q, hq, htaken⟩ := hall 1 (Nat.le_refl 1)
  obtain ⟨directory, m, hd, -⟩ := htaken.mem_children hp hq
  exact absurd (length_of_taken hp hd fun i hi _ => hall i hi) (Nat.not_succ_le_self _)

end FileTree

namespace Disk

theorem readsOnly_exist (p : Path) : (exist p : Action FileTree Bool).ReadsOnly :=
  (readsOnly_find p).bind fun _ => readsOnly_pure _

theorem exist_yields_true :
    (exist p : Action FileTree Bool).Yields t true t' ↔ t.Taken p ∧ t' = t := by
  have hdef : (exist p : Action FileTree Bool) = (do pure (← find p).isSome) := rfl
  rw [hdef, yields_bind]
  simp only [find_yields, yields_pure]
  constructor
  · rintro ⟨_ | node, _, ⟨hlook, rfl⟩, hsome, rfl⟩
    · cases hsome
    · exact ⟨⟨node, hlook⟩, rfl⟩
  · rintro ⟨⟨node, hlook⟩, rfl⟩
    exact ⟨some node, t', ⟨hlook, rfl⟩, rfl, rfl⟩

theorem exist_yields_false :
    (exist p : Action FileTree Bool).Yields t false t' ↔ t.look p = .ok none ∧ t' = t := by
  have hdef : (exist p : Action FileTree Bool) = (do pure (← find p).isSome) := rfl
  rw [hdef, yields_bind]
  simp only [find_yields, yields_pure]
  constructor
  · rintro ⟨_ | node, _, ⟨hlook, rfl⟩, hsome, rfl⟩
    · exact ⟨hlook, rfl⟩
    · cases hsome
  · rintro ⟨hlook, rfl⟩
    exact ⟨none, t', ⟨hlook, rfl⟩, rfl, rfl⟩

theorem readsOnly_firstFree (p : Path) (tries i : Nat) :
    (firstFree p tries i : Action FileTree Path).ReadsOnly := by
  induction tries generalizing i with
  | zero => exact readsOnly_ofExcept _
  | succ tries ih =>
    refine (readsOnly_ofExcept _).bind fun candidate => (readsOnly_exist _).bind fun isTaken => ?_
    split
    · exact ih (i + 1)
    · exact readsOnly_pure _

/-- The search passes over taken names only, and stops at a name that is free unless it is the one
after all that are tried. -/
theorem firstFree_yields {tries : Nat}
    (h : (firstFree p tries i : Action FileTree Path).Yields t q t) :
    ∃ k, i ≤ k ∧ k ≤ i + tries ∧ p.numbered k = .ok q ∧
      (∀ j, i ≤ j → j < k → ∃ r, p.numbered j = .ok r ∧ t.Taken r) ∧
      (t.look q = .ok none ∨ k = i + tries) := by
  induction tries generalizing i with
  | zero =>
    obtain ⟨hq, -⟩ := ofExcept_yields.mp h
    exact ⟨i, Nat.le_refl i, Nat.le_refl i, hq,
      fun j hj hlt => absurd hlt (Nat.not_lt.mpr hj), .inr rfl⟩
  | succ tries ih =>
    obtain ⟨candidate, t₁, hcandidate, hrest⟩ := yields_bind.mp h
    obtain ⟨hnumbered, rfl⟩ := ofExcept_yields.mp hcandidate
    obtain ⟨isTaken, t₂, hexist, hnext⟩ := yields_bind.mp hrest
    cases isTaken with
    | true =>
      obtain ⟨htaken, rfl⟩ := exist_yields_true.mp hexist
      obtain ⟨k, hle, hk, hq, hbefore, hfree⟩ := ih hnext
      refine ⟨k, by omega, by omega, hq, fun j hj hlt => ?_, hfree.imp_right fun h => by omega⟩
      by_cases hji : j = i
      · exact ⟨candidate, hji ▸ hnumbered, htaken⟩
      · exact hbefore j (by omega) hlt
    | false =>
      obtain ⟨hlook, rfl⟩ := exist_yields_false.mp hexist
      obtain ⟨rfl, -⟩ := yields_pure.mp hnext
      exact ⟨i, Nat.le_refl i, Nat.le_add_right _ _, hnumbered,
        fun j hj hlt => absurd hlt (Nat.not_lt.mpr hj), .inl hlook⟩

/-- The path itself if nothing is there, or else with the first number under which nothing is. -/
inductive FirstFree (t : FileTree) (p : Path) : Path → Prop where
  | itself (h : t.look p = .ok none) : FirstFree t p p
  | numbered {i : Nat} {q : Path} (htaken : t.Taken p) (hi : 1 ≤ i) (hq : p.numbered i = .ok q)
      (hfree : ¬ t.Taken q)
      (hbefore : ∀ j, 1 ≤ j → j < i → ∃ r, p.numbered j = .ok r ∧ t.Taken r) : FirstFree t p q

theorem FirstFree.not_taken (h : FirstFree t p q) : ¬ t.Taken q := by
  cases h with
  | itself h => exact not_taken_of_look h
  | numbered _ _ _ hfree => exact hfree

theorem FirstFree.isNormal (h : FirstFree t p q) (hp : p.IsNormal) : q.IsNormal := by
  cases h with
  | itself => exact hp
  | numbered _ _ hq => exact hp.numbered hq

theorem readsOnly_makeUnique (p : Path) : (makeUnique p : Action FileTree Path).ReadsOnly := by
  refine (readsOnly_exist p).bind fun isTaken => ?_
  split
  · exact (readsOnly_ofExcept _).bind fun _ => (readsOnly_children _).bind fun _ =>
      readsOnly_firstFree p _ _
  · exact readsOnly_pure _

theorem makeUnique_yields (hp : p.IsNormal)
    (h : (makeUnique p : Action FileTree Path).Yields t q t) : FirstFree t p q := by
  obtain ⟨isTaken, t₁, hexist, hrest⟩ := yields_bind.mp h
  cases isTaken with
  | false =>
    obtain ⟨hlook, rfl⟩ := exist_yields_false.mp hexist
    obtain ⟨rfl, -⟩ := yields_pure.mp hrest
    exact .itself hlook
  | true =>
    obtain ⟨htaken, rfl⟩ := exist_yields_true.mp hexist
    obtain ⟨_, t₂, hfirst, hlist⟩ := yields_bind.mp hrest
    obtain ⟨-, rfl⟩ := ofExcept_yields.mp hfirst
    obtain ⟨names, t₃, hnames, hsearch⟩ := yields_bind.mp hlist
    obtain rfl := hnames.readsOnly (readsOnly_children _)
    obtain ⟨directory, hw, -, rfl⟩ := children_yields hnames
    obtain ⟨k, hle, hk, hq, hbefore, hfree⟩ := firstFree_yields hsearch
    refine .numbered htaken hle hq (fun htaken' => ?_) hbefore
    rcases hfree with hlook | hlast
    · exact not_taken_of_look hlook htaken'
    · obtain ⟨m, -, hleads⟩ := leads_of_walk (by decide) hw
      rw [hp.parent.pathNames_eq] at hleads
      have hcount : k ≤ (t₃.children directory).length := length_of_taken hp hleads fun j hj hjk => by
        rcases Nat.lt_or_eq_of_le hjk with hlt | rfl
        · exact hbefore j hj hlt
        · exact ⟨q, hq, htaken'⟩
      omega

/-- The file that the path leads to is new, and nothing else has changed. -/
structure WritesNew (t t' : FileTree) (p : Path) (place : Place) (c : Bytes) : Prop where
  free : t.look p = .ok none
  walk : t.walk .content p = .ok place
  fresh : t.node? place = none
  holds : t'.HoldsFile p place c
  others : ∀ q, q ≠ place → t'.node? q = t.node? q
  kept : ∀ q file d, t.HoldsFile q file d → t'.HoldsFile q file d

theorem writesNew_of_write (hfree : ¬ t.Taken p) {c : Bytes}
    (h : (write p c : Action FileTree Unit).Yields t () t') :
    ∃ place, WritesNew t t' p place c := by
  obtain ⟨place, hplain, hfilling, -, rfl⟩ := write_yields.mp h
  have hw := walk_content (by decide) hfilling
  have hnone : t.node? place = none := by
    cases hnode : t.node? place with
    | none => rfl
    | some node => exact absurd ⟨node, look_eq_some.mpr ⟨hplain, place, hw, hnode⟩⟩ hfree
  have hne : place ≠ [] := by
    rintro rfl
    cases hnone
  have hlook : t.look p = .ok none := by
    rw [look, if_neg (by simp [hplain]), hw, ← hnone]
  have hfills : Fills (· = place) t (t.put place (.file c)) := .put rfl (.inl hnone)
  have hothers : ∀ q, q ≠ place → (t.put place (.file c)).node? q = t.node? q :=
    fun q hq => hfills.node_eq hq
  refine ⟨place, hlook, hw, hnone, ⟨hplain, hfills.keepsWays.1.walk hw, ?_⟩, hothers,
    fun q file d hq => ⟨hq.plain, hfills.keepsWays.1.walk hq.walk, ?_⟩⟩
  · rw [node?_put hne, if_pos rfl]
  · rw [hothers file (by rintro rfl; cases hnone.symm.trans hq.node), hq.node]

variable {s : Settings} {path : Text} {style : Option Text}

theorem readsOnly_copyPath (s : Settings) (p : Path) :
    (copyPath s p : Action FileTree Path).ReadsOnly :=
  (readsOnly_ofExcept _).bind fun _ => readsOnly_makeUnique _

theorem copyPath_yields (h : (copyPath s p : Action FileTree Path).Yields t q t) :
    ∃ first, p.appendToName s.copySuffix = .ok first ∧ FirstFree t first.normal q := by
  obtain ⟨first, t₁, hname, hunique⟩ := yields_bind.mp h
  obtain ⟨hfirst, rfl⟩ := ofExcept_yields.mp hname
  exact ⟨first, hfirst, makeUnique_yields (Path.isNormal_ofText _) hunique⟩

/-- The text of the annotated program, as it stands in a file. -/
def AnnotatedBytes (s : Settings) (t : FileTree) (path : Text) (style : Option Text) (c : Bytes) :
    Prop :=
  ∃ program count annotated,
    (loadProgram (Path.ofText path) none : Action FileTree Program).Yields t program t ∧
    (Program.annotate s.delimiter (s.style.named style)).Yields program count annotated ∧
    c = Text.encode annotated.text

theorem writeProgram_refuses {program : Program} {fault : Fault}
    (h : (writeProgram program p : Action FileTree Unit).RefusedFor t fault t') : t' = t := by
  rcases refusedFor_bind.mp h with hwrite | ⟨_, t₁, -, hlog⟩
  · exact write_refuses hwrite
  · cases hlog.1

theorem annotateCopy_refuses {fault : Fault}
    (h : (annotateFile s path none style : Action FileTree Path).RefusedFor t fault t') : t' = t := by
  rcases refusedFor_bind.mp h with hload | ⟨program, t₁, hload, hrest⟩
  · exact hload.readsOnly (readsOnly_loadProgram _ _)
  · obtain rfl := hload.readsOnly (readsOnly_loadProgram _ _)
    rcases refusedFor_bind.mp hrest with hmark | ⟨⟨count, annotated⟩, t₂, hmark, htarget⟩
    · exact hmark.readsOnly (readsOnly_perform _ _)
    · obtain ⟨-, rfl⟩ := perform_yields.mp hmark
      rcases refusedFor_bind.mp htarget with hcopy | ⟨out, t₃, hcopy, hwrite⟩
      · exact hcopy.readsOnly (readsOnly_copyPath s _)
      · obtain rfl := hcopy.readsOnly (readsOnly_copyPath s _)
        rcases refusedFor_bind.mp hwrite with hwrite | ⟨_, t₄, -, hlog⟩
        · exact writeProgram_refuses hwrite
        · rcases refusedFor_bind.mp hlog with hlog | ⟨_, t₅, -, hlast⟩
          · cases hlog.1
          · exact absurd hlast refusedFor_pure

theorem annotateCopy_yields {out : Path}
    (h : (annotateFile s path none style : Action FileTree Path).Yields t out t') :
    ∃ first place c, (Path.ofText path).appendToName s.copySuffix = .ok first ∧
      FirstFree t first.normal out ∧ AnnotatedBytes s t path style c ∧ WritesNew t t' out place c := by
  obtain ⟨program, t₁, hload, hrest⟩ := yields_bind.mp h
  obtain rfl := hload.readsOnly (readsOnly_loadProgram _ _)
  obtain ⟨⟨count, annotated⟩, t₂, hperform, htarget⟩ := yields_bind.mp hrest
  obtain ⟨hmark, rfl⟩ := perform_yields.mp hperform
  obtain ⟨q, t₃, hcopy, hwrite⟩ := yields_bind.mp htarget
  obtain rfl := hcopy.readsOnly (readsOnly_copyPath s _)
  obtain ⟨_, t₄, hwrite, hlog⟩ := yields_bind.mp hwrite
  obtain ⟨_, t₅, hlog, hlast⟩ := yields_bind.mp hlog
  obtain rfl := yields_log.mp hlog
  obtain ⟨rfl, rfl⟩ := yields_pure.mp hlast
  obtain ⟨_, t₆, hfile, hlog⟩ := yields_bind.mp hwrite
  obtain rfl := yields_log.mp hlog
  obtain ⟨first, hfirst, hfree⟩ := copyPath_yields hcopy
  rw [(hfree.isNormal (Path.isNormal_ofText _)).normal_eq] at hfile
  obtain ⟨place, hnew⟩ := writesNew_of_write hfree.not_taken hfile
  exact ⟨first, place, _, hfirst, hfree, ⟨program, count, annotated, hload, hmark, rfl⟩, hnew⟩

/-- The search for a free name ends for every path. A program is annotated to a path that nothing
was at, the first of the names to try, and nothing else changes; or it is refused and nothing
changes. -/
theorem annotateFile_writes_new (s : Settings) (path : Text) (style : Option Text) (t : FileTree) :
    (∀ p : Path, ∃ i, 1 ≤ i ∧ ∀ q, p.normal.numbered i = .ok q → ¬ t.Taken q) ∧
    ((∃ fault, (annotateFile s path none style : Action FileTree Path).RefusedFor t fault t) ∨
      ∃ out t' first place c,
        (annotateFile s path none style : Action FileTree Path).Yields t out t' ∧
        (Path.ofText path).appendToName s.copySuffix = .ok first ∧ FirstFree t first.normal out ∧
        AnnotatedBytes s t path style c ∧ WritesNew t t' out place c) := by
  refine ⟨fun p => exists_untaken t (Path.isNormal_ofText p.text), ?_⟩
  cases hresult : ((annotateFile s path none style : Action FileTree Path).run t).result with
  | error fault =>
    have h := refusedFor_of_result hresult
    rw [annotateCopy_refuses h] at h
    exact .inl ⟨fault, h⟩
  | ok out =>
    have h := yields_of_result hresult
    obtain ⟨first, place, c, hfirst, hfree, hbytes, hnew⟩ := annotateCopy_yields h
    exact .inr ⟨out, _, first, place, c, h, hfirst, hfree, hbytes, hnew⟩

/-- A program beside an annotated copy of it. -/
def copiedTree : FileTree where
  entries :=
    [(["a.nc".toList], .file (Text.encode "(A)\nN1 G0 E1\n".toList)),
      (["a Commented.nc".toList], .file [])]

/-- The copy that was there stays, and the next one is numbered. -/
theorem annotateFile_writes_numbered :
    ∃ t' place c,
      (annotateFile {} "a.nc".toList none none : Action FileTree Path).Yields copiedTree
        (Path.ofText "a Commented 1.nc".toList) t' ∧
      FirstFree copiedTree (Path.ofText "a Commented.nc".toList)
        (Path.ofText "a Commented 1.nc".toList) ∧
      AnnotatedBytes {} copiedTree "a.nc".toList none c ∧
      WritesNew copiedTree t' (Path.ofText "a Commented 1.nc".toList) place c := by
  have hrun : ((annotateFile {} "a.nc".toList none none : Action FileTree Path).run
      copiedTree).result = .ok (Path.ofText "a Commented 1.nc".toList) := by decide +kernel
  have hname : (Path.ofText "a.nc".toList).appendToName " Commented".toList =
      .ok (Path.ofText "a Commented.nc".toList) := by decide +kernel
  have hnormal : (Path.ofText "a Commented.nc".toList).normal =
      Path.ofText "a Commented.nc".toList := by decide +kernel
  rcases (annotateFile_writes_new {} "a.nc".toList none copiedTree).2 with
    ⟨fault, hrefused, -⟩ | ⟨out, t', first, place, c, h, hfirst, hfree, hbytes, hnew⟩
  · rw [hrun] at hrefused
    cases hrefused
  · obtain rfl := Except.ok.inj (h.1.symm.trans hrun)
    obtain rfl := Except.ok.inj (hfirst.symm.trans hname)
    rw [hnormal] at hfree
    exact ⟨t', place, c, h, hfree, hbytes, hnew⟩

end Disk

end PartProgram
