import PartProgram.Proofs.Batch.FragmentName
import PartProgram.Proofs.Batch.Grouped
import PartProgram.Proofs.Text.Order
import Mathlib.Data.List.Induction

/-! # Groups as a partition

The groups found in a directory hold every fragment once, under its own program and in the
order of the numbers, and they stand in the order of their first files. Two files with one
number of one program are refused. A file that the file system refuses to look at ends the
search, unless it was refused before.
-/
namespace PartProgram

open PartProgram.Action FileTree Unicode
open Text (Bytes)

/-- What a path is to the search: the fragment of a program, or nothing. -/
abbrev Sorting := Path → Except Fault (Option (Text × Nat))

/-- The one stands before the other among the sorted names. -/
def Path.Precedes (p q : Path) : Prop := Text.notAfter q.name p.name = false

theorem Path.Precedes.asymm {p q : Path} (h : p.Precedes q) : ¬ q.Precedes p := by
  intro h'
  have htotal := Text.notAfter_total p.name q.name
  rw [Path.Precedes] at h h'
  rw [h, h'] at htotal
  cases htotal

/-- The groups hold the fragments, each of them once, under its program and in the order of the
numbers. Each group has a path that stands before all paths of the groups behind it. -/
structure Arranged (F : Path → Text → Nat → Prop) (groups : List Group) : Prop where
  holds : ∀ p program index, F p program index ↔
    ∃ g ∈ groups, g.name = program ∧ (index, p) ∈ g.members
  names : (groups.map Group.name).Nodup
  paths : (groups.flatMap Group.paths).Nodup
  nonempty : ∀ g ∈ groups, g.members ≠ []
  ascending : ∀ g ∈ groups, g.members.Pairwise fun a b => a.1 < b.1
  order : groups.Pairwise fun g g' => ∃ p ∈ g.paths, ∀ q ∈ g'.paths, p.Precedes q

namespace Group

variable {name : Text} {index : Nat} {path : Path} {groups groups' : List Group}

theorem mem_insertMember {m : Nat × Path} {members : List (Nat × Path)} :
    m ∈ insertMember index path members ↔ m = (index, path) ∨ m ∈ members := by
  rw [(insertMember_perm index path members).mem_iff, List.mem_cons]

theorem pairwise_insertMember {members : List (Nat × Path)}
    (h : members.Pairwise fun a b => a.1 < b.1) (hnew : ∀ m ∈ members, m.1 ≠ index) :
    (insertMember index path members).Pairwise fun a b => a.1 < b.1 := by
  induction members with
  | nil => exact List.pairwise_singleton _ _
  | cons m rest ih =>
    obtain ⟨hm, hrest⟩ := List.pairwise_cons.mp h
    rw [insertMember]
    split
    · rename_i hlt
      refine List.pairwise_cons.mpr ⟨fun b hb => ?_, h⟩
      rcases List.mem_cons.mp hb with rfl | hb
      · exact hlt
      · exact Nat.lt_trans hlt (hm b hb)
    · rename_i hlt
      refine List.pairwise_cons.mpr ⟨fun b hb => ?_,
        ih hrest fun b hb => hnew b (List.mem_cons_of_mem _ hb)⟩
      rcases mem_insertMember.mp hb with rfl | hb
      · exact Nat.lt_of_le_of_ne (Nat.le_of_not_lt hlt) (hnew m List.mem_cons_self)
      · exact hm b hb

/-- A fragment goes into the group of its program, if there is one, or makes a new one; a number
that is taken there is refused. -/
inductive Enters (name : Text) (index : Nat) (path : Path) :
    List Group → Except GroupingFault (List Group) → Prop where
  | taken {pre post : List Group} {g : Group} {first : Path} (hname : g.name = name)
      (h : (index, first) ∈ g.members) :
      Enters name index path (pre ++ g :: post) (.error (.sameIndex path.name first.name index name))
  | joins {pre post : List Group} {g : Group} (hname : g.name = name)
      (hnew : ∀ m ∈ g.members, m.1 ≠ index) :
      Enters name index path (pre ++ g :: post)
        (.ok (pre ++ { g with members := insertMember index path g.members } :: post))
  | starts {groups : List Group} (hnew : ∀ g ∈ groups, g.name ≠ name) :
      Enters name index path groups (.ok (groups ++ [⟨name, [(index, path)]⟩]))

theorem enters (name : Text) (index : Nat) (path : Path) (groups : List Group) :
    Enters name index path groups (enter name index path groups) := by
  induction groups with
  | nil => exact .starts (by simp)
  | cons g rest ih =>
    rw [enter]
    split
    · rename_i hname
      split
      · rename_i first hfirst
        obtain ⟨l, r, heq, -⟩ := List.lookup_eq_some_iff.mp hfirst
        exact @Enters.taken name index path [] rest g first hname (by simp [heq])
      · rename_i hnone
        refine @Enters.joins name index path [] rest g hname fun m hm heq => ?_
        have hne := List.lookup_eq_none_iff.mp hnone m hm
        simp [heq] at hne
    · rename_i hname
      generalize enter name index path rest = entered at ih
      cases ih with
      | @taken pre post _ _ h hmem => exact @Enters.taken name index path (g :: pre) post _ _ h hmem
      | @joins pre post _ h hnew => exact @Enters.joins name index path (g :: pre) post _ h hnew
      | starts hnew => exact .starts (List.forall_mem_cons.mpr ⟨hname, hnew⟩)

end Group

section
variable {α : Type} {P : α → Prop} {R : α → α → Prop} {pre post : List α} {a a' : α}

theorem forall_mem_replace (h : ∀ b ∈ pre ++ a :: post, P b) (ha : P a') :
    ∀ b ∈ pre ++ a' :: post, P b := by
  obtain ⟨hpre, hpost⟩ := List.forall_mem_append.mp h
  exact List.forall_mem_append.mpr
    ⟨hpre, List.forall_mem_cons.mpr ⟨ha, (List.forall_mem_cons.mp hpost).2⟩⟩

theorem pairwise_replace (h : (pre ++ a :: post).Pairwise R) (hpre : ∀ b ∈ pre, R b a → R b a')
    (hpost : ∀ b ∈ post, R a b → R a' b) : (pre ++ a' :: post).Pairwise R := by
  obtain ⟨hleft, hright, hacross⟩ := List.pairwise_append.mp h
  obtain ⟨hfirst, hright⟩ := List.pairwise_cons.mp hright
  refine List.pairwise_append.mpr ⟨hleft, List.pairwise_cons.mpr
    ⟨fun b hb => hpost b hb (hfirst b hb), hright⟩, fun b hb => List.forall_mem_cons.mpr ⟨?_, ?_⟩⟩
  · exact hpre b hb (hacross b hb a List.mem_cons_self)
  · exact fun c hc => hacross b hb c (List.mem_cons_of_mem _ hc)

end

namespace Arranged

variable {F : Path → Text → Nat → Prop} {groups groups' : List Group} {p q x : Path} {name : Text}
  {index : Nat}

theorem congr {F' : Path → Text → Nat → Prop} (h : Arranged F groups)
    (hF : ∀ p name index, F' p name index ↔ F p name index) : Arranged F' groups :=
  ⟨fun p name index => (hF p name index).trans (h.holds p name index), h.names, h.paths, h.nonempty,
    h.ascending, h.order⟩

theorem nil : Arranged (fun _ _ _ => False) [] := by
  constructor <;> simp

theorem of_mem_paths (h : Arranged F groups) {g : Group} (hg : g ∈ groups) (hp : p ∈ g.paths) :
    ∃ index, F p g.name index := by
  obtain ⟨m, hm, rfl⟩ := List.mem_map.mp hp
  exact ⟨m.1, (h.holds _ _ _).mpr ⟨g, hg, rfl, hm⟩⟩

theorem unique (h : Arranged F groups) (hp : F p name index) (hq : F q name index) : p = q := by
  obtain ⟨g, hg, hname, hp⟩ := (h.holds _ _ _).mp hp
  obtain ⟨g', hg', hname', hq⟩ := (h.holds _ _ _).mp hq
  obtain rfl := List.inj_on_of_nodup_map h.names hg hg' (hname.trans hname'.symm)
  have hindices : (g.members.map Prod.fst).Nodup :=
    List.pairwise_map.mpr ((h.ascending g hg).imp Nat.ne_of_lt)
  exact congrArg Prod.snd (List.inj_on_of_nodup_map hindices hp hq rfl)

section
variable (h : Arranged F groups)
include h

theorem nodup_enter (hx : ∀ name index, ¬ F x name index)
    (he : Group.enter name index x groups = .ok groups') : (groups'.flatMap Group.paths).Nodup := by
  refine (Group.enter_perm he).nodup_iff.mpr (List.nodup_cons.mpr ⟨fun hmem => ?_, h.paths⟩)
  obtain ⟨g, hg, hp⟩ := List.mem_flatMap.mp hmem
  obtain ⟨i, hp⟩ := h.of_mem_paths hg hp
  exact hx _ _ hp

theorem precedes (hbehind : ∀ p name index, F p name index → p.Precedes x) {g : Group}
    (hg : g ∈ groups) (hp : p ∈ g.paths) : p.Precedes x := by
  obtain ⟨i, hp⟩ := h.of_mem_paths hg hp
  exact hbehind p _ i hp

end

theorem joins {pre post : List Group} {g : Group} (h : Arranged F (pre ++ g :: post))
    (hbehind : ∀ p name index, F p name index → p.Precedes x) (hname : g.name = name)
    (hnew : ∀ m ∈ g.members, m.1 ≠ index)
    (hpaths : ((pre ++ { g with members := Group.insertMember index x g.members } ::
      post).flatMap Group.paths).Nodup) :
    Arranged (fun p name' index' => F p name' index' ∨ p = x ∧ name' = name ∧ index' = index)
      (pre ++ { g with members := Group.insertMember index x g.members } :: post) := by
  have hg : g ∈ pre ++ g :: post := by simp
  have hmem : ∀ p, p ∈ (Group.insertMember index x g.members).map Prod.snd ↔
      p = x ∨ p ∈ g.paths := fun p => by
    rw [((Group.insertMember_perm index x g.members).map Prod.snd).mem_iff, List.map_cons,
      List.mem_cons, Group.paths]
  refine ⟨fun p name' index' => ?_, by simpa using h.names, hpaths,
    forall_mem_replace h.nonempty (List.ne_nil_of_mem (Group.mem_insertMember.mpr (.inl rfl))),
    forall_mem_replace h.ascending (Group.pairwise_insertMember (h.ascending g hg) hnew),
    pairwise_replace h.order (fun b hb hfirst => ?_) fun b hb hfirst => ?_⟩
  · rw [h.holds]
    simp only [List.mem_append, List.mem_cons, or_and_right, exists_or, exists_eq_left,
      Group.mem_insertMember, Prod.mk.injEq, ← hname]
    grind
  · obtain ⟨p, hp, hfirst⟩ := hfirst
    refine ⟨p, hp, fun q hq => ?_⟩
    rcases (hmem q).mp hq with rfl | hq
    · exact h.precedes hbehind (List.mem_append_left _ hb) hp
    · exact hfirst q hq
  · obtain ⟨p, hp, hfirst⟩ := hfirst
    exact ⟨p, (hmem p).mpr (.inr hp), hfirst⟩

theorem starts (h : Arranged F groups) (hbehind : ∀ p name index, F p name index → p.Precedes x)
    (hnew : ∀ g ∈ groups, g.name ≠ name)
    (hpaths : ((groups ++ [(⟨name, [(index, x)]⟩ : Group)]).flatMap Group.paths).Nodup) :
    Arranged (fun p name' index' => F p name' index' ∨ p = x ∧ name' = name ∧ index' = index)
      (groups ++ [⟨name, [(index, x)]⟩]) := by
  refine ⟨fun p name' index' => ?_, ?_, hpaths, ?_, ?_, ?_⟩
  · rw [h.holds]
    simp only [List.mem_append, List.mem_singleton, or_and_right, exists_or, exists_eq_left,
      Prod.mk.injEq]
    grind
  · rw [List.map_append, List.map_singleton]
    refine h.names.append (List.nodup_singleton _) (List.disjoint_singleton.mpr fun hmem => ?_)
    obtain ⟨g, hg, hname⟩ := List.mem_map.mp hmem
    exact hnew g hg hname
  · exact List.forall_mem_append.mpr ⟨h.nonempty, by simp⟩
  · exact List.forall_mem_append.mpr ⟨h.ascending, by simp⟩
  · refine List.pairwise_append.mpr ⟨h.order, List.pairwise_singleton _ _, fun g hg g' hg' => ?_⟩
    obtain rfl := List.mem_singleton.mp hg'
    obtain ⟨m, hm⟩ := List.exists_mem_of_ne_nil _ (h.nonempty g hg)
    have hp : m.2 ∈ g.paths := List.mem_map_of_mem hm
    exact ⟨m.2, hp, fun q hq => List.mem_singleton.mp hq ▸ h.precedes hbehind hg hp⟩

/-- With one fragment more, that stands behind all the others, the groups stay arranged. -/
theorem enter (h : Arranged F groups) (hx : ∀ name index, ¬ F x name index)
    (hbehind : ∀ p name index, F p name index → p.Precedes x)
    (he : Group.enter name index x groups = .ok groups') :
    Arranged (fun p name' index' => F p name' index' ∨ p = x ∧ name' = name ∧ index' = index)
      groups' := by
  have hpaths := h.nodup_enter hx he
  have hentered := Group.enters name index x groups
  rw [he] at hentered
  cases hentered with
  | joins hname hnew => exact h.joins hbehind hname hnew hpaths
  | starts hnew => exact h.starts hbehind hnew hpaths

end Arranged

/-- Enters a path into the groups if it is a fragment. -/
def Group.collect (sort : Sorting) (groups : List Group) (p : Path) : Except Fault (List Group) :=
  match sort p with
  | .error fault => .error fault
  | .ok none => .ok groups
  | .ok (some (name, index)) => (enter name index p groups).mapError Fault.grouping

/-- Of the paths, this one is a fragment of the program. -/
def Among (sort : Sorting) (ps : List Path) (p : Path) (name : Text) (index : Nat) : Prop :=
  p ∈ ps ∧ sort p = .ok (some (name, index))

/-- All paths are gathered, or the search ends at one of them: it cannot be told what that is, or it
has the number of one before it. -/
inductive Collects (sort : Sorting) (ps : List Path) : Except Fault (List Group) → Prop where
  | all {groups : List Group} (h : Arranged (Among sort ps) groups)
      (told : ∀ p ∈ ps, ∃ found, sort p = .ok found) : Collects sort ps (.ok groups)
  | untold {pre post : List Path} {x : Path} {groups : List Group} {fault : Fault}
      (hps : ps = pre ++ x :: post) (h : Arranged (Among sort pre) groups)
      (hx : sort x = .error fault) : Collects sort ps (.error fault)
  | clash {pre post : List Path} {x first : Path} {name : Text} {index : Nat}
      (hps : ps = pre ++ x :: post) (told : ∀ p ∈ pre, ∃ found, sort p = .ok found)
      (hfirst : Among sort pre first name index) (hx : sort x = .ok (some (name, index))) :
      Collects sort ps (.error (.grouping (.sameIndex x.name first.name index name)))

section
variable {sort : Sorting} {ps : List Path} {groups : List Group} {x : Path}

theorem Collects.concat {fault : Fault} (h : Collects sort ps (.error fault)) (x : Path) :
    Collects sort (ps ++ [x]) (.error fault) := by
  cases h with
  | @untold pre post y _ _ hps h hy =>
    have hps' : ps ++ [x] = pre ++ y :: (post ++ [x]) := by simp [hps]
    exact .untold hps' h hy
  | @clash pre post y _ _ _ hps told hfirst hy =>
    have hps' : ps ++ [x] = pre ++ y :: (post ++ [x]) := by simp [hps]
    exact .clash hps' told hfirst hy

theorem collects_step (h : Arranged (Among sort ps) groups)
    (told : ∀ p ∈ ps, ∃ found, sort p = .ok found) (hx : x ∉ ps)
    (hbehind : ∀ p ∈ ps, p.Precedes x) :
    Collects sort (ps ++ [x]) (Group.collect sort groups x) := by
  rw [Group.collect]
  cases hsort : sort x with
  | error fault => exact .untold rfl h hsort
  | ok found =>
    have told' : ∀ p ∈ ps ++ [x], ∃ found, sort p = .ok found :=
      List.forall_mem_append.mpr ⟨told, by simp [hsort]⟩
    cases found with
    | none =>
      refine .all (h.congr fun p name index => ?_) told'
      simp only [Among, List.mem_append, List.mem_singleton, or_and_right, or_iff_left_iff_imp]
      rintro ⟨rfl, hp⟩
      rw [hsort] at hp
      cases hp
    | some fragment =>
      obtain ⟨name, index⟩ := fragment
      dsimp only
      have hentered := Group.enters name index x groups
      cases henter : Group.enter name index x groups with
      | error cause =>
        rw [henter] at hentered
        cases hentered with
        | @taken pre post g first hname hmem =>
          exact .clash rfl told ((h.holds _ _ _).mpr ⟨g, by simp, hname, hmem⟩) hsort
      | ok groups' =>
        refine .all ((h.enter (fun _ _ hF => hx hF.1) (fun p _ _ hF => hbehind p hF.1) henter).congr
          fun p name' index' => ?_) told'
        simp only [Among, List.mem_append, List.mem_singleton, or_and_right]
        refine or_congr_right (and_congr_right ?_)
        rintro rfl
        simp only [hsort, Except.ok.injEq, Option.some.injEq, Prod.mk.injEq, eq_comm (a := name),
          eq_comm (a := index)]

theorem collects (hps : ps.Pairwise Path.Precedes) :
    Collects sort ps (ps.foldlM (Group.collect sort) []) := by
  induction ps using List.reverseRecOn with
  | nil => exact .all (Arranged.nil.congr (by simp [Among])) (by simp)
  | append_singleton ps x ih =>
    obtain ⟨hps, -, hbehind⟩ := List.pairwise_append.mp hps
    have hrest := ih hps
    rw [List.foldlM_append]
    cases hfold : ps.foldlM (Group.collect sort) [] with
    | error fault =>
      rw [hfold] at hrest
      exact hrest.concat x
    | ok groups =>
      rw [hfold] at hrest
      cases hrest with
      | all h told =>
        change Collects sort (ps ++ [x]) ([x].foldlM (Group.collect sort) groups)
        rw [List.foldlM_cons]
        have hx : ∀ p ∈ ps, p.Precedes x := fun p hp => hbehind p hp x (by simp)
        simpa using collects_step h told (fun hmem => (hx x hmem).asymm (hx x hmem)) hx

theorem mem_before {pre post : List Path} {p : Path}
    (horder : (pre ++ x :: post).Pairwise Path.Precedes) (hp : p ∈ pre ++ x :: post)
    (h : p.Precedes x) : p ∈ pre := by
  obtain ⟨-, hpost, -⟩ := List.pairwise_append.mp horder
  rcases List.mem_append.mp hp with hp | hp
  · exact hp
  · rcases List.mem_cons.mp hp with rfl | hp
    · exact absurd h h.asymm
    · exact absurd h ((List.pairwise_cons.mp hpost).1 p hp).asymm

theorem precedes_untold {pre post : List Path} {p q : Path} {fault : Fault}
    (horder : (pre ++ post).Pairwise Path.Precedes) (told : ∀ q ∈ pre, ∃ found, sort q = .ok found)
    (hp : p ∈ pre ++ post) (huntold : sort p = .error fault) (hq : q ∈ pre) : q.Precedes p := by
  rcases List.mem_append.mp hp with hbefore | hbehind
  · obtain ⟨found, hfound⟩ := told p hbefore
    rw [huntold] at hfound
    cases hfound
  · exact (List.pairwise_append.mp horder).2.2 q hq p hbehind

/-- Two of the paths have one number of one program. -/
def Clashing (sort : Sorting) (ps : List Path) (p q : Path) : Prop :=
  p ≠ q ∧ ∃ name index, Among sort ps p name index ∧ Among sort ps q name index

theorem Arranged.not_clashing (h : Arranged (Among sort ps) groups) (p q : Path) :
    ¬ Clashing sort ps p q :=
  fun ⟨hne, _, _, hp, hq⟩ => hne (h.unique hp hq)

/-- The search is refused for a clash just if there is one, and else finds all fragments. -/
structure Partitions (sort : Sorting) (ps : List Path) (result : Except Fault (List Group)) :
    Prop where
  refused : (∃ cause, result = .error (.grouping cause)) ↔ ∃ p q, Clashing sort ps p q
  found : (¬ ∃ p q, Clashing sort ps p q) →
    ∃ groups, result = .ok groups ∧ Arranged (Among sort ps) groups

/-- A path that cannot be told is met after a clash. -/
def ClashesBefore (sort : Sorting) (ps : List Path) : Prop :=
  ∀ p ∈ ps, (∃ fault, sort p = .error fault) →
    ∃ q r, Clashing sort ps q r ∧ q.Precedes p ∧ r.Precedes p

/-- Where the search ends at a clash, there is one, and all paths up to it can be told. -/
theorem clashing_of_taken {pre post : List Path} {first : Path} {name : Text} {index : Nat}
    (horder : (pre ++ x :: post).Pairwise Path.Precedes) (hfirst : Among sort pre first name index)
    (hx : sort x = .ok (some (name, index))) : Clashing sort (pre ++ x :: post) first x := by
  have hbehind : first.Precedes x :=
    (List.pairwise_append.mp horder).2.2 first hfirst.1 x List.mem_cons_self
  refine ⟨fun heq => ?_, name, index, ⟨List.mem_append_left _ hfirst.1, hfirst.2⟩, by simp, hx⟩
  subst heq
  exact hbehind.asymm hbehind

variable {result : Except Fault (List Group)}

theorem Collects.clashesBefore (h : Collects sort ps result) (horder : ps.Pairwise Path.Precedes)
    (hfault : ∀ p ∈ ps, ∀ cause, sort p ≠ .error (.grouping cause))
    (hpartitions : Partitions sort ps result) : ClashesBefore sort ps := by
  rintro p hp ⟨fault, huntold⟩
  cases h with
  | all _ told =>
    obtain ⟨found, hfound⟩ := told p hp
    rw [huntold] at hfound
    cases hfound
  | @untold pre post x _ cause hps _ hx =>
    -- the search came to nothing, whether there is a clash or not
    by_cases hclash : ∃ p q, Clashing sort ps p q
    · obtain ⟨cause, hrefused⟩ := hpartitions.refused.mpr hclash
      obtain rfl := Except.error.inj hrefused
      exact absurd hx (hfault x (by simp [hps]) cause)
    · obtain ⟨_, hfound, -⟩ := hpartitions.found hclash
      cases hfound
  | @clash pre post x first name index hps told hfirst hx =>
    subst hps
    have htold : ∀ q ∈ pre ++ [x], ∃ found, sort q = .ok found :=
      List.forall_mem_append.mpr ⟨told, by simp [hx]⟩
    have hclash := clashing_of_taken horder hfirst hx
    rw [List.append_cons] at horder hp
    have hbehind : ∀ q ∈ pre ++ [x], q.Precedes p := fun q hq =>
      precedes_untold horder htold hp huntold hq
    exact ⟨first, x, hclash, hbehind first (by simp [hfirst.1]), hbehind x (by simp)⟩

theorem Collects.partitions (h : Collects sort ps result) (horder : ps.Pairwise Path.Precedes)
    (hbefore : ClashesBefore sort ps) : Partitions sort ps result := by
  cases h with
  | all harranged =>
    have hnone : ¬ ∃ p q, Clashing sort ps p q := fun ⟨p, q, h⟩ => harranged.not_clashing p q h
    exact ⟨⟨by simp, fun h => absurd h hnone⟩, fun _ => ⟨_, rfl, harranged⟩⟩
  | @untold pre post x _ fault hps harranged hx =>
    obtain ⟨q, r, ⟨hne, name, index, hq, hr⟩, hqx, hrx⟩ := hbefore x (by simp [hps]) ⟨fault, hx⟩
    subst hps
    exact absurd ⟨hne, name, index, ⟨mem_before horder hq.1 hqx, hq.2⟩,
      ⟨mem_before horder hr.1 hrx, hr.2⟩⟩ (harranged.not_clashing q r)
  | @clash pre post x first name index hps told hfirst hx =>
    subst hps
    have hclash := clashing_of_taken horder hfirst hx
    have hsome : ∃ p q, Clashing sort (pre ++ x :: post) p q := ⟨first, x, hclash⟩
    exact ⟨⟨fun _ => hsome, fun _ => ⟨_, rfl⟩⟩, fun hnone => absurd hsome hnone⟩

end

end PartProgram
