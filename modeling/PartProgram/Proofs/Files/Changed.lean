import PartProgram.Proofs.Files.Leads

/-! # Trees that were changed

Making directories where nothing was, filling files, and taking entries away that
lead to files: what each of these leaves of the ways through a tree.
-/
namespace PartProgram.FileTree

variable {t t' t'' : FileTree} {place found q : Place} {names : List Text} {n : Nat} {node : Node}

@[simp] theorem node?_nil (t : FileTree) : t.node? [] = some .directory := rfl

theorem node?_of_ne (hq : q ≠ []) : t.node? q = t.entries.lookup q := by
  rw [node?, if_neg (by simpa using hq)]

theorem mem_of_lookup {α : Type} {l : List (Place × α)} {q : Place} {a : α}
    (h : l.lookup q = some a) : (q, a) ∈ l := by
  obtain ⟨l₁, l₂, rfl, -⟩ := List.lookup_eq_some_iff.mp h
  simp

theorem mem_entries_of_node? (hq : q ≠ []) (h : t.node? q = some node) : (q, node) ∈ t.entries := by
  rw [node?_of_ne hq] at h
  exact mem_of_lookup h

theorem lookup_cons_of_ne {α : Type} {r : Place} (h : q ≠ r) (m : α) (l : List (Place × α)) :
    ((r, m) :: l).lookup q = l.lookup q := by
  rw [List.lookup_cons, beq_eq_false_iff_ne.mpr h]

theorem lookup_replace (l : List (Place × Node)) (place q : Place) (node : Node) :
    (l.map fun e => if e.1 = place then (place, node) else e).lookup q =
      if q = place then (l.lookup q).map fun _ => node else l.lookup q := by
  induction l with
  | nil => simp
  | cons e l ih =>
    obtain ⟨r, m⟩ := e
    rw [List.map_cons]
    by_cases hr : r = place
    · subst hr
      by_cases hq : q = r
      · subst hq
        simp
      · rw [if_pos rfl, lookup_cons_of_ne hq, lookup_cons_of_ne hq, ih]
    · rw [if_neg hr]
      by_cases hq : q = r
      · subst hq
        simp [hr]
      · rw [lookup_cons_of_ne hq, lookup_cons_of_ne hq, ih]

theorem node?_put (hplace : place ≠ []) (q : Place) :
    (t.put place node).node? q = if q = place then some node else t.node? q := by
  by_cases hq : q = []
  · subst hq
    rw [node?_nil, node?_nil, if_neg (Ne.symm hplace)]
  · rw [node?_of_ne hq, node?_of_ne hq]
    simp only [put]
    split
    · rename_i hsome
      rw [lookup_replace]
      split
      · rename_i heq
        obtain ⟨m, hm⟩ := Option.isSome_iff_exists.mp hsome
        rw [heq, hm]
        rfl
      · rfl
    · rename_i hnone
      rw [List.lookup_append]
      by_cases heq : q = place
      · subst heq
        simp [Option.not_isSome_iff_eq_none.mp hnone]
      · rw [lookup_cons_of_ne heq, if_neg heq, List.lookup_nil, Option.or_none]

theorem lookup_filter_ne (l : List (Place × Node)) (place q : Place) :
    (l.filter fun e => e.1 ≠ place).lookup q = if q = place then none else l.lookup q := by
  induction l with
  | nil => simp
  | cons e l ih =>
    obtain ⟨r, m⟩ := e
    by_cases hr : r = place
    · subst hr
      rw [List.filter_cons_of_neg (by simp), ih]
      split
      · rfl
      · rename_i hq
        rw [lookup_cons_of_ne hq]
    · rw [List.filter_cons_of_pos (by simpa using hr)]
      by_cases hq : q = r
      · subst hq
        simp [hr]
      · rw [lookup_cons_of_ne hq, lookup_cons_of_ne hq, ih]

theorem node?_erase (hplace : place ≠ []) (q : Place) :
    (t.erase place).node? q = if q = place then none else t.node? q := by
  by_cases hq : q = []
  · subst hq
    rw [node?_nil, node?_nil, if_neg (Ne.symm hplace)]
  · rw [node?_of_ne hq, node?_of_ne hq, erase, lookup_filter_ne]

@[simp] theorem current_put (t : FileTree) (place : Place) (node : Node) :
    (t.put place node).current = t.current := rfl

@[simp] theorem current_erase (t : FileTree) (place : Place) :
    (t.erase place).current = t.current := rfl

/-- Directories stay directories and links stay the links they are. -/
structure KeepsWays (t t' : FileTree) : Prop where
  current : t'.current = t.current
  directory : ∀ q, t.node? q = some .directory → t'.node? q = some .directory
  link : ∀ q target, t'.node? q = some (.link target) ↔ t.node? q = some (.link target)

theorem KeepsWays.trans (h : KeepsWays t t') (h' : KeepsWays t' t'') : KeepsWays t t'' :=
  ⟨h'.current.trans h.current, fun q hq => h'.directory q (h.directory q hq),
    fun q target => (h'.link q target).trans (h.link q target)⟩

theorem Leads.keeps (h : Leads t place names found n) (hk : KeepsWays t t') :
    Leads t' place names found n := by
  induction h with
  | here place => exact .here place
  | stay hs _ ih => exact .stay hs ih
  | up hs hu _ ih => exact .up hs hu ih
  | down hn hd _ ih => exact .down hn (hk.directory _ hd) ih
  | follow hn hl _ ih => exact .follow hn ((hk.link _ _).mpr hl) ih
  | @last place name hn hd hl =>
    have hl' : ∀ target, t'.node? (place ++ [name]) ≠ some (.link target) :=
      fun target h => hl target ((hk.link _ _).mp h)
    by_cases hd' : t'.node? (place ++ [name]) = some .directory
    · exact .down hn hd' (.here _)
    · exact .last hn hd' hl'

theorem origin_eq (hk : KeepsWays t t') (p : Path) : t'.origin p = t.origin p := by
  rw [origin, origin, hk.current]

theorem KeepsWays.walk {p : Path} (hk : KeepsWays t t') (h : t.walk .content p = .ok found) :
    t'.walk .content p = .ok found := by
  obtain ⟨n, hn, hleads⟩ := leads_of_walk (by decide) h
  refine Leads.walk ?_ hn (not_isLong_of_walk h)
  rw [origin_eq hk]
  exact hleads.keeps hk

/-- Directories were made where nothing was. -/
structure AddsDirectories (t t' : FileTree) : Prop where
  current : t'.current = t.current
  node : ∀ q, t'.node? q = t.node? q ∨ t.node? q = none ∧ t'.node? q = some .directory

theorem AddsDirectories.refl (t : FileTree) : AddsDirectories t t := ⟨rfl, fun _ => .inl rfl⟩

theorem AddsDirectories.trans (h : AddsDirectories t t') (h' : AddsDirectories t' t'') :
    AddsDirectories t t'' := by
  refine ⟨h'.current.trans h.current, fun q => ?_⟩
  rcases h'.node q with hq' | ⟨hnone, hdir⟩
  · rw [hq']
    exact h.node q
  · rcases h.node q with hq | ⟨-, hdir'⟩
    · exact .inr ⟨hq ▸ hnone, hdir⟩
    · rw [hdir'] at hnone
      cases hnone

theorem AddsDirectories.node_eq (h : AddsDirectories t t') (hq : t.node? q = some node) :
    t'.node? q = some node := by
  rcases h.node q with heq | ⟨hnone, -⟩
  · rw [heq, hq]
  · rw [hnone] at hq
    cases hq

theorem AddsDirectories.keepsWays (h : AddsDirectories t t') : KeepsWays t t' := by
  refine ⟨h.current, fun q => h.node_eq, fun q target => ⟨fun hl => ?_, h.node_eq⟩⟩
  rcases h.node q with heq | ⟨-, hdir⟩
  · rw [← heq, hl]
  · rw [hdir] at hl
    cases hl

theorem AddsDirectories.put (hnone : t.node? place = none) :
    AddsDirectories t (t.put place .directory) := by
  have hplace : place ≠ [] := by
    rintro rfl
    cases hnone
  refine ⟨rfl, fun q => ?_⟩
  rw [node?_put hplace]
  split
  · rename_i heq
    exact .inr ⟨heq ▸ hnone, rfl⟩
  · exact .inl rfl

/-- At the places of `S`, which were missing or files, files may have been filled. -/
structure Fills (S : Place → Prop) (t t' : FileTree) : Prop where
  current : t'.current = t.current
  node : ∀ q, t'.node? q = t.node? q ∨ S q ∧ (∃ c, t'.node? q = some (.file c)) ∧
    (t.node? q = none ∨ ∃ c, t.node? q = some (.file c))

variable {S : Place → Prop}

theorem Fills.refl (S : Place → Prop) (t : FileTree) : Fills S t t := ⟨rfl, fun _ => .inl rfl⟩

theorem Fills.trans (h : Fills S t t') (h' : Fills S t' t'') : Fills S t t'' := by
  refine ⟨h'.current.trans h.current, fun q => ?_⟩
  rcases h'.node q with hq' | ⟨hS, hfile, hold⟩
  · rw [hq']
    exact h.node q
  · rcases h.node q with hq | ⟨-, -, hold'⟩
    · exact .inr ⟨hS, hfile, hq ▸ hold⟩
    · exact .inr ⟨hS, hfile, hold'⟩

theorem Fills.put {c : Text.Bytes} (hS : S place)
    (hold : t.node? place = none ∨ ∃ c, t.node? place = some (.file c)) :
    Fills S t (t.put place (.file c)) := by
  have hplace : place ≠ [] := by
    rintro rfl
    simp at hold
  refine ⟨rfl, fun q => ?_⟩
  rw [node?_put hplace]
  split
  · rename_i heq
    subst heq
    exact .inr ⟨hS, ⟨c, rfl⟩, hold⟩
  · exact .inl rfl

theorem Fills.node_eq (h : Fills S t t') (hq : ¬ S q) : t'.node? q = t.node? q :=
  (h.node q).resolve_right fun h => hq h.1

theorem Fills.keepsWays (h : Fills S t t') : KeepsWays t t' ∧ KeepsWays t' t := by
  have hdir : ∀ q, t'.node? q = some .directory ↔ t.node? q = some .directory := by
    intro q
    rcases h.node q with heq | ⟨-, ⟨c, hc⟩, hold⟩
    · rw [heq]
    · rw [hc]
      rcases hold with hold | ⟨d, hold⟩ <;> simp [hold]
  have hlink : ∀ q target, t'.node? q = some (.link target) ↔ t.node? q = some (.link target) := by
    intro q target
    rcases h.node q with heq | ⟨-, ⟨c, hc⟩, hold⟩
    · rw [heq]
    · rw [hc]
      rcases hold with hold | ⟨d, hold⟩ <;> simp [hold]
  exact ⟨⟨h.current, fun q => (hdir q).mpr, hlink⟩,
    ⟨h.current.symm, fun q => (hdir q).mp, fun q target => (hlink q target).symm⟩⟩

/-- What holds a directory is a directory, and the current one is there. -/
structure Grounded (t : FileTree) : Prop where
  up : ∀ q, t.node? q = some .directory → t.node? q.dropLast = some .directory
  current : t.node? t.current = some .directory

theorem Grounded.origin (h : t.Grounded) (p : Path) : t.node? (t.origin p) = some .directory := by
  rw [FileTree.origin]
  split
  · exact h.current
  · rfl

theorem node?_originOf (h : t.node? place = some .directory) (target : Text) :
    t.node? (originOf place target) = some .directory := by
  rw [originOf]
  split
  · rfl
  · exact h

theorem Leads.not_below {c : Text.Bytes} {more : List Text} {found' : Place} {n' : Nat}
    (hg : t.Grounded) (h : Leads t place names found n) (hd : t.node? place = some .directory)
    (hc : t.node? found = some (.file c)) (hmore : more ≠ []) :
    ¬ Leads t place (names ++ more) found' n' := by
  induction h generalizing n' with
  | here place =>
    rw [hd] at hc
    cases hc
  | stay hs _ ih => exact fun h' => ih hd hc ((leads_stay_iff hs).mp h')
  | up hs hu _ ih => exact fun h' => ih (hg.up _ hd) hc ((leads_up_iff hs hu).mp h')
  | down hn hd' _ ih => exact fun h' => ih hd' hc ((leads_down_iff hn hd').mp h')
  | follow hn hl _ ih =>
    intro h'
    obtain ⟨m, -, hrest⟩ := (leads_follow_iff hn hl).mp h'
    exact ih (node?_originOf hd _) hc (by rwa [List.append_assoc])
  | last hn hd' hl => exact fun h' => hmore ((leads_last_iff hn hd' hl).mp h').1

/-- An entry of a directory leads to the file at a place, of itself or by way of links. -/
def LeadsToFile (t : FileTree) (q file : Place) : Prop :=
  ∃ directory name n c, q = directory ++ [name] ∧ Leads t directory [name] file n ∧
    t.node? file = some (.file c)

/-- Entries that lead to files are on the way to no other place. -/
theorem Leads.spared (hg : t.Grounded) (h : Leads t place names found n)
    (hd : t.node? place = some .directory)
    (hlost : ∀ q, t'.node? q ≠ t.node? q → ∃ file, LeadsToFile t q file ∧ found ≠ file) :
    Leads t' place names found n := by
  have hsame : ∀ {directory : Place} {name : Text},
      (∀ file m c, Leads t directory [name] file m → t.node? file = some (.file c) → found = file) →
      t'.node? (directory ++ [name]) = t.node? (directory ++ [name]) := by
    intro directory name hway
    by_contra hne
    obtain ⟨file, ⟨directory', name', m, c, hq, hfile, hc⟩, hapart⟩ := hlost _ hne
    obtain ⟨rfl, hname⟩ := List.append_inj' hq rfl
    obtain rfl := (List.cons.inj hname).1
    exact hapart (hway file m c hfile hc)
  induction h with
  | here place => exact .here place
  | stay hs _ ih => exact .stay hs (ih hd hlost hsame)
  | up hs hu _ ih => exact .up hs hu (ih (hg.up _ hd) hlost hsame)
  | @down place found name rest n hn hd' _ ih =>
    refine .down hn ?_ (ih hd' hlost hsame)
    rw [hsame fun file m c hfile hc => ?_, hd']
    obtain ⟨rfl, -⟩ := hfile.unique (.down hn hd' (.here _))
    rw [hd'] at hc
    cases hc
  | @follow place found name target rest n hn hl hrest ih =>
    refine .follow hn ?_ (ih (node?_originOf hd _) hlost hsame)
    rw [hsame fun file m c hfile hc => ?_, hl]
    obtain ⟨k, -, hfile⟩ := (leads_follow_iff hn hl).mp hfile
    rw [List.append_nil] at hfile
    by_cases hnil : rest = []
    · rw [hnil, List.append_nil] at hrest
      exact (hrest.unique hfile).1
    · exact absurd hrest (hfile.not_below hg (node?_originOf hd _) hc hnil)
  | @last place name hn hd' hl =>
    have heq : t'.node? (place ++ [name]) = t.node? (place ++ [name]) :=
      hsame fun file m c hfile _ => (Leads.unique (.last hn hd' hl) hfile).1
    exact .last hn (heq ▸ hd') (fun target => heq ▸ hl target)

end PartProgram.FileTree
