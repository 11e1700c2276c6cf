import PartProgram.Files.Tree
import Mathlib.Data.List.Basic

/-! # Where names lead

The place names lead to when every link on the way is followed, apart from limits on
links and from what is wanted there. A walk that succeeds ends at that place, and a
place so reached is reached by a walk that may follow as many links.
-/
namespace PartProgram.FileTree

/-- A name that a directory may hold an entry under. -/
structure IsName (name : Text) : Prop where
  not_stays : staysAt name = false
  not_up : isUp name = false
  short : isLong nameLimit name = false

/-- Names lead from one place to another by way of `n` links. Every name before the last leads to a
directory; what the last leads to may be missing. -/
inductive Leads (t : FileTree) : Place → List Text → Place → Nat → Prop where
  | here (place : Place) : Leads t place [] place 0
  | stay {place found : Place} {name : Text} {rest : List Text} {n : Nat} :
      staysAt name = true → Leads t place rest found n → Leads t place (name :: rest) found n
  | up {place found : Place} {name : Text} {rest : List Text} {n : Nat} :
      staysAt name = false → isUp name = true → Leads t place.dropLast rest found n →
      Leads t place (name :: rest) found n
  | down {place found : Place} {name : Text} {rest : List Text} {n : Nat} :
      IsName name → t.node? (place ++ [name]) = some .directory →
      Leads t (place ++ [name]) rest found n → Leads t place (name :: rest) found n
  | follow {place found : Place} {name target : Text} {rest : List Text} {n : Nat} :
      IsName name → t.node? (place ++ [name]) = some (.link target) →
      Leads t (originOf place target) (namesOf target ++ rest) found n →
      Leads t place (name :: rest) found (n + 1)
  | last {place : Place} {name : Text} :
      IsName name → t.node? (place ++ [name]) ≠ some .directory →
      (∀ target, t.node? (place ++ [name]) ≠ some (.link target)) →
      Leads t place [name] (place ++ [name]) 0

variable {t : FileTree} {place found found' middle : Place} {names more : List Text}
  {n n' links : Nat} {aim : Aim}

section
variable {name target : Text} {rest : List Text}

theorem leads_stay_iff (hs : staysAt name = true) :
    Leads t place (name :: rest) found n ↔ Leads t place rest found n := by
  refine ⟨fun h => ?_, .stay hs⟩
  cases h with
  | stay _ h => exact h
  | up hs' => exact absurd hs (by simp [hs'])
  | down hn => exact absurd hs (by simp [hn.not_stays])
  | follow hn => exact absurd hs (by simp [hn.not_stays])
  | last hn => exact absurd hs (by simp [hn.not_stays])

theorem leads_up_iff (hs : staysAt name = false) (hu : isUp name = true) :
    Leads t place (name :: rest) found n ↔ Leads t place.dropLast rest found n := by
  refine ⟨fun h => ?_, .up hs hu⟩
  cases h with
  | stay hs' => exact absurd hs' (by simp [hs])
  | up _ _ h => exact h
  | down hn => exact absurd hu (by simp [hn.not_up])
  | follow hn => exact absurd hu (by simp [hn.not_up])
  | last hn => exact absurd hu (by simp [hn.not_up])

theorem leads_down_iff (hn : IsName name) (hd : t.node? (place ++ [name]) = some .directory) :
    Leads t place (name :: rest) found n ↔ Leads t (place ++ [name]) rest found n := by
  refine ⟨fun h => ?_, .down hn hd⟩
  cases h with
  | stay hs => exact absurd hs (by simp [hn.not_stays])
  | up _ hu => exact absurd hu (by simp [hn.not_up])
  | down _ _ h => exact h
  | follow _ hl =>
    rw [hd] at hl
    cases hl
  | last _ hd' => exact absurd hd hd'

theorem leads_follow_iff (hn : IsName name) (hl : t.node? (place ++ [name]) = some (.link target)) :
    Leads t place (name :: rest) found n ↔
      ∃ m, n = m + 1 ∧ Leads t (originOf place target) (namesOf target ++ rest) found m := by
  constructor
  · intro h
    cases h with
    | stay hs => exact absurd hs (by simp [hn.not_stays])
    | up _ hu => exact absurd hu (by simp [hn.not_up])
    | down _ hd =>
      rw [hl] at hd
      cases hd
    | follow _ hl' h =>
      rw [hl] at hl'
      cases hl'
      exact ⟨_, rfl, h⟩
    | last _ _ hl' => exact absurd hl (hl' _)
  · rintro ⟨m, rfl, h⟩
    exact .follow hn hl h

theorem leads_last_iff (hn : IsName name) (hd : t.node? (place ++ [name]) ≠ some .directory)
    (hl : ∀ target, t.node? (place ++ [name]) ≠ some (.link target)) :
    Leads t place (name :: rest) found n ↔ rest = [] ∧ found = place ++ [name] ∧ n = 0 := by
  constructor
  · intro h
    cases h with
    | stay hs => exact absurd hs (by simp [hn.not_stays])
    | up _ hu => exact absurd hu (by simp [hn.not_up])
    | down _ hd' => exact absurd hd' hd
    | follow _ hl' => exact absurd hl' (hl _)
    | last => exact ⟨rfl, rfl, rfl⟩
  · rintro ⟨rfl, rfl, rfl⟩
    exact .last hn hd hl

end

/-- Names lead to one place, by way of as many links. -/
theorem Leads.unique (h : Leads t place names found n) (h' : Leads t place names found' n') :
    found = found' ∧ n = n' := by
  induction h generalizing found' n' with
  | here place =>
    cases h'
    exact ⟨rfl, rfl⟩
  | stay hs _ ih => exact ih ((leads_stay_iff hs).mp h')
  | up hs hu _ ih => exact ih ((leads_up_iff hs hu).mp h')
  | down hn hd _ ih => exact ih ((leads_down_iff hn hd).mp h')
  | follow hn hl _ ih =>
    obtain ⟨m, hm, hrest⟩ := (leads_follow_iff hn hl).mp h'
    obtain ⟨rfl, rfl⟩ := ih hrest
    exact ⟨rfl, hm.symm⟩
  | last hn hd hl =>
    obtain ⟨-, rfl, rfl⟩ := (leads_last_iff hn hd hl).mp h'
    exact ⟨rfl, rfl⟩

/-- Names that lead somewhere lead there by way of where the first of them lead. -/
theorem Leads.split {place : Place} {names : List Text} {n : Nat}
    (h : Leads t place (names ++ more) found n) :
    ∃ middle m k, Leads t place names middle m ∧ Leads t middle more found k ∧ n = m + k := by
  match names with
  | [] => exact ⟨place, 0, n, .here _, h, (Nat.zero_add n).symm⟩
  | name :: names =>
    rw [List.cons_append] at h
    generalize hall : names ++ more = all at h
    cases h with
    | stay hs h =>
      obtain ⟨middle, m, k, hm, hk, rfl⟩ := Leads.split (hall ▸ h)
      exact ⟨middle, m, k, .stay hs hm, hk, rfl⟩
    | up hs hu h =>
      obtain ⟨middle, m, k, hm, hk, rfl⟩ := Leads.split (hall ▸ h)
      exact ⟨middle, m, k, .up hs hu hm, hk, rfl⟩
    | down hn hd h =>
      obtain ⟨middle, m, k, hm, hk, rfl⟩ := Leads.split (hall ▸ h)
      exact ⟨middle, m, k, .down hn hd hm, hk, rfl⟩
    | follow hn hl h =>
      -- the names of the target come before the rest of the first names
      rw [← hall, ← List.append_assoc] at h
      obtain ⟨middle, m, k, hm, hk, rfl⟩ := Leads.split h
      exact ⟨middle, m + 1, k, .follow hn hl hm, hk, by omega⟩
    | last hn hd hl =>
      obtain ⟨rfl, rfl⟩ := List.append_eq_nil_iff.mp hall
      exact ⟨_, 0, 0, .last hn hd hl, .here _, rfl⟩
termination_by (n, names.length)

/-- What a walk down comes to, name by name. Whatever it is refused for, it is not for links. -/
inductive Descends (t : FileTree) (aim : Aim) :
    Place → List Text → Except FileFault Halt → Prop where
  | here (place : Place) : Descends t aim place [] (.ok (.at place))
  | stay {place : Place} {name : Text} {rest : List Text} {halt : Except FileFault Halt} :
      staysAt name = true → Descends t aim place rest halt → Descends t aim place (name :: rest) halt
  | up {place : Place} {name : Text} {rest : List Text} {halt : Except FileFault Halt} :
      staysAt name = false → isUp name = true → Descends t aim place.dropLast rest halt →
      Descends t aim place (name :: rest) halt
  | down {place : Place} {name : Text} {rest : List Text} {halt : Except FileFault Halt} :
      IsName name → t.node? (place ++ [name]) = some .directory →
      Descends t aim (place ++ [name]) rest halt → Descends t aim place (name :: rest) halt
  | last {place : Place} {name : Text} :
      IsName name → t.node? (place ++ [name]) ≠ some .directory →
      (∀ target, t.node? (place ++ [name]) ≠ some (.link target)) →
      Descends t aim place [name] (.ok (.at (place ++ [name])))
  | entry {place : Place} {name target : Text} :
      IsName name → t.node? (place ++ [name]) = some (.link target) → aim = .entry →
      Descends t aim place [name] (.ok (.at (place ++ [name])))
  | link {place : Place} {name target : Text} {rest : List Text} :
      IsName name → t.node? (place ++ [name]) = some (.link target) → rest ≠ [] ∨ aim ≠ .entry →
      asksDirectory aim rest = false → Descends t aim place (name :: rest) (.ok (.link place target rest))
  | refused {place : Place} {name : Text} {rest : List Text} {fault : FileFault} :
      fault ≠ .tooManyLinks → Descends t aim place (name :: rest) (.error fault)

theorem blocked_ne {fault cause : FileFault} {rest : List Text} (hdirectory : .isDirectory ≠ fault)
    (hcause : cause ≠ fault) : blocked aim rest cause ≠ fault := by
  rw [blocked]
  split
  · exact hdirectory
  · exact hcause

theorem descends (t : FileTree) (aim : Aim) (place : Place) (names : List Text) :
    Descends t aim place names (descend t aim place names) := by
  induction names generalizing place with
  | nil => exact .here place
  | cons name rest ih =>
    rw [descend]
    split
    next hs => exact .stay hs (ih place)
    next hs =>
    split
    next hu => exact .up (by simpa using hs) hu (ih _)
    next hu =>
    dsimp only
    split
    next => exact .refused (blocked_ne (by decide) (by decide))
    next hlong =>
    have hn : IsName name := ⟨by simpa using hs, by simpa using hu, by simpa using hlong⟩
    split
    next hnode =>
      split
      next hrest =>
        obtain rfl := List.isEmpty_iff.mp hrest
        exact .last hn (by simp [hnode]) (by simp [hnode])
      next => exact .refused (blocked_ne (by decide) (by decide))
    next hnode => exact .down hn hnode (ih _)
    next hnode =>
      split
      next hrest =>
        obtain rfl := List.isEmpty_iff.mp hrest
        exact .last hn (by simp [hnode]) (by simp [hnode])
      next => exact .refused (blocked_ne (by decide) (by decide))
    next hnode =>
      split
      next hentry =>
        obtain ⟨hrest, haim⟩ := Bool.and_eq_true_iff.mp hentry
        obtain rfl := List.isEmpty_iff.mp hrest
        exact .entry hn hnode (of_decide_eq_true haim)
      next hentry =>
      split
      next => exact .refused (by decide)
      next hasks =>
        refine .link hn hnode ?_ (by simpa using hasks)
        simpa [Decidable.imp_iff_not_or] using hentry

theorem leads_of_descend_at (haim : aim ≠ .entry) (h : descend t aim place names = .ok (.at found)) :
    Leads t place names found 0 := by
  have hd := descends t aim place names
  generalize descend t aim place names = halt at h hd
  induction hd with
  | here place =>
    cases h
    exact .here _
  | stay hs _ ih => exact .stay hs (ih h)
  | up hs hu _ ih => exact .up hs hu (ih h)
  | down hn hnode _ ih => exact .down hn hnode (ih h)
  | last hn hd hl =>
    cases h
    exact .last hn hd hl
  | entry _ _ hentry => exact absurd hentry haim
  | link | refused => cases h

theorem leads_of_descend_link {directory : Place} {target : Text} {rest : List Text}
    (h : descend t aim place names = .ok (.link directory target rest))
    (hrest : Leads t (originOf directory target) (namesOf target ++ rest) found n) :
    Leads t place names found (n + 1) := by
  have hd := descends t aim place names
  generalize descend t aim place names = halt at h hd
  induction hd with
  | stay hs _ ih => exact .stay hs (ih h)
  | up hs hu _ ih => exact .up hs hu (ih h)
  | down hn hnode _ ih => exact .down hn hnode (ih h)
  | link hn hnode =>
    cases h
    exact .follow hn hnode hrest
  | here | last | entry | refused => cases h

theorem walkFrom_eq (t : FileTree) (aim : Aim) (links : Nat) (place : Place) (names : List Text) :
    walkFrom t aim links place names =
      match descend t aim place names with
      | .error fault => .error fault
      | .ok (.at found) => .ok found
      | .ok (.link directory target rest) =>
        match links with
        | 0 => .error .tooManyLinks
        | links + 1 => walkFrom t aim links (originOf directory target) (namesOf target ++ rest) := by
  exact walkFrom.eq_def t aim links place names

/-- A walk that succeeds, link by link. -/
inductive Walks (t : FileTree) (aim : Aim) (found : Place) :
    Nat → Place → List Text → Prop where
  | stop {links : Nat} {place : Place} {names : List Text} :
      descend t aim place names = .ok (.at found) → Walks t aim found links place names
  | follow {links : Nat} {place directory : Place} {target : Text} {names rest : List Text} :
      descend t aim place names = .ok (.link directory target rest) →
      Walks t aim found links (originOf directory target) (namesOf target ++ rest) →
      Walks t aim found (links + 1) place names

theorem walks_of_walkFrom (h : walkFrom t aim links place names = .ok found) :
    Walks t aim found links place names := by
  induction links generalizing place names with
  | zero =>
    rw [walkFrom_eq] at h
    split at h
    · cases h
    · rename_i hd
      cases h
      exact .stop hd
    · cases h
  | succ links ih =>
    rw [walkFrom_eq] at h
    split at h
    · cases h
    · rename_i hd
      cases h
      exact .stop hd
    · rename_i hd
      exact .follow hd (ih h)

theorem Walks.walkFrom (h : Walks t aim found links place names) :
    walkFrom t aim links place names = .ok found := by
  induction h with
  | stop hd => rw [walkFrom_eq, hd]
  | follow hd _ ih =>
    rw [walkFrom_eq, hd]
    exact ih

theorem Walks.leads (h : Walks t aim found links place names) (haim : aim ≠ .entry) :
    ∃ n ≤ links, Leads t place names found n := by
  induction h with
  | stop hd => exact ⟨0, Nat.zero_le _, leads_of_descend_at haim hd⟩
  | follow hd _ ih =>
    obtain ⟨n, hn, hleads⟩ := ih
    exact ⟨n + 1, Nat.succ_le_succ hn, leads_of_descend_link hd hleads⟩

theorem walkFrom_congr {place' : Place} {names' : List Text}
    (h : descend t aim place names = descend t aim place' names') :
    walkFrom t aim links place names = walkFrom t aim links place' names' := by
  rw [walkFrom_eq, walkFrom_eq, h]

section
variable {name : Text} {rest : List Text}

theorem descend_stay (hs : staysAt name = true) :
    descend t aim place (name :: rest) = descend t aim place rest := by
  rw [descend, if_pos hs]

theorem descend_up (hs : staysAt name = false) (hu : isUp name = true) :
    descend t aim place (name :: rest) = descend t aim place.dropLast rest := by
  rw [descend, if_neg (by simp [hs]), if_pos hu]

theorem descend_down (hn : IsName name) (hd : t.node? (place ++ [name]) = some .directory) :
    descend t aim place (name :: rest) = descend t aim (place ++ [name]) rest := by
  rw [descend, if_neg (by simp [hn.not_stays]), if_neg (by simp [hn.not_up])]
  simp only [hd]
  rw [if_neg (by simp [hn.short])]

theorem descend_follow {target : Text} (hn : IsName name)
    (hl : t.node? (place ++ [name]) = some (.link target)) (hentry : rest ≠ [] ∨ aim ≠ .entry)
    (hasks : asksDirectory aim rest = false) :
    descend t aim place (name :: rest) = .ok (.link place target rest) := by
  rw [descend, if_neg (by simp [hn.not_stays]), if_neg (by simp [hn.not_up])]
  simp only [hl]
  rw [if_neg (by simp [hn.short]), if_neg (by simpa [Decidable.imp_iff_not_or] using hentry),
    if_neg (by simp [hasks])]

theorem descend_last (hn : IsName name) (hd : t.node? (place ++ [name]) ≠ some .directory)
    (hl : ∀ target, t.node? (place ++ [name]) ≠ some (.link target)) :
    descend t aim place [name] = .ok (.at (place ++ [name])) := by
  rw [descend, if_neg (by simp [hn.not_stays]), if_neg (by simp [hn.not_up])]
  dsimp only
  rw [if_neg (by simp [hn.short])]
  split
  · rfl
  · rename_i hnode
    exact absurd hnode hd
  · rfl
  · rename_i hnode
    exact absurd hnode (hl _)

theorem descend_entry (hn : IsName name) :
    descend t .entry place [name] = .ok (.at (place ++ [name])) := by
  rw [descend, if_neg (by simp [hn.not_stays]), if_neg (by simp [hn.not_up])]
  dsimp only
  rw [if_neg (by simp [hn.short])]
  split <;> simp [descend]

end

theorem Leads.walkFrom (h : Leads t place names found n) (hn : n ≤ links) :
    walkFrom t .content links place names = .ok found := by
  induction h generalizing links with
  | here place => rw [walkFrom_eq]; rfl
  | stay hs _ ih => rw [walkFrom_congr (descend_stay hs), ih hn]
  | up hs hu _ ih => rw [walkFrom_congr (descend_up hs hu), ih hn]
  | down hname hd _ ih => rw [walkFrom_congr (descend_down hname hd), ih hn]
  | follow hname hl _ ih =>
    obtain ⟨links, rfl⟩ := Nat.exists_eq_succ_of_ne_zero (Nat.ne_of_gt (Nat.lt_of_lt_of_le (Nat.succ_pos _) hn))
    rw [walkFrom_eq, descend_follow hname hl (.inr (by decide)) rfl]
    exact ih (Nat.le_of_succ_le_succ hn)
  | last hname hd hl => rw [walkFrom_eq, descend_last hname hd hl]

theorem Leads.walkEntry {name : Text} (h : Leads t place names found n)
    (hd : t.node? found = some .directory) (hn : n ≤ links) (hname : IsName name) :
    FileTree.walkFrom t .entry links place (names ++ [name]) = .ok (found ++ [name]) := by
  induction h generalizing links with
  | here place =>
    rw [List.nil_append, walkFrom_eq, descend_entry hname]
  | stay hs _ ih => rw [List.cons_append, walkFrom_congr (descend_stay hs), ih hd hn]
  | up hs hu _ ih => rw [List.cons_append, walkFrom_congr (descend_up hs hu), ih hd hn]
  | down hname' hd' _ ih => rw [List.cons_append, walkFrom_congr (descend_down hname' hd'), ih hd hn]
  | follow hname' hl _ ih =>
    obtain ⟨links, rfl⟩ := Nat.exists_eq_succ_of_ne_zero (Nat.ne_of_gt (Nat.lt_of_lt_of_le (Nat.succ_pos _) hn))
    have hrest := ih hd (Nat.le_of_succ_le_succ hn)
    rw [List.append_assoc] at hrest
    rw [List.cons_append, walkFrom_eq, descend_follow hname' hl (.inl (by simp)) rfl]
    exact hrest
  | last _ hd' => exact absurd hd hd'

section
variable {p : Path}

theorem leads_of_walk (haim : aim ≠ .entry) (h : t.walk aim p = .ok found) :
    ∃ n ≤ linkLimit, Leads t (t.origin p) (pathNames p) found n := by
  rw [walk] at h
  split at h
  · cases h
  · exact (walks_of_walkFrom h).leads haim

theorem not_isLong_of_walk (h : t.walk aim p = .ok found) : isLong pathLimit p.text = false := by
  rw [walk] at h
  split at h
  · cases h
  · rename_i hlong
    simpa using hlong

theorem Leads.walk (h : Leads t (t.origin p) (pathNames p) found n) (hn : n ≤ linkLimit)
    (hlong : isLong pathLimit p.text = false) : t.walk .content p = .ok found := by
  rw [FileTree.walk, if_neg (by simp [hlong])]
  exact h.walkFrom hn

theorem walk_content (haim : aim ≠ .entry) (h : t.walk aim p = .ok found) :
    t.walk .content p = .ok found := by
  obtain ⟨n, hn, hleads⟩ := leads_of_walk haim h
  exact hleads.walk hn (not_isLong_of_walk h)

end

end PartProgram.FileTree
