import PartProgram.Proofs.Files.Changed

/-! # Resolving what is seen

A path that leads somewhere is resolved to that place if no link on the way is too far
down to be looked up, by the path that it is met by. A link that is being replaced is
not met again, since what it leads to takes fewer links than it does.
-/
namespace PartProgram.FileTree

variable {t t' : FileTree} {r q q' middle : Trail} {name target : Text} {names rest : List Text}
  {n n' m k depth : Nat} {known known' : Known}

@[simp] theorem Trail.up_down (r : Trail) (name : Text) : (r.down name).up = r := by
  obtain ⟨base, names⟩ := r
  cases names with
  | nil => rfl
  | cons first names =>
    have hdrop : (first :: names ++ [name]).dropLast = first :: names := List.dropLast_concat
    exact congrArg (Trail.mk base) hdrop

@[simp] theorem placeAt_down (t : FileTree) (r : Trail) (name : Text) :
    t.placeAt (r.down name) = t.placeAt r ++ [name] := by
  obtain ⟨base, names⟩ := r
  cases base <;> simp [placeAt, Trail.down]

@[simp] theorem placeAt_up (t : FileTree) (r : Trail) : t.placeAt r.up = (t.placeAt r).dropLast := by
  obtain ⟨base, names⟩ := r
  cases names with
  | nil =>
    cases base with
    | root => rfl
    | above levels =>
      simp only [placeAt, Trail.up, List.append_nil, List.dropLast_eq_take, List.take_take,
        List.length_take]
      congr 1
      omega
  | cons name names =>
    cases base <;> simp [placeAt, Trail.up, List.dropLast_append_of_ne_nil]

@[simp] theorem placeAt_origin (t : FileTree) (r : Trail) (target : Text) :
    t.placeAt (r.origin target) = originOf (t.placeAt r) target := by
  rw [Trail.origin, originOf]
  split <;> rfl

@[simp] theorem placeAt_ofPath (t : FileTree) (p : Path) : t.placeAt (.ofPath p) = t.origin p := by
  rw [Trail.ofPath, origin]
  split <;> simp [placeAt]

/-- Names followed from one trail to another by way of `n` links, each of which is seen. -/
inductive Sees (t : FileTree) : Trail → List Text → Trail → Nat → Prop where
  | here (r : Trail) : Sees t r [] r 0
  | stay {r q : Trail} {name : Text} {rest : List Text} {n : Nat} :
      staysAt name = true → Sees t r rest q n → Sees t r (name :: rest) q n
  | up {r q : Trail} {name : Text} {rest : List Text} {n : Nat} :
      staysAt name = false → isUp name = true → Sees t r.up rest q n → Sees t r (name :: rest) q n
  | down {r q : Trail} {name : Text} {rest : List Text} {n : Nat} :
      staysAt name = false → isUp name = false →
      (∀ target, t.node? (t.placeAt (r.down name)) ≠ some (.link target)) →
      Sees t (r.down name) rest q n → Sees t r (name :: rest) q n
  | follow {r middle q : Trail} {name target : Text} {rest : List Text} {m n : Nat} :
      staysAt name = false → isUp name = false → t.linkAt (r.down name) = some target →
      Sees t (r.origin target) (namesOf target) middle m → Sees t middle rest q n →
      Sees t r (name :: rest) q (m + n + 1)

theorem linkAt_eq_some :
    t.linkAt r = some target ↔
      isShort r.path = true ∧ t.node? (t.placeAt r) = some (.link target) := by
  rw [linkAt]
  split
  · rename_i hshort
    rw [hshort, and_iff_right rfl]
    split
    · rename_i hl
      rw [hl, Option.some_inj, Option.some_inj, Node.link.injEq]
    · rename_i hl
      exact ⟨nofun, fun h => absurd h (hl _)⟩
  · rename_i hlong
    exact ⟨nofun, fun h => absurd h.1 hlong⟩

theorem linkAt_eq_none (h : ∀ target, t.node? (t.placeAt r) ≠ some (.link target)) :
    t.linkAt r = none :=
  Option.eq_none_iff_forall_ne_some.mpr fun target hl => h target (linkAt_eq_some.mp hl).2

theorem sees_follow_iff (hs : staysAt name = false) (hu : isUp name = false)
    (hl : t.linkAt (r.down name) = some target) :
    Sees t r (name :: rest) q k ↔ ∃ middle m n, Sees t (r.origin target) (namesOf target) middle m ∧
      Sees t middle rest q n ∧ k = m + n + 1 := by
  constructor
  · intro h
    cases h with
    | stay hs' => exact absurd hs' (by simp [hs])
    | up _ hu' => exact absurd hu' (by simp [hu])
    | down _ _ hd => exact absurd ((linkAt_eq_some.mp hl).2) (hd _)
    | follow _ _ hl' hm hn =>
      obtain rfl := Option.some.inj (hl.symm.trans hl')
      exact ⟨_, _, _, hm, hn, rfl⟩
  · rintro ⟨middle, m, n, hm, hn, rfl⟩
    exact .follow hs hu hl hm hn

theorem Sees.unique (h : Sees t r names q n) (h' : Sees t r names q' n') : q = q' ∧ n = n' := by
  induction h generalizing q' n' with
  | here r =>
    cases h'
    exact ⟨rfl, rfl⟩
  | stay hs _ ih =>
    cases h' with
    | stay _ h' => exact ih h'
    | up hs' | down hs' | follow hs' => exact absurd hs (by simp [hs'])
  | up hs hu _ ih =>
    cases h' with
    | stay hs' => exact absurd hs' (by simp [hs])
    | up _ _ h' => exact ih h'
    | down _ hu' | follow _ hu' => exact absurd hu (by simp [hu'])
  | down hs hu hd _ ih =>
    cases h' with
    | stay hs' => exact absurd hs' (by simp [hs])
    | up _ hu' => exact absurd hu' (by simp [hu])
    | down _ _ _ h' => exact ih h'
    | follow _ _ hl' => exact absurd ((linkAt_eq_some.mp hl').2) (hd _)
  | follow hs hu hl _ _ ihm ihn =>
    obtain ⟨middle', m', k', hm', hk', rfl⟩ := (sees_follow_iff hs hu hl).mp h'
    obtain ⟨rfl, rfl⟩ := ihm hm'
    obtain ⟨rfl, rfl⟩ := ihn hk'
    exact ⟨rfl, rfl⟩

/-- What is seen is what the file system finds. -/
theorem Sees.placeAt_eq (h : Sees t r names q n) {found : Place} {k : Nat}
    (hleads : Leads t (t.placeAt r) names found k) : t.placeAt q = found := by
  induction h generalizing found k with
  | here r =>
    cases hleads
    rfl
  | stay hs _ ih => exact ih ((leads_stay_iff hs).mp hleads)
  | up hs hu _ ih =>
    refine ih (k := k) ?_
    rw [placeAt_up]
    exact (leads_up_iff hs hu).mp hleads
  | @down r q name rest n hs hu hl hsees ih =>
    rw [placeAt_down] at hl ih
    cases hleads with
    | stay hs' => exact absurd hs' (by simp [hs])
    | up _ hu' => exact absurd hu' (by simp [hu])
    | down _ _ h => exact ih h
    | follow _ hl' => exact absurd hl' (hl _)
    | last =>
      cases hsees
      rw [placeAt_down]
  | @follow r middle q name target rest m n hs hu hl _ _ ihm ihn =>
    have hnode := (linkAt_eq_some.mp hl).2
    rw [placeAt_down] at hnode
    cases hleads with
    | stay hs' => exact absurd hs' (by simp [hs])
    | up _ hu' => exact absurd hu' (by simp [hu])
    | down _ hd =>
      rw [hnode] at hd
      cases hd
    | follow _ hl' h =>
      obtain rfl := Node.link.inj (Option.some.inj (hnode.symm.trans hl'))
      obtain ⟨place, i, j, hi, hj, -⟩ := h.split
      obtain rfl := ihm (placeAt_origin t r target ▸ hi)
      exact ihn hj
    | last _ _ hl' => exact absurd hnode (hl' _)

def LinkSees (t : FileTree) (link : Trail) (target : Text) (q : Trail) (n : Nat) : Prop :=
  Sees t (link.up.origin target) (namesOf target) q n

def Sound (t : FileTree) (known : Known) : Prop :=
  ∀ link q, known.lookup link = some (some q) → ∀ target, t.linkAt link = some target →
    ∃ m, LinkSees t link target q m

/-- Each link that is being replaced takes as many links as are still ahead, at least. -/
def Ahead (t : FileTree) (known : Known) (n : Nat) : Prop :=
  ∀ link, known.lookup link = some none → ∀ target, t.linkAt link = some target →
    ∀ q m, LinkSees t link target q m → n ≤ m

/-- No other links are being replaced than before. -/
def Closes (known known' : Known) : Prop :=
  ∀ link, known'.lookup link = some none → known.lookup link = some none

theorem Ahead.mono (h : Ahead t known n) (hm : m ≤ n) : Ahead t known m :=
  fun link hlink target htarget q k hk => Nat.le_trans hm (h link hlink target htarget q k hk)

theorem lookup_entry {link link' : Trail} {o : Option Trail} (h : link' ≠ link) (known : Known) :
    ((link, o) :: known).lookup link' = known.lookup link' := by
  rw [List.lookup_cons, beq_eq_false_iff_ne.mpr h]

section
variable {link : Trail} (hl : t.linkAt link = some target) (hm : LinkSees t link target middle m)
include hl hm

theorem enter_link (hsound : Sound t known) (hahead : Ahead t known n) (hn : m ≤ n) :
    Sound t ((link, none) :: known) ∧ Ahead t ((link, none) :: known) m := by
  refine ⟨fun link' q hq => ?_, fun link' hlink' target' htarget' q k hk => ?_⟩
  · by_cases heq : link' = link
    · rw [heq, List.lookup_cons_self] at hq
      cases hq
    · exact hsound link' q (lookup_entry heq known ▸ hq)
  · by_cases heq : link' = link
    · subst heq
      obtain rfl := Option.some.inj (hl.symm.trans htarget')
      exact Nat.le_of_eq (hm.unique hk).2
    · exact hahead.mono hn link' (lookup_entry heq known ▸ hlink') target' htarget' q k hk

theorem leave_link (hsound : Sound t known') (hcloses : Closes ((link, none) :: known) known') :
    Sound t ((link, some middle) :: known') ∧ Closes known ((link, some middle) :: known') := by
  refine ⟨fun link' q hq => ?_, fun link' hlink' => ?_⟩
  · by_cases heq : link' = link
    · subst heq
      rw [List.lookup_cons_self] at hq
      obtain rfl := Option.some.inj (Option.some.inj hq)
      intro target' htarget'
      obtain rfl := Option.some.inj (hl.symm.trans htarget')
      exact ⟨m, hm⟩
    · exact hsound link' q (lookup_entry heq known' ▸ hq)
  · by_cases heq : link' = link
    · rw [heq, List.lookup_cons_self] at hlink'
      cases hlink'
    · rw [lookup_entry heq] at hlink'
      exact lookup_entry heq known ▸ hcloses link' hlink'

end

theorem resolveNames_stay {expand : Known → Trail → Text → Resolution} (hs : staysAt name = true) :
    resolveNames t expand known r (name :: rest) = resolveNames t expand known r rest := by
  rw [resolveNames, if_pos hs]

theorem resolveNames_up {expand : Known → Trail → Text → Resolution} (hs : staysAt name = false)
    (hu : isUp name = true) :
    resolveNames t expand known r (name :: rest) = resolveNames t expand known r.up rest := by
  rw [resolveNames, if_neg (by simp [hs]), if_pos hu]

theorem resolveNames_down {expand : Known → Trail → Text → Resolution} (hs : staysAt name = false)
    (hu : isUp name = false) (hl : t.linkAt (r.down name) = none) :
    resolveNames t expand known r (name :: rest) = resolveNames t expand known (r.down name) rest := by
  rw [resolveNames, if_neg (by simp [hs]), if_neg (by simp [hu])]
  simp only [hl]

theorem resolveNames_link {expand : Known → Trail → Text → Resolution} (hs : staysAt name = false)
    (hu : isUp name = false) (hl : t.linkAt (r.down name) = some target) :
    resolveNames t expand known r (name :: rest) =
      match known.lookup (r.down name) with
      | some (some found) => resolveNames t expand known found rest
      | some none => .circle (goOn (r.down name).path rest)
      | none =>
        match expand ((r.down name, none) :: known) r target with
        | .found found known => resolveNames t expand ((r.down name, some found) :: known) found rest
        | .circle path => .circle (goOn path rest)
        | .tooDeep => .tooDeep := by
  rw [resolveNames, if_neg (by simp [hs]), if_neg (by simp [hu])]
  cases hknown : known.lookup (r.down name) with
  | none =>
    cases hexpand : expand ((r.down name, none) :: known) r target <;>
      simp only [hl, hknown, hexpand]
  | some found => cases found <;> simp only [hl, hknown]

/-- Resolving ends at a trail, or the links stand too deep in each other. -/
def EndsAt (t : FileTree) (known : Known) (q : Trail) (result : Resolution) : Prop :=
  result = .tooDeep ∨ ∃ known', result = .found q known' ∧ Sound t known' ∧ Closes known known'

/-- What is seen is what names are resolved to. -/
theorem Sees.endsAt (h : Sees t r names q n) (hsound : Sound t known) (hahead : Ahead t known n) :
    EndsAt t known q (resolveNames t (expandLink t depth) known r names) := by
  induction h generalizing known depth with
  | here r => exact .inr ⟨known, rfl, hsound, fun _ => id⟩
  | stay hs _ ih =>
    rw [resolveNames_stay hs]
    exact ih hsound hahead
  | up hs hu _ ih =>
    rw [resolveNames_up hs hu]
    exact ih hsound hahead
  | down hs hu hd _ ih =>
    rw [resolveNames_down hs hu (linkAt_eq_none hd)]
    exact ih hsound hahead
  | @follow r middle q name target rest m n hs hu hl hm _ ihm ihn =>
    have hlink : LinkSees t (r.down name) target middle m := by
      rwa [LinkSees, Trail.up_down]
    rw [resolveNames_link hs hu hl]
    split
    · rename_i found hfound
      obtain ⟨k, hk⟩ := hsound _ _ hfound _ hl
      obtain ⟨rfl, -⟩ := hlink.unique hk
      exact ihn hsound (hahead.mono (by omega))
    · -- a link that is being replaced takes more links than this one
      rename_i hopen
      exact absurd (hahead _ hopen _ hl _ _ hlink) (by omega)
    · obtain ⟨hsound₁, hahead₁⟩ := enter_link hl hlink hsound hahead (by omega)
      cases depth with
      | zero => exact .inl rfl
      | succ depth =>
        rw [expandLink]
        rcases ihm hsound₁ hahead₁ with hdeep | ⟨known₂, hfound, hsound₂, hcloses₂⟩
        · rw [hdeep]
          exact .inl rfl
        · simp only [hfound]
          obtain ⟨hsound₃, hcloses₃⟩ := leave_link hl hlink hsound₂ hcloses₂
          rcases ihn hsound₃ fun link hlink' => hahead.mono (by omega) link (hcloses₃ link hlink')
            with hdeep | ⟨known', hend, hsound', hcloses'⟩
          · exact .inl hdeep
          · exact .inr ⟨known', hend, hsound', fun link hlink' => hcloses₃ link (hcloses' link hlink')⟩

/-- The link at the end of a trail is met by whoever follows names, as far as links are seen. -/
inductive Meets (t : FileTree) (link : Trail) : Trail → List Text → Prop where
  | here {r : Trail} {name target : Text} {rest : List Text} :
      staysAt name = false → isUp name = false → link = r.down name →
      t.node? (t.placeAt link) = some (.link target) → Meets t link r (name :: rest)
  | stay {r : Trail} {name : Text} {rest : List Text} :
      staysAt name = true → Meets t link r rest → Meets t link r (name :: rest)
  | up {r : Trail} {name : Text} {rest : List Text} :
      staysAt name = false → isUp name = true → Meets t link r.up rest → Meets t link r (name :: rest)
  | down {r : Trail} {name : Text} {rest : List Text} :
      staysAt name = false → isUp name = false →
      (∀ target, t.node? (t.placeAt (r.down name)) ≠ some (.link target)) →
      Meets t link (r.down name) rest → Meets t link r (name :: rest)
  | inside {r : Trail} {name target : Text} {rest : List Text} :
      staysAt name = false → isUp name = false → t.linkAt (r.down name) = some target →
      Meets t link (r.origin target) (namesOf target) → Meets t link r (name :: rest)
  | behind {r middle : Trail} {name target : Text} {rest : List Text} {m : Nat} :
      staysAt name = false → isUp name = false → t.linkAt (r.down name) = some target →
      Sees t (r.origin target) (namesOf target) middle m → Meets t link middle rest →
      Meets t link r (name :: rest)

/-- Names that lead somewhere are seen to the end, if no link on the way is too far down. -/
theorem Leads.sees {r : Trail} {names : List Text} {found : Place} {n : Nat}
    (h : Leads t (t.placeAt r) names found n)
    (hshort : ∀ link, Meets t link r names → isShort link.path = true) :
    ∃ q, Sees t r names q n := by
  match names with
  | [] =>
    cases h
    exact ⟨r, .here r⟩
  | name :: rest =>
    cases h with
    | stay hs h =>
      obtain ⟨q, hq⟩ := Leads.sees h fun link hlink => hshort link (.stay hs hlink)
      exact ⟨q, .stay hs hq⟩
    | up hs hu h =>
      rw [← placeAt_up] at h
      obtain ⟨q, hq⟩ := Leads.sees h fun link hlink => hshort link (.up hs hu hlink)
      exact ⟨q, .up hs hu hq⟩
    | down hn hd h =>
      rw [← placeAt_down] at h hd
      have hl : ∀ target, t.node? (t.placeAt (r.down name)) ≠ some (.link target) :=
        fun target hl => nomatch hd.symm.trans hl
      obtain ⟨q, hq⟩ := Leads.sees h fun link hlink =>
        hshort link (.down hn.not_stays hn.not_up hl hlink)
      exact ⟨q, .down hn.not_stays hn.not_up hl hq⟩
    | last hn _ hl =>
      rw [← placeAt_down] at hl
      exact ⟨_, .down hn.not_stays hn.not_up hl (.here _)⟩
    | @follow _ _ _ target _ n hn hl h =>
      rw [← placeAt_down] at hl
      have hseen : t.linkAt (r.down name) = some target :=
        linkAt_eq_some.mpr ⟨hshort _ (.here hn.not_stays hn.not_up rfl hl), hl⟩
      obtain ⟨place, i, j, hi, hj, rfl⟩ := h.split
      rw [← placeAt_origin] at hi
      obtain ⟨middle, hm⟩ := Leads.sees hi fun link hlink =>
        hshort link (.inside hn.not_stays hn.not_up hseen hlink)
      rw [← hm.placeAt_eq hi] at hj
      obtain ⟨q, hq⟩ := Leads.sees hj fun link hlink =>
        hshort link (.behind hn.not_stays hn.not_up hseen hm hlink)
      exact ⟨q, .follow hn.not_stays hn.not_up hseen hm hq⟩
termination_by (n, names.length)

/-- No link on the way of a path is too far down to be looked up. -/
def InSight (t : FileTree) (p : Path) : Prop :=
  ∀ link, Meets t link (.ofPath p) (pathNames p) → isShort link.path = true

theorem Meets.node {link : Trail} (h : Meets t link r names) :
    ∃ target, t.node? (t.placeAt link) = some (.link target) := by
  induction h with
  | here _ _ _ hl => exact ⟨_, hl⟩
  | stay _ _ ih | up _ _ _ ih | down _ _ _ _ ih | inside _ _ _ _ ih | behind _ _ _ _ _ ih => exact ih

theorem inSight_of_no_links (h : ∀ e ∈ t.entries, ∀ target, e.2 ≠ .link target) (p : Path) :
    t.InSight p := by
  intro link hlink
  obtain ⟨target, hl⟩ := hlink.node
  have hne : t.placeAt link ≠ [] := by
    intro hnil
    rw [hnil] at hl
    cases hl
  exact absurd rfl (h _ (mem_entries_of_node? hne hl) target)

theorem unlessCircle_eq_ok {p p' : Path} (h : t.unlessCircle p = .ok p') : p' = p := by
  rw [unlessCircle] at h
  split at h
  · cases h
  · exact (Except.ok.inj h).symm

/-- A path in sight that leads somewhere is resolved to the path of that place. -/
theorem InSight.resolve_eq {p p' : Path} {found : Place} (h : t.InSight p)
    (hw : t.walk .content p = .ok found) (hr : t.resolve depth p = .ok p') : p' = pathTo found := by
  obtain ⟨n, -, hleads⟩ := leads_of_walk (by decide) hw
  rw [← placeAt_ofPath] at hleads
  obtain ⟨q, hsees⟩ := hleads.sees h
  rw [← hsees.placeAt_eq hleads]
  rw [resolve] at hr
  have hends : EndsAt t [] q (resolveNames t (expandLink t depth) [] (.ofPath p) (pathNames p)) :=
    hsees.endsAt (by simp [Sound]) (by simp [Ahead])
  rcases hends with hdeep | ⟨known', hfound, -, -⟩
  · rw [hdeep] at hr
    cases hr
  · rw [hfound] at hr
    exact unlessCircle_eq_ok hr

/-- The links of two trees are the same. -/
structure SameLinks (t t' : FileTree) : Prop where
  current : t'.current = t.current
  link : ∀ q target, t'.node? q = some (.link target) ↔ t.node? q = some (.link target)

theorem KeepsWays.sameLinks (h : KeepsWays t t') : SameLinks t t' := ⟨h.current, h.link⟩

theorem SameLinks.symm (h : SameLinks t t') : SameLinks t' t :=
  ⟨h.current.symm, fun q target => (h.link q target).symm⟩

section
variable (hk : SameLinks t t')
include hk

theorem SameLinks.placeAt_eq (r : Trail) : t'.placeAt r = t.placeAt r := by
  simp only [placeAt, hk.current]

theorem SameLinks.linkAt_eq (r : Trail) : t'.linkAt r = t.linkAt r := by
  refine Option.ext fun target => ?_
  rw [linkAt_eq_some, linkAt_eq_some, hk.placeAt_eq, hk.link]

theorem SameLinks.no_link (hl : ∀ target, t.node? (t.placeAt r) ≠ some (.link target))
    (target : Text) : t'.node? (t'.placeAt r) ≠ some (.link target) := by
  rw [hk.placeAt_eq, Ne, hk.link]
  exact hl target

theorem SameLinks.sees (h : Sees t r names q n) : Sees t' r names q n := by
  induction h with
  | here r => exact .here r
  | stay hs _ ih => exact .stay hs ih
  | up hs hu _ ih => exact .up hs hu ih
  | down hs hu hl _ ih => exact .down hs hu (hk.no_link hl) ih
  | follow hs hu hl _ _ ihm ihn => exact .follow hs hu (hk.linkAt_eq _ ▸ hl) ihm ihn

theorem SameLinks.meets {link : Trail} (h : Meets t link r names) : Meets t' link r names := by
  induction h with
  | here hs hu hlink hl =>
    exact .here hs hu hlink ((hk.link _ _).mpr (hk.placeAt_eq link ▸ hl))
  | stay hs _ ih => exact .stay hs ih
  | up hs hu _ ih => exact .up hs hu ih
  | down hs hu hl _ ih => exact .down hs hu (hk.no_link hl) ih
  | inside hs hu hl _ ih => exact .inside hs hu (hk.linkAt_eq _ ▸ hl) ih
  | behind hs hu hl hm _ ih => exact .behind hs hu (hk.linkAt_eq _ ▸ hl) (hk.sees hm) ih

theorem SameLinks.inSight {p : Path} (h : t.InSight p) : t'.InSight p :=
  fun link hlink => h link (hk.symm.meets hlink)

theorem SameLinks.resolveNames_eq {expand expand' : Known → Trail → Text → Resolution}
    (hexpand : expand' = expand) :
    resolveNames t' expand' known r names = resolveNames t expand known r names := by
  subst hexpand
  induction names generalizing known r with
  | nil => rfl
  | cons name rest ih => simp only [resolveNames, hk.linkAt_eq, ih]

theorem SameLinks.expandLink_eq (depth : Nat) : expandLink t' depth = expandLink t depth := by
  induction depth with
  | zero => rfl
  | succ depth ih =>
    funext known directory target
    exact hk.resolveNames_eq ih

theorem SameLinks.resolve_eq {p p₁ p₂ : Path} (h : t.resolve depth p = .ok p₁)
    (h' : t'.resolve depth p = .ok p₂) : p₂ = p₁ := by
  rw [resolve, hk.resolveNames_eq (hk.expandLink_eq depth)] at h'
  rw [resolve] at h
  have habsolute : t'.absolute = t.absolute := by
    funext p
    simp only [absolute, origin, hk.current]
  split at h
  · rename_i hfound
    rw [hfound] at h'
    rw [unlessCircle_eq_ok h, unlessCircle_eq_ok h', hk.placeAt_eq]
  · rename_i hcircle
    rw [hcircle] at h'
    rw [unlessCircle_eq_ok h, unlessCircle_eq_ok h', habsolute]
  · cases h

end

end PartProgram.FileTree
