import PartProgram.Proofs.Action.Yields
import Mathlib.Data.List.Forall2

/-! # Invariants of actions

An action preserves a property of states if it leaves it standing whatever its
outcome. One that preserves every property only reads.
-/
namespace PartProgram.Action

variable {σ α β γ : Type} {I : σ → Prop} {a : Action σ α}

/-- A state with the property is left with it, whether the action is refused or not. -/
def Preserves (I : σ → Prop) (a : Action σ α) : Prop := ∀ s, I s → I (a.run s).state

def ReadsOnly (a : Action σ α) : Prop := ∀ s, (a.run s).state = s

theorem ReadsOnly.preserves (h : a.ReadsOnly) : a.Preserves I := fun s hs => (h s).symm ▸ hs

theorem readsOnly_iff : a.ReadsOnly ↔ ∀ I, a.Preserves I :=
  ⟨fun h _ => h.preserves, fun h s => h (· = s) s rfl⟩

theorem ReadsOnly.bind {f : α → Action σ β} (ha : a.ReadsOnly) (hf : ∀ x, (f x).ReadsOnly) :
    (a >>= f).ReadsOnly := by
  intro s
  rcases hr : a.run s with ⟨result, s', reports⟩
  have hs := ha s
  rw [hr] at hs
  cases result with
  | error fault => rwa [run_bind_error f hr]
  | ok x =>
    rw [run_bind_ok f hr]
    exact (hf x s').trans hs

theorem ReadsOnly.result_bind {f : α → Action σ β} (h : a.ReadsOnly) (s : σ) :
    ((a >>= f).run s).result = (a.run s).result >>= fun x => ((f x).run s).result := by
  rcases hr : a.run s with ⟨result, s', reports⟩
  have hs := h s
  rw [hr] at hs
  obtain rfl : s' = s := hs
  cases result with
  | error fault =>
    rw [run_bind_error f hr]
    rfl
  | ok x =>
    rw [run_bind_ok f hr]
    rfl

theorem readsOnly_pure (x : α) : (pure x : Action σ α).ReadsOnly := fun _ => rfl

theorem readsOnly_throw (fault : Fault) : (throw fault : Action σ α).ReadsOnly := fun _ => rfl

theorem readsOnly_throw_bind (fault : Fault) (f : α → Action σ β) :
    ((throw fault : Action σ α) >>= f).ReadsOnly := fun _ => rfl

theorem readsOnly_get : (get : Action σ σ).ReadsOnly := fun _ => rfl

theorem readsOnly_report (reports : List Report) : (report reports : Action σ Unit).ReadsOnly :=
  fun _ => rfl

theorem Yields.preserves {s s' : σ} {x : α} (h : a.Preserves I) (hy : a.Yields s x s') (hs : I s) :
    I s' := hy.2 ▸ h s hs

theorem Yields.readsOnly {s s' : σ} {x : α} (hy : a.Yields s x s') (h : a.ReadsOnly) : s' = s := by
  rw [← hy.2, h s]

theorem preserves_pure (x : α) : (pure x : Action σ α).Preserves I := fun _ hs => hs

theorem preserves_throw (fault : Fault) : (throw fault : Action σ α).Preserves I := fun _ hs => hs

/-- A sequence leaves what its first step leaves, if that is refused, or else what the second
step leaves after it. -/
theorem state_bind {f : α → Action σ β} {s : σ}
    (herror : ∀ fault, (a.run s).result = .error fault → I (a.run s).state)
    (hok : ∀ x s', a.Yields s x s' → I ((f x).run s').state) : I ((a >>= f).run s).state := by
  rcases hr : a.run s with ⟨result, s', reports⟩
  rw [hr] at herror
  cases result with
  | error fault =>
    rw [run_bind_error f hr]
    exact herror fault rfl
  | ok x =>
    rw [run_bind_ok f hr]
    exact hok x s' ⟨by rw [hr], by rw [hr]⟩

theorem preserves_bind_of {f : α → Action σ β} (ha : a.Preserves I)
    (hf : ∀ s x, I s → a.Yields s x (a.run s).state → I ((f x).run (a.run s).state).state) :
    (a >>= f).Preserves I := fun s hs =>
  state_bind (fun _ _ => ha s hs) fun x _ hy => hy.2 ▸ hf s x hs (yields_of_result hy.1)

theorem state_get_bind (f : σ → Action σ α) (s : σ) :
    ((get >>= f).run s).state = ((f s).run s).state := by
  rw [run_bind_ok f (run_get s)]

theorem Preserves.bind {f : α → Action σ β} (ha : a.Preserves I) (hf : ∀ x, (f x).Preserves I) :
    (a >>= f).Preserves I :=
  preserves_bind_of ha fun s x hs _ => hf x _ (ha s hs)

theorem Preserves.orElse {handle : Fault → Action σ α} (ha : a.Preserves I)
    (hh : ∀ fault, (handle fault).Preserves I) : (tryCatch a handle).Preserves I := by
  intro s hs
  have ha' := ha s hs
  change I (Action.orElse a handle s).state
  unfold Action.orElse
  rcases hr : a s with ⟨result, s', reports⟩
  have hs' : I s' := by simpa [run, hr] using ha'
  cases result with
  | ok x => exact hs'
  | error fault => exact hh fault s' hs'

/-- A refusal that is dealt with leaves what the refused action left, if dealing with it only
reads. -/
theorem state_orElse {handle : Fault → Action σ α} (hh : ∀ fault, (handle fault).ReadsOnly) (s : σ) :
    ((tryCatch a handle).run s).state = (a.run s).state := by
  change (Action.orElse a handle s).state = (a s).state
  unfold Action.orElse
  rcases a s with ⟨result, s', reports⟩
  cases result with
  | ok x => rfl
  | error fault => exact hh fault s'

/-- What dealing with a refusal never gives, the action gave itself. -/
theorem yields_orElse {handle : Fault → Action σ α} {s s' : σ} {x : α}
    (hh : ∀ fault s s', ¬ (handle fault).Yields s x s') :
    (tryCatch a handle).Yields s x s' ↔ a.Yields s x s' := by
  change (Action.orElse a handle s).result = .ok x ∧ (Action.orElse a handle s).state = s' ↔
    (a s).result = .ok x ∧ (a s).state = s'
  unfold Action.orElse
  rcases a s with ⟨result, s₁, reports⟩
  cases result with
  | ok y => rfl
  | error fault => exact ⟨fun h => absurd h (hh fault s₁ s'), fun h => absurd h.1 (by simp)⟩

theorem Preserves.mapM {f : β → Action σ α} {l : List β} (h : ∀ x ∈ l, (f x).Preserves I) :
    (l.mapM f).Preserves I := by
  induction l with
  | nil => exact preserves_pure _
  | cons x rest ih =>
    rw [List.mapM_cons]
    exact (h x List.mem_cons_self).bind fun _ =>
      (ih fun y hy => h y (List.mem_cons_of_mem _ hy)).bind fun _ => preserves_pure _

theorem ReadsOnly.mapM {f : β → Action σ α} {l : List β} (h : ∀ x ∈ l, (f x).ReadsOnly) :
    (l.mapM f).ReadsOnly :=
  readsOnly_iff.mpr fun _ => Preserves.mapM fun x hx => (h x hx).preserves

theorem ReadsOnly.mapM_yields {f : β → Action σ α} {l : List β} {ys : List α} {s s' : σ}
    (hf : ∀ x ∈ l, (f x).ReadsOnly) :
    (l.mapM f).Yields s ys s' ↔ List.Forall₂ (fun x y => (f x).Yields s y s) l ys ∧ s' = s := by
  induction l generalizing ys with
  | nil => simp
  | cons x rest ih =>
    have hrest : ∀ ys, (rest.mapM f).Yields s ys s' ↔
        List.Forall₂ (fun x y => (f x).Yields s y s) rest ys ∧ s' = s := by
      intro ys
      exact ih fun y hy => hf y (List.mem_cons_of_mem _ hy)
    rw [List.mapM_cons]
    simp only [yields_bind, yields_pure]
    constructor
    · rintro ⟨y, s₁, hy, ys', s₂, hys, rfl, rfl⟩
      obtain rfl := hy.readsOnly (hf x List.mem_cons_self)
      obtain ⟨hall, rfl⟩ := (hrest ys').mp hys
      exact ⟨.cons hy hall, rfl⟩
    · rintro ⟨hall, rfl⟩
      cases hall with
      | cons hy hys => exact ⟨_, _, hy, _, _, (hrest _).mpr ⟨hys, rfl⟩, rfl, rfl⟩

theorem exists_mem_of_forall₂ {α β : Type} {R : α → β → Prop} {l : List α} {l' : List β}
    (h : List.Forall₂ R l l') {x : α} (hx : x ∈ l) : ∃ y ∈ l', R x y := by
  obtain ⟨i, hi, rfl⟩ := List.mem_iff_getElem.mp hx
  have hi' : i < l'.length := h.length_eq ▸ hi
  exact ⟨l'[i], List.getElem_mem hi', h.get hi hi'⟩

theorem ReadsOnly.mapM_mem {f : β → Action σ α} {l : List β} {ys : List α} {s s' : σ}
    (hf : ∀ x ∈ l, (f x).ReadsOnly) (h : (l.mapM f).Yields s ys s') {x : β} (hx : x ∈ l) :
    ∃ y ∈ ys, (f x).Yields s y s :=
  exists_mem_of_forall₂ ((ReadsOnly.mapM_yields hf).mp h).1 hx

theorem ReadsOnly.mem_mapM {f : β → Action σ α} {l : List β} {ys : List α} {s s' : σ}
    (hf : ∀ x ∈ l, (f x).ReadsOnly) (h : (l.mapM f).Yields s ys s') {y : α} (hy : y ∈ ys) :
    ∃ x ∈ l, (f x).Yields s y s :=
  exists_mem_of_forall₂ ((ReadsOnly.mapM_yields hf).mp h).1.flip hy

theorem ReadsOnly.mapM_succeeds {f : β → Action σ α} {l : List β} {s : σ}
    (hf : ∀ x ∈ l, (f x).ReadsOnly) (h : ∀ x ∈ l, ∃ y, (f x).Yields s y s) :
    ∃ ys, (l.mapM f).Yields s ys s := by
  induction l with
  | nil => exact ⟨[], yields_pure.mpr ⟨rfl, rfl⟩⟩
  | cons x rest ih =>
    obtain ⟨y, hy⟩ := h x List.mem_cons_self
    obtain ⟨ys, hys⟩ := ih (fun x hx => hf x (List.mem_cons_of_mem _ hx))
      fun x hx => h x (List.mem_cons_of_mem _ hx)
    rw [List.mapM_cons]
    exact ⟨y :: ys, yields_bind.mpr ⟨y, s, hy, yields_bind.mpr ⟨ys, s, hys,
      yields_pure.mpr ⟨rfl, rfl⟩⟩⟩⟩

theorem Preserves.forM {f : β → Action σ PUnit} {l : List β} (h : ∀ x ∈ l, (f x).Preserves I) :
    (l.forM f).Preserves I := by
  induction l with
  | nil => exact preserves_pure _
  | cons x rest ih =>
    change (f x >>= fun _ => rest.forM f).Preserves I
    exact (h x List.mem_cons_self).bind fun _ => ih fun y hy => h y (List.mem_cons_of_mem _ hy)

theorem ReadsOnly.forM {f : β → Action σ PUnit} {l : List β} (h : ∀ x ∈ l, (f x).ReadsOnly) :
    (l.forM f).ReadsOnly :=
  readsOnly_iff.mpr fun _ => Preserves.forM fun x hx => (h x hx).preserves

theorem forM_cons_yields {f : β → Action σ PUnit} {x : β} {rest : List β} {s s'' : σ} {u : PUnit} :
    ((x :: rest).forM f).Yields s u s'' ↔
      ∃ s', (f x).Yields s ⟨⟩ s' ∧ (rest.forM f).Yields s' ⟨⟩ s'' := by
  change (f x >>= fun _ => rest.forM f).Yields s u s'' ↔ _
  rw [yields_bind]
  constructor
  · rintro ⟨_, s', hx, hrest⟩
    exact ⟨s', hx, hrest⟩
  · rintro ⟨s', hx, hrest⟩
    exact ⟨⟨⟩, s', hx, hrest⟩

theorem ReadsOnly.forM_yields {f : β → Action σ PUnit} {l : List β} {s s' : σ} {u : PUnit}
    (hf : ∀ x ∈ l, (f x).ReadsOnly) (h : (l.forM f).Yields s u s') :
    ∀ x ∈ l, (f x).Yields s ⟨⟩ s := by
  induction l with
  | nil => simp
  | cons x rest ih =>
    obtain ⟨s₁, hx, hrest⟩ := forM_cons_yields.mp h
    obtain rfl := hx.readsOnly (hf x List.mem_cons_self)
    exact List.forall_mem_cons.mpr ⟨hx, ih (fun y hy => hf y (List.mem_cons_of_mem _ hy)) hrest⟩

theorem Preserves.foldlM {f : γ → β → Action σ γ} {l : List β} {c : γ}
    (h : ∀ c, ∀ x ∈ l, (f c x).Preserves I) : (l.foldlM f c).Preserves I := by
  induction l generalizing c with
  | nil => exact preserves_pure _
  | cons x rest ih =>
    rw [List.foldlM_cons]
    exact (h c x List.mem_cons_self).bind fun _ => ih fun c y hy => h c y (List.mem_cons_of_mem _ hy)

theorem ReadsOnly.foldlM_result {f : γ → β → Action σ γ} (hf : ∀ c x, (f c x).ReadsOnly)
    (l : List β) (c : γ) (s : σ) :
    ((l.foldlM f c).run s).result = l.foldlM (fun c x => ((f c x).run s).result) c := by
  induction l generalizing c with
  | nil => rfl
  | cons x rest ih =>
    rw [List.foldlM_cons, List.foldlM_cons, (hf c x).result_bind]
    simp only [ih]

end PartProgram.Action
