import PartProgram.Proofs.Action.Yields

/-! # Confined actions

What an action may report, and what it may be refused for. A sequence of steps is
confined if its first step is, and its second wherever the first succeeds.
-/
namespace PartProgram.Action

variable {σ α β γ : Type} {R : Report → Prop} {Q Q' : Fault → Prop} {a : Action σ α} {s : σ}

/-- On `s` the action makes reports of one kind only, and is refused for faults of one kind only. -/
structure Confined (R : Report → Prop) (Q : Fault → Prop) (a : Action σ α) (s : σ) : Prop where
  reports : ∀ r ∈ (a.run s).reports, R r
  refused : ∀ fault, (a.run s).result = .error fault → Q fault

theorem Confined.of_run {b : Action σ α} {s' : σ} (h : a.run s = b.run s')
    (hb : b.Confined R Q s') : a.Confined R Q s := by
  obtain ⟨hreports, hrefused⟩ := hb
  rw [← h] at hreports hrefused
  exact ⟨hreports, hrefused⟩

theorem Confined.mono (h : a.Confined R Q s) (hQ : ∀ fault, Q fault → Q' fault) :
    a.Confined R Q' s :=
  ⟨h.reports, fun fault hf => hQ fault (h.refused fault hf)⟩

theorem confined_of_reports {reports : List Report} {x : α} {s' : σ}
    (h : a.run s = ⟨.ok x, s', reports⟩) (hr : ∀ r ∈ reports, R r) : a.Confined R Q s := by
  constructor
  · rw [h]
    exact hr
  · rw [h]
    exact fun _ hf => nomatch hf

theorem confined_pure (x : α) : (pure x : Action σ α).Confined R Q s :=
  confined_of_reports rfl (by simp)

theorem confined_get : (get : Action σ σ).Confined R Q s := confined_of_reports rfl (by simp)

theorem confined_modify (f : σ → σ) : (modify f : Action σ PUnit).Confined R Q s :=
  confined_of_reports rfl (by simp)

theorem confined_ofState (f : StateM σ α) : (ofState f).Confined R Q s :=
  confined_of_reports rfl (by simp)

theorem confined_report {reports : List Report} (h : ∀ r ∈ reports, R r) :
    (report reports : Action σ Unit).Confined R Q s :=
  confined_of_reports rfl h

theorem confined_log {level : Level} {channel : Channel} {message : String}
    (h : R (.log level channel message)) :
    (log level channel message : Action σ Unit).Confined R Q s :=
  confined_report (by simpa using h)

theorem confined_throw {fault : Fault} (h : Q fault) :
    (throw fault : Action σ α).Confined R Q s := by
  constructor
  · simp
  · intro fault' hf
    cases hf
    exact h

theorem confined_ofExcept {e : Except Fault α} (h : ∀ fault, e = .error fault → Q fault) :
    (ofExcept e : Action σ α).Confined R Q s := by
  cases e with
  | ok x => exact confined_pure x
  | error fault => exact confined_throw (h fault rfl)

theorem Confined.bind {f : α → Action σ β} (ha : a.Confined R Q s)
    (hf : ∀ x s', a.Yields s x s' → (f x).Confined R Q s') : (a >>= f).Confined R Q s := by
  rcases hr : a.run s with ⟨result, s', reports⟩
  have hreports := ha.reports
  have hrefused := ha.refused
  rw [hr] at hreports hrefused
  cases result with
  | error fault =>
    constructor
    · rw [run_bind_error f hr]
      exact hreports
    · rw [run_bind_error f hr]
      rintro _ ⟨⟩
      exact hrefused fault rfl
  | ok x =>
    obtain ⟨hmore, hlater⟩ := hf x s' ⟨by rw [hr], by rw [hr]⟩
    constructor
    · rw [run_bind_ok f hr]
      exact List.forall_mem_append.mpr ⟨hreports, hmore⟩
    · rw [run_bind_ok f hr]
      exact hlater

theorem confined_get_bind {f : σ → Action σ α} (h : (f s).Confined R Q s) :
    (get >>= f).Confined R Q s := by
  refine confined_get.bind fun x s' hx => ?_
  obtain ⟨rfl, rfl⟩ := yields_get.mp hx
  exact h

theorem run_orElse_ok {handle : Fault → Action σ α} {x : α} {s' : σ} {reports : List Report}
    (h : a.run s = ⟨.ok x, s', reports⟩) :
    (tryCatch a handle).run s = ⟨.ok x, s', reports⟩ := by
  have hdef : (tryCatch a handle).run s = Action.orElse a handle s := rfl
  rw [hdef, Action.orElse, show a s = _ from h]

theorem run_orElse_error {handle : Fault → Action σ α} {fault : Fault} {s' : σ}
    {reports : List Report} (h : a.run s = ⟨.error fault, s', reports⟩) :
    (tryCatch a handle).run s = ⟨((handle fault).run s').result, ((handle fault).run s').state,
      reports ++ ((handle fault).run s').reports⟩ := by
  have hdef : (tryCatch a handle).run s = Action.orElse a handle s := rfl
  rw [hdef, Action.orElse, show a s = _ from h]
  rfl

/-- A refusal that is dealt with may be of another kind than those that are passed on. -/
theorem Confined.orElse {handle : Fault → Action σ α} (ha : a.Confined R Q' s)
    (hh : ∀ fault s', Q' fault → (handle fault).Confined R Q s') :
    (tryCatch a handle).Confined R Q s := by
  rcases hr : a.run s with ⟨result, s', reports⟩
  have hreports := ha.reports
  have hrefused := ha.refused
  rw [hr] at hreports hrefused
  cases result with
  | ok x => exact confined_of_reports (run_orElse_ok hr) hreports
  | error fault =>
    obtain ⟨hmore, hlater⟩ := hh fault s' (hrefused fault rfl)
    have htry : (tryCatch a handle).run s = _ := run_orElse_error hr
    constructor
    · rw [htry]
      exact List.forall_mem_append.mpr ⟨hreports, hmore⟩
    · rw [htry]
      exact hlater

theorem confined_mapM {f : β → Action σ α} {l : List β} (h : ∀ x ∈ l, ∀ s, (f x).Confined R Q s)
    (s : σ) : (l.mapM f).Confined R Q s := by
  induction l generalizing s with
  | nil => exact confined_pure _
  | cons x rest ih =>
    rw [List.mapM_cons]
    exact (h x List.mem_cons_self s).bind fun _ _ _ =>
      (ih (fun y hy => h y (List.mem_cons_of_mem _ hy)) _).bind fun _ _ _ => confined_pure _

theorem confined_foldlM {f : γ → β → Action σ γ} {l : List β}
    (h : ∀ c, ∀ x ∈ l, ∀ s, (f c x).Confined R Q s) (c : γ) (s : σ) :
    (l.foldlM f c).Confined R Q s := by
  induction l generalizing c s with
  | nil => exact confined_pure _
  | cons x rest ih =>
    rw [List.foldlM_cons]
    exact (h c x List.mem_cons_self s).bind fun _ _ _ =>
      ih (fun c y hy => h c y (List.mem_cons_of_mem _ hy)) _ _

theorem confined_forM {f : β → Action σ PUnit} {l : List β}
    (h : ∀ x ∈ l, ∀ s, (f x).Confined R Q s) (s : σ) : (l.forM f).Confined R Q s := by
  induction l generalizing s with
  | nil => exact confined_pure _
  | cons x rest ih =>
    change (f x >>= fun _ => rest.forM f).Confined R Q s
    exact (h x List.mem_cons_self s).bind fun _ _ _ =>
      ih (fun y hy => h y (List.mem_cons_of_mem _ hy)) _

theorem confined_fold {f : γ → β → Action σ γ} {l : List β}
    (h : ∀ c, ∀ x ∈ l, ∀ s, (f c x).Confined R Q s) (c : γ) (s : σ) :
    (fold f c l).Confined R Q s := by
  rw [fold_eq_foldlM]
  exact confined_foldlM h c s

theorem confined_forIn_report {reports : α → List Report} {l : List α}
    (h : ∀ x ∈ l, ∀ r ∈ reports x, R r) :
    (forIn l PUnit.unit fun a _ => do report (reports a); pure (ForInStep.yield PUnit.unit) :
      Action σ PUnit).Confined R Q s := by
  induction l generalizing s with
  | nil => exact confined_pure _
  | cons x rest ih =>
    rw [List.forIn_cons]
    simp only [bind_assoc, pure_bind]
    exact (confined_report (h x List.mem_cons_self)).bind fun _ _ _ =>
      ih fun y hy => h y (List.mem_cons_of_mem _ hy)

theorem confined_sweep {step : α → Action σ α} {l : List σ}
    (h : ∀ b, ∀ s ∈ l, (step b).Confined R Q s) (b : α) : (sweep step b).Confined R Q l := by
  induction l generalizing b with
  | nil =>
    have hrun : (sweep step b).run [] = ⟨.ok b, [], []⟩ := rfl
    exact confined_of_reports hrun (by simp)
  | cons s rest ih =>
    have hfirst := h b s List.mem_cons_self
    have hrest := fun b => ih (fun c s hs => h c s (List.mem_cons_of_mem _ hs)) b
    rcases hs : step b s with ⟨result, s', reports⟩
    have hreports := hfirst.reports
    have hrefused := hfirst.refused
    simp only [run, hs] at hreports hrefused
    cases result with
    | error fault =>
      constructor
      · simpa only [run, sweep, hs] using hreports
      · simpa only [run, sweep, hs] using hrefused
    | ok c =>
      constructor
      · simp only [run, sweep, hs]
        exact List.forall_mem_append.mpr ⟨hreports, (hrest c).reports⟩
      · simp only [run, sweep, hs]
        exact (hrest c).refused

end PartProgram.Action
