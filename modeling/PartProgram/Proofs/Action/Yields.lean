import PartProgram.Action

/-! # Actions that succeed

What a successful action gives and leaves behind, reports aside. A sequence of
steps succeeds exactly when every step does, so a success comes apart into the
successes of its steps.
-/
namespace PartProgram.Action

variable {σ α β γ : Type}

/-- On `s` the action is not refused, gives `x` and leaves `s'`. -/
def Yields (a : Action σ α) (s : σ) (x : α) (s' : σ) : Prop :=
  (a.run s).result = .ok x ∧ (a.run s).state = s'

theorem yields_of_result {a : Action σ α} {s : σ} {x : α} (h : (a.run s).result = .ok x) :
    a.Yields s x (a.run s).state := ⟨h, rfl⟩

theorem Yields.unique {a : Action σ α} {s s' s'' : σ} {x y : α} (h : a.Yields s x s')
    (h' : a.Yields s y s'') : x = y ∧ s' = s'' := by
  obtain ⟨hx, rfl⟩ := h
  obtain ⟨hy, rfl⟩ := h'
  exact ⟨Except.ok.inj (hx.symm.trans hy), rfl⟩

@[simp] theorem yields_pure {x y : α} {s s' : σ} :
    (pure x : Action σ α).Yields s y s' ↔ y = x ∧ s' = s := by
  simp only [Yields, run_pure, Except.ok.injEq, eq_comm]

@[simp] theorem yields_bind {a : Action σ α} {f : α → Action σ β} {s s'' : σ} {y : β} :
    (a >>= f).Yields s y s'' ↔ ∃ x s', a.Yields s x s' ∧ (f x).Yields s' y s'' := by
  rcases ha : a.run s with ⟨result, s', reports⟩
  cases result with
  | error fault =>
    simp only [Yields, run_bind_error f ha, ha]
    simp
  | ok x =>
    simp only [Yields, run_bind_ok f ha, ha, Except.ok.injEq]
    constructor
    · intro h
      exact ⟨x, s', ⟨rfl, rfl⟩, h⟩
    · rintro ⟨x', t, ⟨rfl, rfl⟩, h⟩
      exact h

@[simp] theorem yields_throw {fault : Fault} {s s' : σ} {x : α} :
    ¬ (throw fault : Action σ α).Yields s x s' := by
  rintro ⟨h, -⟩
  cases h

@[simp] theorem yields_get {s t s' : σ} : (get : Action σ σ).Yields s t s' ↔ t = s ∧ s' = s := by
  simp only [Yields, run_get, Except.ok.injEq, eq_comm]

@[simp] theorem yields_modify {f : σ → σ} {s s' : σ} {u : PUnit} :
    (modify f : Action σ PUnit).Yields s u s' ↔ s' = f s :=
  ⟨fun h => h.2.symm, fun h => ⟨rfl, h.symm⟩⟩

@[simp] theorem yields_report {reports : List Report} {s s' : σ} {u : Unit} :
    (report reports : Action σ Unit).Yields s u s' ↔ s' = s :=
  ⟨fun h => h.2.symm, fun h => ⟨rfl, h.symm⟩⟩

@[simp] theorem yields_log {level : Level} {channel : Channel} {message : String} {s s' : σ}
    {u : Unit} : (log level channel message : Action σ Unit).Yields s u s' ↔ s' = s :=
  yields_report

@[simp] theorem yields_ofExcept {e : Except Fault α} {s s' : σ} {x : α} :
    (ofExcept e : Action σ α).Yields s x s' ↔ e = .ok x ∧ s' = s := by
  cases e with
  | error fault => simp [ofExcept]
  | ok y => simp only [ofExcept, yields_pure, Except.ok.injEq, eq_comm (a := y)]

@[simp] theorem yields_fold_nil {step : β → α → Action σ β} {b c : β} {s s' : σ} :
    (fold step b []).Yields s c s' ↔ c = b ∧ s' = s := by
  rw [fold_nil, yields_pure]

@[simp] theorem yields_fold_cons {step : β → α → Action σ β} {b c : β} {x : α} {rest : List α}
    {s s'' : σ} : (fold step b (x :: rest)).Yields s c s'' ↔
      ∃ d s', (step b x).Yields s d s' ∧ (fold step d rest).Yields s' c s'' := by
  rw [fold_cons, yields_bind]

theorem yields_forIn_report {reports : α → List Report} {l : List α} {s s' : σ} {u : PUnit} :
    (forIn l PUnit.unit fun a _ => do report (reports a); pure (ForInStep.yield PUnit.unit) :
      Action σ PUnit).Yields s u s' ↔ s' = s := by
  induction l with
  | nil => simp
  | cons a rest ih =>
    rw [List.forIn_cons]
    simp only [bind_assoc, pure_bind, yields_bind, yields_report, ih, exists_eq_left,
      exists_const]

@[simp] theorem yields_sweep_nil {step : α → Action σ α} {a b : α} {l : List σ} :
    (sweep step a).Yields [] b l ↔ b = a ∧ l = [] :=
  yields_pure (x := a) (s := [])

@[simp] theorem yields_sweep_cons {step : α → Action σ α} {a c : α} {s : σ} {rest l : List σ} :
    (sweep step a).Yields (s :: rest) c l ↔
      ∃ b s' rest', (step a).Yields s b s' ∧ (sweep step b).Yields rest c rest' ∧
        l = s' :: rest' := by
  rcases hs : step a s with ⟨result, s', reports⟩
  have hstep : (step a).run s = ⟨result, s', reports⟩ := hs
  simp only [Yields, run, sweep, hs]
  cases result with
  | error fault => simp
  | ok b =>
    constructor
    · rintro ⟨hc, rfl⟩
      exact ⟨b, s', _, ⟨rfl, rfl⟩, ⟨hc, rfl⟩, rfl⟩
    · rintro ⟨b', t, rest', ⟨hb, rfl⟩, ⟨hc, rfl⟩, rfl⟩
      cases hb
      exact ⟨hc, rfl⟩

end PartProgram.Action
