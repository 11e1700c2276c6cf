import PartProgram.Fault

/-! # Actions

A step on a state that may be refused. What was changed and reported before the
refusal stays changed and reported.
-/
namespace PartProgram

structure Outcome (σ α : Type) where
  result : Except Fault α
  state : σ
  reports : List Report

def Action (σ α : Type) : Type := σ → Outcome σ α

namespace Action

variable {σ α β γ : Type}

def run (a : Action σ α) (s : σ) : Outcome σ α := a s

theorem ext {a b : Action σ α} (h : ∀ s, a.run s = b.run s) : a = b := funext h

/-- The second step is not taken if the first was refused. -/
@[always_inline, inline] def andThen (a : Action σ α) (f : α → Action σ β) : Action σ β := fun s =>
  match a s with
  | ⟨.ok x, s, reports⟩ =>
    match f x s with
    | ⟨result, s, more⟩ => ⟨result, s, reports ++ more⟩
  | ⟨.error fault, s, reports⟩ => ⟨.error fault, s, reports⟩

/-- What a refused step changed and reported stays. -/
@[always_inline, inline] def orElse (a : Action σ α) (handle : Fault → Action σ α) :
    Action σ α := fun s =>
  match a s with
  | ⟨.ok x, s, reports⟩ => ⟨.ok x, s, reports⟩
  | ⟨.error fault, s, reports⟩ =>
    match handle fault s with
    | ⟨result, s, more⟩ => ⟨result, s, reports ++ more⟩

@[always_inline] instance : Monad (Action σ) where
  pure x := fun s => ⟨.ok x, s, []⟩
  bind := andThen

@[always_inline] instance : MonadExceptOf Fault (Action σ) where
  throw fault := fun s => ⟨.error fault, s, []⟩
  tryCatch := orElse

@[always_inline] instance : MonadStateOf σ (Action σ) where
  get := fun s => ⟨.ok s, s, []⟩
  set s := fun _ => ⟨.ok ⟨⟩, s, []⟩
  modifyGet f := fun s => match f s with | (x, s) => ⟨.ok x, s, []⟩

@[inline] def report (reports : List Report) : Action σ Unit := fun s => ⟨.ok (), s, reports⟩

@[inline] def log (level : Level) (channel : Channel) (message : String) : Action σ Unit :=
  report [.log level channel message]

@[inline] def ofState (f : StateM σ α) : Action σ α := modifyGet f

def ofExcept : Except Fault α → Action σ α
  | .ok x => pure x
  | .error fault => throw fault

@[simp] theorem run_pure (x : α) (s : σ) : (pure x : Action σ α).run s = ⟨.ok x, s, []⟩ := rfl

@[simp] theorem run_throw (fault : Fault) (s : σ) :
    (throw fault : Action σ α).run s = ⟨.error fault, s, []⟩ := rfl

@[simp] theorem run_get (s : σ) : (get : Action σ σ).run s = ⟨.ok s, s, []⟩ := rfl

@[simp] theorem run_modify (f : σ → σ) (s : σ) :
    (modify f : Action σ PUnit).run s = ⟨.ok ⟨⟩, f s, []⟩ := rfl

@[simp] theorem run_report (reports : List Report) (s : σ) :
    (report reports : Action σ Unit).run s = ⟨.ok (), s, reports⟩ := rfl

@[simp] theorem run_log (level : Level) (channel : Channel) (message : String) (s : σ) :
    (log level channel message : Action σ Unit).run s =
      ⟨.ok (), s, [.log level channel message]⟩ := rfl

theorem run_bind_ok {a : Action σ α} {s s' : σ} {x : α} {reports : List Report}
    (f : α → Action σ β) (h : a.run s = ⟨.ok x, s', reports⟩) :
    (a >>= f).run s =
      ⟨((f x).run s').result, ((f x).run s').state, reports ++ ((f x).run s').reports⟩ := by
  change andThen a f s = _
  unfold andThen
  rw [show a s = _ from h]
  rfl

theorem run_bind_error {a : Action σ α} {s s' : σ} {fault : Fault} {reports : List Report}
    (f : α → Action σ β) (h : a.run s = ⟨.error fault, s', reports⟩) :
    (a >>= f).run s = ⟨.error fault, s', reports⟩ := by
  change andThen a f s = _
  unfold andThen
  rw [show a s = _ from h]

theorem bind_assoc' (a : Action σ α) (f : α → Action σ β) (g : β → Action σ γ) :
    a >>= f >>= g = a >>= fun x => f x >>= g := by
  apply ext
  intro s
  rcases ha : a.run s with ⟨result, s', reports⟩
  cases result with
  | error fault =>
    rw [run_bind_error _ ha, run_bind_error _ (run_bind_error _ ha)]
  | ok x =>
    rw [run_bind_ok _ ha]
    rcases hf : (f x).run s' with ⟨result', s'', reports'⟩
    have hb := run_bind_ok f ha
    rw [hf] at hb
    cases result' with
    | error fault => rw [run_bind_error _ hb, run_bind_error _ hf]
    | ok y => rw [run_bind_ok _ hb, run_bind_ok _ hf, List.append_assoc]

theorem bind_pure' (a : Action σ α) : a >>= pure = a := by
  apply ext
  intro s
  rcases ha : a.run s with ⟨result, s', reports⟩
  cases result with
  | error fault => rw [run_bind_error _ ha]
  | ok x => rw [run_bind_ok _ ha]; simp

theorem pure_bind' (x : α) (f : α → Action σ β) : pure x >>= f = f x := by
  apply ext
  intro s
  rw [run_bind_ok f (run_pure x s)]
  simp

instance : LawfulMonad (Action σ) := LawfulMonad.mk' _ bind_pure' pure_bind' bind_assoc'

/-- A loop over a list; `reports` are those made so far, the last one first. -/
def foldFrom (step : β → α → Action σ β) :
    List α → β → σ → List Report → Outcome σ β
  | [], b, s, reports => ⟨.ok b, s, reports.reverse⟩
  | x :: rest, b, s, reports =>
    match step b x s with
    | ⟨.ok b, s, more⟩ => foldFrom step rest b s (more.reverse ++ reports)
    | ⟨.error fault, s, more⟩ => ⟨.error fault, s, (more.reverse ++ reports).reverse⟩

def fold (step : β → α → Action σ β) (b : β) (l : List α) : Action σ β :=
  fun s => foldFrom step l b s []

theorem foldFrom_eq (step : β → α → Action σ β) (l : List α) (b : β) (s : σ)
    (reports : List Report) :
    foldFrom step l b s reports =
      ⟨((fold step b l).run s).result, ((fold step b l).run s).state,
        reports.reverse ++ ((fold step b l).run s).reports⟩ := by
  induction l generalizing b s reports with
  | nil => simp [fold, run, foldFrom]
  | cons x rest ih =>
    simp only [fold, run, foldFrom]
    rcases step b x s with ⟨result, s', more⟩
    cases result with
    | error fault => simp
    | ok b' =>
      simp only [ih b' s' (more.reverse ++ reports), ih b' s' (more.reverse ++ [])]
      simp

@[simp] theorem fold_nil (step : β → α → Action σ β) (b : β) :
    fold step b [] = pure b := rfl

theorem fold_cons (step : β → α → Action σ β) (b : β) (x : α) (rest : List α) :
    fold step b (x :: rest) = step b x >>= fun b => fold step b rest := by
  apply ext
  intro s
  rcases h : (step b x).run s with ⟨result, s', more⟩
  have hs : step b x s = ⟨result, s', more⟩ := h
  cases result with
  | error fault =>
    rw [run_bind_error _ h]
    simp [fold, run, foldFrom, hs]
  | ok b' =>
    rw [run_bind_ok _ h]
    change foldFrom step (x :: rest) b s [] = _
    simp only [foldFrom, hs]
    rw [foldFrom_eq]
    simp

theorem fold_eq_foldlM (step : β → α → Action σ β) (b : β) (l : List α) :
    fold step b l = l.foldlM step b := by
  induction l generalizing b with
  | nil => rfl
  | cons x rest ih => rw [fold_cons, List.foldlM_cons]; simp only [ih]

/-- Takes every state of a list through one action, in order, handing a value from each to the
next. A refusal leaves the states after it as they were. -/
def sweep (step : α → Action σ α) : α → Action (List σ) α
  | a, [] => ⟨.ok a, [], []⟩
  | a, s :: rest =>
    match step a s with
    | ⟨.error fault, s, reports⟩ => ⟨.error fault, s :: rest, reports⟩
    | ⟨.ok b, s, reports⟩ =>
      match sweep step b rest with
      | ⟨result, rest, more⟩ => ⟨result, s :: rest, reports ++ more⟩

end Action

end PartProgram
