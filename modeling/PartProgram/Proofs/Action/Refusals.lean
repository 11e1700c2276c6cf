import PartProgram.Proofs.Action.Preserves

/-! # Actions that are refused

What an action is refused for and what it leaves behind then. A sequence of steps is
refused where the first of them is, so a refusal comes apart into the successes before
it and the one step that is refused.
-/
namespace PartProgram.Action

variable {σ α β : Type} {a : Action σ α} {s s' s'' : σ} {fault : Fault}

/-- On `s` the action is refused for the fault, and leaves `s'`. -/
def RefusedFor (a : Action σ α) (s : σ) (fault : Fault) (s' : σ) : Prop :=
  (a.run s).result = .error fault ∧ (a.run s).state = s'

theorem refusedFor_of_result (h : (a.run s).result = .error fault) :
    a.RefusedFor s fault (a.run s).state := ⟨h, rfl⟩

theorem RefusedFor.readsOnly (h : a.RefusedFor s fault s') (ha : a.ReadsOnly) : s' = s := by
  rw [← h.2, ha s]

@[simp] theorem refusedFor_pure {x : α} : ¬ (pure x : Action σ α).RefusedFor s fault s' := by
  rintro ⟨h, -⟩
  cases h

@[simp] theorem refusedFor_throw {fault' : Fault} :
    (throw fault' : Action σ α).RefusedFor s fault s' ↔ fault = fault' ∧ s' = s := by
  simp only [RefusedFor, run_throw, Except.error.injEq, eq_comm]

@[simp] theorem refusedFor_bind {f : α → Action σ β} :
    (a >>= f).RefusedFor s fault s'' ↔
      a.RefusedFor s fault s'' ∨ ∃ x s', a.Yields s x s' ∧ (f x).RefusedFor s' fault s'' := by
  rcases ha : a.run s with ⟨result, s', reports⟩
  cases result with
  | error cause =>
    simp only [RefusedFor, Yields, run_bind_error f ha, ha]
    simp
  | ok x =>
    simp only [RefusedFor, Yields, run_bind_ok f ha, ha]
    simp

theorem forM_refusedFor {f : β → Action σ PUnit} {l : List β} :
    (l.forM f).RefusedFor s fault s'' ↔ ∃ done x rest s', l = done ++ x :: rest ∧
      (done.forM f).Yields s ⟨⟩ s' ∧ (f x).RefusedFor s' fault s'' := by
  induction l generalizing s with
  | nil =>
    constructor
    · exact fun h => absurd h refusedFor_pure
    · rintro ⟨done, x, rest, s', h, -⟩
      simp at h
  | cons y l ih =>
    change (f y >>= fun _ => l.forM f).RefusedFor s fault s'' ↔ _
    rw [refusedFor_bind]
    simp only [ih]
    constructor
    · rintro (hy | ⟨_, s₁, hy, done, x, rest, s', rfl, hdone, hx⟩)
      · exact ⟨[], y, l, s, rfl, yields_pure.mpr ⟨rfl, rfl⟩, hy⟩
      · exact ⟨y :: done, x, rest, s', rfl, forM_cons_yields.mpr ⟨s₁, hy, hdone⟩, hx⟩
    · rintro ⟨done, x, rest, s', hl, hdone, hx⟩
      cases done with
      | nil =>
        obtain ⟨rfl, rfl⟩ := List.cons.inj hl
        obtain ⟨-, rfl⟩ := yields_pure.mp hdone
        exact .inl hx
      | cons z done =>
        obtain ⟨rfl, rfl⟩ := List.cons.inj hl
        obtain ⟨s₁, hz, hdone⟩ := forM_cons_yields.mp hdone
        exact .inr ⟨⟨⟩, s₁, hz, done, x, rest, s', rfl, hdone, hx⟩

end PartProgram.Action
