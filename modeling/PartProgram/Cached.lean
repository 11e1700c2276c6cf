/-! # Cached values

A cell that is stale or holds the last value computed. Reading a stale cell
computes the value once and keeps it until the cell is made stale again.
-/
namespace PartProgram

inductive Cached (α : Type) where
  | stale
  | fresh (value : α)
  deriving DecidableEq, Repr, Inhabited

namespace Cached

variable {α : Type} {m : Type → Type} [Monad m]

def isStale : Cached α → Bool
  | stale => true
  | fresh _ => false

/-- The value, and the cell that holds it from now on. -/
def read (compute : m α) : Cached α → m (α × Cached α)
  | stale => do
    let value ← compute
    pure (value, fresh value)
  | fresh value => pure (value, fresh value)

@[simp] theorem read_fresh (compute : m α) (value : α) :
    read compute (fresh value) = pure (value, fresh value) := rfl

theorem read_stale [LawfulMonad m] (value : α) :
    read (pure value : m α) stale = pure (value, fresh value) := by simp [read]

end Cached

end PartProgram
