import PartProgram.Proofs.Fragment.Refused
import PartProgram.Proofs.Program.Edited

/-! # Blocks moved

A move takes one block out and puts it back directly before the block at the target, both
places counted before the move. It is refused for an index exactly if a place is out of
range, and is undone by one move back.
-/
namespace PartProgram

section
variable {α : Type} {l l' : List α} {a b : α} {i j m : Nat}

end

def Fault.isIndex : Fault → Bool
  | blockIndex _ _ | moveTarget _ _ | noSuchItem | indexTooLarge => true
  | _ => false

theorem Fault.Arises.isIndex_eq {fault : Fault} (h : fault.Arises) : fault.isIndex = false := by
  rcases h with h | h | h
  · cases h <;> rfl
  all_goals cases fault <;> first | rfl | cases h

namespace Program

variable {p : Program} {index target : Int} {i j : Nat}

/-- The places of a move that is possible. -/
def CanMove (p : Program) (index target : Int) : Prop :=
  (0 ≤ index ∧ index < p.length) ∧ 0 ≤ target ∧ target ≤ p.length

theorem CanMove.run (h : p.CanMove index target) (hs : ∀ id ∈ p.order, id < p.store.size) :
    ((moveBlock index target).run p).state.order = moveItem index.toNat target.toNat p.order ∧
      ((moveBlock index target).run p).state.store.size = p.store.size ∧
      (∀ id, (((moveBlock index target).run p).state.block id).text = (p.block id).text) ∧
      (∀ fault, ((moveBlock index target).run p).result = .error fault → fault.isIndex = false) ∧
      (((moveBlock index target).run p).result = .ok () ↔
        (target = index ∨ target = index + 1) ∨
          ∀ id ∈ p.order, isReadable (p.block id).text = true) := by
  obtain ⟨hindex, htarget⟩ := h
  rw [moveBlock_run hindex htarget]
  split
  · rename_i hstay
    refine ⟨?_, rfl, fun _ => rfl, by simp, by simp [hstay]⟩
    rw [moveItem_eq_self (by omega)]
  · rename_i hstay
    set q : Program := { p with order := moveItem index.toNat target.toNat p.order } with hq
    have hperm : q.order.Perm p.order :=
      moveItem_perm (by have := htarget.2; simp only [length] at this; omega)
    have hstored : ∀ id ∈ q.order, id < q.store.size := fun id hid => hs id (hperm.mem_iff.mp hid)
    obtain ⟨horder, hsize, htext⟩ := reread_keeps hstored
    refine ⟨horder, hsize, htext, fun fault hfault => ?_, ?_⟩
    · exact ((tame_reread q).refused fault hfault).isIndex_eq
    · rw [reread_succeeds_iff hstored, or_iff_right hstay]
      exact forall_congr' fun id => imp_congr_left hperm.mem_iff

end Program

end PartProgram
