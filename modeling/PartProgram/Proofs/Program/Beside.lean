import PartProgram.Proofs.Action.Preserves
import PartProgram.Proofs.Program.Described

/-! # Blocks made beside a program

A block that is made under no command is tied to nothing that was there before. So the
program it is made for keeps all its words and blocks, whether the block can be made
or is refused half way.
-/
namespace PartProgram

theorem Action.state_bind_of_yields {σ α β : Type} {a : Action σ α} {s s' : σ} {x : α}
    (f : α → Action σ β) (h : a.Yields s x s') :
    ((a >>= f).run s).state = ((f x).run s').state := by
  obtain ⟨hresult, rfl⟩ := h
  rw [run_bind_ok f (show a.run s = ⟨.ok x, _, (a.run s).reports⟩ by rw [← hresult])]

namespace Program

/-- Only this block was changed, and words were made, but none of the first `n` was changed. -/
structure Beside (n : Nat) (id : BlockId) (p p' : Program) : Prop where
  path : p'.path = p.path
  order : p'.order = p.order
  sections : p'.sections = p.sections
  size : p'.store.size = p.store.size
  block : ∀ i ≠ id, p'.block i = p.block i
  grown : p.graph.size ≤ p'.graph.size
  word : ∀ w < n, p'.graph[w]? = p.graph[w]?

variable {n : Nat} {id : BlockId} {c c' : Option WordId} {p p' p'' : Program}

theorem Beside.refl (n : Nat) (id : BlockId) (p : Program) : Beside n id p p :=
  ⟨rfl, rfl, rfl, rfl, fun _ _ => rfl, Nat.le_refl _, fun _ _ => rfl⟩

theorem Beside.trans (h : Beside n id p p') (h' : Beside n id p' p'') : Beside n id p p'' :=
  ⟨h'.path.trans h.path, h'.order.trans h.order, h'.sections.trans h.sections,
    h'.size.trans h.size, fun i hi => (h'.block i hi).trans (h.block i hi),
    Nat.le_trans h.grown h'.grown, fun w hw => (h'.word w hw).trans (h.word w hw)⟩

theorem beside_modifyBlock (n : Nat) (id : BlockId) (p : Program) (f : Block → Block) :
    Beside n id p (p.modifyBlock id f) :=
  ⟨rfl, rfl, rfl, Array.size_modify, fun _ hi => block_modifyBlock_of_ne hi f, Nat.le_refl _,
    fun _ _ => rfl⟩

/-- A word that is not governed by any of the first `n` words enters none of them. -/
theorem beside_register {w : Word} (hn : n ≤ p.graph.size)
    (hw : ∀ k, w.governing = some k → n ≤ k) :
    Beside n id p { p with graph := p.graph.register w } := by
  refine ⟨rfl, rfl, rfl, rfl, fun _ _ => rfl, ?_, fun u hu => ?_⟩
  · rw [WordGraph.size_register]
    exact Nat.le_succ _
  · rw [WordGraph.getElem?_register_of_lt (Nat.lt_of_lt_of_le hu hn)]
    cases p.graph[u]? with
    | none => rfl
    | some v =>
      rw [Option.map_some, if_neg fun hk => absurd hu (Nat.not_lt.mpr (hw u hk))]

theorem readToken_run (id : BlockId) (c : Option WordId) (x : Text × Bool) (p : Program) :
    (readToken id c x).run p =
      match Word.ofText x.1 c x.2 with
      | .error fault => ⟨.error fault, p, []⟩
      | .ok w =>
        let q : Program := { p with graph := p.graph.register w }
        ⟨.ok (q.commandAfter p.graph.size c),
          q.modifyBlock id (enterWord q.graph p.graph.size), []⟩ := by
  cases h : Word.ofText x.1 c x.2 with
  | error fault =>
    simp only [readToken, readWord, addWord, h]
    rfl
  | ok w =>
    simp only [readToken, readWord, addWord, h]
    rfl

theorem readToken_beside (id : BlockId) (x : Text × Bool) (hn : n ≤ p.graph.size)
    (hc : ∀ k, c = some k → n ≤ k) : Beside n id p ((readToken id c x).run p).state := by
  rw [readToken_run]
  cases hw : Word.ofText x.1 c x.2 with
  | error fault => exact .refl n id p
  | ok w =>
    have hgoverning := (Word.ofText_new hw).1
    exact (beside_register hn fun k hk => hc k (hgoverning.symm.trans hk)).trans
      (beside_modifyBlock n id _ _)

theorem readToken_handsOn {x : Text × Bool} (hn : n ≤ p.graph.size)
    (hc : ∀ k, c = some k → n ≤ k) (h : (readToken id c x).Yields p c' p') :
    ∀ k, c' = some k → n ≤ k := by
  have hresult := h.1
  rw [readToken_run] at hresult
  cases hw : Word.ofText x.1 c x.2 with
  | error fault =>
    rw [hw] at hresult
    cases hresult
  | ok w =>
    rw [hw] at hresult
    rw [← Except.ok.inj hresult, commandAfter_eq]
    intro k hk
    split at hk
    · exact Option.some.inj hk ▸ hn
    · exact hc k hk

theorem readTokens_beside {xs : List (Text × Bool)} (hn : n ≤ p.graph.size)
    (hc : ∀ k, c = some k → n ≤ k) :
    Beside n id p ((xs.foldlM (readToken id) c).run p).state := by
  induction xs generalizing c p with
  | nil => exact .refl n id p
  | cons x rest ih =>
    have hfirst := readToken_beside id x hn hc
    rw [List.foldlM_cons]
    -- No word is ever made under one of the first `n`, so none of these gets a dependent.
    refine Action.state_bind (I := Beside n id p) (fun _ _ => hfirst) fun c₁ p₁ hx => ?_
    obtain rfl := hx.2
    exact hfirst.trans (ih (Nat.le_trans hn hfirst.grown) (readToken_handsOn hn hc hx))

theorem readBlock_beside (hn : n ≤ p.graph.size) (hc : ∀ k, c = some k → n ≤ k) :
    Beside n id p ((readBlock id c).run p).state := by
  have hfirst := beside_modifyBlock n id p (emptied (Reading.ofText (p.block id).text))
  rw [readBlock_eq, Action.state_get_bind,
    Action.state_bind_of_yields _ (Action.yields_modify (u := ⟨⟩).mpr rfl),
    Action.state_bind_of_yields _ (Action.yields_forIn_report (u := ⟨⟩).mpr rfl)]
  refine Action.state_bind (I := Beside n id p) (fun _ _ => ?_) fun c' p' htokens => ?_
  · exact hfirst.trans (readTokens_beside hn hc)
  · obtain rfl := htokens.2
    exact (hfirst.trans (readTokens_beside hn hc)).trans (beside_modifyBlock n id _ _)

theorem addBlock_state (text : Text) (c : Option WordId) (p : Program) :
    ((addBlock text c).run p).state =
      ((readBlock p.store.size c).run (p.withBlock text c)).state := by
  rw [addBlock, Action.state_get_bind,
    Action.state_bind_of_yields _ (Action.yields_modify (u := ⟨⟩).mpr rfl)]
  exact Action.state_bind (I := (· = ((readBlock p.store.size c).run (p.withBlock text c)).state))
    (fun _ _ => rfl) fun _ _ hread => hread.2.symm

/-- Making a block under no command, or being refused to, keeps the program and what is kept of its
descriptions. -/
theorem addBlock_kept {delimiter : Text} (hp : p.Threaded p.order) (hd : p.Described delimiter)
    (text : Text) : Kept p ((addBlock text none).run p).state ∧
      ((addBlock text none).run p).state.Described delimiter := by
  have hread : Beside p.graph.size p.store.size (p.withBlock text none)
      ((addBlock text none).run p).state := by
    rw [addBlock_state]
    exact readBlock_beside (Nat.le_refl _) (by simp)
  set p' := ((addBlock text none).run p).state
  have hblock : ∀ i ∈ p.order, p'.block i = p.block i := by
    intro i hi
    have hlt := hp.stored i hi
    rw [hread.block i (Nat.ne_of_lt hlt), block_withBlock hlt]
  have hword : ∀ w ∈ p.words, p'.graph[w]? = p.graph[w]? := by
    intro w hw
    obtain ⟨i, hi, hw⟩ := List.mem_flatMap.mp hw
    exact hread.word w (hp.lt hi hw)
  have hkept : Kept p p' := by
    refine ⟨hread.path, hread.order, hread.sections, ?_, fun i hi => ?_, fun w hw => ?_⟩
    · rw [hread.size, size_withBlock]
      exact Nat.le_succ _
    · rw [hblock i hi]
    · rw [hword w hw]
  refine ⟨hkept, hkept.described hp (fun w hw d hd' => ?_) fun i hi d hd' => ?_⟩
  · rw [keptPhrase, hword w hw] at hd'
    exact hd.words w hw d hd'
  · rw [hblock i hi] at hd'
    exact hd.blocks i hi d hd'

end Program

end PartProgram
