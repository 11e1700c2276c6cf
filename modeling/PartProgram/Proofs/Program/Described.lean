import PartProgram.Proofs.Program.Kept

/-! # Descriptions that are kept

A description that is kept is the one that the words as they stand would give. That
holds after a program was read, when nothing is kept, and reading any description
leaves it so; what is read is therefore the same whatever was read before.
-/
namespace PartProgram

namespace Cached

variable {α : Type}

def valueOr (value : α) : Cached α → α
  | stale => value
  | fresh kept => kept

theorem read_pure {m : Type → Type} [Monad m] [LawfulMonad m] (value : α) (c : Cached α) :
    c.read (pure value : m α) = pure (c.valueOr value, fresh (c.valueOr value)) := by
  cases c with
  | stale => exact read_stale value
  | fresh kept => exact read_fresh _ kept

theorem valueOr_eq {value : α} {c : Cached α} (h : ∀ kept, c = fresh kept → kept = value) :
    c.valueOr value = value := by
  cases c with
  | stale => rfl
  | fresh kept => exact h kept rfl

end Cached

namespace Program

open WordGraph

variable {p : Program} {delimiter : Text}

def keptPhrase (p : Program) (w : WordId) : Cached Text :=
  (p.graph[w]?.map Word.description).getD .stale

/-- Every description that is kept is the one that the words as they stand would give. -/
structure Described (delimiter : Text) (p : Program) : Prop where
  words : ∀ w ∈ p.words, ∀ d, p.keptPhrase w = .fresh d → d = p.phraseOf w
  blocks : ∀ id ∈ p.order, ∀ d, (p.block id).description = .fresh d →
    d = p.descriptionOf delimiter id

theorem Fresh.described (h : p.Fresh p.order) (delimiter : Text) : p.Described delimiter := by
  refine ⟨fun w hw d hd => ?_, fun id hid d hd => ?_⟩
  · rw [keptPhrase] at hd
    cases hv : p.graph[w]? with
    | none => simp [hv] at hd
    | some v => simp [hv, h.words_stale w hw v hv] at hd
  · rw [h.blocks_stale id hid] at hd
    cases hd

/-- What stays as it was is described as it was, if no other descriptions are kept of it. -/
theorem Kept.described {p' : Program} (h : Kept p p') (hp : p.Threaded p.order)
    (hwords : ∀ w ∈ p.words, ∀ d, p'.keptPhrase w = .fresh d → d = p.phraseOf w)
    (hblocks : ∀ id ∈ p.order, ∀ d, (p'.block id).description = .fresh d →
      d = p.descriptionOf delimiter id) : p'.Described delimiter := by
  refine ⟨fun w hw d hd => ?_, fun id hid d hd => ?_⟩
  · rw [h.words_eq] at hw
    rw [h.phrases hp w hw]
    exact hwords w hw d hd
  · rw [h.order] at hid
    rw [h.descriptionOf hp hid]
    exact hblocks id hid d hd

def keepPhrase (p : Program) (w : WordId) (d : Text) : Program :=
  p.modifyWord w fun v => { v with description := .fresh d }

theorem describeWord_run (w : WordId) (p : Program) : (describeWord w).run p =
    match p.graph[w]? with
    | none => ([], p)
    | some _ => ((p.keptPhrase w).valueOr (p.phraseOf w),
        p.keepPhrase w ((p.keptPhrase w).valueOr (p.phraseOf w))) := by
  cases hw : p.graph[w]? with
  | none =>
    change (match p.graph[w]? with | none => _ | some v => _ : StateM Program Text).run p = _
    rw [hw]
    rfl
  | some v =>
    change (match p.graph[w]? with | none => _ | some v => _ : StateM Program Text).run p = _
    simp only [hw, keptPhrase, phraseOf, Option.map_some, Option.getD_some, Cached.read_pure, pure_bind]
    rfl

theorem kept_keepPhrase (p : Program) (w : WordId) (d : Text) : Kept p (p.keepPhrase w d) := by
  refine ⟨rfl, rfl, rfl, Nat.le_refl _, fun _ _ => rfl, fun u _ => ?_⟩
  simp only [keepPhrase, modifyWord, Array.getElem?_modify]
  split
  · rw [Option.map_map]
    rfl
  · rfl

theorem keptPhrase_keepPhrase {w u : WordId} {d : Text} {v : Word} (hw : p.graph[w]? = some v) :
    (p.keepPhrase w d).keptPhrase u = if u = w then .fresh d else p.keptPhrase u := by
  simp only [keptPhrase, keepPhrase, modifyWord, Array.getElem?_modify, eq_comm (a := u)]
  split
  · rename_i heq
    rw [← heq, hw]
    rfl
  · rfl

/-- Reading the phrase of any word changes nothing else, and gives the phrase it has now. -/
theorem describeWord_spec (hp : p.Threaded p.order) (hd : p.Described delimiter) (w : WordId) :
    Kept p ((describeWord w).run p).2 ∧ ((describeWord w).run p).2.Described delimiter ∧
      (w ∈ p.words → ((describeWord w).run p).1 = p.phraseOf w) := by
  rw [describeWord_run]
  cases hw : p.graph[w]? with
  | none =>
    refine ⟨.refl p, hd, fun _ => ?_⟩
    rw [phraseOf, hw]
    rfl
  | some v =>
    have hvalue : w ∈ p.words → (p.keptPhrase w).valueOr (p.phraseOf w) = p.phraseOf w :=
      fun hmem => Cached.valueOr_eq (hd.words w hmem)
    have hkept := kept_keepPhrase p w ((p.keptPhrase w).valueOr (p.phraseOf w))
    refine ⟨hkept, hkept.described hp (fun u hu d hfresh => ?_) hd.blocks, hvalue⟩
    rw [keptPhrase_keepPhrase hw] at hfresh
    split at hfresh
    · rename_i heq
      subst heq
      exact (Cached.fresh.inj hfresh).symm.trans (hvalue hu)
    · exact hd.words u hu d hfresh

theorem runState_bind {σ α β : Type} (x : StateM σ α) (f : α → StateM σ β) (s : σ) :
    (x >>= f).run s = (f (x.run s).1).run (x.run s).2 := rfl

theorem describeWords_spec (ws : List WordId) (hp : p.Threaded p.order)
    (hd : p.Described delimiter) :
    Kept p ((ws.mapM describeWord).run p).2 ∧
      ((ws.mapM describeWord).run p).2.Described delimiter ∧
      (ws ⊆ p.words → ((ws.mapM describeWord).run p).1 = ws.map p.phraseOf) := by
  induction ws generalizing p with
  | nil => exact ⟨.refl p, hd, fun _ => rfl⟩
  | cons w ws ih =>
    obtain ⟨hkept, hd₁, hphrase⟩ := describeWord_spec hp hd w
    obtain ⟨hkept', hd₂, hphrases⟩ := ih (hkept.threaded hp) hd₁
    rw [List.mapM_cons, runState_bind, runState_bind, StateT.run_pure]
    refine ⟨hkept.trans hkept', hd₂, fun hsub => ?_⟩
    -- The first phrase, being kept now, leaves the others what they were.
    obtain ⟨hw, hws⟩ := List.cons_subset.mp hsub
    have hsame := List.map_congr_left fun u hu => hkept.phrases hp u (hws hu)
    exact congrArg₂ List.cons (hphrase hw) ((hphrases (hkept.words_eq.symm ▸ hws)).trans hsame)

def keepDescription (p : Program) (id : BlockId) (d : Text) : Program :=
  p.modifyBlock id fun b => { b with description := .fresh d }

theorem forgotten_keepDescription (p : Program) (id : BlockId) (d : Text) (i : BlockId) :
    ((p.keepDescription id d).block i).forgotten = (p.block i).forgotten :=
  forall_block_modifyBlock p id _ (fun b b' => b'.forgotten = b.forgotten) (fun _ => rfl) rfl i

theorem kept_keepDescription (p : Program) (id : BlockId) (d : Text) :
    Kept p (p.keepDescription id d) :=
  ⟨rfl, rfl, rfl, Nat.le_of_eq Array.size_modify.symm, fun i _ => forgotten_keepDescription p id d i,
    fun _ _ => rfl⟩

theorem describeBlock_run (delimiter : Text) (id : BlockId) (p : Program) :
    (describeBlock delimiter id).run p =
      match (p.block id).description with
      | .fresh d => (d, p.keepDescription id d)
      | .stale =>
        let found := ((p.block id).words.mapM describeWord).run p
        (joinPhrases delimiter found.1,
          found.2.keepDescription id (joinPhrases delimiter found.1)) := by
  rw [describeBlock, runState_bind]
  change ((p.block id).description.read _ >>= _ : StateM Program Text).run p = _
  cases (p.block id).description <;> rfl

theorem Described.keepDescription (hd : p.Described delimiter) (hp : p.Threaded p.order)
    {id : BlockId} {d : Text} (hdesc : id ∈ p.order → d = p.descriptionOf delimiter id) :
    (p.keepDescription id d).Described delimiter := by
  refine (kept_keepDescription p id d).described hp hd.words fun i hi d' hd' => ?_
  by_cases heq : i = id
  · subst heq
    rw [Program.keepDescription, block_modifyBlock (hp.stored i hi)] at hd'
    exact (Cached.fresh.inj hd').symm.trans (hdesc hi)
  · rw [Program.keepDescription, block_modifyBlock_of_ne heq] at hd'
    exact hd.blocks i hi d' hd'

theorem describeBlock_spec (hp : p.Threaded p.order) (hd : p.Described delimiter) (id : BlockId) :
    Kept p ((describeBlock delimiter id).run p).2 ∧
      ((describeBlock delimiter id).run p).2.Described delimiter ∧
      (id ∈ p.order → ((describeBlock delimiter id).run p).1 = p.descriptionOf delimiter id) := by
  rw [describeBlock_run]
  cases hdesc : (p.block id).description with
  | fresh d =>
    have hvalue : id ∈ p.order → d = p.descriptionOf delimiter id :=
      fun hid => hd.blocks id hid d hdesc
    exact ⟨kept_keepDescription p id d, hd.keepDescription hp hvalue, hvalue⟩
  | stale =>
    obtain ⟨hkept, hd₁, hphrases⟩ := describeWords_spec (p.block id).words hp hd
    have hvalue : id ∈ p.order → joinPhrases delimiter
        (((p.block id).words.mapM describeWord).run p).1 = p.descriptionOf delimiter id :=
      fun hid => congrArg (joinPhrases delimiter) (hphrases fun _ hw => mem_words hid hw)
    -- Its phrases were read first, so the description is put into the program these left behind.
    refine ⟨hkept.trans (kept_keepDescription _ id _), ?_, hvalue⟩
    refine hd₁.keepDescription (hkept.threaded hp) fun hid => ?_
    have hid' := hkept.order ▸ hid
    exact (hvalue hid').trans (hkept.descriptionOf hp hid' delimiter).symm

end Program

end PartProgram
