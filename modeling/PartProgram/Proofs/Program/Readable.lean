import PartProgram.Proofs.Number.Integer
import PartProgram.Proofs.Program.Settled

/-! # Texts that are read

Reading is refused for one reason only: a word with a number too long to be read.
Whether it is, depends on the text alone, so what was read once is read again.
-/
namespace PartProgram

open WordGraph

/-- A word that was made can be made again. -/
theorem Word.Says.ofText {w : Word} {x : Text × Bool} (h : w.Says x) (c : Option WordId) :
    ∃ v, Word.ofText x.1 c x.2 = .ok v := by
  obtain ⟨s, verbatim⟩ := x
  obtain rfl : w.text = s := h.text
  simp only [Word.ofText, Word.text, h.numbers, Except.map]
  exact ⟨_, rfl⟩

def isReadable (line : Text) : Bool :=
  (Reading.ofText line).tokens.all fun x => (Word.ofText x.1 none x.2).isOk

theorem Word.ofText_isOk {x : Text × Bool} :
    (Word.ofText x.1 none x.2).isOk = true ↔ ∀ c, ∃ w, Word.ofText x.1 c x.2 = .ok w := by
  obtain ⟨s, verbatim⟩ := x
  cases s with
  | nil => simp [Word.ofText, Except.isOk, Except.toBool]
  | cons a rest =>
    cases h : Numbers.read rest with
    | error fault => simp [Word.ofText, h, Except.map, Except.isOk, Except.toBool]
    | ok numbers => simp [Word.ofText, h, Except.map, Except.isOk, Except.toBool]

theorem isReadable_iff {line : Text} : isReadable line = true ↔
    ∀ x ∈ (Reading.ofText line).tokens, ∀ c, ∃ w, Word.ofText x.1 c x.2 = .ok w := by
  simp only [isReadable, List.all_eq_true, Word.ofText_isOk]

theorem Block.IsReading.isReadable {g : WordGraph} {b : Block} (h : b.IsReading g) :
    isReadable b.text = true := by
  rw [isReadable_iff]
  intro x hx c
  obtain ⟨_, w, -, hw⟩ := exists_shows h.words x hx
  exact hw.ofText c

theorem Numbers.read_long {n : Nat} (hn : Number.digitLimit < (Number.digits n).length) :
    Numbers.read (Number.digits n) = .error (.longNumeral (Number.digits n).length) := by
  have htrim : (Number.digits n).trim = Number.digits n := Number.trim_text (.ofNat n)
  have hall : (Number.digits n).all Number.isDigit = true :=
    List.all_eq_true.mpr fun c hc => Number.isDigit_of_mem_digits hc
  have hne : (Number.digits n).isEmpty = false := by simpa using Number.digits_ne_nil n
  have hread : Number.read (Number.digits n) = .tooLong (Number.digits n).length := by
    rw [Number.read, Number.splitSign_digits]
    simp [Number.readDigits, hall, hne, hn]
  simp only [Numbers.read, htrim, hread]

theorem isReadable_of_long {line : Text} {n : Nat} {verbatim : Bool}
    (hn : Number.digitLimit < (Number.digits n).length)
    (hmem : ('N' :: Number.digits n, verbatim) ∈ (Reading.ofText line).tokens) :
    isReadable line = false := by
  refine Bool.eq_false_iff.mpr fun h => ?_
  obtain ⟨w, hw⟩ := isReadable_iff.mp h _ hmem none
  simp [Word.ofText, Numbers.read_long hn, Except.map] at hw

namespace Program

variable {p : Program} {id : BlockId} {m : List BlockId} {ls : List Text}

theorem readTokens_succeeds {xs : List (Text × Bool)}
    (h : ∀ x ∈ xs, ∀ c, ∃ w, Word.ofText x.1 c x.2 = .ok w) (id : BlockId) (c : Option WordId)
    (p : Program) : ∃ c' p', (xs.foldlM (readToken id) c).Yields p c' p' := by
  induction xs generalizing c p with
  | nil => exact ⟨c, p, Action.yields_pure.mpr ⟨rfl, rfl⟩⟩
  | cons x rest ih =>
    obtain ⟨w, hw⟩ := h x List.mem_cons_self c
    have hstep : ∃ c₁ p₁, (readToken id c x).Yields p c₁ p₁ := by
      simp only [readToken, readWord, Action.yields_bind, yields_addWord, Action.yields_get,
        Action.yields_modify, Action.yields_pure]
      exact ⟨_, _, _, _, ⟨_, _, ⟨w, hw, rfl, rfl⟩, _, _, ⟨rfl, rfl⟩, rfl, rfl⟩, _, _, ⟨rfl, rfl⟩,
        ⟨⟩, _, rfl, rfl, rfl⟩
    obtain ⟨c₁, p₁, hx⟩ := hstep
    obtain ⟨c', p', hrest⟩ := ih (fun y hy => h y (List.mem_cons_of_mem _ hy)) c₁ p₁
    refine ⟨c', p', ?_⟩
    rw [List.foldlM_cons, Action.yields_bind]
    exact ⟨c₁, p₁, hx, hrest⟩

theorem readBlock_succeeds (h : isReadable (p.block id).text = true) (c : Option WordId) :
    ∃ c' p', (readBlock id c).Yields p c' p' := by
  obtain ⟨c', p', htokens⟩ := readTokens_succeeds (isReadable_iff.mp h) id c
    (p.modifyBlock id (emptied (Reading.ofText (p.block id).text)))
  simp only [readBlock_eq, Action.yields_bind, Action.yields_get, Action.yields_modify,
    Action.yields_pure, Action.yields_forIn_report, and_assoc, exists_and_left, exists_eq_left,
    exists_const]
  exact ⟨_, _, c', p', htokens, rfl, rfl⟩

theorem addBlock_succeeds {text : Text} (h : isReadable text = true) (s : Program)
    (c : Option WordId) : ∃ i r, (addBlock text c).Yields s i r := by
  have htext : ((s.withBlock text c).block s.store.size).text = text := by
    rw [block_withBlock_size]
  obtain ⟨c', p', hread⟩ := readBlock_succeeds (htext.symm ▸ h) c
  exact ⟨_, p', addBlock_yields_iff.mpr ⟨rfl, c', hread⟩⟩

/-- No block is made of any other. -/
theorem isReadable_of_addBlock {text : Text} {c : Option WordId} {p' : Program}
    (h : (addBlock text c).Yields p id p') : isReadable text = true := by
  obtain ⟨hadds, hreads⟩ := addBlock_yields (readsAll_nil p) h
  rw [← hadds.text_eq]
  exact (hreads.reading id List.mem_cons_self).isReadable

theorem readBlocks_succeeds (hm : ∀ id ∈ m, id < p.store.size)
    (h : ∀ id ∈ m, isReadable (p.block id).text = true) (c : Option WordId) :
    ∃ c' p', (Action.fold (fun c id => readBlock id c) c m).Yields p c' p' := by
  induction m generalizing p c with
  | nil => exact ⟨c, p, Action.yields_fold_nil.mpr ⟨rfl, rfl⟩⟩
  | cons id rest ih =>
    obtain ⟨c₁, p₁, hid⟩ := readBlock_succeeds (h id List.mem_cons_self) c
    have hsame := readBlock_rereads (hm id List.mem_cons_self) hid
    obtain ⟨c', p', hrest⟩ := ih (p := p₁)
      (fun i hi => hsame.size.symm ▸ hm i (List.mem_cons_of_mem _ hi))
      (fun i hi => (hsame.text i).symm ▸ h i (List.mem_cons_of_mem _ hi)) c₁
    exact ⟨c', p', Action.yields_fold_cons.mpr ⟨c₁, p₁, hid, hrest⟩⟩

theorem reread_succeeds (hs : ∀ id ∈ p.order, id < p.store.size)
    (h : ∀ id ∈ p.order, isReadable (p.block id).text = true) : ∃ p', reread.Yields p () p' := by
  obtain ⟨c, p₁, hread⟩ := readBlocks_succeeds hs h none
  exact ⟨_, reread_yields_iff.mpr ⟨c, p₁, hread, rfl⟩⟩

theorem readLineBlocks_succeeds (h : ∀ line ∈ ls, isReadable line = true) (c : Option WordId)
    (p : Program) : ∃ c' p', (Action.fold readLine c ls).Yields p c' p' := by
  induction ls generalizing p c with
  | nil => exact ⟨c, p, Action.yields_fold_nil.mpr ⟨rfl, rfl⟩⟩
  | cons line rest ih =>
    obtain ⟨id, p₁, hadd⟩ := addBlock_succeeds (h line List.mem_cons_self) p c
    have hline : (readLine c line).Yields p (p₁.block id).trailing p₁ :=
      readLine_yields.mpr ⟨id, hadd, rfl⟩
    obtain ⟨c', p', hrest⟩ := ih (fun l hl => h l (List.mem_cons_of_mem _ hl)) _ p₁
    exact ⟨c', p', Action.yields_fold_cons.mpr ⟨_, p₁, hline, hrest⟩⟩

theorem readLines_succeeds (h : ∀ line ∈ ls, isReadable line = true) (p : Program) :
    ∃ p', (readLines ls).Yields p () p' := by
  obtain ⟨c, p₁, hread⟩ := readLineBlocks_succeeds h none p
  exact ⟨_, readLines_yields_iff.mpr ⟨c, p₁, _, hread, rfl, rfl⟩⟩

end Program

end PartProgram
