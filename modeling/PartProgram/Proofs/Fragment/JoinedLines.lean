import PartProgram.Proofs.Fragment.Normalize
import PartProgram.Proofs.Fragment.Renumbered

/-! # The lines of a joined program

One line for every block of the first header, of all bodies and of the last footer,
each in normal form and numbered through where it had a sequence number.
-/
namespace PartProgram

open WordGraph

namespace Program

theorem setWordInt_yields {w : WordId} {n : Int} {x : Text × Bool} {p p' : Program} {u : Unit}
    (hx : p.graph.Shows w x) (hseq : isSequence x = true)
    (h : (setWordInt w n).Yields p u p') :
    p'.store = p.store ∧ p'.sections = p.sections ∧
      (∀ i ≠ w, p'.graph[i]? = p.graph[i]?) ∧
      (∀ i, p'.graph.textOf i = (p.graph.numbered (some w) n).textOf i) := by
  obtain ⟨v, hv, hs⟩ := hx
  have hletter : v.letter = ['N'] := by
    rw [hs.isSequence, Bool.and_eq_true] at hseq
    simpa using hseq.1
  obtain ⟨-, rfl⟩ := (setWordInt_yields_iff hv hletter).mp h
  refine ⟨rfl, rfl, fun i hi => getElem?_modifyWord_of_ne hi _, fun i => ?_⟩
  simp only [modifyWord, textOf, numbered, Array.getElem?_modify]
  split
  · rename_i hi
    subst hi
    rw [hv]
    rfl
  · rfl

theorem renumber_yields {p p' : Program} {id : BlockId} {n : Int} {b : Bool}
    (hword : ∀ w, (p.block id).number = some w → ∃ x, p.graph.Shows w x ∧ isSequence x = true)
    (h : (renumber id n).Yields p b p') :
    b = (p.block id).number.isSome ∧ p'.store = p.store ∧ p'.sections = p.sections ∧
      (∀ i, (p.block id).number ≠ some i → p'.graph[i]? = p.graph[i]?) ∧
      (∀ i, p'.graph.textOf i = (p.graph.numbered (p.block id).number n).textOf i) ∧
      ((p.block id).number.isSome = true → Number.digitCount n ≤ Number.digitLimit) := by
  simp only [renumber, Action.yields_bind, Action.yields_get, and_assoc, exists_and_left,
    exists_eq_left] at h
  cases hn : (p.block id).number with
  | none =>
    simp only [hn, Action.yields_pure] at h
    obtain ⟨rfl, rfl⟩ := h
    exact ⟨rfl, rfl, rfl, fun _ _ => rfl, fun _ => rfl, fun h => by cases h⟩
  | some w =>
    obtain ⟨x, hx, hseq⟩ := hword w hn
    simp only [hn, Number.text?] at h
    split at h
    · simp at h
    · rename_i numeral hnumeral
      simp only [Action.yields_bind, Action.yields_log, Action.yields_pure, exists_eq_left,
        exists_const] at h
      obtain ⟨_, p₁, hset, rfl, rfl⟩ := h
      obtain ⟨hstore, hsections, hother, htext⟩ := setWordInt_yields hx hseq hset
      refine ⟨rfl, hstore, hsections, fun i hi => hother i fun h => hi (h ▸ rfl), htext,
        fun _ => ?_⟩
      split at hnumeral
      · assumption
      · cases hnumeral

/-- The state still has the words of these blocks as they were in the fragment `q`. -/
structure Keeps (q p : Program) (l : List BlockId) : Prop where
  store : p.store = q.store
  words : ∀ id ∈ l, ∀ w ∈ (q.block id).words, p.graph[w]? = q.graph[w]?

theorem Keeps.block {q p : Program} {l : List BlockId} (h : Keeps q p l) (id : BlockId) :
    p.block id = q.block id := by
  simp only [Program.block, h.store]

theorem rebuilt_congr {p q : Program} {id : BlockId} (hblock : p.block id = q.block id)
    (h : ∀ w ∈ (q.block id).words, p.graph.textOf w = q.graph.textOf w) :
    p.rebuilt id = q.rebuilt id := by
  have hwords : (q.block id).words.flatMap (fun w => p.graph.textOf w ++ [' ']) =
      (q.block id).words.flatMap fun w => q.graph.textOf w ++ [' '] :=
    List.flatMap_congr fun w hw => by rw [h w hw]
  simp only [rebuilt, Block.rebuilt, Block.instructions, hblock, hwords]

/-- The line of a block: its text with at most the sequence number replaced, which was short
enough to be written. -/
structure IsLine (q : Program) (id : BlockId) (n : Int) (line : Text) : Prop where
  rebuilt : line = (q.renumbered id n).rebuilt id
  writable : (q.block id).number.isSome = true → Number.digitCount n ≤ Number.digitLimit

def numberAfter (step n : Int) (q : Program) (id : BlockId) : Int :=
  if (q.block id).number.isSome then n + step else n

theorem takeOver_yields {step : Int} {a a' : Assembly} {q p p' : Program} {id : BlockId}
    {rest : List BlockId} (hq : q.ReadsAll (id :: rest)) (hid : id ∉ rest)
    (hk : Keeps q p (id :: rest)) (h : (takeOver step a id).Yields p a' p') :
    ∃ line, IsLine q id a.next line ∧ a' =
        { a with next := numberAfter step a.next q id, lines := line :: a.lines } ∧
      Keeps q p' rest ∧ p'.sections = p.sections := by
  simp only [takeOver, Action.yields_bind, Action.yields_get, Action.yields_pure, and_assoc,
    exists_and_left, exists_eq_left] at h
  obtain ⟨b, p₁, hrenumber, rfl, rfl⟩ := h
  have hblock := hk.block id
  have hread := hq.reading id List.mem_cons_self
  have hkept := hk.words id List.mem_cons_self
  have hmem : ∀ w, (q.block id).number = some w → w ∈ (q.block id).words := fun w hw =>
    List.mem_of_find?_eq_some (hread.number ▸ hw)
  have hword : ∀ w, (p.block id).number = some w →
      ∃ x, p.graph.Shows w x ∧ isSequence x = true := by
    intro w hw
    rw [hblock] at hw
    obtain ⟨x, hx, v, hv, hs⟩ := shows_find? hread.words (hread.number ▸ hw)
    exact ⟨x, ⟨v, (hkept w (hmem w hw)).trans hv, hs⟩, List.find?_some hx⟩
  obtain ⟨rfl, hstore, hsections, hother, htext, hlimit⟩ := renumber_yields hword hrenumber
  rw [hblock] at hother htext hlimit
  refine ⟨p'.rebuilt id, ⟨rebuilt_congr ?_ ?_, hlimit⟩, ?_, ⟨hstore.trans hk.store, ?_⟩,
    hsections⟩
  · simp only [Program.block, hstore, hk.store, renumbered]
  · intro w hw
    rw [htext w]
    simp only [textOf, renumbered, numbered]
    cases (q.block id).number with
    | none => rw [hkept w hw]
    | some i => simp only [Array.getElem?_modify, hkept w hw]
  · rw [hblock]
    rfl
  · intro i hi w hw
    rw [hother w, hk.words i (List.mem_cons_of_mem _ hi) w hw]
    intro hnumber
    have hne : id ≠ i := fun h => hid (h ▸ hi)
    exact hq.disjoint id List.mem_cons_self i (List.mem_cons_of_mem _ hi) hne (hmem w hnumber) hw

end Program

def isNumbered (x : Program × BlockId) : Bool := (x.1.block x.2).number.isSome

/-- The lines of blocks that are numbered on from `n`. -/
inductive LinesFrom (step : Int) : Int → List (Program × BlockId) → List Text → Prop where
  | nil (n : Int) : LinesFrom step n [] []
  | cons {n : Int} {q : Program} {id : BlockId} {line : Text} {l : List (Program × BlockId)}
      {lines : List Text} : q.IsLine id n line → LinesFrom step (q.numberAfter step n id) l lines →
      LinesFrom step n ((q, id) :: l) (line :: lines)

variable {step n : Int}

theorem numberAfter_add (step n : Int) (q : Program) (id : BlockId)
    (l : List (Program × BlockId)) :
    q.numberAfter step n id + step * l.countP isNumbered =
      n + step * ((q, id) :: l).countP isNumbered := by
  rw [List.countP_cons, show isNumbered (q, id) = (q.block id).number.isSome from rfl,
    Program.numberAfter]
  split
  · rw [Int.natCast_add, Int.mul_add]
    omega
  · rfl

theorem LinesFrom.append {l l' : List (Program × BlockId)} {lines lines' : List Text}
    (h : LinesFrom step n l lines) (h' : LinesFrom step (n + step * l.countP isNumbered) l' lines') :
    LinesFrom step n (l ++ l') (lines ++ lines') := by
  induction h with
  | nil n => simpa using h'
  | @cons n q id line l lines hline _ ih =>
    rw [← numberAfter_add] at h'
    exact .cons hline (ih h')

theorem LinesFrom.length {l : List (Program × BlockId)} {lines : List Text}
    (h : LinesFrom step n l lines) : lines.length = l.length := by
  induction h with
  | nil n => rfl
  | cons _ _ ih => rw [List.length_cons, List.length_cons, ih]

/-- A line has the number that is as many steps from the first as there are sequence numbers
before it. -/
theorem LinesFrom.getElem? {l : List (Program × BlockId)} {lines : List Text}
    (h : LinesFrom step n l lines) {k : Nat} {q : Program} {id : BlockId}
    (hk : l[k]? = some (q, id)) :
    ∃ line, lines[k]? = some line ∧ q.IsLine id (n + step * (l.take k).countP isNumbered) line := by
  induction h generalizing k with
  | nil n => simp at hk
  | @cons n q' id' line l lines hline _ ih =>
    cases k with
    | zero =>
      simp only [List.getElem?_cons_zero, Option.some.injEq, Prod.mk.injEq] at hk
      obtain ⟨rfl, rfl⟩ := hk
      exact ⟨line, rfl, by simpa using hline⟩
    | succ k =>
      obtain ⟨line', hline', hline''⟩ := ih (by simpa using hk)
      refine ⟨line', by simpa using hline', ?_⟩
      rw [numberAfter_add] at hline''
      exact hline''

namespace Program

theorem takeOverAll_yields {a a' : Assembly} {q p p' : Program} {ids : List BlockId}
    (hq : q.ReadsAll ids) (hn : ids.Nodup) (hk : Keeps q p ids)
    (h : (Action.fold (takeOver step) a ids).Yields p a' p') :
    ∃ lines, LinesFrom step a.next (ids.map (q, ·)) lines ∧
      a'.lines = lines.reverse ++ a.lines ∧ a'.fragments = a.fragments ∧
      a'.next = a.next + step * (ids.map (q, ·)).countP isNumbered := by
  induction ids generalizing a p with
  | nil =>
    obtain ⟨rfl, -⟩ := Action.yields_fold_nil.mp h
    exact ⟨[], .nil _, by simp⟩
  | cons id rest ih =>
    obtain ⟨a₁, p₁, hid, hrest⟩ := Action.yields_fold_cons.mp h
    obtain ⟨hnot, hn⟩ := List.nodup_cons.mp hn
    obtain ⟨line, hline, rfl, hk', -⟩ := takeOver_yields hq hnot hk hid
    obtain ⟨lines, hlines, hall, hfragments, hnext⟩ :=
      ih (hq.subset (List.subset_cons_self _ _)) hn hk' hrest
    refine ⟨line :: lines, .cons hline hlines, by simp [hall], hfragments, ?_⟩
    rw [hnext, List.map_cons, ← numberAfter_add]

def sectionBlocks (part : Sections → List BlockId) (p : Program) : List (Program × BlockId) :=
  (part (p.sections.getD default)).map (p, ·)

def sharedBlocks (index count : Nat) (p : Program) : List (Program × BlockId) :=
  sectionBlocks (share index count) p

theorem Settled.share_nodup {q : Program} (hq : q.Settled) (index count : Nat) :
    (share index count (q.sections.getD default)).Nodup ∧
      share index count (q.sections.getD default) ⊆ q.order := by
  have hsub : (share index count (q.sections.getD default)).Sublist q.order := by
    cases hs : q.sections with
    | none =>
      have hnil : share index count (default : Sections) = [] := by
        unfold share
        split <;> split <;> rfl
      simp [hnil]
    | some s =>
      rw [← cutSections_append q s.toolMark, ← hq.sections s hs]
      refine List.Sublist.append (List.Sublist.append ?_ (List.Sublist.refl _)) ?_
      · split
        · exact List.Sublist.refl _
        · exact List.nil_sublist _
      · split
        · exact List.Sublist.refl _
        · exact List.nil_sublist _
  exact ⟨hq.nodup.sublist hsub, hsub.subset⟩

theorem joinOn_yields {count : Nat} {a a' : Assembly} {q q' : Program} (hq : q.Settled)
    (h : (joinOn step count a).Yields q a' q') :
    ∃ lines, LinesFrom step a.next (sharedBlocks a.fragments count q) lines ∧
      a'.lines = lines.reverse ++ a.lines ∧ a'.fragments = a.fragments + 1 ∧
      a'.next = a.next + step * (sharedBlocks a.fragments count q).countP isNumbered := by
  simp only [joinOn, Action.yields_bind, Action.yields_get, Action.yields_pure, and_assoc,
    exists_and_left, exists_eq_left] at h
  obtain ⟨a₁, q₁, hall, rfl, rfl⟩ := h
  obtain ⟨hn, hsub⟩ := hq.share_nodup a.fragments count
  obtain ⟨lines, hlines, hlines', hfragments, hnext⟩ :=
    takeOverAll_yields (hq.reads.subset hsub) hn ⟨rfl, fun _ _ _ _ => rfl⟩ hall
  exact ⟨lines, hlines, hlines', by simp [hfragments], hnext⟩

end Program

open Program

/-- The blocks of fragments from the one at `index` on. -/
def sharedFrom (count : Nat) : Nat → List Program → List (Program × BlockId)
  | _, [] => []
  | index, q :: rest => sharedBlocks index count q ++ sharedFrom count (index + 1) rest

theorem joinAll_yields {count : Nat} {a a' : Assembly} {qs qs' : List Program}
    (hq : ∀ q ∈ qs, q.Settled) (h : (Action.sweep (joinOn step count) a).Yields qs a' qs') :
    ∃ lines, LinesFrom step a.next (sharedFrom count a.fragments qs) lines ∧
      a'.lines = lines.reverse ++ a.lines := by
  induction qs generalizing a qs' with
  | nil =>
    obtain ⟨rfl, -⟩ := Action.yields_sweep_nil.mp h
    exact ⟨[], .nil _, by simp⟩
  | cons q rest ih =>
    obtain ⟨a₁, q₁, rest', hfirst, hrest, -⟩ := Action.yields_sweep_cons.mp h
    obtain ⟨lines, hlines, hall, hfragments, hnext⟩ :=
      joinOn_yields (hq q List.mem_cons_self) hfirst
    obtain ⟨lines', hlines', hall'⟩ := ih (fun p hp => hq p (List.mem_cons_of_mem _ hp)) hrest
    rw [hfragments, hnext] at hlines'
    exact ⟨lines ++ lines', hlines.append hlines', by simp [hall', hall]⟩

/-- The blocks of the joined program, each with the fragment it comes from: the header of the
first, all bodies, and the footer of the last. -/
def joinedBlocks (fragments : List Program) : List (Program × BlockId) :=
  fragments.head?.toList.flatMap (sectionBlocks Sections.header) ++
    fragments.flatMap (sectionBlocks Sections.body) ++
    fragments.getLast?.toList.flatMap (sectionBlocks Sections.footer)

theorem sharedFrom_eq (index : Nat) (qs : List Program) :
    sharedFrom (index + qs.length) index qs =
      (if index = 0 then qs.head?.toList.flatMap (sectionBlocks Sections.header) else []) ++
        qs.flatMap (sectionBlocks Sections.body) ++
        qs.getLast?.toList.flatMap (sectionBlocks Sections.footer) := by
  induction qs generalizing index with
  | nil => simp [sharedFrom]
  | cons q rest ih =>
    have hrest := ih (index + 1)
    rw [show index + 1 + rest.length = index + (q :: rest).length by
      rw [List.length_cons]; omega, if_neg (by omega), List.nil_append] at hrest
    rw [sharedFrom, hrest]
    cases rest with
    | nil =>
      by_cases hi : index = 0 <;> simp [sharedBlocks, sectionBlocks, share, hi]
    | cons q' rest =>
      by_cases hi : index = 0 <;>
        simp [sharedBlocks, sectionBlocks, share, hi, List.getLast?_cons_cons]

theorem normalizeAll_yields {ps qs : List Program} {u : Unit}
    (h : (Action.sweep (fun _ => normalize) ()).Yields ps u qs) :
    List.Forall₂ (fun p q => normalize.Yields p () q) ps qs := by
  induction ps generalizing qs u with
  | nil =>
    obtain ⟨-, rfl⟩ := Action.yields_sweep_nil.mp h
    exact .nil
  | cons p rest ih =>
    obtain ⟨_, q, rest', hfirst, hrest, rfl⟩ := Action.yields_sweep_cons.mp h
    exact .cons hfirst (ih hrest)

theorem settled_of_normalized {ps qs : List Program} (hp : ∀ p ∈ ps, IsFragment p)
    (h : List.Forall₂ (fun p q => normalize.Yields p () q) ps qs) : ∀ q ∈ qs, q.Settled := by
  induction h with
  | nil => simp
  | @cons p q ps qs hq _ ih =>
    obtain ⟨hfirst, hrest⟩ := List.forall_mem_cons.mp hp
    exact List.forall_mem_cons.mpr ⟨(normalize_yields hfirst.settled hq).1, ih hrest⟩

theorem exists_of_mem_joinedBlocks {qs : List Program} {q : Program} {id : BlockId}
    (hq : ∀ q ∈ qs, q.Settled) (h : (q, id) ∈ joinedBlocks qs) : q.Settled ∧ id ∈ q.order := by
  have hpart : ∀ (part : Sections → List BlockId) (ps : List Program), ps ⊆ qs →
      (∀ p ∈ ps, part (p.sections.getD default) ⊆ p.order) →
      (q, id) ∈ ps.flatMap (sectionBlocks part) → q.Settled ∧ id ∈ q.order := by
    intro part ps hps hsub hmem
    obtain ⟨p, hp, hmem⟩ := List.mem_flatMap.mp hmem
    obtain ⟨i, hi, heq⟩ := List.mem_map.mp hmem
    obtain ⟨rfl, rfl⟩ := Prod.mk.inj heq
    exact ⟨hq p (hps hp), hsub p hp hi⟩
  have hshare : ∀ p ∈ qs, share 0 1 (p.sections.getD default) ⊆ p.order :=
    fun p hp => ((hq p hp).share_nodup 0 1).2
  simp only [share, Nat.zero_add, if_true, List.append_subset] at hshare
  simp only [joinedBlocks, List.mem_append] at h
  rcases h with (h | h) | h
  · have hsub : qs.head?.toList ⊆ qs := fun p hp => List.mem_of_head? (Option.mem_toList.mp hp)
    exact hpart _ _ hsub (fun p hp => (hshare p (hsub hp)).1.1) h
  · exact hpart _ _ (List.Subset.refl _) (fun p hp => (hshare p hp).1.2) h
  · have hsub : qs.getLast?.toList ⊆ qs := fun p hp =>
      List.mem_of_getLast? (Option.mem_toList.mp hp)
    exact hpart _ _ hsub (fun p hp => (hshare p (hsub hp)).2) h

/-- A line of the joined program: the text of the block with at most its sequence number replaced,
the first one on it, and in normal form. -/
structure IsJoinedLine (q : Program) (id : BlockId) (n : Int) (line : Text) : Prop where
  text : line = (q.renumbered id n).rebuilt id
  number : (q.block id).number = (q.block id).words.find? (isSequenceNumber q.graph)
  normal : IsNormal line ((q.renumbered id n).shownWords id)
    (if (q.block id).number.isSome then some n else none)

/-- Whatever fragments are joined, the lines are those of the joined blocks, in order, and the
sequence numbers among them run from `start` on in steps of `step`. -/
theorem joinFragments_lines {start step : Int} {fragments : List Program} {lines : List Text}
    (hread : ∀ p ∈ fragments, IsFragment p)
    (h : ((joinFragments start step).run fragments).result = .ok lines) :
    ∃ normal, List.Forall₂ (fun p q => normalize.Yields p () q) fragments normal ∧
      lines.length = (joinedBlocks normal).length ∧
      ∀ k q id, (joinedBlocks normal)[k]? = some (q, id) → ∃ line, lines[k]? = some line ∧
        IsJoinedLine q id (start + step * ((joinedBlocks normal).take k).countP isNumbered)
          line := by
  have hyields := Action.yields_of_result h
  simp only [joinFragments, Action.yields_bind, Action.yields_get, Action.yields_pure, and_assoc,
    exists_and_left, exists_eq_left] at hyields
  obtain ⟨_, normal, hnormal, a, _, hjoin, rfl, -⟩ := hyields
  have hall := normalizeAll_yields hnormal
  have hsettled := settled_of_normalized hread hall
  obtain ⟨lines, hlines, heq⟩ := joinAll_yields hsettled hjoin
  have hshared := sharedFrom_eq 0 normal
  rw [Nat.zero_add, if_pos rfl] at hshared
  rw [show sharedFrom normal.length 0 normal = joinedBlocks normal from hshared] at hlines
  rw [heq, List.append_nil, List.reverse_reverse]
  refine ⟨normal, hall, hlines.length, fun k q id hk => ?_⟩
  obtain ⟨line, hline, hrebuilt, hwritable⟩ := hlines.getElem? hk
  obtain ⟨hq, hid⟩ := exists_of_mem_joinedBlocks hsettled (List.mem_of_getElem? hk)
  exact ⟨line, hline, hrebuilt, (hq.reads.reading id hid).number,
    hrebuilt ▸ isNormal_renumbered hq.reads hid hwritable⟩

/-- The sample joined with itself, from 10 on in steps of 5. -/
def sampleLines : List Text :=
  ["(A)", "(T1)", "", "N10 G0 E1 X1 Z1 H1", "", "N15 G0 E1 X1 Z1 H1", "", "M30"].map String.toList

theorem joinFragments_lines_sample :
    ((joinFragments 10 5).run [sampleFragment, sampleFragment]).result = .ok sampleLines ∧
      ∃ normal, List.Forall₂ (fun p q => normalize.Yields p () q)
          [sampleFragment, sampleFragment] normal ∧
        sampleLines.length = (joinedBlocks normal).length ∧
        ∀ k q id, (joinedBlocks normal)[k]? = some (q, id) →
          ∃ line, sampleLines[k]? = some line ∧
            IsJoinedLine q id (10 + 5 * ((joinedBlocks normal).take k).countP isNumbered)
              line := by
  have hjoin : ((joinFragments 10 5).run [sampleFragment, sampleFragment]).result =
      .ok sampleLines := by decide +kernel
  exact ⟨hjoin, joinFragments_lines (by simp [isFragment_sample]) hjoin⟩

end PartProgram
