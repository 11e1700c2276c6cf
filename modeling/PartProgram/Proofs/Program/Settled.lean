import PartProgram.Proofs.Program.Read

/-! # Programs that are read

After a program was read, every block of its sequence holds what its text says, no
two blocks share a word, and the sections are those the blocks ask for. Reading it
again changes no text.
-/
namespace PartProgram.Program

open WordGraph

/-- The blocks of the list are read, and no word stands on two of them or twice on one. -/
structure ReadsAll (p : Program) (l : List BlockId) : Prop where
  stored : ∀ id ∈ l, id < p.store.size
  reading : ∀ id ∈ l, (p.block id).IsReading p.graph
  nodup : ∀ id ∈ l, (p.block id).words.Nodup
  disjoint : ∀ i ∈ l, ∀ j ∈ l, i ≠ j → (p.block i).words.Disjoint (p.block j).words

variable {p p' p'' : Program} {l m : List BlockId}

theorem readsAll_nil (p : Program) : p.ReadsAll [] := ⟨by simp, by simp, by simp, by simp⟩

theorem ReadsAll.subset (h : p.ReadsAll l) (hm : m ⊆ l) : p.ReadsAll m :=
  ⟨fun id hid => h.stored id (hm hid), fun id hid => h.reading id (hm hid),
    fun id hid => h.nodup id (hm hid), fun i hi j hj => h.disjoint i (hm hi) j (hm hj)⟩

/-- Blocks that are read again and keep their words share none. -/
theorem ReadsAll.of_words (h : p.ReadsAll l) (hsize : p.store.size ≤ p'.store.size)
    (hreading : ∀ id ∈ l, (p'.block id).IsReading p'.graph)
    (hwords : ∀ id ∈ l, (p'.block id).words = (p.block id).words) : p'.ReadsAll l := by
  refine ⟨fun id hid => Nat.lt_of_lt_of_le (h.stored id hid) hsize, hreading, fun id hid => ?_,
    fun i hi j hj hij => ?_⟩
  · rw [hwords id hid]
    exact h.nodup id hid
  · rw [hwords i hi, hwords j hj]
    exact h.disjoint i hi j hj hij

theorem ReadsAll.lt (h : p.ReadsAll l) {id : BlockId} (hid : id ∈ l) {w : WordId}
    (hw : w ∈ (p.block id).words) : w < p.graph.size := by
  obtain ⟨_, -, hx⟩ := shows_of_mem (h.reading id hid).words w hw
  exact hx.lt

/-- Reading one more block: its words are new, so no other block has them. -/
theorem ReadsAll.readBlock (h : p.ReadsAll l) {id : BlockId} {c c' : Option WordId}
    (hid : id < p.store.size) (hr : (Program.readBlock id c).Yields p c' p') :
    p'.ReadsAll (id :: l) := by
  obtain ⟨htouch, -, hreading, n, hwords⟩ := readBlock_yields hid hr
  have hnew : ∀ i ∈ l, i ≠ id → (p'.block i).words.Disjoint (p'.block id).words := by
    intro i hi hne w hw hw'
    rw [htouch.other i hne] at hw
    rw [hwords, List.mem_range'_1] at hw'
    exact absurd (h.lt hi hw) (Nat.not_lt.mpr hw'.1)
  refine ⟨?_, ?_, ?_, ?_⟩
  · intro i hi
    rw [htouch.size]
    rcases List.mem_cons.mp hi with rfl | hi
    · exact hid
    · exact h.stored i hi
  · intro i hi
    by_cases hne : i = id
    · exact hne ▸ hreading
    · rw [htouch.other i hne]
      exact (h.reading i ((List.mem_cons.mp hi).resolve_left hne)).mono htouch.grows
  · intro i hi
    by_cases hne : i = id
    · rw [hne, hwords]
      exact List.nodup_range'
    · rw [htouch.other i hne]
      exact h.nodup i ((List.mem_cons.mp hi).resolve_left hne)
  · intro i hi j hj hij
    by_cases hi' : i = id
    · subst hi'
      have hj' := (List.mem_cons.mp hj).resolve_left (Ne.symm hij)
      exact List.disjoint_comm.mp (hnew j hj' (Ne.symm hij))
    · have hi₁ := (List.mem_cons.mp hi).resolve_left hi'
      by_cases hj' : j = id
      · exact hj' ▸ hnew i hi₁ hi'
      · rw [htouch.other i hi', htouch.other j hj']
        exact h.disjoint i hi₁ j ((List.mem_cons.mp hj).resolve_left hj') hij

/-- The program stays the same but for words, sections and what the blocks are read as. -/
structure Rereads (p p' : Program) : Prop where
  path : p'.path = p.path
  order : p'.order = p.order
  mark : p'.sections.map Sections.toolMark = p.sections.map Sections.toolMark
  size : p'.store.size = p.store.size
  text : ∀ id, (p'.block id).text = (p.block id).text

theorem Rereads.refl (p : Program) : Rereads p p := ⟨rfl, rfl, rfl, rfl, fun _ => rfl⟩

theorem Rereads.trans (h : Rereads p p') (h' : Rereads p' p'') : Rereads p p'' :=
  ⟨h'.path.trans h.path, h'.order.trans h.order, h'.mark.trans h.mark, h'.size.trans h.size,
    fun id => (h'.text id).trans (h.text id)⟩

theorem readBlock_rereads {id : BlockId} {c c' : Option WordId} (hid : id < p.store.size)
    (h : (readBlock id c).Yields p c' p') : Rereads p p' := by
  obtain ⟨htouch, htext, -⟩ := readBlock_yields hid h
  refine ⟨htouch.path, htouch.order, by rw [htouch.sections], htouch.size, fun i => ?_⟩
  by_cases hi : i = id
  · exact hi ▸ htext
  · rw [htouch.other i hi]

theorem readBlocks_yields {c c' : Option WordId} (hl : p.ReadsAll l)
    (hm : ∀ id ∈ m, id < p.store.size)
    (h : (Action.fold (fun c id => readBlock id c) c m).Yields p c' p') :
    Rereads p p' ∧ p'.ReadsAll (m ++ l) := by
  induction m generalizing p l c with
  | nil =>
    obtain ⟨-, rfl⟩ := Action.yields_fold_nil.mp h
    exact ⟨.refl _, hl⟩
  | cons id rest ih =>
    obtain ⟨c₁, p₁, hid, hrest⟩ := Action.yields_fold_cons.mp h
    have hfirst := readBlock_rereads (hm id List.mem_cons_self) hid
    have hmore : ∀ i ∈ rest, i < p₁.store.size := by
      intro i hi
      rw [hfirst.size]
      exact hm i (List.mem_cons_of_mem _ hi)
    obtain ⟨hsame, hreads⟩ := ih (hl.readBlock (hm id List.mem_cons_self) hid) hmore hrest
    refine ⟨hfirst.trans hsame, hreads.subset fun i hi => ?_⟩
    simp only [List.cons_append, List.mem_append, List.mem_cons] at hi ⊢
    rcases hi with hi | hi | hi
    · exact .inr (.inl hi)
    · exact .inl hi
    · exact .inr (.inr hi)

theorem classify_yields {u : Unit} : classify.Yields p u p' ↔
    p' = { p with sections := p.sections.map fun s => p.cutSections s.toolMark } := by
  simp only [classify, Action.yields_bind, Action.yields_get, and_assoc, exists_and_left,
    exists_eq_left]
  cases hs : p.sections with
  | none =>
    simp only [Action.yields_pure, Option.map_none, true_and]
    rw [show { p with sections := none } = p from hs ▸ rfl]
  | some s =>
    simp only [Option.map_some]
    split <;> simp

/-- A program as it stands after it was read. -/
structure Settled (p : Program) : Prop where
  nodup : p.order.Nodup
  reads : p.ReadsAll p.order
  sections : ∀ s, p.sections = some s → s = p.cutSections s.toolMark

theorem settled_classified (hn : p.order.Nodup) (hr : p.ReadsAll p.order) :
    Settled { p with sections := p.sections.map fun s => p.cutSections s.toolMark } := by
  refine ⟨hn, ⟨hr.stored, hr.reading, hr.nodup, hr.disjoint⟩, fun s hs => ?_⟩
  obtain ⟨s', -, rfl⟩ := Option.map_eq_some_iff.mp hs
  rfl

theorem reread_yields_iff {u : Unit} : reread.Yields p u p' ↔
    ∃ c q, (Action.fold (fun c id => readBlock id c) none p.order).Yields p c q ∧
      p' = { q with sections := q.sections.map fun s => q.cutSections s.toolMark } := by
  simp only [reread, Action.yields_bind, Action.yields_get, and_assoc, exists_and_left,
    exists_eq_left, classify_yields]

theorem reread_yields {u : Unit} (hs : ∀ id ∈ p.order, id < p.store.size)
    (hn : p.order.Nodup) (h : reread.Yields p u p') : Rereads p p' ∧ p'.Settled := by
  obtain ⟨c, q, hread, rfl⟩ := reread_yields_iff.mp h
  obtain ⟨hsame, hreads⟩ := readBlocks_yields (readsAll_nil p) hs hread
  rw [List.append_nil, ← hsame.order] at hreads
  refine ⟨hsame.trans ⟨rfl, rfl, ?_, rfl, fun _ => rfl⟩, settled_classified ?_ hreads⟩
  · simp only [Option.map_map]
    rfl
  · rw [hsame.order]
    exact hn

/-- The program with a block in its store that is not read yet. -/
def withBlock (text : Text) (c : Option WordId) (p : Program) : Program :=
  { p with store := p.store.push { text, trailing := c } }

theorem size_withBlock (text : Text) (c : Option WordId) (p : Program) :
    (p.withBlock text c).store.size = p.store.size + 1 := Array.size_push _

theorem block_withBlock {text : Text} {c : Option WordId} {id : BlockId}
    (hid : id < p.store.size) :
    (p.withBlock text c).block id = p.block id := by
  simp only [withBlock, block, Array.getElem?_push_lt hid, Array.getElem?_eq_getElem hid]

theorem block_withBlock_size (text : Text) (c : Option WordId) (p : Program) :
    (p.withBlock text c).block p.store.size = { text, trailing := c } := by
  simp only [withBlock, block, Array.getElem?_push_size, Option.getD_some]

theorem addBlock_yields_iff {text : Text} {c : Option WordId} {id : BlockId} :
    (addBlock text c).Yields p id p' ↔
      id = p.store.size ∧ ∃ c', (readBlock p.store.size c).Yields (p.withBlock text c) c' p' := by
  simp only [addBlock, Action.yields_bind, Action.yields_get, Action.yields_modify,
    Action.yields_pure, and_assoc, exists_and_left, exists_eq_left, exists_const]
  constructor
  · rintro ⟨c', q, hread, rfl, rfl⟩
    exact ⟨rfl, c', hread⟩
  · rintro ⟨rfl, c', hread⟩
    exact ⟨c', p', hread, rfl, rfl⟩

/-- One new block with this text, the others as they were. -/
structure Adds (id : BlockId) (text : Text) (p p' : Program) : Prop where
  id_eq : id = p.store.size
  path : p'.path = p.path
  order : p'.order = p.order
  sections : p'.sections = p.sections
  size : p'.store.size = p.store.size + 1
  text_eq : (p'.block id).text = text
  text : ∀ i < p.store.size, (p'.block i).text = (p.block i).text

theorem addBlock_yields {text : Text} {c : Option WordId} {id : BlockId} (hl : p.ReadsAll l)
    (h : (addBlock text c).Yields p id p') : Adds id text p p' ∧ p'.ReadsAll (id :: l) := by
  obtain ⟨rfl, c', hread⟩ := addBlock_yields_iff.mp h
  have hsize := size_withBlock text c p
  have hid : p.store.size < (p.withBlock text c).store.size := hsize ▸ Nat.lt_succ_self _
  have hold : ∀ i ∈ l, (p.withBlock text c).block i = p.block i :=
    fun i hi => block_withBlock (hl.stored i hi)
  have hl' : (p.withBlock text c).ReadsAll l := by
    refine hl.of_words (by omega) (fun i hi => ?_) fun i hi => by rw [hold i hi]
    rw [hold i hi]
    exact hl.reading i hi
  obtain ⟨htouch, htext, -⟩ := readBlock_yields hid hread
  refine ⟨⟨rfl, htouch.path, htouch.order, htouch.sections, ?_, ?_, fun i hi => ?_⟩,
    hl'.readBlock hid hread⟩
  · rw [htouch.size, hsize]
  · rw [htext, block_withBlock_size]
  · rw [htouch.other i (Nat.ne_of_lt hi), block_withBlock hi]

theorem Adds.notMem {text : Text} {id : BlockId} (h : Adds id text p p')
    (hl : ∀ i ∈ l, i < p.store.size) : id ∉ l :=
  fun hmem => Nat.lt_irrefl _ (h.id_eq ▸ hl id hmem)

theorem readLine_yields {line : Text} {c c' : Option WordId} : (readLine c line).Yields p c' p' ↔
    ∃ id, (addBlock line c).Yields p id p' ∧ c' = (p'.block id).trailing := by
  simp only [readLine, Action.yields_bind, Action.yields_get, Action.yields_pure, and_assoc,
    exists_and_left, exists_eq_left]
  constructor
  · rintro ⟨id, q, hadd, rfl, rfl⟩
    exact ⟨id, hadd, rfl⟩
  · rintro ⟨id, hadd, rfl⟩
    exact ⟨id, p', hadd, rfl, rfl⟩

theorem readLineBlocks_yields {ls : List Text} {c c' : Option WordId}
    (hl : p.ReadsAll (List.range p.store.size))
    (h : (Action.fold readLine c ls).Yields p c' p') :
    p'.ReadsAll (List.range p'.store.size) ∧ p'.path = p.path ∧ p'.sections = p.sections ∧
      p'.store.size = p.store.size + ls.length := by
  induction ls generalizing p c with
  | nil =>
    obtain ⟨-, rfl⟩ := Action.yields_fold_nil.mp h
    exact ⟨hl, rfl, rfl, rfl⟩
  | cons line rest ih =>
    obtain ⟨c₁, p₁, hline, hrest⟩ := Action.yields_fold_cons.mp h
    obtain ⟨id, hadd, -⟩ := readLine_yields.mp hline
    obtain ⟨hadds, hreads⟩ := addBlock_yields hl hadd
    have hl₁ : p₁.ReadsAll (List.range p₁.store.size) := by
      refine hreads.subset fun i hi => ?_
      rw [List.mem_range, hadds.size] at hi
      rw [List.mem_cons, List.mem_range, hadds.id_eq]
      exact (Nat.lt_succ_iff_lt_or_eq.mp hi).symm
    obtain ⟨hreads', hpath, hsections, hsize⟩ := ih hl₁ hrest
    refine ⟨hreads', hpath.trans hadds.path, hsections.trans hadds.sections, ?_⟩
    rw [hsize, hadds.size, List.length_cons]
    omega

/-- Once all lines are read, their blocks stand in order and are cut into sections. -/
theorem readLines_yields_iff {ls : List Text} {u : Unit} : (readLines ls).Yields p u p' ↔
    ∃ c q r, (Action.fold readLine none ls).Yields p c q ∧
      r = { q with order := List.range q.store.size } ∧
      p' = { r with sections := r.sections.map fun s => r.cutSections s.toolMark } := by
  simp only [readLines, Action.yields_bind, Action.yields_modify, exists_eq_left, exists_const,
    exists_and_left, classify_yields]

/-- A program that was read from its lines is settled, and keeps its name and mark. -/
theorem readLines_yields {ls : List Text} {path mark : Option Text} {u : Unit}
    (h : (readLines ls).Yields (start path mark) u p) :
    p.Settled ∧ p.path = path ∧ p.sections.map Sections.toolMark = mark ∧
      p.order = List.range ls.length := by
  obtain ⟨c, q, r, hread, hr, rfl⟩ := readLines_yields_iff.mp h
  obtain ⟨hreads, hpath, hsections, hsize⟩ := readLineBlocks_yields (readsAll_nil _) hread
  subst hr
  refine ⟨settled_classified List.nodup_range
    ⟨hreads.stored, hreads.reading, hreads.nodup, hreads.disjoint⟩, hpath, ?_, ?_⟩
  · simp only [hsections, start, Option.map_map]
    exact Option.map_id'
  · simp only [hsize, start]
    simp

end PartProgram.Program
