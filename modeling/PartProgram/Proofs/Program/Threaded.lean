import PartProgram.Proofs.Program.Readable
import PartProgram.Proofs.Word.Tied

/-! # One command handed through a program

Reading a program block by block makes its words in order, each tied to those before
it, and leaves with every block the command in force after it. So the words of a
program that was read govern each other as they stand in it, across blocks with and
without words.
-/
namespace PartProgram

open WordGraph

theorem Word.ofText_new {s : Text} {c : Option WordId} {verbatim : Bool} {w : Word}
    (h : ofText s c verbatim = .ok w) :
    w.governing = c ∧ w.dependents = #[] ∧ w.description = .stale := by
  obtain ⟨_, _, _, -, -, rfl⟩ := ofText_eq_ok h
  exact ⟨rfl, rfl, rfl⟩

namespace Program

variable {p p' : Program} {l m : List BlockId} {id : BlockId} {c c' : Option WordId}
  {ws : List WordId}

theorem commandAfter_eq (p : Program) (w : WordId) (c : Option WordId) :
    p.commandAfter w c = if p.graph.isCommandAt w then some w else c := by
  rw [commandAfter, isCommandAt]
  cases p.graph[w]? <;> rfl

theorem readToken_made {x : Text × Bool} (hm : p.graph.Made ws) (hc : c = p.graph.inForce ws)
    (h : (readToken id c x).Yields p c' p') :
    p'.graph.Made (ws ++ [p.graph.size]) ∧ c' = p'.graph.inForce (ws ++ [p.graph.size]) := by
  simp only [readToken, readWord, Action.yields_bind, yields_addWord, Action.yields_get,
    Action.yields_modify, Action.yields_pure] at h
  obtain ⟨_, _, ⟨_, _, ⟨w, hw, rfl, rfl⟩, _, _, ⟨rfl, rfl⟩, rfl, rfl⟩, _, _, ⟨rfl, rfl⟩, _, _, rfl,
    rfl, rfl⟩ := h
  obtain ⟨hgoverning, hdependents, hstale⟩ := Word.ofText_new hw
  refine ⟨hm.register (hgoverning.trans hc) hdependents hstale, ?_⟩
  rw [commandAfter_eq, hc]
  change _ = (p.graph.register w).inForce _
  rw [inForce_concat, inForce_congr fun i hi => isCommandAt_register_of_lt (hm.tied.lt hi)]

theorem readTokens_made {xs : List (Text × Bool)} (hid : id < p.store.size) (hm : p.graph.Made ws)
    (hc : c = p.graph.inForce ws) (h : (xs.foldlM (readToken id) c).Yields p c' p') :
    p'.graph.Made (ws ++ List.range' p.graph.size xs.length) ∧
      c' = p'.graph.inForce (ws ++ List.range' p.graph.size xs.length) := by
  induction xs generalizing c p ws with
  | nil =>
    rw [List.foldlM_nil, Action.yields_pure] at h
    obtain ⟨rfl, rfl⟩ := h
    simpa using ⟨hm, hc⟩
  | cons x rest ih =>
    rw [List.foldlM_cons, Action.yields_bind] at h
    obtain ⟨c₁, p₁, hx, hrest⟩ := h
    obtain ⟨hm₁, hc₁⟩ := readToken_made hm hc hx
    obtain ⟨htouch, hsize, -⟩ := readToken_yields hid hx
    obtain ⟨hmade, hforce⟩ := ih (htouch.size ▸ hid) hm₁ hc₁ hrest
    rw [hsize, List.append_assoc, List.singleton_append, ← List.range'_succ] at hmade hforce
    exact ⟨hmade, hforce⟩

theorem readBlock_made (hid : id < p.store.size) (hm : p.graph.Made ws)
    (hc : c = p.graph.inForce ws) (h : (readBlock id c).Yields p c' p') :
    p'.graph.Made (ws ++ (p'.block id).words) ∧
      c' = p'.graph.inForce (ws ++ (p'.block id).words) ∧ (p'.block id).trailing = c' ∧
      (p'.block id).description = .stale := by
  simp only [readBlock_eq, Action.yields_bind, Action.yields_get, Action.yields_modify,
    Action.yields_pure, Action.yields_forIn_report, and_assoc, exists_and_left, exists_eq_left,
    exists_const] at h
  obtain ⟨c₁, p₂, htokens, rfl, rfl⟩ := h
  have hfirst := touches_modifyBlock p id (emptied (Reading.ofText (p.block id).text))
  have hid₁ := hfirst.size.symm ▸ hid
  obtain ⟨htouch, -, hblock⟩ := readTokens_yields hid₁ htokens
  obtain ⟨hmade, hforce⟩ := readTokens_made hid₁ hm hc htokens
  have hid₂ : id < p₂.store.size := by rw [htouch.size]; exact hid₁
  rw [block_modifyBlock hid] at hblock
  rw [block_modifyBlock hid₂, hblock]
  dsimp only [emptied, List.nil_append]
  exact ⟨hmade, hforce, rfl, rfl⟩

def wordsOn (p : Program) (l : List BlockId) : List WordId := l.flatMap fun id => (p.block id).words

def words (p : Program) : List WordId := p.wordsOn p.order

theorem wordsOn_append (p : Program) (l m : List BlockId) :
    p.wordsOn (l ++ m) = p.wordsOn l ++ p.wordsOn m := List.flatMap_append

@[simp] theorem wordsOn_singleton (p : Program) (id : BlockId) :
    p.wordsOn [id] = (p.block id).words := by simp [wordsOn]

theorem wordsOn_congr (h : ∀ id ∈ l, (p'.block id).words = (p.block id).words) :
    p'.wordsOn l = p.wordsOn l := List.flatMap_congr h

theorem wordsOn_subset (h : l ⊆ m) : p.wordsOn l ⊆ p.wordsOn m := by
  intro w hw
  obtain ⟨i, hi, hw⟩ := List.mem_flatMap.mp hw
  exact List.mem_flatMap.mpr ⟨i, h hi, hw⟩

/-- Blocks that were read, and whose words are tied as they stand on them. -/
structure Threaded (p : Program) (l : List BlockId) : Prop extends p.ReadsAll l where
  tied : p.graph.Tied (p.wordsOn l)
  distinct : (p.wordsOn l).Nodup
  trailing : ∀ pre id post, l = pre ++ id :: post →
    (p.block id).trailing = p.graph.inForce (p.wordsOn (pre ++ [id]))

/-- Blocks that were just read, before anything on them was described. -/
structure Fresh (p : Program) (l : List BlockId) : Prop extends p.Threaded l where
  words_stale : ∀ w ∈ p.wordsOn l, ∀ v, p.graph[w]? = some v → v.description = .stale
  blocks_stale : ∀ id ∈ l, (p.block id).description = .stale

theorem Fresh.made (h : p.Fresh l) : p.graph.Made (p.wordsOn l) :=
  ⟨h.tied, h.distinct, h.words_stale⟩

theorem fresh_nil (p : Program) : p.Fresh [] :=
  ⟨⟨readsAll_nil p, tied_nil _, .nil, by simp⟩, by simp [wordsOn], by simp⟩

/-- Words of the blocks are commands or not, whatever words are made later. -/
theorem ReadsAll.isCommandAt (h : p.ReadsAll l) {g : WordGraph} (hg : Grows p.graph g) {w : WordId}
    (hw : w ∈ p.wordsOn l) : g.isCommandAt w = p.graph.isCommandAt w := by
  obtain ⟨id, hid, hw⟩ := List.mem_flatMap.mp hw
  obtain ⟨x, -, hx⟩ := shows_of_mem (h.reading id hid).words w hw
  exact hg.isCommandAt hx

theorem Fresh.readBlock (hl : p.Fresh l) (hid : id < p.store.size) (hnot : id ∉ l)
    (hc : c = p.graph.inForce (p.wordsOn l)) (h : (Program.readBlock id c).Yields p c' p') :
    p'.Fresh (l ++ [id]) ∧ c' = p'.graph.inForce (p'.wordsOn (l ++ [id])) := by
  obtain ⟨hmade, hforce, htrailing, hstale⟩ := readBlock_made hid hl.made hc h
  obtain ⟨htouch, -⟩ := readBlock_yields hid h
  have hold : ∀ i ∈ l, p'.block i = p.block i :=
    fun i hi => htouch.other i fun heq => hnot (heq ▸ hi)
  have hwords : ∀ m ⊆ l, p'.wordsOn m = p.wordsOn m :=
    fun m hm => wordsOn_congr fun i hi => by rw [hold i (hm hi)]
  have hall : p'.wordsOn (l ++ [id]) = p.wordsOn l ++ (p'.block id).words := by
    rw [wordsOn_append, hwords l (List.Subset.refl l), wordsOn_singleton]
  have hreads : p'.ReadsAll (l ++ [id]) :=
    (hl.toReadsAll.readBlock hid h).subset fun i hi => by simpa [or_comm] using hi
  refine ⟨⟨⟨hreads, hall ▸ hmade.tied, hall ▸ hmade.nodup, ?_⟩, hall ▸ hmade.stale, ?_⟩, ?_⟩
  · intro pre i post hsplit
    -- Behind an old block the command in force is the one it was: no old word changed its letter.
    rcases List.eq_nil_or_concat post with rfl | ⟨post, j, rfl⟩
    · obtain ⟨rfl, hi⟩ := List.append_inj' hsplit rfl
      obtain rfl := List.singleton_inj.mp hi
      rw [htrailing, hforce, hall]
    · rw [List.concat_eq_append, ← List.cons_append, ← List.append_assoc] at hsplit
      obtain ⟨rfl, -⟩ := List.append_inj' hsplit rfl
      have hsub : pre ++ [i] ⊆ pre ++ i :: post := by
        intro j hj
        simp only [List.mem_append, List.mem_cons, List.not_mem_nil, or_false] at hj ⊢
        exact hj.imp_right .inl
      rw [hold i (by simp), hl.trailing pre i post rfl, hwords _ hsub]
      refine (inForce_congr fun w hw => hl.isCommandAt htouch.grows ?_).symm
      exact wordsOn_subset hsub hw
  · intro i hi
    rcases List.mem_append.mp hi with hi | hi
    · rw [hold i hi]
      exact hl.blocks_stale i hi
    · exact List.mem_singleton.mp hi ▸ hstale
  · rw [hforce, hall]

theorem wordsOn_congr_of_block (hblock : ∀ id ∈ l, p'.block id = p.block id) (hm : m ⊆ l) :
    p'.wordsOn m = p.wordsOn m := wordsOn_congr fun id hid => by rw [hblock id (hm hid)]

theorem ReadsAll.congr (hl : p.ReadsAll l) (hgraph : p'.graph = p.graph)
    (hsize : p.store.size ≤ p'.store.size) (hblock : ∀ id ∈ l, p'.block id = p.block id) :
    p'.ReadsAll l := by
  refine hl.of_words hsize (fun i hi => ?_) fun i hi => by rw [hblock i hi]
  rw [hblock i hi, hgraph]
  exact hl.reading i hi

theorem Threaded.congr (hl : p.Threaded l) (hgraph : p'.graph = p.graph)
    (hsize : p.store.size ≤ p'.store.size) (hblock : ∀ id ∈ l, p'.block id = p.block id) :
    p'.Threaded l := by
  have hwords := wordsOn_congr_of_block hblock (List.Subset.refl l)
  refine ⟨hl.toReadsAll.congr hgraph hsize hblock, ?_, ?_, fun pre i post hsplit => ?_⟩
  · rw [hwords, hgraph]
    exact hl.tied
  · rw [hwords]
    exact hl.distinct
  · have hsub : pre ++ [i] ⊆ l := by
      rw [hsplit, show pre ++ i :: post = pre ++ [i] ++ post by simp]
      exact List.subset_append_left _ _
    rw [hblock i (hsub (by simp)), wordsOn_congr_of_block hblock hsub, hgraph]
    exact hl.trailing pre i post hsplit

/-- What was read does not depend on other blocks, nor on sections. -/
theorem Fresh.congr (hl : p.Fresh l) (hgraph : p'.graph = p.graph)
    (hsize : p.store.size ≤ p'.store.size) (hblock : ∀ id ∈ l, p'.block id = p.block id) :
    p'.Fresh l := by
  refine ⟨hl.toThreaded.congr hgraph hsize hblock, ?_, fun i hi => ?_⟩
  · rw [wordsOn_congr_of_block hblock (List.Subset.refl l), hgraph]
    exact hl.words_stale
  · rw [hblock i hi]
    exact hl.blocks_stale i hi

theorem Fresh.readBlocks (hl : p.Fresh l) (hm : ∀ id ∈ m, id < p.store.size)
    (hn : (l ++ m).Nodup) (hc : c = p.graph.inForce (p.wordsOn l))
    (h : (Action.fold (fun c id => Program.readBlock id c) c m).Yields p c' p') :
    p'.Fresh (l ++ m) := by
  induction m generalizing p l c with
  | nil =>
    obtain ⟨-, rfl⟩ := Action.yields_fold_nil.mp h
    simpa using hl
  | cons id rest ih =>
    obtain ⟨c₁, p₁, hid, hrest⟩ := Action.yields_fold_cons.mp h
    have hnot : id ∉ l := fun hmem =>
      (List.nodup_append.mp hn).2.2 id hmem id List.mem_cons_self rfl
    obtain ⟨hfresh, hforce⟩ := hl.readBlock (hm id List.mem_cons_self) hnot hc hid
    have hsize := (readBlock_rereads (hm id List.mem_cons_self) hid).size
    have hall := ih hfresh (fun i hi => hsize.symm ▸ hm i (List.mem_cons_of_mem _ hi))
      (by simpa using hn) hforce hrest
    simpa using hall

theorem reread_fresh {u : Unit} (hs : ∀ id ∈ p.order, id < p.store.size) (hn : p.order.Nodup)
    (h : reread.Yields p u p') : p'.Fresh p'.order := by
  obtain ⟨c, q, hread, rfl⟩ := reread_yields_iff.mp h
  obtain ⟨hsame, -⟩ := readBlocks_yields (readsAll_nil p) hs hread
  rw [hsame.order]
  exact ((fresh_nil p).readBlocks hs hn rfl hread).congr rfl (Nat.le_refl _) fun _ _ => rfl

theorem Fresh.addBlock {text : Text} (hl : p.Fresh l) (hc : c = p.graph.inForce (p.wordsOn l))
    (h : (Program.addBlock text c).Yields p id p') :
    p'.Fresh (l ++ [id]) ∧ (p'.block id).trailing = p'.graph.inForce (p'.wordsOn (l ++ [id])) := by
  obtain ⟨rfl, c', hread⟩ := addBlock_yields_iff.mp h
  have hsize := size_withBlock text c p
  have hold : ∀ i ∈ l, (p.withBlock text c).block i = p.block i :=
    fun i hi => block_withBlock (hl.stored i hi)
  have hid : p.store.size < (p.withBlock text c).store.size := by omega
  have hnot : p.store.size ∉ l := fun hmem => Nat.lt_irrefl _ (hl.stored _ hmem)
  have hq : (p.withBlock text c).Fresh l := hl.congr rfl (by omega) hold
  have hforce : c = (p.withBlock text c).graph.inForce ((p.withBlock text c).wordsOn l) := by
    rw [wordsOn_congr_of_block hold (List.Subset.refl l)]
    exact hc
  have hpost := (readBlock_made hid hq.made hforce hread).2.2.1
  obtain ⟨hfresh, hlast⟩ := hq.readBlock hid hnot hforce hread
  exact ⟨hfresh, hpost.trans hlast⟩

theorem readLineBlocks_fresh {ls : List Text} (hl : p.Fresh (List.range p.store.size))
    (hc : c = p.graph.inForce (p.wordsOn (List.range p.store.size)))
    (h : (Action.fold readLine c ls).Yields p c' p') :
    p'.Fresh (List.range p'.store.size) ∧
      (List.range p'.store.size).map (fun id => (p'.block id).text) =
        (List.range p.store.size).map (fun id => (p.block id).text) ++ ls := by
  induction ls generalizing p c with
  | nil =>
    obtain ⟨-, rfl⟩ := Action.yields_fold_nil.mp h
    exact ⟨hl, by simp⟩
  | cons line rest ih =>
    obtain ⟨c₁, p₁, hline, hrest⟩ := Action.yields_fold_cons.mp h
    obtain ⟨id, hadd, rfl⟩ := readLine_yields.mp hline
    obtain ⟨hadds, -⟩ := addBlock_yields hl.toReadsAll hadd
    obtain ⟨hfresh, hlast⟩ := hl.addBlock hc hadd
    have hrange : List.range p.store.size ++ [id] = List.range p₁.store.size := by
      rw [hadds.size, hadds.id_eq, List.range_succ]
    rw [hrange] at hfresh hlast
    obtain ⟨hall, htexts⟩ := ih hfresh hlast hrest
    refine ⟨hall, htexts.trans ?_⟩
    have hold : ∀ i ∈ List.range p.store.size, (p₁.block i).text = (p.block i).text :=
      fun i hi => hadds.text i (List.mem_range.mp hi)
    rw [← hrange, List.map_append, List.map_congr_left hold, List.append_assoc, List.map_singleton,
      hadds.text_eq, List.singleton_append]

theorem readLines_fresh {ls : List Text} {path mark : Option Text} {u : Unit}
    (h : (readLines ls).Yields (start path mark) u p) : p.Fresh p.order ∧ p.lines = ls := by
  obtain ⟨c, q, r, hread, rfl, rfl⟩ := readLines_yields_iff.mp h
  obtain ⟨hall, htexts⟩ := readLineBlocks_fresh (p := start path mark) (fresh_nil _) rfl hread
  refine ⟨hall.congr rfl (Nat.le_refl _) fun _ _ => rfl, ?_⟩
  rw [lines, blocks, List.map_map]
  exact htexts

end Program

end PartProgram
