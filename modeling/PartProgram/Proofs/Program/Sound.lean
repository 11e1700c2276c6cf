import PartProgram.Proofs.Program.Annotated
import PartProgram.Proofs.Program.Halfway
import PartProgram.Proofs.Program.Remembered

/-! # Programs at any time

Between two steps of work, refused ones among them, a program has its blocks in the
store, blank blocks are told apart from others by what they hold, and a description that
is kept was made from phrases. Comments put behind blocks make none of them blank or
not blank.
-/
namespace PartProgram.Program

open WordGraph

/-- What holds of a fragment whatever was done with it. No phrase has a closing parenthesis, so no
description has one unless it is in the text between the phrases. -/
structure Sound (delimiter : Text) (p : Program) : Prop where
  cut : p.sections.isSome = true
  stored : ∀ id ∈ p.order, id < p.store.size
  whole : ∀ id < p.store.size, (p.block id).IsWhole p.graph
  phrase : ∀ (w : WordId) (v : Word) (d : Text), p.graph[w]? = some v → v.description = .fresh d →
    ')' ∉ d
  blank : ∀ id d, (p.block id).description = .fresh d →
    Text.isBlankText (p.block id).text = true → d = []
  closing : ')' ∉ delimiter → ∀ id d, (p.block id).description = .fresh d → ')' ∉ d

/-- No block was taken for another, and none became blank or ceased to be. -/
structure Leaves (p p' : Program) : Prop where
  sections : p'.sections = p.sections
  size : p.store.size ≤ p'.store.size
  blank : ∀ id < p.store.size,
    Text.isBlankText (p'.block id).text = Text.isBlankText (p.block id).text

variable {p p' p'' : Program} {delimiter : Text} {style : CommentStyle} {column : Nat} {id : BlockId}
  {l : List BlockId}

theorem Leaves.refl (p : Program) : Leaves p p := ⟨rfl, Nat.le_refl _, fun _ _ => rfl⟩

theorem Leaves.trans (h : Leaves p p') (h' : Leaves p' p'') : Leaves p p'' :=
  ⟨h'.sections.trans h.sections, Nat.le_trans h.size h'.size, fun id hid =>
    (h'.blank id (Nat.lt_of_lt_of_le hid h.size)).trans (h.blank id hid)⟩

theorem Rests.leaves (h : Rests p p') : Leaves p p' :=
  ⟨h.sections, Nat.le_of_eq h.size.symm, fun id _ => by rw [h.text id]⟩

theorem Sound.rests (hp : p.Sound delimiter) (h : Rests p p') : p'.Sound delimiter := by
  refine ⟨h.sections ▸ hp.cut, fun id hid => ?_, fun id hid => ?_, fun w v d hv hd => ?_,
    fun id d hd => ?_, fun hδ id d hd => hp.closing hδ id d (h.description id d hd)⟩
  · rw [h.size]
    exact hp.stored id (h.order ▸ hid)
  · exact h.whole id (hp.whole id (h.size ▸ hid))
  · obtain ⟨u, hu, hd⟩ := h.phrase w v d hv hd
    exact hp.phrase w u d hu hd
  · rw [h.text id]
    exact hp.blank id d (h.description id d hd)

theorem Sound.reorder (hp : p.Sound delimiter) {order : List BlockId}
    (hs : ∀ id ∈ order, id < p.store.size) : ({ p with order } : Program).Sound delimiter :=
  ⟨hp.cut, hs, hp.whole, hp.phrase, hp.blank, hp.closing⟩

theorem Sound.classify (hp : p.Sound delimiter) :
    ({ p with sections := p.sections.map fun s => p.cutSections s.toolMark } : Program).Sound
      delimiter :=
  ⟨by rw [Option.isSome_map]; exact hp.cut, hp.stored, hp.whole, hp.phrase, hp.blank, hp.closing⟩

theorem Sound.withBlock {text : Text} {c : Option WordId} (hp : p.Sound delimiter)
    (h : Rests (p.withBlock text c) p') (hnew : (p'.block p.store.size).IsWhole p'.graph) :
    p'.Sound delimiter ∧ Leaves p p' ∧ p'.order = p.order := by
  have hsize : p'.store.size = p.store.size + 1 := h.size.trans (size_withBlock text c p)
  -- What is kept is kept of a block that was there before: the new one is stale.
  have hold : ∀ id d, (p'.block id).description = .fresh d →
      (p.block id).description = .fresh d ∧ (p'.block id).text = (p.block id).text := by
    intro id d hd
    have hd' := h.description id d hd
    rcases Nat.lt_trichotomy id p.store.size with hid | rfl | hid
    · rw [block_withBlock hid] at hd'
      exact ⟨hd', by rw [h.text, block_withBlock hid]⟩
    · rw [block_withBlock_size] at hd'
      cases hd'
    · rw [block, Array.getElem?_eq_none (by rw [size_withBlock]; omega)] at hd'
      cases hd'
  refine ⟨⟨h.sections ▸ hp.cut, fun id hid => ?_, fun id hid => ?_, fun w v d hv hd => ?_,
    fun id d hd => ?_, fun hδ id d hd => hp.closing hδ id d (hold id d hd).1⟩, ?_, h.order⟩
  · rw [hsize]
    exact Nat.lt_succ_of_lt (hp.stored id (h.order ▸ hid))
  · by_cases hlt : id < p.store.size
    · refine h.whole id ?_
      rw [block_withBlock hlt]
      exact hp.whole id hlt
    · obtain rfl : id = p.store.size := by omega
      exact hnew
  · obtain ⟨u, hu, hd⟩ := h.phrase w v d hv hd
    exact hp.phrase w u d hu hd
  · rw [(hold id d hd).2]
    exact hp.blank id d (hold id d hd).1
  · refine ⟨h.sections, by omega, fun id hid => ?_⟩
    rw [h.text, block_withBlock hid]

theorem Sound.addBlock (hp : p.Sound delimiter) (text : Text) (c : Option WordId) :
    ((addBlock text c).run p).state.Sound delimiter ∧
      Leaves p ((addBlock text c).run p).state ∧
      ((addBlock text c).run p).state.order = p.order := by
  obtain ⟨h, hnew⟩ := addBlock_rests text c p
  exact hp.withBlock h hnew

theorem Sound.not_mem_toldWord (hp : p.Sound delimiter) (w : WordId) : ')' ∉ p.toldWord w := by
  rw [toldWord_eq]
  cases hv : p.graph[w]? with
  | none => simp
  | some v =>
    rw [Option.map_some, Option.getD_some]
    cases hd : v.description with
    | fresh d => exact hp.phrase w v d hv hd
    | stale =>
      rw [Cached.valueOr, phraseOf, hv]
      exact (p.graph.isPhrase_phrase v).closing

theorem not_mem_intercalate {c : Char} {ts : List Text} (hδ : c ∉ delimiter)
    (h : ∀ t ∈ ts, c ∉ t) : c ∉ delimiter.intercalate ts := by
  induction ts with
  | nil => simp
  | cons t rest ih =>
    obtain ⟨ht, hrest⟩ := List.forall_mem_cons.mp h
    cases rest with
    | nil => simpa using ht
    | cons u rest =>
      rw [List.intercalate_cons_cons, List.mem_append, List.mem_append, not_or, not_or]
      exact ⟨⟨ht, hδ⟩, ih hrest⟩

theorem Sound.blank_toldBlock (hp : p.Sound delimiter) (hid : id < p.store.size)
    (h : Text.isBlankText (p.block id).text = true) : p.toldBlock delimiter id = [] := by
  rw [toldBlock_eq]
  cases hd : (p.block id).description with
  | fresh d => exact hp.blank id d hd h
  | stale =>
    have hwords : (p.block id).words = [] := by
      refine List.eq_nil_iff_forall_not_mem.mpr fun w hw => ?_
      have hsolid := ((hp.whole id hid).solid w hw).2
      rw [h] at hsolid
      cases hsolid
    rw [Cached.valueOr, hwords]
    rfl

theorem Sound.not_mem_toldBlock (hp : p.Sound delimiter) (hδ : ')' ∉ delimiter) (id : BlockId) :
    ')' ∉ p.toldBlock delimiter id := by
  rw [toldBlock_eq]
  cases hd : (p.block id).description with
  | fresh d => exact hp.closing hδ id d hd
  | stale =>
    refine not_mem_intercalate hδ fun t ht => ?_
    obtain ⟨w, -, rfl⟩ := List.mem_map.mp (List.mem_of_mem_filter ht)
    exact hp.not_mem_toldWord w

theorem isWhole_of_forgotten {g : WordGraph} {b b' : Block} (h : b.IsWhole g)
    (hb : b'.forgotten = b.forgotten) : b'.IsWhole g := by
  have htext : b'.text = b.text := (congrArg Block.text hb :)
  have hinstruction : b'.instruction = b.instruction := (congrArg Block.instruction hb :)
  have hcomments : b'.comments = b.comments := (congrArg Block.comments hb :)
  have hwords : b'.words = b.words := (congrArg Block.words hb :)
  exact ⟨by rw [htext, hinstruction, hcomments, h.split], by rw [hwords, htext]; exact h.solid⟩

theorem description_look (hid : id < p.store.size) {i : BlockId} {d : Text}
    (hd : ((p.look delimiter (.block id)).block i).description = .fresh d) :
    (p.block i).description = .fresh d ∨ i = id ∧ d = p.toldBlock delimiter id := by
  rw [look_block] at hd
  by_cases hi : i = id
  · subst hi
    rw [keepDescription, block_modifyBlock (by split <;> exact hid)] at hd
    exact .inr ⟨rfl, (Cached.fresh.inj hd).symm⟩
  · rw [keepDescription, block_modifyBlock_of_ne hi] at hd
    refine .inl ?_
    split at hd <;> exact hd

theorem Sound.phrase_look (hp : p.Sound delimiter) {w : WordId} {v : Word} {d : Text}
    (hv : (p.look delimiter (.block id)).graph[w]? = some v) (hd : v.description = .fresh d) :
    ')' ∉ d := by
  rw [look_block] at hv
  split at hv
  · change (p.keepWords (p.block id).words).graph[w]? = some v at hv
    rw [getElem?_keepWords, Option.map_eq_some_iff] at hv
    obtain ⟨u, hu, rfl⟩ := hv
    split at hd
    · exact Cached.fresh.inj hd ▸ hp.not_mem_toldWord w
    · exact hp.phrase w u d hu hd
  · exact hp.phrase w v d hv hd

theorem Sound.look (hp : p.Sound delimiter) (hid : id < p.store.size) :
    (p.look delimiter (.block id)).Sound delimiter := by
  have h : Retells delimiter [] p _ := retells_look hid
  refine ⟨h.sections ▸ hp.cut, fun i hi => ?_, fun i hi => ?_, fun _ _ _ => hp.phrase_look,
    fun i d hd hblank => ?_, fun hδ i d hd => ?_⟩
  · exact h.size ▸ hp.stored i (h.order ▸ hi)
  · exact isWhole_of_forgotten ((hp.whole i (h.size ▸ hi)).mono h.grows) (h.block i List.not_mem_nil)
  · rw [h.text List.not_mem_nil] at hblank
    rcases description_look hid hd with hd | ⟨rfl, rfl⟩
    · exact hp.blank i d hd hblank
    · exact hp.blank_toldBlock hid hblank
  · rcases description_look hid hd with hd | ⟨rfl, rfl⟩
    · exact hp.closing hδ i d hd
    · exact hp.not_mem_toldBlock hδ i

/-- Comments were put behind blocks. A block that was read is read anew with its comment, unless a
description ended that comment early. -/
structure Marks (delimiter : Text) (p p' : Program) : Prop where
  sound : p'.Sound delimiter
  leaves : Leaves p p'
  order : p'.order = p.order
  reads : ')' ∉ delimiter → ∀ l, p.ReadsAll l → p'.ReadsAll l

theorem Marks.trans (h : Marks delimiter p p') (h' : Marks delimiter p' p'') :
    Marks delimiter p p'' :=
  ⟨h'.sound, h.leaves.trans h'.leaves, h'.order.trans h.order,
    fun hδ l hl => h'.reads hδ l (h.reads hδ l hl)⟩

theorem Retells.reads (h : Retells delimiter [] p p') (hl : p.ReadsAll l) : p'.ReadsAll l := by
  have hblock : ∀ i, (p'.block i).forgotten = (p.block i).forgotten :=
    fun i => h.block i List.not_mem_nil
  have hwords : ∀ i, (p'.block i).words = (p.block i).words := fun i =>
    (congrArg Block.words (hblock i) :)
  refine hl.of_words (Nat.le_of_eq h.size.symm) (fun i hi => ?_) fun i _ => hwords i
  obtain ⟨hinstruction, hcomments, hshows, hnumber⟩ := (hl.reading i hi).mono h.grows
  have htext : (p'.block i).text = (p.block i).text := h.text List.not_mem_nil
  have hnumber' : (p'.block i).number = (p.block i).number :=
    (congrArg Block.number (hblock i) :)
  refine ⟨?_, ?_, ?_, ?_⟩
  · rw [htext, ← hinstruction]
    exact (congrArg Block.instruction (hblock i) :)
  · rw [htext, ← hcomments]
    exact (congrArg Block.comments (hblock i) :)
  · rw [hwords, htext]
    exact hshows
  · rw [hnumber', hwords, hnumber]

theorem Sound.marks_look (hp : p.Sound delimiter) (hid : id < p.store.size) :
    Marks delimiter p (p.look delimiter (.block id)) := by
  have h : Retells delimiter [] p _ := retells_look hid
  have hsound := hp.look hid
  generalize p.look delimiter (.block id) = q at h hsound
  refine ⟨hsound, ⟨h.sections, Nat.le_of_eq h.size.symm, fun i _ => ?_⟩, h.order,
    fun _ l hl => h.reads hl⟩
  rw [h.text List.not_mem_nil]

theorem isBlankText_remarked (g : WordGraph) (b : Block) (style : CommentStyle) (column : Nat)
    (d : Text) : Text.isBlankText (b.remarked g style column d) = false := by
  rw [Block.remarked, Text.isBlankText_append, Text.isBlankText_cons]
  cases style <;> simp [CommentStyle.format, Comment.isBlank_parenthesis, Comment.isBlank_semicolon]

theorem isWhole_append {g : WordGraph} {b : Block} (h : b.IsWhole g) (style : CommentStyle)
    (column : Nat) (d : Text) : (b.append g style column d).IsWhole g :=
  ⟨rfl, fun w hw => ⟨(h.solid w hw).1, isBlankText_remarked g b style column d⟩⟩

theorem kept_append (g : WordGraph) (b : Block) (style : CommentStyle) (column : Nat) (d : Text) :
    (b.append g style column d).description = b.description ∧
      (b.append g style column d).words = b.words := ⟨rfl, rfl⟩

theorem Sound.marks_append (hp : p.Sound delimiter) {d : Text}
    (hblank : Text.isBlankText (p.block id).text = false) (hd : ')' ∉ delimiter → ')' ∉ d) :
    Marks delimiter p (p.modifyBlock id fun b => b.append p.graph style column d) := by
  set f : Block → Block := fun b => b.append p.graph style column d
  have hsize := (touches_modifyBlock p id f).size
  have hblanks := forall_block_modifyBlock p id f
    (fun b b' => Text.isBlankText b'.text = Text.isBlankText b.text) (fun _ => rfl)
    ((isBlankText_remarked p.graph (p.block id) style column d).trans hblank.symm)
  -- Only the text and the comments of the block are others.
  have hkept := forall_block_modifyBlock p id f
    (fun b b' => b'.description = b.description ∧ b'.words = b.words)
    (fun _ => ⟨rfl, rfl⟩) (kept_append p.graph (p.block id) style column d)
  have hwhole := forall_block_modifyBlock p id f
    (fun b b' => b.IsWhole p.graph → b'.IsWhole p.graph) (fun _ hw => hw)
    fun hw => isWhole_append hw style column d
  refine ⟨⟨hp.cut, fun i hi => hsize ▸ hp.stored i hi,
      fun i hi => hwhole i (hp.whole i (hsize ▸ hi)), hp.phrase,
      fun i e he hb => hp.blank i e ((hkept i).1 ▸ he) (hblanks i ▸ hb),
      fun hδ i e he => hp.closing hδ i e ((hkept i).1 ▸ he)⟩,
    ⟨rfl, Nat.le_of_eq hsize.symm, fun i _ => hblanks i⟩, rfl, fun hδ l hl => ?_⟩
  have hreads := forall_block_modifyBlock p id f
    (fun b b' => b.IsReading p.graph → b'.IsReading p.graph) (fun _ hr => hr)
    fun hr => (hr.append style column (hd hδ)).1
  exact hl.of_words (Nat.le_of_eq hsize.symm) (fun i hi => hreads i (hl.reading i hi))
    fun i _ => (hkept i).2

theorem annotateBlock_marks (style : CommentStyle) (column : Nat) (hp : p.Sound delimiter)
    (hid : id < p.store.size) : ∃ b p', (annotateBlock delimiter style column id).Yields p b p' ∧
      Marks delimiter p p' := by
  have hlook := hp.marks_look hid
  have hrun := annotateBlock_run delimiter style column id p
  split at hrun
  · exact ⟨false, _, ⟨by rw [hrun], by rw [hrun]⟩, hlook⟩
  · rename_i hskip
    refine ⟨true, _, ⟨by rw [hrun], by rw [hrun]⟩, hlook.trans ?_⟩
    have hnonempty : p.toldBlock delimiter id ≠ [] := fun hnil => hskip (by simp [hnil])
    refine hlook.sound.marks_append ?_ fun hδ => hp.not_mem_toldBlock hδ id
    rw [hlook.leaves.blank id hid]
    exact Bool.eq_false_iff.mpr fun hb => hnonempty (hp.blank_toldBlock hid hb)

theorem annotateBlocks_marks (style : CommentStyle) (column count : Nat) (hp : p.Sound delimiter)
    (hl : ∀ id ∈ l, id < p.store.size) : ∃ n p',
      (Action.fold (annotateStep delimiter style column) count l).Yields p n p' ∧
        Marks delimiter p p' := by
  induction l generalizing p count with
  | nil =>
    exact ⟨count, p, Action.yields_fold_nil.mpr ⟨rfl, rfl⟩, hp, .refl p, rfl, fun _ _ hl => hl⟩
  | cons id rest ih =>
    obtain ⟨hid, hrest⟩ := List.forall_mem_cons.mp hl
    obtain ⟨b, p₁, hblock, hmarks⟩ := annotateBlock_marks style column hp hid
    obtain ⟨n, p', hfold, hmarks'⟩ := ih (if b then count + 1 else count) hmarks.sound
      fun i hi => Nat.lt_of_lt_of_le (hrest i hi) hmarks.leaves.size
    exact ⟨n, p', Action.yields_fold_cons.mpr ⟨_, p₁, annotateStep_yields hblock rfl, hfold⟩,
      hmarks.trans hmarks'⟩

theorem annotate_marks (style : CommentStyle) (hp : p.Sound delimiter) :
    ∃ n p', (annotate delimiter style).Yields p n p' ∧ Marks delimiter p p' := by
  obtain ⟨n, p', hfold, hmarks⟩ := annotateBlocks_marks style (p.width + 1) 0 hp hp.stored
  refine ⟨n, p', ?_, hmarks⟩
  simp only [annotate_eq, Action.yields_bind, Action.yields_get, Action.yields_log,
    Action.yields_pure]
  exact ⟨p, p, ⟨rfl, rfl⟩, p, p, ⟨rfl, rfl⟩, n, p', hfold, (), p', rfl, rfl, rfl⟩

theorem text_annotateBlock {i : BlockId} (hi : i ≠ id) :
    (((annotateBlock delimiter style column id).run p).state.block i).text = (p.block i).text := by
  rw [annotateBlock_run]
  split
  · exact text_look p _ i
  · dsimp only
    rw [block_modifyBlock_of_ne hi]
    exact text_look p _ i

theorem annotateStep_state (count : Nat) :
    ((annotateStep delimiter style column count id).run p).state =
      ((annotateBlock delimiter style column id).run p).state :=
  Action.state_bind (I := (· = ((annotateBlock delimiter style column id).run p).state))
    (fun _ _ => rfl) fun b q h => by
      obtain rfl := h.2
      cases b <;> rfl

theorem text_annotateBlocks {count : Nat} (hid : id ∉ l) :
    (((Action.fold (annotateStep delimiter style column) count l).run p).state.block id).text =
      (p.block id).text := by
  induction l generalizing p count with
  | nil => rfl
  | cons i rest ih =>
    obtain ⟨hne, hrest⟩ := not_or.mp fun h => hid (List.mem_cons.mpr h)
    have hfirst : (((annotateStep delimiter style column count i).run p).state.block id).text =
        (p.block id).text := by
      rw [annotateStep_state]
      exact text_annotateBlock hne
    rw [Action.fold_cons]
    refine Action.state_bind (I := fun q : Program => (q.block id).text = (p.block id).text)
      (fun _ _ => hfirst) fun _ q h => ?_
    rw [ih hrest, ← h.2, hfirst]

theorem annotate_state : ((annotate delimiter style).run p).state =
    ((Action.fold (annotateStep delimiter style (p.width + 1)) 0 p.order).run p).state := by
  rw [annotate_eq, Action.state_get_bind, Action.state_get_bind]
  refine Action.state_bind (I := (· = _)) (fun _ _ => rfl) fun _ q h => ?_
  obtain rfl := h.2
  rfl

theorem text_annotate (horder : p.order = id :: l) (hid : id ∉ l) :
    (((annotate delimiter style).run p).state.block id).text =
      (((annotateBlock delimiter style (p.width + 1) id).run p).state.block id).text := by
  rw [annotate_state, horder, Action.fold_cons]
  refine Action.state_bind (I := fun q : Program => (q.block id).text = _)
    (fun _ _ => by rw [annotateStep_state]) fun _ q h => ?_
  rw [text_annotateBlocks hid, ← h.2, annotateStep_state]

theorem text_annotateBlock_same (hr : p.ReadsAll [id]) (htold : p.toldBlock delimiter id ≠ [])
    (hcomments : (p.block id).comments = []) :
    (((annotateBlock delimiter style column id).run p).state.block id).text =
      (p.rebuilt id).padRight column ++ ' ' :: style.format (p.toldBlock delimiter id) := by
  have hlook : Retells delimiter [] p _ := retells_look (hr.stored id List.mem_cons_self)
  rw [annotateBlock_run]
  generalize p.look delimiter (.block id) = q at hlook
  have hreads := hlook.reads hr
  have hcomments' : (q.block id).comments = [] :=
    (congrArg Block.comments (hlook.block id List.not_mem_nil) :).trans hcomments
  have hrebuilt := hr.rebuilt_congr hreads List.mem_cons_self List.mem_cons_self
    (hlook.text List.not_mem_nil)
  rw [if_neg (by simp [Block.endsWith, hcomments', htold]),
    block_modifyBlock (hreads.stored id List.mem_cons_self), ← hrebuilt]
  rfl

end PartProgram.Program
