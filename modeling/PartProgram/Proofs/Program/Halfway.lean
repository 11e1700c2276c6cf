import PartProgram.Proofs.Block.Rebuilt
import PartProgram.Proofs.Program.Beside

/-! # Readings that may be refused

A reading that is refused on its way leaves the sequence, the sections and all texts as
they were. It keeps no new descriptions, and a block that was read only in part is still
blank exactly if its text is.
-/
namespace PartProgram.Program

open WordGraph

/-- Blocks were read, and nothing else was done. -/
structure Rests (p p' : Program) : Prop where
  order : p'.order = p.order
  sections : p'.sections = p.sections
  size : p'.store.size = p.store.size
  text : ∀ id, (p'.block id).text = (p.block id).text
  phrase : ∀ (w : WordId) (v : Word) (d : Text), p'.graph[w]? = some v → v.description = .fresh d →
    ∃ u : Word, p.graph[w]? = some u ∧ u.description = .fresh d
  description : ∀ id d, (p'.block id).description = .fresh d → (p.block id).description = .fresh d
  whole : ∀ id, (p.block id).IsWhole p.graph → (p'.block id).IsWhole p'.graph
  grows : Grows p.graph p'.graph

variable {p p' p'' : Program} {id : BlockId} {l : List BlockId}

theorem Rests.refl (p : Program) : Rests p p :=
  ⟨rfl, rfl, rfl, fun _ => rfl, fun _ v _ hv hd => ⟨v, hv, hd⟩, fun _ _ hd => hd,
    fun _ hw => hw, .refl _⟩

theorem Rests.trans (h : Rests p p') (h' : Rests p' p'') : Rests p p'' := by
  refine ⟨h'.order.trans h.order, h'.sections.trans h.sections, h'.size.trans h.size,
    fun id => (h'.text id).trans (h.text id), fun w v d hv hd => ?_,
    fun id d hd => h.description id d (h'.description id d hd),
    fun id hw => h'.whole id (h.whole id hw), h.grows.trans h'.grows⟩
  obtain ⟨u, hu, hd⟩ := h'.phrase w v d hv hd
  exact h.phrase w u d hu hd

theorem rests_modifyBlock (p : Program) (id : BlockId) {f : Block → Block}
    (htext : ∀ b, (f b).text = b.text)
    (hdescription : ∀ b d, (f b).description = .fresh d → b.description = .fresh d)
    (hwhole : (p.block id).IsWhole p.graph → (f (p.block id)).IsWhole p.graph) :
    Rests p (p.modifyBlock id f) := by
  refine ⟨rfl, rfl, Array.size_modify, ?_, fun _ v _ hv hd => ⟨v, hv, hd⟩, ?_, ?_, .refl _⟩
  · exact forall_block_modifyBlock p id f (fun b b' => b'.text = b.text) (fun _ => rfl) (htext _)
  · exact forall_block_modifyBlock p id f
      (fun b b' => ∀ d, b'.description = .fresh d → b.description = .fresh d) (fun _ _ hd => hd)
      (hdescription _)
  · exact forall_block_modifyBlock p id f (fun b b' => b.IsWhole p.graph → b'.IsWhole p.graph)
      (fun _ hw => hw) hwhole

theorem exists_fresh_of_register {g : WordGraph} {w v : Word} {i : WordId} {d : Text}
    (hstale : w.description = .stale) (hv : (g.register w)[i]? = some v)
    (hd : v.description = .fresh d) : ∃ u, g[i]? = some u ∧ u.description = .fresh d := by
  have hpush : ∃ u, (g.push w)[i]? = some u ∧ u.description = .fresh d := by
    unfold register at hv
    split at hv
    · exact ⟨v, hv, hd⟩
    · rw [Array.getElem?_modify] at hv
      split at hv
      · obtain ⟨u, hu, rfl⟩ := Option.map_eq_some_iff.mp hv
        exact ⟨u, hu, hd⟩
      · exact ⟨v, hv, hd⟩
  obtain ⟨u, hu, hd⟩ := hpush
  rw [Array.getElem?_push] at hu
  split at hu
  · obtain rfl := Option.some.inj hu
    rw [hstale] at hd
    cases hd
  · exact ⟨u, hu, hd⟩

theorem rests_register {w : Word} (hstale : w.description = .stale) :
    Rests p { p with graph := p.graph.register w } :=
  ⟨rfl, rfl, rfl, fun _ => rfl, fun _ _ _ => exists_fresh_of_register hstale, fun _ _ hd => hd,
    fun _ hw => hw.mono (grows_register p.graph w), grows_register p.graph w⟩

/-- Each word of the block is one of those that its text is cut into. -/
def IsPart (p : Program) (id : BlockId) : Prop :=
  ∀ w ∈ (p.block id).words, ∃ x ∈ (Reading.ofText (p.block id).text).tokens, p.graph.Shows w x

theorem readToken_rests {x : Text × Bool} {c : Option WordId} (hid : id < p.store.size)
    (hx : x ∈ (Reading.ofText (p.block id).text).tokens) (hpart : p.IsPart id) :
    Rests p ((readToken id c x).run p).state ∧ ((readToken id c x).run p).state.IsPart id := by
  rw [readToken_run]
  cases hw : Word.ofText x.1 c x.2 with
  | error fault => exact ⟨.refl p, hpart⟩
  | ok w =>
    set q : Program := { p with graph := p.graph.register w } with hq
    have hshow : q.graph.Shows p.graph.size x := shows_register_size (Word.says_ofText hw)
    have hblock : ((q.modifyBlock id (enterWord q.graph p.graph.size)).block id) =
        enterWord q.graph p.graph.size (p.block id) := block_modifyBlock (p := q) hid _
    have hwords : ∀ v ∈ (p.block id).words ++ [p.graph.size],
        ∃ y ∈ (Reading.ofText (p.block id).text).tokens, q.graph.Shows v y := by
      intro v hv
      rcases List.mem_append.mp hv with hv | hv
      · obtain ⟨y, hy, hshow⟩ := hpart v hv
        exact ⟨y, hy, (grows_register p.graph w).shows hshow⟩
      · exact List.mem_singleton.mp hv ▸ ⟨x, hx, hshow⟩
    refine ⟨(rests_register (Word.ofText_new hw).2.2).trans ?_, ?_⟩
    · refine rests_modifyBlock q id (fun _ => rfl) (fun _ _ hd => hd) fun hwhole => ?_
      exact Block.isWhole_of_shows hwhole.split hwords
    · rw [IsPart, hblock]
      exact hwords

theorem readTokens_rests {xs : List (Text × Bool)} {c : Option WordId} (hid : id < p.store.size)
    (hxs : ∀ x ∈ xs, x ∈ (Reading.ofText (p.block id).text).tokens) (hpart : p.IsPart id) :
    Rests p ((xs.foldlM (readToken id) c).run p).state := by
  induction xs generalizing c p with
  | nil => exact .refl p
  | cons x rest ih =>
    obtain ⟨hx, hrest⟩ := List.forall_mem_cons.mp hxs
    obtain ⟨hfirst, hpart'⟩ := readToken_rests (c := c) hid hx hpart
    rw [List.foldlM_cons]
    refine Action.state_bind (I := Rests p) (fun _ _ => hfirst) fun c₁ p₁ hyields => ?_
    obtain rfl := hyields.2
    exact hfirst.trans (ih (hfirst.size ▸ hid) (hfirst.text id ▸ hrest) hpart')

theorem readBlock_rests (hid : id < p.store.size) (c : Option WordId) :
    Rests p ((readBlock id c).run p).state ∧
      (((readBlock id c).run p).state.block id).IsWhole ((readBlock id c).run p).state.graph := by
  set r := Reading.ofText (p.block id).text with hr
  have hemptied : (p.modifyBlock id (emptied r)).block id = emptied r (p.block id) :=
    block_modifyBlock hid _
  have hwhole : (emptied r (p.block id)).IsWhole p.graph := by
    refine Block.isWhole_of_shows ?_ (by simp [emptied])
    rw [emptied, hr, Reading.instruction_ofText, Reading.comments_ofText]
  have hfirst : Rests p (p.modifyBlock id (emptied r)) :=
    rests_modifyBlock p id (fun _ => rfl) (fun _ _ hd => hd) fun _ => hwhole
  have htokens :
      Rests _ ((r.tokens.foldlM (readToken id) c).run (p.modifyBlock id (emptied r))).state :=
    readTokens_rests (hid.trans_eq hfirst.size.symm) (by rw [hemptied]; exact fun x hx => hx)
      (by rw [IsPart, hemptied]; simp [emptied])
  have hread := htokens.whole id (hemptied ▸ hwhole)
  rw [readBlock_eq, Action.state_get_bind,
    Action.state_bind_of_yields _ (Action.yields_modify (u := ⟨⟩).mpr rfl),
    Action.state_bind_of_yields _ (Action.yields_forIn_report (u := ⟨⟩).mpr rfl)]
  have hall := hfirst.trans htokens
  refine Action.state_bind (I := fun s => Rests p s ∧ (s.block id).IsWhole s.graph)
    (fun _ _ => ⟨hall, hread⟩) fun c' p' hyields => ?_
  rw [hyields.2] at hall hread
  have hlast : Rests p' _ :=
    rests_modifyBlock p' id (f := fun b => { b with trailing := c', description := .stale })
      (fun _ => rfl) (fun _ _ hd => nomatch hd) fun hw => ⟨hw.split, hw.solid⟩
  exact ⟨hall.trans hlast, hlast.whole id hread⟩

theorem readBlocks_rests (hl : ∀ id ∈ l, id < p.store.size) (c : Option WordId) :
    Rests p ((Action.fold (fun c id => readBlock id c) c l).run p).state := by
  induction l generalizing c p with
  | nil => exact .refl p
  | cons id rest ih =>
    obtain ⟨hid, hrest⟩ := List.forall_mem_cons.mp hl
    obtain ⟨hfirst, -⟩ := readBlock_rests hid c
    rw [Action.fold_cons]
    refine Action.state_bind (I := Rests p) (fun _ _ => hfirst) fun c₁ p₁ hyields => ?_
    obtain rfl := hyields.2
    exact hfirst.trans (ih (fun i hi => (hrest i hi).trans_eq hfirst.size.symm) c₁)

/-- Reading all again is refused before the sections are cut, or they are cut. -/
theorem reread_rests (hs : ∀ id ∈ p.order, id < p.store.size) :
    (∃ fault, (reread.run p).result = .error fault) ∧ Rests p (reread.run p).state ∨
      ∃ p₁, Rests p p₁ ∧ reread.Yields p () { p₁ with
        sections := p₁.sections.map fun s => p₁.cutSections s.toolMark } := by
  have hdef : reread = get >>= fun q : Program =>
      Action.fold (fun c id => readBlock id c) none q.order >>= fun _ => classify := rfl
  have hrests := readBlocks_rests hs none
  rcases hread : (Action.fold (fun c id => readBlock id c) none p.order).run p
    with ⟨result, p₁, reports⟩
  rw [hread] at hrests
  cases result with
  | error fault =>
    rw [hdef, Action.run_bind_ok _ (Action.run_get p), Action.run_bind_error _ hread]
    exact .inl ⟨⟨fault, rfl⟩, hrests⟩
  | ok c =>
    refine .inr ⟨p₁, hrests, ?_⟩
    rw [hdef, Action.yields_bind]
    exact ⟨p, p, Action.yields_get.mpr ⟨rfl, rfl⟩, Action.yields_bind.mpr
      ⟨c, p₁, ⟨by rw [hread], by rw [hread]⟩, classify_yields.mpr rfl⟩⟩

theorem reread_keeps (hs : ∀ id ∈ p.order, id < p.store.size) :
    (reread.run p).state.order = p.order ∧ (reread.run p).state.store.size = p.store.size ∧
      ∀ id, ((reread.run p).state.block id).text = (p.block id).text := by
  rcases reread_rests hs with ⟨-, hrests⟩ | ⟨p₁, hrests, -, hstate⟩
  · exact ⟨hrests.order, hrests.size, hrests.text⟩
  · rw [hstate]
    exact ⟨hrests.order, hrests.size, hrests.text⟩

/-- Reading again succeeds exactly if every text can be read. -/
theorem reread_succeeds_iff (hs : ∀ id ∈ p.order, id < p.store.size) :
    (reread.run p).result = .ok () ↔ ∀ id ∈ p.order, isReadable (p.block id).text = true := by
  constructor
  · intro h id hid
    have hyields : reread.Yields p () (reread.run p).state := ⟨h, rfl⟩
    obtain ⟨c, q, hblocks, -⟩ := reread_yields_iff.mp hyields
    obtain ⟨hsame, hreads⟩ := readBlocks_yields (readsAll_nil p) hs hblocks
    rw [← hsame.text id]
    exact (hreads.reading id (by simpa using hid)).isReadable
  · intro h
    obtain ⟨p', hresult, -⟩ := reread_succeeds hs h
    exact hresult

theorem reread_refused (hid : id < p.store.size) (horder : p.order = [id])
    (hread : isReadable (p.block id).text = false) :
    (∃ fault, (Program.reread.run p).result = .error fault) ∧
      (Program.reread.run p).state.order = [id] := by
  have hs : ∀ i ∈ p.order, i < p.store.size := by simpa [horder] using hid
  refine ⟨?_, (reread_keeps hs).1.trans horder⟩
  cases hresult : (Program.reread.run p).result with
  | error fault => exact ⟨fault, rfl⟩
  | ok u =>
    have hreadable := (reread_succeeds_iff hs).mp hresult id (by simp [horder])
    rw [hread] at hreadable
    cases hreadable

theorem addBlock_rests (text : Text) (c : Option WordId) (p : Program) :
    Rests (p.withBlock text c) ((addBlock text c).run p).state ∧
      (((addBlock text c).run p).state.block p.store.size).IsWhole
        ((addBlock text c).run p).state.graph := by
  rw [addBlock_state]
  refine readBlock_rests ?_ c
  rw [size_withBlock]
  exact Nat.lt_succ_self _

theorem ReadsAll.addBlock (hl : p.ReadsAll l) (text : Text) (c : Option WordId) :
    ((Program.addBlock text c).run p).state.ReadsAll l := by
  have hgrows := (addBlock_rests text c p).1.grows
  have hblock : ∀ i ∈ l, ((Program.addBlock text c).run p).state.block i = p.block i := by
    intro i hi
    have hlt := hl.stored i hi
    have hbeside : Beside 0 p.store.size (p.withBlock text c)
        ((Program.readBlock p.store.size c).run (p.withBlock text c)).state :=
      readBlock_beside (Nat.zero_le _) fun _ _ => Nat.zero_le _
    rw [addBlock_state, hbeside.block i (Nat.ne_of_lt hlt), block_withBlock hlt]
  refine hl.of_words ?_ (fun i hi => ?_) fun i hi => by rw [hblock i hi]
  · rw [(addBlock_rests text c p).1.size, size_withBlock]
    exact Nat.le_succ _
  · rw [hblock i hi]
    exact (hl.reading i hi).mono hgrows

section
variable {index target : Int}

theorem checkIndex_granted (h : 0 ≤ index ∧ index < p.length) :
    (checkIndex index).run p = ⟨.ok index.toNat, p, []⟩ := by
  rw [checkIndex, Action.run_bind_ok _ (Action.run_get p), if_pos h]
  rfl

theorem replaceBlock_run (id : BlockId) (h : 0 ≤ index ∧ index < p.length) :
    (replaceBlock index id).run p =
      reread.run { p with order := p.order.set index.toNat id } := by
  rw [replaceBlock, Action.run_bind_ok _ (checkIndex_granted h),
    Action.run_bind_ok _ (Action.run_modify _ _)]
  rfl

theorem removeBlock_run (h : 0 ≤ index ∧ index < p.length) :
    (removeBlock index).run p = reread.run { p with order := p.order.eraseIdx index.toNat } := by
  rw [removeBlock, Action.run_bind_ok _ (checkIndex_granted h),
    Action.run_bind_ok _ (Action.run_modify _ _)]
  rfl

theorem moveBlock_run (h : 0 ≤ index ∧ index < p.length) (ht : 0 ≤ target ∧ target ≤ p.length) :
    (moveBlock index target).run p =
      if target = index ∨ target = index + 1 then ⟨.ok (), p, []⟩
      else reread.run { p with order := moveItem index.toNat target.toNat p.order } := by
  rw [moveBlock, Action.run_bind_ok _ (checkIndex_granted h),
    Action.run_bind_ok _ (Action.run_get p), if_pos ht]
  dsimp only
  split
  · rfl
  · rw [Action.run_bind_ok _ (Action.run_modify _ _)]
    rfl

end

end PartProgram.Program
