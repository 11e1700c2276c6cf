import Mathlib.Algebra.Group.Nat.Defs
import PartProgram.Proofs.Program.Edited
import PartProgram.Proofs.Program.Sound

/-! # Sections at any time

The sections of a fragment are cut at its blank blocks, whatever edits and comments came
before, as long as no edit is refused halfway. That takes a text between phrases with a
closing parenthesis, which lets a comment that was put behind a block end early and the
rest of it be read as words.
-/
namespace PartProgram

section
variable {α : Type}

/-- The part runs up to the first element with the property, or is the whole. -/
structure EndsAt (e : α → Bool) (l part rest : List α) : Prop where
  append : part ++ rest = l
  before : ∀ a ∈ part.dropLast, e a = false
  last : rest = [] ∨ ∃ a, part.getLast? = some a ∧ e a = true

theorem endsAt_cutAfter (e : α → Bool) (l : List α) :
    EndsAt e l (cutAfter e l).1 (cutAfter e l).2 := by
  induction l with
  | nil => exact ⟨rfl, by simp [cutAfter], .inl rfl⟩
  | cons a l ih =>
    rw [cutAfter]
    split
    · rename_i ha
      exact ⟨rfl, by simp, .inr ⟨a, rfl, ha⟩⟩
    · rename_i ha
      obtain ⟨happend, hbefore, hlast⟩ := ih
      refine ⟨congrArg (a :: ·) happend, fun b hb => ?_, hlast.imp_right ?_⟩
      · cases hpart : (cutAfter e l).1 with
        | nil => simp [hpart] at hb
        | cons c m =>
          rw [hpart] at hbefore
          simp only [hpart, List.dropLast_cons_cons, List.mem_cons] at hb
          rcases hb with rfl | hb
          · simpa using ha
          · exact hbefore b hb
      · rintro ⟨b, hb, he⟩
        exact ⟨b, by simp only [List.getLast?_cons, hb, Option.getD_some], he⟩

end

/-- The header runs up to the first blank block, the body up to the next, and the footer is what
remains. -/
structure Sections.IsPartition (blank : BlockId → Bool) (order : List BlockId) (s : Sections) :
    Prop where
  whole : s.header ++ s.body ++ s.footer = order
  header : EndsAt blank order s.header (s.body ++ s.footer)
  body : EndsAt blank (s.body ++ s.footer) s.body s.footer

namespace Program

variable {p p' : Program} {delimiter : Text} {l : List BlockId}

def isBlankAt (p : Program) (id : BlockId) : Bool := Text.isBlankText (p.block id).text

def Sectioned (p : Program) : Prop :=
  ∃ s, p.sections = some s ∧ s.IsPartition p.isBlankAt p.order

theorem isPartition_cutSections (hs : ∀ id ∈ p.order, p.isEmptyBlock id = p.isBlankAt id)
    (mark : Text) : (p.cutSections mark).IsPartition p.isBlankAt p.order := by
  have hheader : cutAfter p.isEmptyBlock p.order = cutAfter p.isBlankAt p.order := cutAfter_congr hs
  set rest := (cutAfter p.isBlankAt p.order).2 with hrest
  have hbody : cutAfter p.isEmptyBlock rest = cutAfter p.isBlankAt rest :=
    cutAfter_congr fun id hid => hs id <| by
      rw [← cutAfter_append p.isBlankAt p.order]
      exact List.mem_append_right _ hid
  have hsections : (p.cutSections mark).header = (cutAfter p.isBlankAt p.order).1 ∧
      (p.cutSections mark).body = (cutAfter p.isBlankAt rest).1 ∧
      (p.cutSections mark).footer = (cutAfter p.isBlankAt rest).2 := by
    simp only [cutSections, hheader, ← hrest, hbody, and_self]
  obtain ⟨h₁, h₂, h₃⟩ := hsections
  refine ⟨cutSections_append p mark, ?_, ?_⟩
  · rw [h₁, h₂, h₃, cutAfter_append]
    exact endsAt_cutAfter _ _
  · rw [h₂, h₃, cutAfter_append]
    exact endsAt_cutAfter _ _

theorem Sound.isEmptyBlock_eq (hp : p.Sound delimiter) {id : BlockId} (hid : id ∈ p.order) :
    p.isEmptyBlock id = p.isBlankAt id :=
  (hp.whole id (hp.stored id hid)).isEmpty_eq

theorem Sound.sectioned_classified (hp : p.Sound delimiter) :
    Sectioned { p with sections := p.sections.map fun s => p.cutSections s.toolMark } := by
  obtain ⟨s, hs⟩ := Option.isSome_iff_exists.mp hp.cut
  refine ⟨p.cutSections s.toolMark, by simp [hs], ?_⟩
  exact isPartition_cutSections (fun id hid => hp.isEmptyBlock_eq hid) s.toolMark

theorem Sectioned.leaves (h : p.Sectioned) (hp : p.Sound delimiter) (hl : Leaves p p')
    (horder : p'.order = p.order) : p'.Sectioned := by
  obtain ⟨s, hs, hwhole, hheader, hbody⟩ := h
  have hblank : ∀ id ∈ p.order, p'.isBlankAt id = p.isBlankAt id := fun id hid =>
    hl.blank id (hp.stored id hid)
  have hends : ∀ {l part rest : List BlockId}, (∀ id ∈ l, id ∈ p.order) →
      EndsAt p.isBlankAt l part rest → EndsAt p'.isBlankAt l part rest := by
    rintro l part rest hmem ⟨happend, hbefore, hlast⟩
    have hpart : ∀ id ∈ part, p'.isBlankAt id = p.isBlankAt id := fun id hid =>
      hblank id (hmem id (happend ▸ List.mem_append_left _ hid))
    refine ⟨happend, fun id hid => ?_, hlast.imp_right fun ⟨id, hid, he⟩ => ⟨id, hid, ?_⟩⟩
    · rw [hpart id (List.dropLast_subset _ hid)]
      exact hbefore id hid
    · rw [hpart id (List.mem_of_getLast? hid)]
      exact he
  refine ⟨s, hl.sections.trans hs, ?_⟩
  rw [horder]
  refine ⟨hwhole, hends (fun _ hid => hid) hheader, hends (fun id hid => ?_) hbody⟩
  rw [← hheader.append]
  exact List.mem_append_right _ hid

/-- The edit changes nothing, or brings blocks with the property into a new sequence and reads them
again. -/
def Reorders (a : Action Program Unit) (p : Program) (S : BlockId → Prop) : Prop :=
  (a.run p).state = p ∨
    ∃ order, (∀ id ∈ order, S id) ∧ a.run p = Program.reread.run { p with order }

section
variable {S : BlockId → Prop} {index target : Int} {id : BlockId}

theorem reorders_reread (hS : ∀ id ∈ p.order, S id) : Reorders Program.reread p S :=
  .inr ⟨p.order, hS, rfl⟩

theorem reorders_replaceBlock (hS : ∀ id ∈ p.order, S id) (hid : S id) :
    Reorders (replaceBlock index id) p S := by
  by_cases h : 0 ≤ index ∧ index < p.length
  · refine .inr ⟨_, fun i hi => ?_, replaceBlock_run id h⟩
    rcases List.mem_or_eq_of_mem_set hi with hi | rfl
    · exact hS i hi
    · exact hid
  · exact .inl (by rw [replaceBlock, Action.run_bind_error _ (checkIndex_refused h)])

theorem reorders_removeBlock (hS : ∀ id ∈ p.order, S id) : Reorders (removeBlock index) p S := by
  by_cases h : 0 ≤ index ∧ index < p.length
  · exact .inr ⟨_, fun i hi => hS i ((List.eraseIdx_sublist _ _).subset hi), removeBlock_run h⟩
  · exact .inl (by rw [removeBlock, Action.run_bind_error _ (checkIndex_refused h)])

theorem moveItem_subset {i j : Nat} (l : List BlockId) : moveItem i j l ⊆ l := by
  rw [moveItem]
  split
  · exact List.Subset.refl l
  · rename_i a ha
    intro b hb
    rcases List.eq_or_mem_of_mem_insertIdx hb with rfl | hb
    · exact List.mem_of_getElem? ha
    · exact (List.eraseIdx_sublist _ _).subset hb

theorem reorders_moveBlock (hS : ∀ id ∈ p.order, S id) : Reorders (moveBlock index target) p S := by
  by_cases h : (0 ≤ index ∧ index < p.length) ∧ 0 ≤ target ∧ target ≤ p.length
  · have hrun := moveBlock_run h.1 h.2
    split at hrun
    · exact .inl (by rw [hrun])
    · exact .inr ⟨_, fun i hi => hS i (moveItem_subset _ hi), hrun⟩
  · exact .inl (by rw [moveBlock_refused h])

end

/-- After a step the sections are cut anew and it was not refused, or they are the old ones and the
sequence is the old one too unless the step was refused. -/
structure Fares {α : Type} (delimiter : Text) (p : Program) (o : Outcome Program α) : Prop where
  sound : o.state.Sound delimiter
  size : p.store.size ≤ o.state.store.size
  sections : Leaves p o.state ∧ (o.state.order = p.order ∨ ∃ fault, o.result = .error fault) ∨
    o.state.Sectioned ∧ ∃ x, o.result = .ok x

section
variable {α β : Type} {a : Action Program α}

theorem Sound.fares_still {o : Outcome Program α} (hp : p.Sound delimiter) (h : o.state = p) :
    Fares delimiter p o := by
  rw [← h] at hp ⊢
  exact ⟨hp, Nat.le_refl _, .inl ⟨.refl _, .inl rfl⟩⟩

theorem Fares.bind_pure (h : Fares delimiter p (a.run p)) (f : α → β) :
    Fares delimiter p ((a >>= fun x => pure (f x)).run p) := by
  rcases hr : a.run p with ⟨result, p', reports⟩
  obtain ⟨hsound, hsize, hsections⟩ := h
  rw [hr] at hsound hsize hsections
  cases result with
  | error fault =>
    rw [Action.run_bind_error _ hr]
    refine ⟨hsound, hsize, hsections.imp (fun h => ⟨h.1, .inr ⟨fault, rfl⟩⟩) fun h => ?_⟩
    obtain ⟨-, x, hx⟩ := h
    cases hx
  | ok x =>
    rw [Action.run_bind_ok _ hr]
    refine ⟨hsound, hsize, hsections.imp (fun h => ⟨h.1, .inl (h.2.resolve_right ?_)⟩)
      fun h => ⟨h.1, f x, rfl⟩⟩
    rintro ⟨fault, hfault⟩
    cases hfault

theorem Sound.fares_reread (hp : p.Sound delimiter) {order : List BlockId}
    (hs : ∀ id ∈ order, id < p.store.size) :
    Fares delimiter p (reread.run { p with order }) := by
  have hq := hp.reorder hs
  rcases reread_rests (p := { p with order }) hs with ⟨hrefused, hrests⟩ | ⟨p₁, hrests, hyields⟩
  · have hleaves := hrests.leaves
    exact ⟨hq.rests hrests, hleaves.size,
      .inl ⟨⟨hleaves.sections, hleaves.size, hleaves.blank⟩, .inr hrefused⟩⟩
  · have hsound := hq.rests hrests
    refine ⟨hyields.2 ▸ hsound.classify, ?_,
      .inr ⟨hyields.2 ▸ hsound.sectioned_classified, (), hyields.1⟩⟩
    rw [hyields.2]
    exact Nat.le_of_eq hrests.size.symm

theorem Sound.fares_reorders (hp : p.Sound delimiter) {a : Action Program Unit}
    (h : Reorders a p (· < p.store.size)) : Fares delimiter p (a.run p) := by
  rcases h with hstill | ⟨order, hs, hrun⟩
  · exact hp.fares_still hstill
  · rw [hrun]
    exact hp.fares_reread hs

theorem Sound.fares_classify (hp : p.Sound delimiter) :
    Fares delimiter p (Program.classify.run p) := by
  have hyields : Program.classify.Yields p () _ := classify_yields.mpr rfl
  exact ⟨hyields.2 ▸ hp.classify, by rw [hyields.2],
    .inr ⟨hyields.2 ▸ hp.sectioned_classified, (), hyields.1⟩⟩

theorem Sound.fares_annotate (hp : p.Sound delimiter) (style : CommentStyle) :
    Fares delimiter p ((annotate delimiter style).run p) := by
  obtain ⟨n, p', hyields, hmarks⟩ := annotate_marks style hp
  obtain ⟨-, rfl⟩ := hyields
  exact ⟨hmarks.sound, hmarks.leaves.size, .inl ⟨hmarks.leaves, .inl hmarks.order⟩⟩

theorem Sound.fares_addBlock (hp : p.Sound delimiter) (text : Text) (c : Option WordId) :
    Fares delimiter p ((Program.addBlock text c).run p) := by
  obtain ⟨hsound, hleaves, horder⟩ := hp.addBlock text c
  exact ⟨hsound, hleaves.size, .inl ⟨hleaves, .inl horder⟩⟩

end

/-- A fragment, and the blocks that were made for it, wherever they stand now. -/
structure Desk where
  program : Program
  held : List BlockId

inductive Call where
  /-- A new block is made, and stands nowhere yet. -/
  | parse (text : Text) (governing : Option WordId)
  /-- One of the blocks that were made is put in the place of another, also if it stands in the
  sequence already. -/
  | replace (index : Int) (block : Nat)
  | remove (index : Int)
  | move (index target : Int)
  | reread
  | classify
  | annotate (style : CommentStyle)
  deriving DecidableEq, Repr

def Call.perform (delimiter : Text) (held : List BlockId) : Call → Action Program (List BlockId)
  | parse text governing => do
    let id ← addBlock text governing
    pure [id]
  | replace index block =>
    match held[block]? with
    | none => pure []
    | some id => do
      replaceBlock index id
      pure []
  | remove index => do
    removeBlock index
    pure []
  | move index target => do
    moveBlock index target
    pure []
  | reread => do
    Program.reread
    pure []
  | classify => do
    Program.classify
    pure []
  | annotate style => do
    let _ ← Program.annotate delimiter style
    pure []

namespace Desk

def outcome (delimiter : Text) (d : Desk) (c : Call) : Outcome Program (List BlockId) :=
  (c.perform delimiter d.held).run d.program

def made (o : Outcome Program (List BlockId)) : List BlockId :=
  match o.result with
  | .ok blocks => blocks
  | .error _ => []

def step (delimiter : Text) (d : Desk) (c : Call) : Desk where
  program := (d.outcome delimiter c).state
  held := d.held ++ made (d.outcome delimiter c)

def after (delimiter : Text) (d : Desk) (calls : List Call) : Desk := calls.foldl (step delimiter) d

/-- The call is refused when the sequence was changed already. -/
def Halts (delimiter : Text) (d : Desk) (c : Call) : Prop :=
  (∃ fault, (d.outcome delimiter c).result = .error fault) ∧
    (d.step delimiter c).program.order ≠ d.program.order

variable {d : Desk}

structure IsSound (delimiter : Text) (d : Desk) : Prop where
  program : d.program.Sound delimiter
  held : ∀ id ∈ d.held, id < d.program.store.size

theorem IsSound.fares (hd : d.IsSound delimiter) (c : Call) :
    Fares delimiter d.program (d.outcome delimiter c) := by
  have hp := hd.program
  cases c with
  | parse text governing => exact (hp.fares_addBlock text governing).bind_pure _
  | replace index block =>
    change Fares delimiter d.program ((match d.held[block]? with
      | none => pure []
      | some id => (do replaceBlock index id; pure []) :
        Action Program (List BlockId)).run d.program)
    cases hblock : d.held[block]? with
    | none => exact hp.fares_still rfl
    | some id =>
      have hid := hd.held id (List.mem_of_getElem? hblock)
      exact (hp.fares_reorders (reorders_replaceBlock hp.stored hid)).bind_pure _
  | remove index => exact (hp.fares_reorders (reorders_removeBlock hp.stored)).bind_pure _
  | move index target => exact (hp.fares_reorders (reorders_moveBlock hp.stored)).bind_pure _
  | reread => exact (hp.fares_reorders (reorders_reread hp.stored)).bind_pure _
  | classify => exact hp.fares_classify.bind_pure _
  | annotate style => exact (hp.fares_annotate style).bind_pure _

theorem made_eq_nil {c : Call} {held made : List BlockId}
    (hc : ∀ text governing, c ≠ .parse text governing)
    (h : (c.perform delimiter held).Yields p made p') : made = [] := by
  cases c with
  | parse text governing => exact absurd rfl (hc text governing)
  | replace index block =>
    simp only [Call.perform] at h
    split at h
    · exact (Action.yields_pure.mp h).1
    · simp only [Action.yields_bind, Action.yields_pure] at h
      obtain ⟨_, _, -, rfl, -⟩ := h
      rfl
  | _ =>
    simp only [Call.perform, Action.yields_bind, Action.yields_pure] at h
    obtain ⟨_, _, -, rfl, -⟩ := h
    rfl

theorem lt_of_made {c : Call} {held made : List BlockId}
    (h : (c.perform delimiter held).Yields p made p') : ∀ id ∈ made, id < p'.store.size := by
  by_cases hc : ∀ text governing, c ≠ .parse text governing
  · simp [made_eq_nil hc h]
  · push Not at hc
    obtain ⟨text, governing, rfl⟩ := hc
    simp only [Call.perform, Action.yields_bind, Action.yields_pure] at h
    obtain ⟨id, p₁, hadd, rfl, rfl⟩ := h
    have hreads := (addBlock_yields (readsAll_nil p) hadd).2
    simpa using hreads.stored id List.mem_cons_self

theorem IsSound.step (hd : d.IsSound delimiter) (c : Call) :
    (d.step delimiter c).IsSound delimiter := by
  have hfares := hd.fares c
  refine ⟨hfares.sound, fun id hid => ?_⟩
  rcases List.mem_append.mp hid with hid | hid
  · exact Nat.lt_of_lt_of_le (hd.held id hid) hfares.size
  · unfold made at hid
    split at hid
    · rename_i made hmade
      exact lt_of_made ⟨hmade, rfl⟩ id hid
    · cases hid

/-- A call that is not refused halfway leaves the sections cut at the blank blocks. -/
theorem IsSound.sectioned_step (hd : d.IsSound delimiter) {c : Call} (h : d.program.Sectioned)
    (hc : ¬ d.Halts delimiter c) : (d.step delimiter c).program.Sectioned := by
  rcases (hd.fares c).sections with ⟨hleaves, hcase⟩ | ⟨hcut, -⟩
  · refine h.leaves hd.program hleaves ?_
    by_contra horder
    exact hc ⟨hcase.resolve_left horder, horder⟩
  · exact hcut

/-- A call that is refused halfway leaves sections of the sequence as it was. -/
theorem IsSound.not_sectioned_step (hd : d.IsSound delimiter) {c : Call} (h : d.program.Sectioned)
    (hc : d.Halts delimiter c) : ¬ (d.step delimiter c).program.Sectioned := by
  obtain ⟨⟨fault, hfault⟩, horder⟩ := hc
  rcases (hd.fares c).sections with ⟨hleaves, -⟩ | ⟨-, x, hx⟩
  · rintro ⟨s, hs, hpart⟩
    obtain ⟨s', hs', hpart'⟩ := h
    have hsame : s = s' := Option.some.inj (hs.symm.trans (hleaves.sections.trans hs'))
    exact horder (by rw [← hpart.whole, ← hpart'.whole, hsame])
  · rw [hfault] at hx
    cases hx

theorem IsSound.after (hd : d.IsSound delimiter) (calls : List Call) :
    (d.after delimiter calls).IsSound delimiter := by
  induction calls generalizing d with
  | nil => exact hd
  | cons c rest ih => exact ih (hd.step c)

theorem after_concat (d : Desk) (calls : List Call) (c : Call) :
    d.after delimiter (calls ++ [c]) = (d.after delimiter calls).step delimiter c := by
  simp [Desk.after]

theorem IsSound.sectioned_after_iff (hd : d.IsSound delimiter) (h : d.program.Sectioned)
    (calls : List Call) :
    (∀ done, done <+: calls → (d.after delimiter done).program.Sectioned) ↔
      ∀ done c, done ++ [c] <+: calls → ¬ (d.after delimiter done).Halts delimiter c := by
  constructor
  · intro hall done c hprefix hhalts
    have hbefore := hall done ((List.prefix_append done [c]).trans hprefix)
    have hafter := hall (done ++ [c]) hprefix
    rw [after_concat] at hafter
    exact (hd.after done).not_sectioned_step hbefore hhalts hafter
  · intro hnone done hprefix
    induction done using List.reverseRecOn with
    | nil => exact h
    | append_singleton done c ih =>
      rw [after_concat]
      exact (hd.after done).sectioned_step
        (ih ((List.prefix_append done [c]).trans hprefix)) (hnone done c hprefix)

theorem halts_remove {index : Int} (h : 0 ≤ index ∧ index < d.program.length)
    (hrefused : ∃ fault, (Program.reread.run { d.program with
      order := d.program.order.eraseIdx index.toNat }).result = .error fault)
    (horder : (Program.reread.run { d.program with
      order := d.program.order.eraseIdx index.toNat }).state.order ≠ d.program.order) :
    d.Halts delimiter (.remove index) := by
  obtain ⟨fault, hfault⟩ := hrefused
  rw [← removeBlock_run h] at hfault horder
  rcases hrun : (removeBlock index).run d.program with ⟨result, q, reports⟩
  rw [hrun] at hfault horder
  obtain rfl : result = .error fault := hfault
  have houtcome : d.outcome delimiter (.remove index) = ⟨.error fault, q, reports⟩ :=
    Action.run_bind_error _ hrun
  exact ⟨⟨fault, by rw [houtcome]⟩, by rw [Desk.step, houtcome]; exact horder⟩

/-- All blocks that were made hold what their texts say. -/
structure IsRead (d : Desk) : Prop where
  reads : d.program.ReadsAll d.held
  order : ∀ id ∈ d.program.order, id ∈ d.held

end Desk

/-- The blocks stay read, and nothing is refused once the sequence was changed. -/
structure StaysRead {α : Type} (p : Program) (l : List BlockId) (o : Outcome Program α) : Prop where
  reads : o.state.ReadsAll l
  order : ∀ id ∈ o.state.order, id ∈ l
  refused : (∃ fault, o.result = .error fault) → o.state.order = p.order

section
variable {α β : Type} {a : Action Program α}

theorem ReadsAll.staysRead (hl : p.ReadsAll l) (ho : ∀ id ∈ p.order, id ∈ l)
    {o : Outcome Program α} (h : o.state = p) : StaysRead p l o :=
  ⟨h ▸ hl, h ▸ ho, fun _ => by rw [h]⟩

theorem StaysRead.bind_pure (h : StaysRead p l (a.run p)) (f : α → β) :
    StaysRead p l ((a >>= fun x => pure (f x)).run p) := by
  rcases hr : a.run p with ⟨result, p', reports⟩
  rw [hr] at h
  cases result with
  | error fault =>
    rw [Action.run_bind_error _ hr]
    exact ⟨h.reads, h.order, fun _ => h.refused ⟨fault, rfl⟩⟩
  | ok x =>
    rw [Action.run_bind_ok _ hr]
    exact ⟨h.reads, h.order, fun ⟨fault, hfault⟩ => nomatch hfault⟩

theorem ReadsAll.staysRead_reread (hl : p.ReadsAll l) {order : List BlockId}
    (ho : ∀ id ∈ order, id ∈ l) : StaysRead p l (Program.reread.run { p with order }) := by
  set q : Program := { p with order } with hq
  have hlq : q.ReadsAll l := ⟨hl.stored, hl.reading, hl.nodup, hl.disjoint⟩
  obtain ⟨p', hyields⟩ := reread_succeeds (p := q) (fun id hid => hl.stored id (ho id hid))
    fun id hid => (hl.reading id (ho id hid)).isReadable
  have hyields' := hyields
  simp only [Program.reread, Action.yields_bind, Action.yields_get, and_assoc, exists_and_left,
    exists_eq_left] at hyields'
  obtain ⟨c, p₁, hread, hclass⟩ := hyields'
  obtain ⟨hsame, hreads⟩ := readBlocks_yields hlq (fun id hid => hl.stored id (ho id hid)) hread
  rw [classify_yields] at hclass
  obtain ⟨hresult, hstate⟩ := hyields
  refine ⟨?_, ?_, ?_⟩
  · rw [hstate, hclass]
    have hl₁ := hreads.subset (List.subset_append_right q.order l)
    exact ⟨hl₁.stored, hl₁.reading, hl₁.nodup, hl₁.disjoint⟩
  · rw [hstate, hclass]
    intro id hid
    have hid' : id ∈ p₁.order := hid
    rw [hsame.order] at hid'
    exact ho id hid'
  · rintro ⟨fault, hfault⟩
    rw [hresult] at hfault
    cases hfault

theorem ReadsAll.staysRead_reorders (hl : p.ReadsAll l) (ho : ∀ id ∈ p.order, id ∈ l)
    {a : Action Program Unit} (h : Reorders a p (· ∈ l)) : StaysRead p l (a.run p) := by
  rcases h with hstill | ⟨order, hs, hrun⟩
  · exact hl.staysRead ho hstill
  · rw [hrun]
    exact hl.staysRead_reread hs

theorem ReadsAll.staysRead_classify (hl : p.ReadsAll l) (ho : ∀ id ∈ p.order, id ∈ l) :
    StaysRead p l (Program.classify.run p) := by
  obtain ⟨hresult, hstate⟩ : Program.classify.Yields p () _ := classify_yields.mpr rfl
  refine ⟨?_, ?_, fun _ => ?_⟩
  · rw [hstate]
    exact ⟨hl.stored, hl.reading, hl.nodup, hl.disjoint⟩
  · rw [hstate]
    exact ho
  · rw [hstate]

theorem ReadsAll.staysRead_annotate (hl : p.ReadsAll l) (ho : ∀ id ∈ p.order, id ∈ l)
    (hp : p.Sound delimiter) (hδ : ')' ∉ delimiter) (style : CommentStyle) :
    StaysRead p l ((Program.annotate delimiter style).run p) := by
  obtain ⟨n, p', ⟨hresult, rfl⟩, hmarks⟩ := annotate_marks style hp
  exact ⟨hmarks.reads hδ l hl, fun id hid => ho id (hmarks.order ▸ hid), fun _ => hmarks.order⟩

end

namespace Desk

variable {d : Desk}

theorem IsRead.stays (hr : d.IsRead) (hd : d.IsSound delimiter) (hδ : ')' ∉ delimiter) {c : Call}
    (hc : ∀ text governing, c ≠ .parse text governing) :
    StaysRead d.program d.held (d.outcome delimiter c) := by
  obtain ⟨hl, ho⟩ := hr
  cases c with
  | parse text governing => exact absurd rfl (hc text governing)
  | replace index block =>
    change StaysRead d.program d.held ((match d.held[block]? with
      | none => pure []
      | some id => (do replaceBlock index id; pure []) :
        Action Program (List BlockId)).run d.program)
    cases hblock : d.held[block]? with
    | none => exact hl.staysRead ho rfl
    | some id =>
      have hid := List.mem_of_getElem? hblock
      exact (hl.staysRead_reorders ho (reorders_replaceBlock ho hid)).bind_pure _
  | remove index => exact (hl.staysRead_reorders ho (reorders_removeBlock ho)).bind_pure _
  | move index target => exact (hl.staysRead_reorders ho (reorders_moveBlock ho)).bind_pure _
  | reread => exact (hl.staysRead_reorders ho (reorders_reread ho)).bind_pure _
  | classify => exact (hl.staysRead_classify ho).bind_pure _
  | annotate style => exact (hl.staysRead_annotate ho hd.program hδ style).bind_pure _

theorem IsRead.step_parse (hr : d.IsRead) (text : Text) (governing : Option WordId) :
    (d.step delimiter (.parse text governing)).IsRead ∧
      (d.step delimiter (.parse text governing)).program.order = d.program.order := by
  have hrests := (addBlock_rests text governing d.program).1
  have hreads := hr.reads.addBlock text governing
  have hdef : d.outcome delimiter (.parse text governing) =
      (addBlock text governing >>= fun id => pure [id]).run d.program := rfl
  rw [Desk.step, hdef]
  rcases hadd : (addBlock text governing).run d.program with ⟨result, p', reports⟩
  rw [hadd] at hrests hreads
  have horder : p'.order = d.program.order := hrests.order
  cases result with
  | error fault =>
    rw [Action.run_bind_error _ hadd]
    exact ⟨⟨(List.append_nil d.held).symm ▸ hreads,
      fun id hid => List.mem_append_left _ (hr.order id (horder ▸ hid))⟩, horder⟩
  | ok id =>
    have hyields : (addBlock text governing).Yields d.program id p' := ⟨by rw [hadd], by rw [hadd]⟩
    have hnew := (addBlock_yields hr.reads hyields).2
    rw [Action.run_bind_ok _ hadd]
    refine ⟨⟨hnew.subset fun i hi => ?_,
      fun id hid => List.mem_append_left _ (hr.order id (horder ▸ hid))⟩, horder⟩
    rcases List.mem_append.mp hi with hi | hi
    · exact List.mem_cons_of_mem _ hi
    · exact List.mem_cons.mpr (.inl (List.mem_singleton.mp hi))

theorem IsRead.step (hr : d.IsRead) (hd : d.IsSound delimiter) (hδ : ')' ∉ delimiter) (c : Call) :
    (d.step delimiter c).IsRead ∧ ¬ d.Halts delimiter c := by
  -- Only a block that is made adds to those held; every other call keeps them as they were.
  by_cases hc : ∀ text governing, c ≠ .parse text governing
  · have hstays := hr.stays hd hδ hc
    have hmade : (d.step delimiter c).held = d.held := by
      rw [Desk.step, made]
      split
      · rename_i made hmade
        rw [made_eq_nil hc ⟨hmade, rfl⟩, List.append_nil]
      · exact List.append_nil _
    refine ⟨⟨?_, ?_⟩, fun hhalts => hhalts.2 (hstays.refused hhalts.1)⟩
    · rw [hmade]
      exact hstays.reads
    · rw [hmade]
      exact hstays.order
  · push Not at hc
    obtain ⟨text, governing, rfl⟩ := hc
    obtain ⟨hread, horder⟩ : (d.step delimiter (.parse text governing)).IsRead ∧ _ :=
      hr.step_parse text governing
    exact ⟨hread, fun hhalts => hhalts.2 horder⟩

theorem IsRead.not_halts (hr : d.IsRead) (hd : d.IsSound delimiter) (hδ : ')' ∉ delimiter)
    (done : List Call) (c : Call) : ¬ (d.after delimiter done).Halts delimiter c := by
  induction done generalizing d with
  | nil => exact (hr.step hd hδ c).2
  | cons a rest ih => exact ih (hr.step hd hδ a).1 (hd.step a)

def ofProgram (p : Program) : Desk := ⟨p, p.order⟩

end Desk

section
variable {ls : List Text} {path : Option Text} {mark : Text}

theorem readLineBlocks_sound {c c' : Option WordId} (hp : p.Sound delimiter)
    (h : (Action.fold readLine c ls).Yields p c' p') : p'.Sound delimiter := by
  induction ls generalizing p c with
  | nil =>
    obtain ⟨-, rfl⟩ := Action.yields_fold_nil.mp h
    exact hp
  | cons line rest ih =>
    obtain ⟨c₁, p₁, hline, hrest⟩ := Action.yields_fold_cons.mp h
    obtain ⟨id, hadd, -⟩ := readLine_yields.mp hline
    exact ih (hadd.2 ▸ (hp.addBlock line c).1) hrest

theorem sound_start (delimiter : Text) (path : Option Text) (mark : Text) :
    (start path (some mark)).Sound delimiter := by
  refine ⟨rfl, by simp [start], by simp [start], fun w v d hv _ => by simp [start] at hv,
    fun id d hd _ => ?_, fun _ id d hd => ?_⟩
  · simp [start, block] at hd
  · simp [start, block] at hd

theorem readLines_sound (delimiter : Text) (h : (readLines ls).Yields (start path (some mark)) () p) :
    p.Sound delimiter ∧ p.Sectioned := by
  obtain ⟨c, q, r, hread, hr, rfl⟩ := readLines_yields_iff.mp h
  have hq := readLineBlocks_sound (sound_start delimiter path mark) hread
  have hall : r.Sound delimiter := hr ▸ hq.reorder fun id hid => List.mem_range.mp hid
  exact ⟨hall.classify, hall.sectioned_classified⟩

/-- The sections of a fragment are cut at its blank blocks after every call exactly if no call is
refused once it has changed the sequence, which happens only if a closing parenthesis stands between
phrases. -/
theorem sectioned_iff (delimiter : Text) (h : (readLines ls).Yields (start path (some mark)) () p)
    (calls : List Call) :
    ((∀ done, done <+: calls → ((Desk.ofProgram p).after delimiter done).program.Sectioned) ↔
        ∀ done c, done ++ [c] <+: calls →
          ¬ ((Desk.ofProgram p).after delimiter done).Halts delimiter c) ∧
      (')' ∉ delimiter →
        ∀ done c, ¬ ((Desk.ofProgram p).after delimiter done).Halts delimiter c) := by
  obtain ⟨hsound, hsectioned⟩ := readLines_sound delimiter h
  have hd : (Desk.ofProgram p).IsSound delimiter := ⟨hsound, hsound.stored⟩
  have hr : (Desk.ofProgram p).IsRead := ⟨(readLines_yields h).1.reads, fun _ hid => hid⟩
  exact ⟨hd.sectioned_after_iff hsectioned calls, hr.not_halts hd⟩

/-- A fragment whose first block has a description made of two phrases. -/
def twoCommands : Program :=
  ((readLines (["G0 G1", "X1"].map String.toList)).run (start none (some "(T".toList))).state

theorem readLines_twoCommands : (readLines (["G0 G1", "X1"].map String.toList)).Yields
    (start none (some "(T".toList)) () twoCommands := ⟨by decide +kernel, rfl⟩

theorem sectioned_twoCommands :
    (readLines (["G0 G1", "X1"].map String.toList)).Yields
        (start none (some "(T".toList)) () twoCommands ∧
      ((∀ done, done <+: [.annotate .parentheses, .remove 2, .parse [] none, .replace 1 2] →
          ((Desk.ofProgram twoCommands).after " | ".toList done).program.Sectioned) ↔
        ∀ done c, done ++ [c] <+: [.annotate .parentheses, .remove 2, .parse [] none, .replace 1 2] →
          ¬ ((Desk.ofProgram twoCommands).after " | ".toList done).Halts " | ".toList c) ∧
      (')' ∉ " | ".toList →
        ∀ done c, ¬ ((Desk.ofProgram twoCommands).after " | ".toList done).Halts " | ".toList c) :=
  ⟨readLines_twoCommands, sectioned_iff " | ".toList readLines_twoCommands
    [.annotate .parentheses, .remove 2, .parse [] none, .replace 1 2]⟩

/-- Of two blocks the first is not read any more once it has its comment. The sections stay as they
were when the other is removed. -/
theorem not_sectioned_remove (h : (readLines ls).Yields (start path (some mark)) () p)
    {id other : BlockId} {style : CommentStyle} (horder : p.order = [id, other])
    (hunread : isReadable (((annotate delimiter style).run p).state.block id).text = false) :
    ¬ ((Desk.ofProgram p).after delimiter [.annotate style, .remove 1]).program.Sectioned := by
  obtain ⟨hsound, hsectioned⟩ := readLines_sound delimiter h
  have hd : (Desk.ofProgram p).IsSound delimiter := ⟨hsound, hsound.stored⟩
  obtain ⟨n, q, ⟨-, hq⟩, hmarks⟩ := annotate_marks style hsound
  have hstep : ((Desk.ofProgram p).step delimiter (.annotate style)).program = q :=
    Action.state_bind (I := (· = q)) (fun _ _ => hq) fun _ _ h => h.2.symm.trans hq
  have hlast : q.order = [id, other] := hmarks.order.trans horder
  rw [hq] at hunread
  obtain ⟨hrefused, hafter⟩ := reread_refused (p := { q with order := [id] })
    (hmarks.sound.stored id (by simp [hlast])) rfl hunread
  have hhalts :
      ((Desk.ofProgram p).step delimiter (.annotate style)).Halts delimiter (.remove 1) := by
    have herase : [id, other].eraseIdx (1 : Int).toNat = [id] := rfl
    refine Desk.halts_remove ?_ ?_ ?_
    · rw [hstep, Program.length, hlast]
      exact ⟨by decide, by simp⟩
    · rw [hstep, hlast, herase]
      exact hrefused
    · rw [hstep, hlast, herase, hafter]
      simp
  refine (hd.step (.annotate style)).not_sectioned_step ?_ hhalts
  rw [hstep]
  exact hsectioned.leaves hsound hmarks.leaves hmarks.order

end

theorem toldBlock_twoCommands (delimiter : Text) :
    twoCommands.toldBlock delimiter 0 = "RAPID".toList ++ delimiter ++ "MOVE".toList := by
  have hstale : (twoCommands.block 0).description = .stale := by decide +kernel
  have hphrases : (twoCommands.block 0).words.map twoCommands.toldWord =
      ["RAPID".toList, "MOVE".toList] := by decide +kernel
  rw [toldBlock_eq, hstale, hphrases, Cached.valueOr]
  change delimiter.intercalate ["RAPID".toList, "MOVE".toList] = _
  rw [List.intercalate_cons_cons, List.append_assoc]
  rfl

theorem text_annotate_twoCommands (delimiter : Text) :
    (((annotate delimiter .parentheses).run twoCommands).state.block 0).text =
      "G0 G1  (RAPID".toList ++ delimiter ++ "MOVE)".toList := by
  have hreads : twoCommands.ReadsAll twoCommands.order :=
    (readLines_yields readLines_twoCommands).1.reads
  have horder : twoCommands.order = [0, 1] := by decide +kernel
  have hcomments : (twoCommands.block 0).comments = [] := by decide +kernel
  have hpadded : (twoCommands.rebuilt 0).padRight (twoCommands.width + 1) = "G0 G1 ".toList := by
    decide +kernel
  rw [text_annotate horder (by decide), text_annotateBlock_same (hreads.subset (by simp [horder]))
    (by simp [toldBlock_twoCommands]) hcomments, hpadded, toldBlock_twoCommands,
    CommentStyle.format]
  simp

/-- A text between phrases that ends a comment, and goes on with a word. -/
def endingDelimiter (n : Nat) : Text := ")N".toList ++ Number.digits n ++ " ;".toList

theorem split_ended (n : Nat) :
    (Comment.split ("G0 G1  (RAPID".toList ++ endingDelimiter n ++ "MOVE)".toList)).1 =
      "G0 G1 ".toList ++ ' ' :: ('N' :: Number.digits n ++ [' ']) := by
  have hdef : "G0 G1  (RAPID".toList ++ endingDelimiter n ++ "MOVE)".toList =
      "G0 G1  ".toList ++ (["(RAPID)".toList].flatten ++
        (('N' :: Number.digits n ++ [' ']) ++ ";MOVE)".toList)) := by
    simp [endingDelimiter]
  have hplain : Comment.IsPlain ('N' :: Number.digits n ++ [' ']) :=
    (Reading.isWordText_numbered (.ofNat n)).isPlain.append ⟨by decide, by decide⟩
  have hclosed : Comment.IsClosed "(RAPID)".toList := ⟨"RAPID".toList, by decide⟩
  rw [hdef, Comment.split, Comment.scan_plain ⟨by decide, by decide⟩,
    Comment.scan_closed (by simpa using hclosed), Comment.scan_plain hplain]
  have hlast : (Comment.scan .outside ";MOVE)".toList).1 = [] := by decide
  rw [hlast]
  simp

theorem mem_tokens_ended (n : Nat) : ('N' :: Number.digits n, false) ∈
    (Reading.ofText ("G0 G1  (RAPID".toList ++ endingDelimiter n ++ "MOVE)".toList)).tokens := by
  have hword : Reading.IsWordText ('N' :: Number.digits n) := Reading.isWordText_numbered (.ofNat n)
  rw [Reading.tokens_ofText, Reading.instruction_ofText, split_ended, Reading.cut, if_neg, if_neg]
  · refine List.mem_map.mpr ⟨_, ?_, rfl⟩
    have htokens : Token.tokens ('N' :: Number.digits n ++ [' ']) = ['N' :: Number.digits n] :=
      hword.isToken.tokens_append []
    have hG0 : "G0".toList ∈ Token.tokens "G0 G1".toList := by decide
    have hG1 : "G1".toList ∈ Token.tokens "G0 G1".toList := by decide
    change _ ∈ Token.tokens ("G0".toList ++ ' ' :: ("G1".toList ++ ' ' :: (' ' :: _)))
    rw [(Token.isToken_of_mem_tokens hG0).tokens_append,
      (Token.isToken_of_mem_tokens hG1).tokens_append,
      Token.tokens_cons_of_blank isBlank_space, htokens]
    simp
  · intro hmeta
    rcases hasMeta_append_space.mp (hasMeta_of_isInfix (Text.trim_isInfix _) hmeta) with h | h
    · revert h
      decide
    · rcases hasMeta_append_space.mp h with h | h
      · rw [hword.not_meta] at h
        cases h
      · revert h
        decide
  · rw [Reading.isPassedOver_congr (Text.head?_trim _)]
    intro h
    cases h

def longNumber : Nat := 10 ^ Number.digitLimit

theorem long_digits : Number.digitLimit < (Number.digits longNumber).length := by
  refine Nat.lt_of_not_le fun h => ?_
  exact absurd ((Nat.length_toDigits_le_iff (by decide) (by decide)).mp h) (Nat.lt_irrefl _)

/-- A number that is too long follows a closing parenthesis. -/
theorem not_sectioned_refused : (readLines (["G0 G1", "X1"].map String.toList)).Yields
      (start none (some "(T".toList)) () twoCommands ∧
    ¬ ((Desk.ofProgram twoCommands).after (endingDelimiter longNumber)
      [.annotate .parentheses, .remove 1]).program.Sectioned := by
  have horder : twoCommands.order = [0, 1] := by decide +kernel
  refine ⟨readLines_twoCommands, not_sectioned_remove readLines_twoCommands horder ?_⟩
  rw [text_annotate_twoCommands]
  exact isReadable_of_long long_digits (mem_tokens_ended _)

end Program

end PartProgram
