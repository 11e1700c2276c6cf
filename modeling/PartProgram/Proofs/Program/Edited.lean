import PartProgram.Proofs.Program.Beside
import PartProgram.Proofs.Program.Edit

/-! # Edited programs

However a program is edited, and whatever descriptions are read in between, it looks
like the program that is read from its lines as they stand then, and is described like
that one. An edit that is refused leaves all of this as it was.
-/
namespace PartProgram

theorem map_moveItem {α β : Type} (f : α → β) (i j : Nat) (l : List α) :
    (moveItem i j l).map f = moveItem i j (l.map f) := by
  rw [moveItem, moveItem, List.getElem?_map]
  cases l[i]? with
  | none => rfl
  | some a => rw [List.map_insertIdx, ← List.eraseIdx_map]; rfl

namespace Program

inductive Look where
  | word (w : WordId)
  | block (id : BlockId)
  deriving DecidableEq, Repr

def Look.read (delimiter : Text) : Look → StateM Program Text
  | word w => describeWord w
  | block id => describeBlock delimiter id

def look (delimiter : Text) (p : Program) (l : Look) : Program := ((l.read delimiter).run p).2

inductive Edit where
  /-- A new block is made of a text, descriptions are read, and the block is put in. -/
  | replace (index : Int) (text : Text) (looks : List Look)
  | remove (index : Int)
  | move (index target : Int)
  | reread
  | look (l : Look)
  deriving DecidableEq, Repr

def Edit.perform (delimiter : Text) : Edit → Action Program Unit
  | replace index text looks => do
    let id ← addBlock text none
    modify fun p => looks.foldl (Program.look delimiter) p
    replaceBlock index id
  | remove index => removeBlock index
  | move index target => moveBlock index target
  | reread => Program.reread
  | look l => modify fun p => p.look delimiter l

def edit (delimiter : Text) (p : Program) (e : Edit) : Program := ((e.perform delimiter).run p).state

/-- What an edit makes of lines; nothing if it is refused. -/
def Edit.onLines (ls : List Text) : Edit → Option (List Text)
  | replace index text _ =>
    if isReadable text = true ∧ 0 ≤ index ∧ index < ls.length then some (ls.set index.toNat text)
    else none
  | remove index =>
    if 0 ≤ index ∧ index < ls.length then some (ls.eraseIdx index.toNat) else none
  | move index target =>
    if (0 ≤ index ∧ index < ls.length) ∧ 0 ≤ target ∧ target ≤ ls.length then
      some (moveItem index.toNat target.toNat ls)
    else none
  | reread | look _ => some ls

variable {p p' : Program} {delimiter : Text} {path mark : Option Text} {ls : List Text} {u : Unit}

/-- A program that was read, with descriptions that are kept as they are. -/
structure Current (delimiter : Text) (path mark : Option Text) (p : Program) : Prop where
  threaded : p.Threaded p.order
  settled : p.Settled
  described : p.Described delimiter
  path : p.path = path
  mark : p.sections.map Sections.toolMark = mark

theorem readLines_current (delimiter : Text) (h : (readLines ls).Yields (start path mark) u p) :
    p.Current delimiter path mark ∧ p.lines = ls := by
  obtain ⟨hfresh, hlines⟩ := readLines_fresh h
  obtain ⟨hsettled, hpath, hmark, -⟩ := readLines_yields h
  exact ⟨⟨hfresh.toThreaded, hsettled, hfresh.described delimiter, hpath, hmark⟩, hlines⟩

theorem Current.kept (hp : p.Current delimiter path mark) (h : Kept p p')
    (hd : p'.Described delimiter) : p'.Current delimiter path mark :=
  ⟨h.threaded hp.threaded, h.settled hp.threaded hp.settled, hd, h.path.trans hp.path,
    by rw [h.sections, hp.mark]⟩

theorem Current.isReadable (hp : p.Current delimiter path mark) :
    ∀ id ∈ p.order, isReadable (p.block id).text = true :=
  fun id hid => (hp.settled.reads.reading id hid).isReadable

theorem Current.look (hp : p.Current delimiter path mark) (l : Look) :
    Kept p (p.look delimiter l) ∧ (p.look delimiter l).Current delimiter path mark := by
  cases l with
  | word w =>
    obtain ⟨hkept, hd, -⟩ := describeWord_spec hp.threaded hp.described w
    exact ⟨hkept, hp.kept hkept hd⟩
  | block id =>
    obtain ⟨hkept, hd, -⟩ := describeBlock_spec hp.threaded hp.described id
    exact ⟨hkept, hp.kept hkept hd⟩

theorem Current.looks (hp : p.Current delimiter path mark) (l : List Look) :
    Kept p (l.foldl (Program.look delimiter) p) ∧
      (l.foldl (Program.look delimiter) p).Current delimiter path mark := by
  induction l generalizing p with
  | nil => exact ⟨.refl p, hp⟩
  | cons x rest ih =>
    obtain ⟨hkept, hp₁⟩ := hp.look x
    obtain ⟨hkept', hp₂⟩ := ih hp₁
    exact ⟨hkept.trans hkept', hp₂⟩

theorem store_describeWords (ws : List WordId) (p : Program) :
    ((ws.mapM describeWord).run p).2.store = p.store := by
  induction ws generalizing p with
  | nil => rfl
  | cons w ws ih =>
    rw [List.mapM_cons, runState_bind, runState_bind, StateT.run_pure]
    refine (ih _).trans ?_
    rw [describeWord_run]
    split <;> rfl

theorem text_keepDescription (p : Program) (i id : BlockId) (d : Text) :
    ((p.keepDescription i d).block id).text = (p.block id).text := by
  simp only [keepDescription, block, modifyBlock, Array.getElem?_modify]
  split
  · cases p.store[id]? <;> rfl
  · rfl

theorem text_look (p : Program) (l : Look) (id : BlockId) :
    ((p.look delimiter l).block id).text = (p.block id).text := by
  cases l with
  | word w =>
    rw [Program.look, Look.read, describeWord_run]
    split <;> rfl
  | block i =>
    rw [Program.look, Look.read, describeBlock_run]
    split
    · exact text_keepDescription p i id _
    · rw [text_keepDescription, block, store_describeWords]
      rfl

theorem text_looks (p : Program) (l : List Look) (id : BlockId) :
    ((l.foldl (Program.look delimiter) p).block id).text = (p.block id).text := by
  induction l generalizing p with
  | nil => rfl
  | cons x rest ih => rw [List.foldl_cons, ih, text_look]

/-- Stored blocks in any order are a program again once they are read. -/
theorem Current.reorder (hp : p.Current delimiter path mark) (order : List BlockId)
    (hs : ∀ id ∈ order, id < p.store.size) (hn : order.Nodup)
    (hr : ∀ id ∈ order, PartProgram.isReadable (p.block id).text = true) :
    ∃ p', Program.reread.Yields { p with order } () p' ∧ p'.Current delimiter path mark ∧
      p'.lines = order.map fun id => (p.block id).text := by
  obtain ⟨p', hread⟩ := reread_succeeds (p := { p with order }) hs hr
  obtain ⟨hsame, hsettled⟩ := reorder_yields hs hn hread
  have hfresh := reread_fresh (p := { p with order }) hs hn hread
  refine ⟨p', hread, ⟨hfresh.toThreaded, hsettled, hfresh.described delimiter,
    hsame.path.trans hp.path, hsame.mark.trans hp.mark⟩, ?_⟩
  rw [lines, blocks, List.map_map, hsame.order]
  exact List.map_congr_left fun id _ => hsame.text id

theorem length_lines (p : Program) : p.lines.length = p.length := by
  rw [lines, blocks, List.length_map, List.length_map, length]

theorem lines_eq (p : Program) : p.lines = p.order.map fun id => (p.block id).text := by
  rw [lines, blocks, List.map_map]
  rfl

theorem checkIndex_refused {index : Int} (h : ¬ (0 ≤ index ∧ index < p.length)) :
    (checkIndex index).run p = ⟨.error (.blockIndex index p.length), p, []⟩ := by
  rw [checkIndex, Action.run_bind_ok _ (Action.run_get p), if_neg h]
  rfl

theorem Current.remove (hp : p.Current delimiter path mark) {index : Int}
    (h : 0 ≤ index ∧ index < p.length) :
    ∃ p', (removeBlock index).Yields p () p' ∧ p'.Current delimiter path mark ∧
      p'.lines = p.lines.eraseIdx index.toNat := by
  have hsub := List.eraseIdx_sublist p.order index.toNat
  obtain ⟨p', hread, hcurrent, hlines⟩ := hp.reorder (p.order.eraseIdx index.toNat)
    (fun id hid => hp.threaded.stored id (hsub.subset hid)) (hp.settled.nodup.sublist hsub)
    fun id hid => hp.isReadable id (hsub.subset hid)
  refine ⟨p', ?_, hcurrent, ?_⟩
  · simp only [removeBlock, Action.yields_bind, yields_checkIndex, Action.yields_modify]
    exact ⟨_, _, ⟨h, rfl, rfl⟩, ⟨⟩, _, rfl, hread⟩
  · rw [hlines, lines_eq, List.eraseIdx_map]

theorem Current.move (hp : p.Current delimiter path mark) {index target : Int}
    (h : 0 ≤ index ∧ index < p.length) (ht : 0 ≤ target ∧ target ≤ p.length) :
    ∃ p', (moveBlock index target).Yields p () p' ∧ p'.Current delimiter path mark ∧
      p'.lines = moveItem index.toNat target.toNat p.lines := by
  have hperm : (moveItem index.toNat target.toNat p.order).Perm p.order :=
    moveItem_perm (by have := ht.2; simp only [length] at this; omega)
  obtain ⟨p', hread, hcurrent, hlines⟩ := hp.reorder (moveItem index.toNat target.toNat p.order)
    (fun id hid => hp.threaded.stored id (hperm.mem_iff.mp hid))
    (hperm.nodup_iff.mpr hp.settled.nodup) fun id hid => hp.isReadable id (hperm.mem_iff.mp hid)
  -- A block that is put where it stands is not even read again.
  by_cases hstay : target = index ∨ target = index + 1
  · refine ⟨p, ?_, hp, ?_⟩
    · simp only [moveBlock, Action.yields_bind, yields_checkIndex, Action.yields_get, and_assoc,
        exists_and_left, exists_eq_left]
      rw [if_pos ht, if_pos hstay]
      exact ⟨h.1, h.2, Action.yields_pure.mpr ⟨rfl, rfl⟩⟩
    · rw [moveItem_eq_self (by omega)]
  · refine ⟨p', ?_, hcurrent, ?_⟩
    · simp only [moveBlock, Action.yields_bind, yields_checkIndex, Action.yields_get, and_assoc,
        exists_and_left, exists_eq_left]
      rw [if_pos ht, if_neg hstay, Action.yields_bind]
      exact ⟨h.1, h.2, ⟨⟩, _, Action.yields_modify.mpr rfl, hread⟩
    · rw [hlines, lines_eq, map_moveItem]

theorem moveBlock_refused {index target : Int}
    (h : ¬ ((0 ≤ index ∧ index < p.length) ∧ 0 ≤ target ∧ target ≤ p.length)) :
    (moveBlock index target).run p =
      ⟨.error (if 0 ≤ index ∧ index < p.length then .moveTarget target p.length
        else .blockIndex index p.length), p, []⟩ := by
  split
  · rename_i hindex
    have ht : ¬ (0 ≤ target ∧ target ≤ (p.length : Int)) := fun ht => h ⟨hindex, ht⟩
    have hcheck : (checkIndex index).run p = ⟨.ok index.toNat, p, []⟩ := by
      rw [checkIndex, Action.run_bind_ok _ (Action.run_get p), if_pos hindex]
      rfl
    rw [moveBlock, Action.run_bind_ok _ hcheck, Action.run_bind_ok _ (Action.run_get p), if_neg ht]
    rfl
  · rename_i hindex
    exact Action.run_bind_error _ (checkIndex_refused hindex)

theorem Current.replace (hp : p.Current delimiter path mark) {index : Int} {text : Text}
    (looks : List Look) (hr : PartProgram.isReadable text = true) (h : 0 ≤ index ∧ index < p.length) :
    ∃ p', ((Edit.replace index text looks).perform delimiter).Yields p () p' ∧
      p'.Current delimiter path mark ∧ p'.lines = p.lines.set index.toNat text := by
  obtain ⟨id, p₁, hadd⟩ := addBlock_succeeds hr p none
  obtain ⟨hadds, -⟩ := addBlock_yields hp.settled.reads hadd
  obtain ⟨hkept, hd⟩ := addBlock_kept hp.threaded hp.described text
  rw [hadd.2] at hkept hd
  obtain ⟨hkept', hp₂⟩ := (hp.kept hkept hd).looks looks
  set p₂ := looks.foldl (Program.look delimiter) p₁
  have hall := hkept.trans hkept'
  -- The new block is outside the program still, so `hall` says nothing of it.
  have htext : (p₂.block id).text = text := (text_looks p₁ looks id).trans hadds.text_eq
  have hid : id < p₂.store.size := by
    refine Nat.lt_of_lt_of_le ?_ hkept'.size
    rw [hadds.size, hadds.id_eq]
    exact Nat.lt_succ_self _
  have hnot : id ∉ p₂.order := hadds.notMem (hall.order ▸ hp.threaded.stored)
  have hstored : ∀ i ∈ p₂.order.set index.toNat id, i < p₂.store.size := by
    intro i hi
    rcases List.mem_or_eq_of_mem_set hi with hi | rfl
    · exact hp₂.threaded.stored i hi
    · exact hid
  have hreadable : ∀ i ∈ p₂.order.set index.toNat id,
      PartProgram.isReadable (p₂.block i).text = true := by
    intro i hi
    rcases List.mem_or_eq_of_mem_set hi with hi | rfl
    · exact hp₂.isReadable i hi
    · exact htext.symm ▸ hr
  obtain ⟨p', hread, hcurrent, hlines⟩ :=
    hp₂.reorder _ hstored (hp₂.settled.nodup.set hnot) hreadable
  refine ⟨p', ?_, hcurrent, ?_⟩
  · have hindex : 0 ≤ index ∧ index < p₂.length := by rw [length, hall.order]; exact h
    simp only [Edit.perform, replaceBlock, Action.yields_bind, yields_checkIndex,
      Action.yields_modify]
    exact ⟨id, p₁, hadd, ⟨⟩, p₂, rfl, _, _, ⟨hindex, rfl, rfl⟩, ⟨⟩, _, rfl, hread⟩
  · rw [hlines, ← hall.lines, lines_eq, List.map_set, htext]

/-- A block that cannot be made, or has no place, leaves the program as it was. -/
theorem Current.replace_refused (hp : p.Current delimiter path mark) {index : Int} {text : Text}
    (looks : List Look)
    (h : ¬ (PartProgram.isReadable text = true ∧ 0 ≤ index ∧ index < p.length)) :
    (∃ fault, (((Edit.replace index text looks).perform delimiter).run p).result = .error fault) ∧
      Kept p (p.edit delimiter (.replace index text looks)) ∧
      (p.edit delimiter (.replace index text looks)).Described delimiter := by
  obtain ⟨hkept, hd⟩ := addBlock_kept hp.threaded hp.described text
  rcases hadd : (addBlock text none).run p with ⟨result, p₁, reports⟩
  rw [hadd] at hkept hd
  cases result with
  | error fault =>
    rw [edit, Edit.perform, Action.run_bind_error _ hadd]
    exact ⟨⟨fault, rfl⟩, hkept, hd⟩
  | ok id =>
    have hr : PartProgram.isReadable text = true :=
      isReadable_of_addBlock (show (addBlock text none).Yields p id _ from ⟨by rw [hadd], rfl⟩)
    obtain ⟨hkept', hp₂⟩ := (hp.kept hkept hd).looks looks
    have hall := hkept.trans hkept'
    have hindex : ¬ (0 ≤ index ∧ index < (looks.foldl (Program.look delimiter) p₁).length) := by
      rw [length, hall.order]
      exact fun hindex => h ⟨hr, hindex⟩
    rw [edit, Edit.perform, Action.run_bind_ok _ hadd,
      Action.run_bind_ok _ (Action.run_modify _ _), replaceBlock,
      Action.run_bind_error _ (checkIndex_refused hindex)]
    exact ⟨⟨_, rfl⟩, hall, hp₂.described⟩

/-- An edit does to the program what it does to its lines, and is refused exactly if it makes
nothing of them; then the program stays. -/
structure Follows (delimiter : Text) (path mark : Option Text) (p : Program) (e : Edit) : Prop where
  current : (p.edit delimiter e).Current delimiter path mark
  lines : (p.edit delimiter e).lines = (e.onLines p.lines).getD p.lines
  refused : (∃ fault, ((e.perform delimiter).run p).result = .error fault) ↔
    e.onLines p.lines = none
  kept : e.onLines p.lines = none → Kept p (p.edit delimiter e)

theorem follows_of_done {e : Edit} (hls : e.onLines p.lines = some ls)
    (hdone : ∃ p', (e.perform delimiter).Yields p () p' ∧ p'.Current delimiter path mark ∧
      p'.lines = ls) : Follows delimiter path mark p e := by
  obtain ⟨p', ⟨hresult, rfl⟩, hcurrent, hlines⟩ := hdone
  refine ⟨hcurrent, ?_, ?_, ?_⟩
  · rw [hls]
    exact hlines
  · rw [hls, hresult]
    simp
  · rw [hls]
    simp

theorem Current.follows_of_refused (hp : p.Current delimiter path mark) {e : Edit}
    (hnone : e.onLines p.lines = none)
    (hrefused : (∃ fault, ((e.perform delimiter).run p).result = .error fault) ∧
      Kept p (p.edit delimiter e) ∧ (p.edit delimiter e).Described delimiter) :
    Follows delimiter path mark p e := by
  obtain ⟨hfault, hkept, hd⟩ := hrefused
  refine ⟨hp.kept hkept hd, ?_, ⟨fun _ => hnone, fun _ => hfault⟩, fun _ => hkept⟩
  rw [hnone, hkept.lines]
  rfl

theorem Current.follows (hp : p.Current delimiter path mark) (e : Edit) :
    Follows delimiter path mark p e := by
  have hlength := length_lines p
  cases e with
  | replace index text looks =>
    by_cases h : PartProgram.isReadable text = true ∧ 0 ≤ index ∧ index < p.length
    · exact follows_of_done (by rw [Edit.onLines, hlength, if_pos h]) (hp.replace looks h.1 h.2)
    · exact hp.follows_of_refused (by rw [Edit.onLines, hlength, if_neg h])
        (hp.replace_refused looks h)
  | remove index =>
    by_cases h : 0 ≤ index ∧ index < p.length
    · exact follows_of_done (by rw [Edit.onLines, hlength, if_pos h]) (hp.remove h)
    · refine hp.follows_of_refused (by rw [Edit.onLines, hlength, if_neg h]) ?_
      rw [Program.edit, Edit.perform, removeBlock,
        Action.run_bind_error _ (checkIndex_refused h)]
      exact ⟨⟨_, rfl⟩, .refl p, hp.described⟩
  | move index target =>
    by_cases h : (0 ≤ index ∧ index < p.length) ∧ 0 ≤ target ∧ target ≤ p.length
    · exact follows_of_done (by rw [Edit.onLines, hlength, if_pos h]) (hp.move h.1 h.2)
    · refine hp.follows_of_refused (by rw [Edit.onLines, hlength, if_neg h]) ?_
      rw [Program.edit, Edit.perform, moveBlock_refused h]
      exact ⟨⟨_, rfl⟩, .refl p, hp.described⟩
  | reread =>
    obtain ⟨p', hread, hcurrent, hlines⟩ :=
      hp.reorder p.order hp.threaded.stored hp.settled.nodup hp.isReadable
    exact follows_of_done rfl ⟨p', hread, hcurrent, hlines.trans (lines_eq p).symm⟩
  | look l =>
    obtain ⟨hkept, hcurrent⟩ := hp.look l
    exact follows_of_done rfl ⟨_, Action.yields_modify.mpr rfl, hcurrent, hkept.lines⟩

def editAll (delimiter : Text) (p : Program) (es : List Edit) : Program :=
  es.foldl (edit delimiter) p

theorem editAll_concat (delimiter : Text) (p : Program) (es : List Edit) (e : Edit) :
    p.editAll delimiter (es ++ [e]) = (p.editAll delimiter es).edit delimiter e := by
  rw [editAll, List.foldl_append]
  rfl

/-- What edits make of lines; a refused one leaves them. -/
def editLines (ls : List Text) (es : List Edit) : List Text :=
  es.foldl (fun ls e => (e.onLines ls).getD ls) ls

theorem Current.editAll (hp : p.Current delimiter path mark) (es : List Edit) :
    (p.editAll delimiter es).Current delimiter path mark ∧
      (p.editAll delimiter es).lines = editLines p.lines es := by
  induction es generalizing p with
  | nil => exact ⟨hp, rfl⟩
  | cons e es ih =>
    have hfollows := hp.follows e
    obtain ⟨hcurrent, hlines⟩ := ih hfollows.current
    rw [hfollows.lines] at hlines
    exact ⟨hcurrent, hlines⟩

/-- Two programs that look the same, and of which the same descriptions are read. -/
structure SameReading (delimiter : Text) (p q : Program) : Prop where
  path : p.path = q.path
  view : p.view = q.view
  blocks : List.Forall₂ (fun i j => ((describeBlock delimiter i).run p).1 =
    ((describeBlock delimiter j).run q).1) p.order q.order
  words : List.Forall₂ (fun w v => ((describeWord w).run p).1 = ((describeWord v).run q).1)
    p.words q.words

/-- Programs that were read and have the same lines look the same. -/
theorem Current.sameReading {q : Program} (hp : p.Current delimiter path mark)
    (hq : q.Current delimiter path mark) (h : p.lines = q.lines) : SameReading delimiter p q := by
  have hmatched := matched_of_lines hp.threaded hq.threaded h
  refine ⟨hp.path.trans hq.path.symm, ?_, ?_, ?_⟩
  · exact view_eq hp.threaded hq.threaded hp.settled hq.settled (hp.mark.trans hq.mark.symm) h
  · refine forall₂_of_splits hmatched.agree fun _ i _ _ j _ hi hj _ hij _ => ?_
    rw [(describeBlock_spec hp.threaded hp.described i).2.2 (by simp [hi]),
      (describeBlock_spec hq.threaded hq.described j).2.2 (by simp [hj]), hij.description]
  · refine forall₂_of_splits hmatched.phrases fun _ w _ _ v _ hw hv _ hwv _ => ?_
    rw [(describeWord_spec hp.threaded hp.described w).2.2 (by simp [hw]),
      (describeWord_spec hq.threaded hq.described v).2.2 (by simp [hv]), hwv]

/-- After any edits a program is the one that is read from its lines: these follow the edits, the
program looks like the one read from them and is described like it, and an edit that is refused
leaves all of this. -/
theorem edits_match_reading {p : Program} (delimiter : Text)
    (h : (readLines ls).Yields (start path mark) () p) (es : List Edit) :
    (p.editAll delimiter es).lines = editLines ls es ∧
      (∃ q, (readLines (editLines ls es)).Yields (start path mark) () q ∧
        SameReading delimiter (p.editAll delimiter es) q) ∧
      ∀ e fault, ((e.perform delimiter).run (p.editAll delimiter es)).result = .error fault →
        Kept (p.editAll delimiter es) (p.editAll delimiter (es ++ [e])) ∧
          SameReading delimiter (p.editAll delimiter es) (p.editAll delimiter (es ++ [e])) := by
  obtain ⟨hstart, hlines⟩ := readLines_current delimiter h
  obtain ⟨hp, hedited⟩ := hstart.editAll es
  rw [hlines] at hedited
  have hreadable : ∀ line ∈ editLines ls es, PartProgram.isReadable line = true := by
    intro line hline
    rw [← hedited, lines_eq] at hline
    obtain ⟨id, hid, rfl⟩ := List.mem_map.mp hline
    exact hp.isReadable id hid
  obtain ⟨q, hread⟩ := readLines_succeeds hreadable (start path mark)
  obtain ⟨hq, hqlines⟩ := readLines_current delimiter hread
  refine ⟨hedited, ⟨q, hread, hp.sameReading hq (hedited.trans hqlines.symm)⟩, ?_⟩
  intro e fault hfault
  have hfollows := hp.follows e
  have hkept := hfollows.kept (hfollows.refused.mp ⟨fault, hfault⟩)
  rw [editAll_concat]
  exact ⟨hkept, hp.sameReading hfollows.current hkept.lines.symm⟩

/-- A fragment with the mark of a tool, a count on a later block and two empty blocks. -/
def reworkedLines : List Text :=
  ["(T1)", "N1 G0 X1", "", "E3 (A)", "M98 P7", "", "L2 M30"].map String.toList

def reworkedProgram : Program :=
  ((readLines reworkedLines).run (start none (some "(T".toList))).state

/-- A description is read, a block is replaced, one is moved, one that is not there is taken out,
and another one is. -/
def reworkings : List Edit :=
  [.look (.block 1), .replace 3 "G1 E5".toList [.block 7, .word 0], .move 4 1, .remove 9, .remove 2]

theorem edits_match_reading_reworked :
    (readLines reworkedLines).Yields (start none (some "(T".toList)) () reworkedProgram ∧
      editLines reworkedLines reworkings =
        ["(T1)", "M98 P7", "", "G1 E5", "", "L2 M30"].map String.toList ∧
      (reworkedProgram.editAll " | ".toList reworkings).lines =
        editLines reworkedLines reworkings ∧
      (∃ q, (readLines (editLines reworkedLines reworkings)).Yields
          (start none (some "(T".toList)) () q ∧
        SameReading " | ".toList (reworkedProgram.editAll " | ".toList reworkings) q) ∧
      ∀ e fault, ((Edit.perform " | ".toList e).run
          (reworkedProgram.editAll " | ".toList reworkings)).result = .error fault →
        Kept (reworkedProgram.editAll " | ".toList reworkings)
            (reworkedProgram.editAll " | ".toList (reworkings ++ [e])) ∧
          SameReading " | ".toList (reworkedProgram.editAll " | ".toList reworkings)
            (reworkedProgram.editAll " | ".toList (reworkings ++ [e])) := by
  have hread : (readLines reworkedLines).Yields (start none (some "(T".toList)) ()
      reworkedProgram := ⟨by decide +kernel, rfl⟩
  exact ⟨hread, by decide +kernel, edits_match_reading " | ".toList hread reworkings⟩

end Program

end PartProgram
