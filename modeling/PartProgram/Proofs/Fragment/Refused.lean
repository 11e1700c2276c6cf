import PartProgram.Proofs.Action.Confined
import PartProgram.Proofs.Fragment.InstructionOrder
import PartProgram.Proofs.Program.Annotated
import PartProgram.Proofs.Program.Halfway

/-! # Refusals

Reading, annotating and joining programs are refused for what the programs say, never
for how the steps of the work ask for words, blocks and places, and none of them tells
of an error in the log.
-/
namespace PartProgram

def Report.isRoutine : Report → Bool
  | log level _ _ => level.rank < Level.error.rank
  | output _ => true

/-- Those that a command can meet and no user is told of. -/
inductive Fault.Escapes : Fault → Prop where
  | longNumeral (count : Nat) : Escapes (.longNumeral count)
  | unwritableNumber : Escapes .unwritableNumber
  | namelessPath (path : Text) : Escapes (.namelessPath path)
  | badName (name : Text) : Escapes (.badName name)
  | linkLoop (path : Text) : Escapes (.linkLoop path)
  | nullInPath : Escapes .nullInPath
  | linksTooDeep : Escapes .linksTooDeep
  | tooDeep : Escapes .tooDeep
  | noOutput : Escapes .noOutput
  | noExtension : Escapes .noExtension
  | notALevel (word : LogWord) : Escapes (.notALevel word)
  | file {cause : FileFault} (path : Text) (h : cause ≠ .missing) : Escapes (.file cause path)

theorem Fault.Escapes.kind_eq {fault : Fault} (h : fault.Escapes) : fault.kind = .unexpected := by
  cases h with
  | @file cause path hne => cases cause <;> first | rfl | exact absurd rfl hne
  | _ => rfl

/-- Those that work on programs and files can meet. -/
def Fault.Arises (fault : Fault) : Prop :=
  fault.Escapes ∨ fault.kind = .notFound ∨ fault.kind = .layout

theorem Fault.arises_file (cause : FileFault) (path : Text) : (Fault.file cause path).Arises := by
  by_cases h : cause = .missing
  · subst h
    exact .inr (by simp [Fault.kind])
  · exact .inl (.file path h)

theorem Fault.arises_layout (source : Text) (cause : LayoutFault) :
    (Fault.layout source cause).Arises := .inr (by simp [Fault.kind])

/-- The action reports no error, and is refused only for faults that can arise. -/
abbrev Action.Tame {σ α : Type} (a : Action σ α) (s : σ) : Prop :=
  a.Confined (Report.isRoutine · = true) Fault.Arises s

open PartProgram.Action

theorem Action.tame_log {σ : Type} {s : σ} {level : Level} {channel : Channel} {message : String}
    (h : level.rank < Level.error.rank) :
    (Action.log level channel message : Action σ Unit).Tame s :=
  confined_log (decide_eq_true h)

theorem Numbers.read_refused {s : Text} {fault : Fault} (h : Numbers.read s = .error fault) :
    fault.Arises := by
  unfold Numbers.read at h
  dsimp only at h
  split at h
  · cases h
    exact .inl (.longNumeral _)
  · cases h
  · cases h

theorem Word.ofText_refused {s : Text} {c : Option WordId} {verbatim : Bool} {fault : Fault}
    (hne : s ≠ []) (h : Word.ofText s c verbatim = .error fault) : fault.Arises := by
  obtain ⟨a, rest, rfl⟩ := List.exists_cons_of_ne_nil hne
  simp only [Word.ofText] at h
  cases hread : Numbers.read rest with
  | ok numbers => simp [hread, Except.map] at h
  | error fault' =>
    obtain rfl : fault' = fault := by simpa [hread, Except.map] using h
    exact Numbers.read_refused hread

theorem Number.text_ne_nil (i : Int) : text i ≠ [] := by
  cases i with
  | ofNat n => exact digits_ne_nil n
  | negSucc n => exact List.cons_ne_nil _ _

theorem Word.setText_refused {w : Word} {s : Text} {fault : Fault} (hne : s ≠ [])
    (h : (w.setText s).2 = .error fault) : fault.Arises := by
  obtain ⟨a, rest, rfl⟩ := List.exists_cons_of_ne_nil hne
  simp only [Word.setText] at h
  split at h
  · rename_i hread
    cases h
    exact Numbers.read_refused hread
  · cases h

theorem Word.numbered_ne_nil {w : Word} {i : Int} {text : Text} (h : w.numbered i = .ok text) :
    text ≠ [] := by
  unfold Word.numbered at h
  split at h
  · cases h
  · rename_i number hnumber
    cases h
    simp only [Number.text?] at hnumber
    split at hnumber
    · cases hnumber
      exact fun hnil => Number.text_ne_nil i (List.append_eq_nil_iff.mp hnil).2
    · cases hnumber

theorem Reading.token_ne_nil {line : Text} {x : Text × Bool} (hx : x ∈ (ofText line).tokens) :
    x.1 ≠ [] := by
  rw [tokens_ofText, cut] at hx
  split at hx
  · cases hx
  · split at hx
    · rename_i hmeta
      obtain rfl := List.mem_singleton.mp hx
      intro hnil
      simp only at hnil
      rw [hnil] at hmeta
      revert hmeta
      decide
    · obtain ⟨t, ht, rfl⟩ := List.mem_map.mp hx
      exact (Token.isToken_of_mem_tokens ht).ne_nil

namespace Program

variable {p : Program} {id : BlockId}

theorem tame_addWord {s : Text} (hs : s ≠ []) (c : Option WordId) (verbatim : Bool) :
    (addWord s c verbatim).Tame p :=
  (confined_ofExcept fun _ h => Word.ofText_refused hs h).bind fun _ _ _ =>
    confined_get.bind fun _ _ _ => (confined_modify _).bind fun _ _ _ => confined_pure _

theorem tame_readToken {x : Text × Bool} (hx : x.1 ≠ []) (id : BlockId) (c : Option WordId) :
    (readToken id c x).Tame p :=
  ((tame_addWord hx c x.2).bind fun _ _ _ => confined_get.bind fun _ _ _ => confined_pure _).bind
    fun _ _ _ => confined_get.bind fun _ _ _ =>
      (confined_modify _).bind fun _ _ _ => confined_pure _

theorem tame_setWordText {text : Text} (ht : text ≠ []) (w : WordId) (p : Program) :
    (setWordText w text).Tame p := by
  refine confined_get_bind ?_
  split
  · exact confined_pure _
  · exact (confined_modify _).bind fun _ _ _ =>
      confined_ofExcept fun _ h => Word.setText_refused ht h

theorem tame_setWordInt (w : WordId) (i : Int) (p : Program) : (setWordInt w i).Tame p := by
  refine confined_get_bind ?_
  split
  · exact confined_pure _
  · rename_i v _
    refine (confined_ofExcept fun fault h => ?_).bind fun text _ h =>
      tame_setWordText (Word.numbered_ne_nil (Action.yields_ofExcept.mp h).1) w _
    unfold Word.numbered at h
    split at h
    · cases h
      exact .inl .unwritableNumber
    · cases h

theorem tame_readBlock (id : BlockId) (c : Option WordId) (p : Program) :
    (readBlock id c).Tame p := by
  rw [readBlock_eq]
  refine confined_get_bind ((confined_modify _).bind fun _ _ _ => ?_)
  refine (confined_forIn_report (by simp [Report.isRoutine, Level.rank])).bind fun _ _ _ => ?_
  refine (confined_foldlM (fun c x hx _ => ?_) c _).bind fun _ _ _ =>
    (confined_modify _).bind fun _ _ _ => confined_pure _
  exact tame_readToken (Reading.token_ne_nil hx) id c

theorem tame_addBlock (text : Text) (c : Option WordId) (p : Program) :
    (addBlock text c).Tame p :=
  confined_get.bind fun _ _ _ => (confined_modify _).bind fun _ _ _ =>
    (tame_readBlock _ c _).bind fun _ _ _ => confined_pure _

theorem tame_classify (p : Program) : classify.Tame p := by
  refine confined_get_bind ?_
  split
  · exact confined_pure _
  · dsimp only
    split
    · exact confined_modify _
    · exact (tame_log (by decide)).bind fun _ _ _ => confined_modify _

theorem tame_reread (p : Program) : reread.Tame p :=
  confined_get.bind fun _ _ _ =>
    (confined_fold (fun c id _ _ => tame_readBlock id c _) none _).bind fun _ _ _ => tame_classify _

theorem tame_readLines (ls : List Text) (p : Program) : (readLines ls).Tame p := by
  refine (confined_fold (fun c line _ _ => ?_) none _).bind fun _ _ _ =>
    (confined_modify _).bind fun _ _ _ => tame_classify _
  exact (tame_addBlock line c _).bind fun _ _ _ => confined_get.bind fun _ _ _ => confined_pure _

theorem tame_annotateBlock (delimiter : Text) (style : CommentStyle) (column : Nat) (id : BlockId)
    (p : Program) : (annotateBlock delimiter style column id).Tame p := by
  refine (confined_ofState _).bind fun _ _ _ => confined_get_bind ?_
  split
  · exact confined_pure _
  · exact (confined_get.bind fun _ _ _ => confined_modify _).bind fun _ _ _ => confined_pure _

theorem tame_annotate (delimiter : Text) (style : CommentStyle) (p : Program) :
    (annotate delimiter style).Tame p := by
  refine confined_get_bind (confined_get_bind ?_)
  refine (confined_fold (fun _ id _ _ => ?_) 0 _).bind fun _ _ _ =>
    (tame_log (by decide)).bind fun _ _ _ => confined_pure _
  refine Confined.bind (tame_annotateBlock delimiter style _ id _) fun _ _ _ => ?_
  split <;> exact confined_pure _

theorem tame_refuse {α : Type} (cause : LayoutFault) (p : Program) :
    (refuse cause : Action Program α).Tame p :=
  confined_get.bind fun _ _ _ => confined_throw (Fault.arises_layout _ cause)

theorem tame_indexOf (h : id ∈ p.order) : (indexOf id).Tame p := by
  refine confined_get_bind ?_
  split
  · exact confined_pure _
  · rename_i hnone
    exact absurd h (List.idxOf?_eq_none_iff.mp hnone)

theorem lt_of_idxOf? {i : Nat} (h : p.order.idxOf? id = some i) : i < p.length :=
  (List.idxOf?_eq_some_iff.mp h).1

theorem tame_moveBlock {i j : Nat} (hi : i < p.length) (hj : j ≤ p.length) :
    (moveBlock i j).Tame p := by
  have hrun : (moveBlock i j).run p = _ := moveBlock_run (by omega) (by omega)
  split at hrun
  · exact .of_run (b := pure ()) hrun (confined_pure _)
  · exact .of_run hrun (tame_reread _)

theorem tame_replaceBlock {i : Nat} (hi : i < p.length) (id : BlockId) :
    (replaceBlock i id).Tame p :=
  .of_run (replaceBlock_run id (by omega)) (tame_reread _)

theorem tame_removeBlock {i : Nat} (hi : i < p.length) : (removeBlock i).Tame p :=
  .of_run (removeBlock_run (by omega)) (tame_reread _)

theorem tame_findRemarks (p : Program) : findRemarks.Tame p := by
  refine confined_get_bind ?_
  split
  · exact confined_pure _
  · exact tame_refuse _ p
  · exact tame_refuse _ p

theorem otherRemark_mem (hp : p.Settled) (h : id ∈ p.otherRemarks) : id ∈ p.order := by
  cases hs : p.sections with
  | none => simp [otherRemarks, hs] at h
  | some s =>
    simp only [otherRemarks, hs, Option.map_some, Option.getD_some] at h
    rw [hp.sections s hs] at h
    exact List.mem_of_mem_filter h

theorem tame_moveToolRemark (hp : p.Settled) : moveToolRemark.Tame p := by
  refine (tame_findRemarks p).bind fun found p₁ hfound => ?_
  obtain ⟨htool, hoperation, rfl⟩ := yields_findRemarks.mp hfound
  have htool' : found.1 ∈ p₁.toolRemarks := htool ▸ List.mem_singleton_self _
  refine (tame_indexOf (toolRemark_mem hp htool').1).bind fun i p₂ hi => ?_
  obtain ⟨hi, rfl⟩ := yields_indexOf.mp hi
  refine (tame_indexOf (otherRemark_mem hp (List.mem_of_head? hoperation))).bind fun j p₃ hj => ?_
  obtain ⟨hj, rfl⟩ := yields_indexOf.mp hj
  exact (tame_moveBlock (lt_of_idxOf? hi) (lt_of_idxOf? hj)).bind fun _ _ _ =>
    confined_get.bind fun _ _ _ => tame_log (by decide)

theorem tame_findOffsets (p : Program) : findOffsets.Tame p := by
  refine confined_get_bind ?_
  split
  · exact confined_pure _
  · exact tame_refuse _ p

theorem tame_checkOffset (role : OffsetRole) (id : BlockId) (p : Program) :
    (checkOffset role id).Tame p := by
  refine confined_get_bind ?_
  split
  · exact confined_pure _
  · exact tame_refuse _ p

theorem tame_replacePair {i : Nat} {length : BlockId} (hp : p.Settled) (hi : i < p.length)
    (hlength : p.order[i + 1]? = some length) (text : Text) (c : Option WordId)
    {rest : BlockId → Action Program BlockId} (hrest : ∀ combined q, (rest combined).Tame q) :
    (do
      let combined ← addBlock text c
      replaceBlock i combined
      removeBlock (← indexOf length)
      rest combined : Action Program BlockId).Tame p := by
  refine (tame_addBlock text c p).bind fun combined p₁ hadd => ?_
  obtain ⟨hadds, hreads⟩ := addBlock_yields hp.reads hadd
  have hi₁ : i < p₁.length := by rwa [Program.length, hadds.order]
  refine (tame_replaceBlock hi₁ combined).bind fun _ p₂ hreplace => ?_
  have horder : p₂.order = p.order.set i combined := by
    have hstored : ∀ id ∈ p₁.order.set i combined, id < p₁.store.size := by
      intro id hid
      refine hreads.stored id (List.mem_cons.mpr ?_)
      exact (List.mem_or_eq_of_mem_set hid).symm.imp_right fun hid => hadds.order ▸ hid
    have hstate := hreplace.2
    rw [replaceBlock_run combined (by omega)] at hstate
    rw [← hstate, ← hadds.order]
    exact (reread_keeps (p := { p₁ with order := p₁.order.set i combined }) hstored).1
  -- The second block is not the one replaced, so it still has a place to be removed from.
  have hmem : length ∈ p₂.order := by
    refine List.mem_of_getElem? (i := i + 1) ?_
    rw [horder, List.getElem?_set_ne (by omega), hlength]
  refine (tame_indexOf hmem).bind fun k p₃ hk => ?_
  obtain ⟨hk, rfl⟩ := yields_indexOf.mp hk
  exact (tame_removeBlock (lt_of_idxOf? hk)).bind fun _ q _ => hrest combined q

theorem tame_combineOffsets (hp : p.Settled) : combineOffsets.Tame p := by
  refine (tame_findOffsets p).bind fun found p₁ hfound => ?_
  obtain ⟨hfixture, hlength, rfl⟩ := yields_findOffsets.mp hfound
  refine (tame_indexOf (body_subset hp (List.mem_of_find?_eq_some hfixture))).bind
    fun i p₂ hi => ?_
  obtain ⟨hi, rfl⟩ := yields_indexOf.mp hi
  refine (tame_indexOf (body_subset hp (List.mem_of_find?_eq_some hlength))).bind
    fun j p₃ hj => ?_
  obtain ⟨hj, rfl⟩ := yields_indexOf.mp hj
  split
  · exact (tame_refuse _ _).bind fun _ _ h => absurd h yields_refuse
  rename_i hnext
  refine (tame_checkOffset _ _ _).bind fun _ p₄ hcheck => ?_
  obtain ⟨-, rfl⟩ := yields_checkOffset.mp hcheck
  refine (tame_checkOffset _ _ _).bind fun _ p₅ hcheck => ?_
  obtain ⟨-, rfl⟩ := yields_checkOffset.mp hcheck
  refine confined_get_bind ?_
  split
  · exact (tame_refuse _ _).bind fun _ _ h => absurd h yields_refuse
  have hget : p₅.order[i + 1]? = some found.2 := by
    obtain ⟨hlt, hget, -⟩ := List.idxOf?_eq_some_iff.mp hj
    rw [← not_ne_iff.mp hnext, List.getElem?_eq_getElem hlt, hget]
  exact tame_replacePair hp (lt_of_idxOf? hi) hget _ _ fun _ _ =>
    confined_get.bind fun _ _ _ => (tame_log (by decide)).bind fun _ _ _ => confined_pure _

theorem tame_normalize (hp : p.Settled) : normalize.Tame p := by
  refine (tame_moveToolRemark hp).bind fun _ p₁ hmove => ?_
  obtain ⟨_, _, _, _, -, -, -, -, -, hsettled⟩ := moveToolRemark_yields hp hmove
  exact (tame_combineOffsets hsettled).bind fun _ _ _ => confined_pure _

theorem tame_renumber (id : BlockId) (number : Int) (p : Program) :
    (renumber id number).Tame p := by
  refine confined_get_bind ?_
  split
  · exact confined_pure _
  · split
    · exact confined_throw (.inl .unwritableNumber)
    · exact (tame_log (by decide)).bind fun _ _ _ =>
        (tame_setWordInt _ _ _).bind fun _ _ _ => confined_pure _

theorem tame_joinOn (step : Int) (count : Nat) (a : Assembly) (p : Program) :
    (joinOn step count a).Tame p := by
  refine confined_get_bind ((confined_fold (fun a id _ q => ?_) a _).bind fun _ _ _ =>
    confined_pure _)
  exact (tame_renumber id a.next q).bind fun _ _ _ => confined_get.bind fun _ _ _ => confined_pure _

end Program

open Program in
theorem tame_joinFragments {fragments : List Program} (h : ∀ p ∈ fragments, p.Settled)
    (start step : Int) : (joinFragments start step).Tame fragments :=
  (confined_sweep (fun _ p hp => tame_normalize (h p hp)) ()).bind fun _ _ _ =>
    confined_get.bind fun _ _ _ =>
      (confined_sweep (fun a p _ => tame_joinOn step _ a p) _).bind fun _ _ _ => confined_pure _

end PartProgram
