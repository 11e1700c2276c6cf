import PartProgram.Proofs.Fragment.OffsetsCombined

/-! # Joining that is given up

Fragments are joined exactly if each of them can be brought into its usual form. The
first that cannot is named in the refusal: those before it are in their usual form
then, it has its tool remark moved at most, and those behind it are as they were read.
No number is written before all fragments have passed.
-/
namespace PartProgram

open PartProgram.Action WordGraph

/-- A sweep takes all states through the step, or those before the first that refuses it. -/
theorem Action.sweep_cases {σ : Type} (step : Action σ Unit) (l : List σ) :
    (∃ l', (sweep (fun _ => step) ()).Yields l () l') ∨
      ∃ pre s post done fault, l = pre ++ s :: post ∧
        List.Forall₂ (fun s s' => step.Yields s () s') pre done ∧
        (step.run s).result = .error fault ∧
        ((sweep (fun _ => step) ()).run l).result = .error fault ∧
        ((sweep (fun _ => step) ()).run l).state = done ++ (step.run s).state :: post := by
  induction l with
  | nil => exact .inl ⟨[], yields_sweep_nil.mpr ⟨rfl, rfl⟩⟩
  | cons s rest ih =>
    rcases hs : step s with ⟨result, s', reports⟩
    have hrun : step.run s = ⟨result, s', reports⟩ := hs
    cases result with
    | error fault =>
      refine .inr ⟨[], s, rest, [], fault, rfl, .nil, by rw [hrun], ?_, ?_⟩
      · simp only [run, sweep, hs]
      · simp only [run, sweep, hs, List.nil_append]
    | ok u =>
      have hfirst : step.Yields s () s' := ⟨by rw [hrun], by rw [hrun]⟩
      rcases ih with ⟨l', hl'⟩ | ⟨pre, t, post, done, fault, rfl, hdone, hfault, hresult, hstate⟩
      · exact .inl ⟨s' :: l', yields_sweep_cons.mpr ⟨(), s', l', hfirst, hl', rfl⟩⟩
      · simp only [run] at hresult hstate
        refine .inr ⟨s :: pre, t, post, s' :: done, fault, rfl, .cons hfirst hdone, hfault, ?_, ?_⟩
        · simp only [run, sweep, hs, hresult]
        · simp only [run, sweep, hs, hstate, List.cons_append]

/-- The action is refused for no fault that a user is told apart. -/
abbrev Action.Unexpected {σ α : Type} (a : Action σ α) (s : σ) : Prop :=
  a.Confined (fun _ => True) (·.kind = .unexpected) s

theorem Numbers.read_unexpected {s : Text} {fault : Fault} (h : Numbers.read s = .error fault) :
    fault.kind = .unexpected := by
  simp only [Numbers.read] at h
  split at h
  · cases h
    rfl
  · cases h
  · cases h

theorem Word.setText_unexpected {w : Word} {s : Text} {fault : Fault}
    (h : (w.setText s).2 = .error fault) : fault.kind = .unexpected := by
  cases s with
  | nil =>
    cases h
    rfl
  | cons a rest =>
    simp only [Word.setText] at h
    split at h
    · rename_i hread
      cases h
      exact Numbers.read_unexpected hread
    · cases h

theorem Word.numbered_unexpected {w : Word} {i : Int} {fault : Fault}
    (h : w.numbered i = .error fault) : fault.kind = .unexpected := by
  unfold Word.numbered at h
  split at h
  · cases h
    rfl
  · cases h

namespace Program

theorem unexpected_setWordText (w : WordId) (text : Text) (p : Program) :
    (setWordText w text).Unexpected p := by
  refine confined_get_bind ?_
  split
  · exact confined_pure _
  · exact (confined_modify _).bind fun _ _ _ =>
      confined_ofExcept fun _ h => Word.setText_unexpected h

theorem unexpected_setWordInt (w : WordId) (i : Int) (p : Program) :
    (setWordInt w i).Unexpected p := by
  refine confined_get_bind ?_
  split
  · exact confined_pure _
  · exact (confined_ofExcept fun _ h => Word.numbered_unexpected h).bind fun _ _ _ =>
      unexpected_setWordText w _ _

theorem unexpected_renumber (id : BlockId) (number : Int) (p : Program) :
    (renumber id number).Unexpected p := by
  refine confined_get_bind ?_
  split
  · exact confined_pure _
  · split
    · exact confined_throw rfl
    · exact (confined_log trivial).bind fun _ _ _ =>
        (unexpected_setWordInt _ _ _).bind fun _ _ _ => confined_pure _

theorem unexpected_joinOn (step : Int) (count : Nat) (a : Assembly) (p : Program) :
    (joinOn step count a).Unexpected p := by
  refine confined_get_bind ((confined_fold (fun a id _ q => ?_) a _).bind fun _ _ _ =>
    confined_pure _)
  exact (unexpected_renumber id a.next q).bind fun _ _ _ =>
    confined_get.bind fun _ _ _ => confined_pure _

variable {p q : Program} {l : List BlockId}

/-- The fragment is refused and left behind like that: as it was read if it is refused for its
remarks, with its tool remark moved if it is refused for its offsets. -/
inductive Fails (p : Program) : Program → Prop where
  | remark (h : moveToolRemark.Refuses p) : Fails p p
  | offsets {q : Program} (hmove : moveToolRemark.Yields p () q) (h : combineOffsets.Refuses q) :
    Fails p q

theorem name_congr (h : q.path = p.path) : q.name = p.name := by rw [name, name, h]

theorem Fails.normalize_run (hp : p.Settled) (h : Fails p q) :
    ∃ cause reports, normalize.run p = ⟨.error (.layout p.name cause), q, reports⟩ := by
  cases h with
  | remark h =>
    obtain ⟨cause, hrun⟩ := h
    exact ⟨cause, [], run_bind_error _ hrun⟩
  | offsets hmove h =>
    obtain ⟨_, _, _, _, -, -, -, -, hsame, -⟩ := moveToolRemark_yields hp hmove
    obtain ⟨cause, hrun⟩ := h
    rcases hfirst : moveToolRemark.run p with ⟨result, p₁, reports⟩
    obtain ⟨rfl, rfl⟩ : result = .ok () ∧ p₁ = q := by
      rw [Action.Yields, hfirst] at hmove
      exact hmove
    have hname : p₁.name = p.name := name_congr hsame.path
    refine ⟨cause, reports, ?_⟩
    rw [normalize, run_bind_ok _ hfirst, run_bind_error _ hrun, hname, List.append_nil]

theorem Fails.not_yields (hp : p.Settled) (h : Fails p q) (r : Program) :
    ¬ normalize.Yields p () r := by
  rintro ⟨hresult, -⟩
  obtain ⟨_, _, hrun⟩ := h.normalize_run hp
  rw [hrun] at hresult
  cases hresult

theorem normalize_cases (hp : p.Settled) :
    (∃ q, normalize.Yields p () q) ∨ ∃ q, Fails p q := by
  by_cases htool : ∃ tool, p.toolRemarks = [tool] ∧ p.otherRemarks ≠ []
  · obtain ⟨tool, htool, hother⟩ := htool
    obtain ⟨p₁, hmove⟩ := moveToolRemark_succeeds hp htool hother
    obtain ⟨_, _, _, _, -, -, -, -, -, hp₁⟩ := moveToolRemark_yields hp hmove
    by_cases hfit : ∃ fixture length, OffsetsFit p₁ fixture length
    · obtain ⟨fixture, length, hfit⟩ := hfit
      obtain ⟨combined, q, hcombine⟩ := combineOffsets_succeeds hp₁ hfit
      refine .inl ⟨q, ?_⟩
      simp only [normalize, yields_bind, yields_pure]
      exact ⟨(), p₁, hmove, combined, q, hcombine, trivial, rfl⟩
    · exact .inr ⟨p₁, .offsets hmove (combineOffsets_refuses hp₁ hfit)⟩
  · exact .inr ⟨p, .remark (moveToolRemark_refuses htool)⟩

/-- The sequence number of a block as it is written. -/
def numberText? (p : Program) (id : BlockId) : Option Text :=
  (p.block id).number.map p.graph.textOf

/-- Every block has the text and the sequence number it had, and every sequence number is the one
that the text of its block holds. -/
structure KeepsNumbers (p q : Program) : Prop where
  text : ∀ id ∈ p.order, (q.block id).text = (p.block id).text
  kept : ∀ id ∈ p.order, id ∈ q.order → q.numberText? id = p.numberText? id
  read : ∀ id ∈ q.order, q.numberText? id =
    ((Reading.ofText (q.block id).text).tokens.find? isSequence).map Prod.fst

theorem numberText?_eq (hp : p.Settled) {id : BlockId} (hid : id ∈ p.order) :
    p.numberText? id =
      ((Reading.ofText (p.block id).text).tokens.find? isSequence).map Prod.fst := by
  have hread := hp.reads.reading id hid
  rw [numberText?, hread.number]
  exact find?_textOf hread.words fun _ _ hx => isSequenceNumber_of_shows hx

theorem keepsNumbers_of_settled (hp : p.Settled) (hq : q.Settled)
    (htext : ∀ id ∈ p.order, (q.block id).text = (p.block id).text) : KeepsNumbers p q := by
  refine ⟨htext, fun id hid hid' => ?_, fun id hid => numberText?_eq hq hid⟩
  rw [numberText?_eq hp hid, numberText?_eq hq hid', htext id hid]

theorem normalize_keepsNumbers (hp : p.Settled) (h : normalize.Yields p () q) :
    KeepsNumbers p q := by
  obtain ⟨_, _, -, -, hr⟩ := normalize_relocated hp h
  exact keepsNumbers_of_settled hp hr.settled hr.text

theorem Fails.keepsNumbers (hp : p.Settled) (h : Fails p q) : KeepsNumbers p q := by
  cases h with
  | remark h => exact keepsNumbers_of_settled hp hp fun _ _ => rfl
  | offsets hmove h =>
    obtain ⟨_, _, _, _, -, -, -, -, hsame, hq⟩ := moveToolRemark_yields hp hmove
    exact keepsNumbers_of_settled hp hq fun id _ => hsame.text id

/-- A refused fragment is as it was read, but for its tool remark that may have been moved. -/
theorem Fails.touched (hp : p.Settled) (h : Fails p q) :
    q = p ∨ ∃ tool operation, RemarkMoved tool operation p q := by
  cases h with
  | remark h => exact .inl rfl
  | offsets hmove h =>
    obtain ⟨tool, operation, -, -, hmoved⟩ := moveToolRemark_remarkMoved hp hmove
    exact .inr ⟨tool, operation, hmoved⟩

end Program

open Program

/-- Joining was given up at one fragment: those before it are in their usual form, it is left
behind as it was refused, and those behind it are as they were read. No number was written. -/
structure GivenUp (ps : List Program) (pre : List Program) (p : Program) (post : List Program)
    (done : List Program) (q : Program) (left : List Program) (source : Text)
    (cause : LayoutFault) : Prop where
  before : ps = pre ++ p :: post
  after : left = done ++ q :: post
  done : List.Forall₂ (fun p q => normalize.Yields p () q) pre done
  first : ∀ p' ∈ pre, ¬ ∃ q', Fails p' q'
  fails : Fails p q
  touched : q = p ∨ ∃ tool operation, RemarkMoved tool operation p q
  numbers : List.Forall₂ KeepsNumbers ps left
  refused : (normalize.run p).result = .error (.layout source cause)
  source : source = p.name

/-- Once all fragments are in their usual form, joining is refused for no layout. -/
theorem joinFragments_passed {start step : Int} {fragments normal : List Program}
    (h : (sweep (fun _ => normalize) ()).Yields fragments () normal) :
    (joinFragments start step).Unexpected fragments := by
  have hpass : (sweep (fun _ => normalize) ()).Unexpected fragments := by
    refine ⟨fun _ _ => trivial, fun fault hfault => ?_⟩
    rw [h.1] at hfault
    cases hfault
  exact hpass.bind fun _ _ _ => confined_get.bind fun _ _ _ =>
    (confined_sweep (fun a p _ => unexpected_joinOn step _ a p) _).bind fun _ _ _ =>
      confined_pure _

theorem not_fails_of_normalize {pre done : List Program} (hpre : ∀ p ∈ pre, p.Settled)
    (h : List.Forall₂ (fun p q => normalize.Yields p () q) pre done) :
    ∀ p ∈ pre, ¬ ∃ q, Fails p q := by
  rintro p hp ⟨q, hfails⟩
  obtain ⟨i, hi, rfl⟩ := List.mem_iff_getElem.mp hp
  exact hfails.not_yields (hpre _ hp) _ (h.get hi (h.length_eq ▸ hi))

/-- All fragments are brought into their usual form, or joining is given up at one of them. -/
theorem joinFragments_cases (start step : Int) {fragments : List Program}
    (hp : ∀ p ∈ fragments, p.Settled) :
    (∃ normal, (sweep (fun _ => normalize) ()).Yields fragments () normal) ∨
      ∃ pre p post done q source cause,
        ((joinFragments start step).run fragments).result = .error (.layout source cause) ∧
        GivenUp fragments pre p post done q ((joinFragments start step).run fragments).state source
          cause := by
  refine (sweep_cases normalize fragments).imp_right ?_
  rintro ⟨pre, p, post, done, fault, rfl, hdone, hfault, hresult, hstate⟩
  have hsettled : p.Settled := hp p (by simp)
  have hpre : ∀ p' ∈ pre, p'.Settled := fun p' hp' => hp p' (by simp [hp'])
  have hpost : ∀ p' ∈ post, p'.Settled := fun p' hp' => hp p' (by simp [hp'])
  obtain ⟨q, hfails⟩ : ∃ q, Fails p q := by
    refine (normalize_cases hsettled).resolve_left ?_
    rintro ⟨q, hq, -⟩
    rw [hfault] at hq
    cases hq
  obtain ⟨cause, reports, hrun⟩ := hfails.normalize_run hsettled
  rw [hrun] at hfault hstate
  obtain rfl := Except.error.inj hfault
  rcases hsweep : (sweep (fun _ => normalize) ()).run (pre ++ p :: post) with
    ⟨result, left, reports'⟩
  rw [hsweep] at hresult hstate
  simp only at hresult hstate
  subst hresult hstate
  have hjoin : (joinFragments start step).run (pre ++ p :: post) =
      ⟨.error (.layout p.name cause), done ++ q :: post, reports'⟩ := run_bind_error _ hsweep
  have hbefore : List.Forall₂ KeepsNumbers pre done :=
    ((List.forall₂_and_left _ _).mpr ⟨hpre, hdone⟩).imp
      fun p' q' h => normalize_keepsNumbers h.1 h.2
  have hbehind : List.Forall₂ KeepsNumbers post post := List.forall₂_same.mpr fun p' hp' =>
    keepsNumbers_of_settled (hpost p' hp') (hpost p' hp') fun _ _ => rfl
  rw [hjoin]
  exact ⟨pre, p, post, done, q, p.name, cause, rfl, rfl, rfl, hdone,
    not_fails_of_normalize hpre hdone, hfails, hfails.touched hsettled,
    List.rel_append hbefore (.cons (hfails.keepsNumbers hsettled) hbehind), by rw [hrun], rfl⟩

/-- Joining is refused for the layout of a fragment exactly if some fragment fails. -/
theorem join_refused_iff {start step : Int} {fragments : List Program}
    (hread : ∀ p ∈ fragments, IsFragment p) :
    ((∃ source cause, ((joinFragments start step).run fragments).result =
        .error (.layout source cause)) ↔ ∃ p ∈ fragments, ∃ q, Fails p q) ∧
      ∀ source cause, ((joinFragments start step).run fragments).result =
          .error (.layout source cause) →
        ∃ pre p post done q, GivenUp fragments pre p post done q
          ((joinFragments start step).run fragments).state source cause := by
  have hsettled : ∀ p ∈ fragments, p.Settled := fun p hp => (hread p hp).settled
  rcases joinFragments_cases start step hsettled with
    ⟨normal, hnormal⟩ | ⟨pre, p, post, done, q, source, cause, hlayout, hgiven⟩
  · have hnone := not_fails_of_normalize hsettled (normalizeAll_yields hnormal)
    have hother : ∀ source cause, ((joinFragments start step).run fragments).result ≠
        .error (.layout source cause) := fun source cause hlayout => by
      cases (joinFragments_passed hnormal).refused _ hlayout
    exact ⟨⟨fun ⟨source, cause, h⟩ => absurd h (hother source cause),
      fun ⟨p, hp, hfails⟩ => absurd hfails (hnone p hp)⟩,
      fun source cause h => absurd h (hother source cause)⟩
  · have hmem : p ∈ fragments := hgiven.before ▸ by simp
    refine ⟨⟨fun _ => ⟨p, hmem, q, hgiven.fails⟩, fun _ => ⟨source, cause, hlayout⟩⟩, ?_⟩
    intro source' cause' h
    obtain ⟨rfl, rfl⟩ := Fault.layout.inj (Except.error.inj (hlayout.symm.trans h))
    exact ⟨pre, p, post, done, q, hgiven⟩

/-- A fragment whose offsets stand apart. -/
def apartFragment : Program :=
  ((readLines (["(T2)", "(B)", "", "N1 G0 E2", "N2 X1", "N3 H2"].map String.toList)).run
    (start (some "b.nc".toList) (some "(T".toList))).state

theorem isFragment_apart : ∀ p ∈ [sampleFragment, apartFragment, headedFragment], IsFragment p := by
  refine List.forall_mem_cons.mpr ⟨isFragment_sample, List.forall_mem_cons.mpr ⟨?_,
    fun p hp => isFragment_headed p (List.mem_cons_of_mem _ hp)⟩⟩
  exact ⟨some "b.nc".toList, "(T".toList, _, by decide +kernel, rfl⟩

theorem join_refused_apart :
    (∀ p ∈ [sampleFragment, apartFragment, headedFragment], IsFragment p) ∧
      ((joinFragments 10 10).run [sampleFragment, apartFragment, headedFragment]).result =
        .error (.layout "b.nc".toList (.apart 5 3)) ∧
      ((∃ source cause, ((joinFragments 10 10).run
          [sampleFragment, apartFragment, headedFragment]).result = .error (.layout source cause)) ↔
        ∃ p ∈ [sampleFragment, apartFragment, headedFragment], ∃ q, Fails p q) ∧
      ∀ source cause, ((joinFragments 10 10).run
          [sampleFragment, apartFragment, headedFragment]).result = .error (.layout source cause) →
        ∃ pre p post done q,
          GivenUp [sampleFragment, apartFragment, headedFragment] pre p post done q
            ((joinFragments 10 10).run [sampleFragment, apartFragment, headedFragment]).state
            source cause :=
  ⟨isFragment_apart, by decide +kernel, join_refused_iff isFragment_apart⟩

end PartProgram
