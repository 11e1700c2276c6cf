import PartProgram.Batch.Merged
import PartProgram.Proofs.Files.Grounded

/-! # Batches

What a batch of merges writes, and what it leaves alone. Every program is filled in
at the place its path leads to once the directory is made, and no fragment stands
there.
-/
namespace PartProgram.Disk

open PartProgram.Action FileTree
open Text (Bytes)

variable {t t' made : FileTree} {s : Settings} {p : Path} {place : Place} {c : Bytes}

theorem perform_yields {σ α : Type} {a : Action σ α} {s s' : σ} {x : α} :
    (perform a s : Action FileTree (α × σ)).Yields t (x, s') t' ↔ a.Yields s x s' ∧ t' = t := by
  refine yields_bind.trans ?_
  constructor
  · rintro ⟨_, t₁, hreport, h⟩
    obtain rfl := yields_report.mp hreport
    split at h
    · rename_i hx
      obtain ⟨heq, rfl⟩ := yields_pure.mp h
      obtain ⟨rfl, rfl⟩ := Prod.mk.inj heq
      exact ⟨⟨hx, rfl⟩, rfl⟩
    · exact absurd h yields_throw
  · rintro ⟨⟨hx, rfl⟩, rfl⟩
    refine ⟨(), t', yields_report.mpr rfl, ?_⟩
    rw [hx]
    exact yields_pure.mpr ⟨rfl, rfl⟩

theorem readsOnly_perform {σ α : Type} (a : Action σ α) (s : σ) :
    (perform a s : Action FileTree (α × σ)).ReadsOnly := by
  refine (readsOnly_report _).bind fun _ => ?_
  split
  · exact readsOnly_pure _
  · exact readsOnly_throw _

theorem readsOnly_loadProgram (p : Path) (toolMark : Option Text) :
    (loadProgram p toolMark : Action FileTree Program).ReadsOnly := by
  refine (readsOnly_isFile p).bind fun isThere => ?_
  dsimp only
  split
  · exact (readsOnly_report _).bind fun _ => (readsOnly_read p).bind fun _ =>
      (readsOnly_perform _ _).bind fun _ => readsOnly_pure _
  · exact readsOnly_throw_bind _ _

theorem loadProgram_yields {toolMark : Option Text} {program : Program} :
    (loadProgram p toolMark : Action FileTree Program).Yields t program t' ↔
      (∃ place c, t.HoldsFile p place c ∧
        (Program.readText (Text.unifyBreaks (Text.decode c))).Yields
          (Program.start (some p.text) toolMark) () program) ∧ t' = t := by
  unfold loadProgram
  rw [yields_bind]
  constructor
  · rintro ⟨isThere, t₁, hthere, h⟩
    obtain rfl := hthere.readsOnly (readsOnly_isFile p)
    cases isThere with
    | false => simp at h
    | true =>
      simp only [if_true, yields_bind, read_yields] at h
      obtain ⟨_, _, hlog, content, _, ⟨⟨place, hfile⟩, rfl⟩, ⟨_, program'⟩, _, hparse, h⟩ := h
      obtain rfl := yields_log.mp hlog
      obtain ⟨hread, rfl⟩ := perform_yields.mp hparse
      obtain ⟨rfl, rfl⟩ := yields_pure.mp h
      exact ⟨⟨place, content, hfile, hread⟩, rfl⟩
  · rintro ⟨⟨place, content, hfile, hparse⟩, rfl⟩
    refine ⟨true, t', isFile_yields.mpr ⟨⟨place, content, hfile⟩, rfl⟩, ?_⟩
    simp only [if_true, yields_bind, read_yields]
    exact ⟨(), t', yields_log.mpr rfl, content, t', ⟨⟨place, hfile⟩, rfl⟩, ((), program), t',
      perform_yields.mpr ⟨hparse, rfl⟩, yields_pure.mpr ⟨rfl, rfl⟩⟩

theorem readsOnly_loadFragments (s : Settings) (paths : List Path) :
    (loadFragments s paths : Action FileTree (List Program)).ReadsOnly :=
  ReadsOnly.mapM fun p _ => readsOnly_loadProgram p _

theorem loadFragments_keeps {paths : List Path} {fragments : List Program}
    (hsame : ∀ p ∈ paths, ∀ place c, t.HoldsFile p place c → t'.HoldsFile p place c)
    (h : (loadFragments s paths : Action FileTree (List Program)).Yields t fragments t) :
    (loadFragments s paths : Action FileTree (List Program)).Yields t' fragments t' := by
  have hreads : ∀ p ∈ paths,
      (loadProgram p (some s.toolMark) : Action FileTree Program).ReadsOnly :=
    fun p _ => readsOnly_loadProgram p _
  obtain ⟨hall, -⟩ := (ReadsOnly.mapM_yields hreads).mp h
  refine (ReadsOnly.mapM_yields hreads).mpr ⟨?_, rfl⟩
  refine List.forall₂_iff_get.mpr ⟨hall.length_eq, fun i hi hi' => ?_⟩
  obtain ⟨⟨place, c, hfile, hparse⟩, -⟩ := loadProgram_yields.mp (hall.get hi hi')
  exact loadProgram_yields.mpr ⟨⟨place, c, hsame _ (List.getElem_mem _) place c hfile, hparse⟩, rfl⟩

/-- What the program made of the fragments in the files looks like in a file. -/
def mergedBytes (s : Settings) (t : FileTree) (paths : List Path) : Except Fault Bytes := do
  let fragments ← ((loadFragments s paths : Action FileTree (List Program)).run t).result
  let lines ← ((joinFragments s.numberStart s.numberStep).run fragments).result
  pure (Text.encode (Text.ofLines lines))

theorem mergedBytes_eq_ok {paths : List Path} :
    mergedBytes s t paths = .ok c ↔
      ∃ fragments lines joined,
        (loadFragments s paths : Action FileTree (List Program)).Yields t fragments t ∧
        (joinFragments s.numberStart s.numberStep).Yields fragments lines joined ∧
        c = Text.encode (Text.ofLines lines) := by
  have hreads := readsOnly_loadFragments s paths t
  unfold mergedBytes
  constructor
  · intro h
    cases hload : ((loadFragments s paths : Action FileTree (List Program)).run t).result with
    | error fault =>
      rw [hload] at h
      cases h
    | ok fragments =>
      rw [hload] at h
      change (((joinFragments s.numberStart s.numberStep).run fragments).result >>= fun lines =>
        pure (Text.encode (Text.ofLines lines))) = .ok c at h
      cases hjoin : ((joinFragments s.numberStart s.numberStep).run fragments).result with
      | error fault =>
        rw [hjoin] at h
        cases h
      | ok lines =>
        rw [hjoin] at h
        exact ⟨fragments, lines, _, ⟨hload, hreads⟩, ⟨hjoin, rfl⟩, (Except.ok.inj h).symm⟩
  · rintro ⟨fragments, lines, joined, ⟨hload, -⟩, ⟨hjoin, -⟩, rfl⟩
    rw [hload]
    change (((joinFragments s.numberStart s.numberStep).run fragments).result >>= fun lines =>
      pure (Text.encode (Text.ofLines lines))) = _
    rw [hjoin]
    rfl

theorem mergedBytes_keeps {paths : List Path}
    (hsame : ∀ p ∈ paths, ∀ place c, t.HoldsFile p place c → t'.HoldsFile p place c)
    (h : mergedBytes s t paths = .ok c) : mergedBytes s t' paths = .ok c := by
  obtain ⟨fragments, lines, joined, hload, hjoin, rfl⟩ := mergedBytes_eq_ok.mp h
  exact mergedBytes_eq_ok.mpr ⟨fragments, lines, joined, loadFragments_keeps hsame hload, hjoin, rfl⟩

theorem mergeGroup_yields {paths : List Path} {output : Path}
    (h : (mergeGroup s paths output : Action FileTree Unit).Yields t () t') :
    ∃ place c, mergedBytes s t paths = .ok c ∧ output.holdsNull = false ∧
      t.walk .filling output = .ok place ∧ t.node? place ≠ some .directory ∧
      t' = t.put place (.file c) := by
  rw [mergeGroup, yields_bind] at h
  obtain ⟨fragments, t₁, hload, h⟩ := h
  obtain rfl := hload.readsOnly (readsOnly_loadFragments s paths)
  rw [yields_bind] at h
  obtain ⟨⟨lines, joined⟩, t₂, hperform, h⟩ := h
  obtain ⟨hjoin, rfl⟩ := perform_yields.mp hperform
  obtain ⟨_, t₃, hwrite, h⟩ := yields_bind.mp h
  obtain rfl := yields_log.mp h
  obtain ⟨place, hp, hwalk, hd, rfl⟩ := write_yields.mp hwrite
  exact ⟨place, _, mergedBytes_eq_ok.mpr ⟨fragments, lines, joined, hload, hjoin, rfl⟩, hp, hwalk, hd,
    rfl⟩

theorem mergeGroup_refuses {paths : List Path} {output : Path} {fault : Fault}
    (h : (mergeGroup s paths output : Action FileTree Unit).RefusedFor t fault t') : t' = t := by
  rcases refusedFor_bind.mp h with hload | ⟨fragments, t₁, hload, hrest⟩
  · exact hload.readsOnly (readsOnly_loadFragments s paths)
  · obtain rfl := hload.readsOnly (readsOnly_loadFragments s paths)
    rcases refusedFor_bind.mp hrest with hjoin | ⟨⟨lines, joined⟩, t₂, hjoin, hfile⟩
    · exact hjoin.readsOnly (readsOnly_perform _ _)
    · obtain ⟨-, rfl⟩ := perform_yields.mp hjoin
      rcases refusedFor_bind.mp hfile with hwrite | ⟨_, t₃, -, hlog⟩
      · exact write_refuses hwrite
      · cases hlog.1

end PartProgram.Disk
