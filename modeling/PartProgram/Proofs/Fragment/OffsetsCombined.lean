import PartProgram.Proofs.Fragment.OffsetWords
import PartProgram.Proofs.Fragment.ToolRemarkMoved

/-! # One block for both offsets

The offsets are made one block exactly if the two blocks stand side by side and have
none but the allowed words. The one block has all their words, but for the second
sequence number, and stands where the first of the two stood. Else the fragment stays
as it was read.
-/
namespace PartProgram

open WordGraph

namespace Program

variable {p p' : Program} {id fixture length combined : BlockId} {l : List BlockId}

def lettered (p : Program) (id : BlockId) (letter : Char) : List (Text × Bool) :=
  (p.shownWords id).filter fun x => addressOf x.1 = [letter]

theorem mem_lettered {x : Text × Bool} {c : Char} :
    x ∈ p.lettered id c ↔ x ∈ p.shownWords id ∧ addressOf x.1 = [c] := by
  rw [lettered, List.mem_filter, decide_eq_true_eq]

section
variable (hread : (p.block id).IsReading p.graph)
include hread

theorem shownWords_eq : p.shownWords id = (Reading.ofText (p.block id).text).tokens :=
  map_shown hread.words

theorem hasLetter_eq (letter : Text) :
    p.hasLetter letter id = (p.shownWords id).any fun x => addressOf x.1 = letter := by
  rw [shownWords_eq hread]
  exact any_letterOf hread.words letter

theorem map_letter_wordsOf :
    (p.wordsOf id).map Word.letter = (p.shownWords id).map (addressOf ·.1) := by
  rw [shownWords_eq hread]
  exact map_letter (says_filterMap hread.words)

/-- In a block without a letter twice, the first word with a letter is all there are. -/
theorem map_toList_firstText? (hn : ((p.wordsOf id).map Word.letter).Nodup)
    (hplain : ∀ x ∈ p.shownWords id, x.2 = false) {c : Char} (hc : Unicode.upper c = [c]) :
    (p.firstText? id [c]).toList.map (·, false) = p.lettered id c := by
  have hfirst : p.firstText? id [c] =
      ((p.shownWords id).find? fun x => addressOf x.1 = [c]).map Prod.fst := by
    rw [shownWords_eq hread, ← find?_letterOf hread.words, firstText?, Block.firstWord?]
    simp [Unicode.upperText, hc]
  rw [map_letter_wordsOf hread] at hn
  have hkey : p.lettered id c = _ := filter_key_eq hn [c]
  rw [hfirst, hkey]
  cases hfind : (p.shownWords id).find? fun x => addressOf x.1 = [c] with
  | none => rfl
  | some x =>
    have hx := hplain x (List.mem_of_find?_eq_some hfind)
    simp [← hx]

theorem allows_shown {role : OffsetRole} (h : ∀ w ∈ p.wordsOf id, role.allows w = true) :
    ∀ x ∈ p.shownWords id, x.2 = false ∧ Reading.IsWordText x.1 ∧
      Reading.isPassedOver x.1 = false := by
  intro x hx
  rw [shownWords_eq hread] at hx
  obtain ⟨w, hw, hs⟩ := exists_says (says_filterMap hread.words) x hx
  exact allows_plain hx hs (h w hw)

theorem mem_shown_iff_letter {letter : Text} :
    (∃ w ∈ p.wordsOf id, w.letter = letter) ↔ ∃ x ∈ p.shownWords id, addressOf x.1 = letter := by
  rw [← List.mem_map, map_letter_wordsOf hread, List.mem_map]

end

theorem hasLetter_congr {letter : Text} (hread : (p.block id).IsReading p.graph)
    (hread' : (p'.block id).IsReading p'.graph) (h : (p'.block id).text = (p.block id).text) :
    p'.hasLetter letter id = p.hasLetter letter id := by
  rw [hasLetter_eq hread, hasLetter_eq hread', shownWords_eq hread, shownWords_eq hread', h]

/-- The first block of the body with a fixture offset and the first with a tool length, in the
layout in which they can be made one. -/
structure OffsetsFit (p : Program) (fixture length : BlockId) : Prop where
  fixture_found : p.body.find? (p.hasLetter ['E']) = some fixture
  length_found : p.body.find? (p.hasLetter ['H']) = some length
  next : ∃ pre post, p.order = pre ++ fixture :: length :: post
  fixture_words : ∀ w ∈ p.wordsOf fixture, IsFixtureWord w
  fixture_letters : ((p.wordsOf fixture).map Word.letter).Nodup
  motion : ∃ w ∈ p.wordsOf fixture, w.letter = ['G']
  length_words : ∀ w ∈ p.wordsOf length, IsLengthWord w
  length_letters : ((p.wordsOf length).map Word.letter).Nodup

/-- The words of the two blocks but for the sequence number of the second, in the order in which
the one block has them. -/
def offsetWords (p : Program) (fixture length : BlockId) : List (Text × Bool) :=
  ['N', 'G', 'E', 'X', 'Y'].flatMap (p.lettered fixture) ++
    ['Z', 'H'].flatMap (p.lettered length) ++ p.lettered fixture 'F'

theorem offsetWords_subset :
    p.offsetWords fixture length ⊆ p.shownWords fixture ++ p.shownWords length := by
  intro x hx
  simp only [offsetWords, List.mem_append, List.mem_flatMap, mem_lettered] at hx ⊢
  rcases hx with (⟨-, -, hx, -⟩ | ⟨-, -, hx, -⟩) | ⟨hx, -⟩
  · exact .inl hx
  · exact .inr hx
  · exact .inl hx

theorem check_fixture_iff {block : Text} {ws : List Word} :
    OffsetRole.check .fixture block [] ws = .ok () ↔
      (∀ w ∈ ws, IsFixtureWord w) ∧ (ws.map Word.letter).Nodup := by
  simp [OffsetRole.check_ok_iff, allows_fixture]

theorem check_length_iff {block : Text} {ws : List Word} :
    OffsetRole.check .length block [] ws = .ok () ↔
      (∀ w ∈ ws, IsLengthWord w) ∧ (ws.map Word.letter).Nodup := by
  simp [OffsetRole.check_ok_iff, allows_length]

theorem OffsetsFit.checked (h : OffsetsFit p fixture length) (block block' : Text) :
    OffsetRole.check .fixture block [] (p.wordsOf fixture) = .ok () ∧
      OffsetRole.check .length block' [] (p.wordsOf length) = .ok () :=
  ⟨check_fixture_iff.mpr ⟨h.fixture_words, h.fixture_letters⟩,
    check_length_iff.mpr ⟨h.length_words, h.length_letters⟩⟩

theorem isSome_firstText?_motion (hread : (p.block id).IsReading p.graph) :
    (p.firstText? id ['G']).isSome = true ↔ ∃ w ∈ p.wordsOf id, w.letter = ['G'] := by
  rw [mem_shown_iff_letter hread, shownWords_eq hread, firstText?, Block.firstWord?,
    find?_letterOf hread.words, Option.isSome_map, List.find?_isSome]
  simp [Unicode.upperText, show Unicode.upper 'G' = ['G'] by decide]

section
variable (hp : p.Settled)
include hp

theorem OffsetsFit.reading (h : OffsetsFit p fixture length) :
    (p.block fixture).IsReading p.graph ∧ (p.block length).IsReading p.graph :=
  ⟨hp.reads.reading _ (body_subset hp (List.mem_of_find?_eq_some h.fixture_found)),
    hp.reads.reading _ (body_subset hp (List.mem_of_find?_eq_some h.length_found))⟩

theorem OffsetsFit.plain (h : OffsetsFit p fixture length) :
    ∀ x ∈ p.shownWords fixture ++ p.shownWords length, x.2 = false ∧ Reading.IsWordText x.1 ∧
      Reading.isPassedOver x.1 = false := by
  obtain ⟨hfixture, hlength⟩ := h.reading hp
  refine List.forall_mem_append.mpr ⟨?_, ?_⟩
  · exact allows_shown hfixture fun w hw => allows_fixture.mpr (h.fixture_words w hw)
  · exact allows_shown hlength fun w hw => allows_length.mpr (h.length_words w hw)

theorem OffsetsFit.offsetTexts (h : OffsetsFit p fixture length) :
    (p.offsetTexts fixture length).map (·, false) = p.offsetWords fixture length := by
  obtain ⟨hfixture, hlength⟩ := h.reading hp
  obtain ⟨hplain, hplain'⟩ := List.forall_mem_append.mp (h.plain hp)
  have hone : ∀ c, Unicode.upper c = [c] →
      (p.firstText? fixture [c]).toList.map (·, false) = p.lettered fixture c := fun c =>
    map_toList_firstText? hfixture h.fixture_letters fun x hx => (hplain x hx).1
  have hone' : ∀ c, Unicode.upper c = [c] →
      (p.firstText? length [c]).toList.map (·, false) = p.lettered length c := fun c =>
    map_toList_firstText? hlength h.length_letters fun x hx => (hplain' x hx).1
  rw [Program.offsetTexts, List.filterMap_eq_flatMap_toList]
  simp only [id, List.flatMap_cons, List.flatMap_nil, List.map_append,
    List.append_nil, offsetWords, List.append_assoc, hone 'N' (by decide), hone 'G' (by decide),
    hone 'E' (by decide), hone 'X' (by decide), hone 'Y' (by decide), hone' 'Z' (by decide),
    hone' 'H' (by decide), hone 'F' (by decide)]

theorem OffsetsFit.offsetWords_ne_nil (h : OffsetsFit p fixture length) :
    p.offsetWords fixture length ≠ [] := by
  obtain ⟨x, hx, haddress⟩ := (mem_shown_iff_letter (h.reading hp).1).mp h.motion
  refine List.ne_nil_of_mem (a := x) ?_
  simp only [offsetWords, List.mem_append, List.mem_flatMap, mem_lettered]
  exact .inl (.inl ⟨'G', by simp, hx, haddress⟩)

/-- What is written side by side is read as all words of the two blocks. -/
theorem OffsetsFit.ofText (h : OffsetsFit p fixture length) :
    (Reading.ofText ([' '].intercalate (p.offsetTexts fixture length))).tokens =
        p.offsetWords fixture length ∧
      (Reading.ofText ([' '].intercalate (p.offsetTexts fixture length))).comments = [] := by
  have htexts := h.offsetTexts hp
  have hne : p.offsetTexts fixture length ≠ [] := by
    intro hnil
    rw [hnil] at htexts
    exact h.offsetWords_ne_nil hp htexts.symm
  rw [← htexts]
  refine Reading.ofText_intercalate hne fun t ht => ?_
  have hmem : (t, false) ∈ p.offsetWords fixture length := htexts ▸ List.mem_map_of_mem ht
  exact (h.plain hp _ (offsetWords_subset hmem)).2

theorem OffsetsFit.isReadable (h : OffsetsFit p fixture length) :
    PartProgram.isReadable ([' '].intercalate (p.offsetTexts fixture length)) = true := by
  rw [isReadable_iff, (h.ofText hp).1]
  obtain ⟨hfixture, hlength⟩ := h.reading hp
  intro x hx c
  rcases List.mem_append.mp (offsetWords_subset hx) with hx | hx
  · rw [shownWords_eq hfixture] at hx
    obtain ⟨_, w, -, hw⟩ := exists_shows hfixture.words x hx
    exact hw.ofText c
  · rw [shownWords_eq hlength] at hx
    obtain ⟨_, w, -, hw⟩ := exists_shows hlength.words x hx
    exact hw.ofText c

theorem OffsetsFit.address_fixture (h : OffsetsFit p fixture length) :
    ∀ x ∈ p.shownWords fixture,
      addressOf x.1 ∈ ['N', 'G', 'E', 'X', 'Y', 'F'].map fun c => [c] := by
  intro x hx
  obtain ⟨w, hw, hletter⟩ := (mem_shown_iff_letter (h.reading hp).1).mpr ⟨x, hx, rfl⟩
  rw [← hletter]
  rcases h.fixture_words w hw with ⟨hl | hl, -⟩ | ⟨hl, -⟩ | ⟨hl | hl | hl, -⟩ <;> simp [hl]

theorem OffsetsFit.address_length (h : OffsetsFit p fixture length) :
    ∀ x ∈ (p.shownWords length).filter fun x => addressOf x.1 ≠ ['N'],
      addressOf x.1 ∈ ['Z', 'H'].map fun c => [c] := by
  intro x hx
  obtain ⟨hx, hne⟩ := List.mem_filter.mp hx
  obtain ⟨w, hw, hletter⟩ := (mem_shown_iff_letter (h.reading hp).2).mpr ⟨x, hx, rfl⟩
  rw [← hletter] at hne ⊢
  rcases h.length_words w hw with ⟨hl | hl, -⟩ | ⟨hl, -⟩ <;> simp [hl] at hne ⊢

omit hp in
theorem lettered_eq_filter (id : BlockId) {c : Char} (hc : c ≠ 'N') :
    p.lettered id c = ((p.shownWords id).filter fun x => addressOf x.1 ≠ ['N']).filter
      fun x => addressOf x.1 = [c] := by
  rw [lettered, List.filter_filter]
  refine List.filter_congr fun x _ => ?_
  by_cases hx : addressOf x.1 = [c]
  · simp [hx, hc]
  · simp [hx]

/-- Only the sequence number of the second block is left out. -/
theorem OffsetsFit.perm (h : OffsetsFit p fixture length) :
    (p.offsetWords fixture length).Perm (p.shownWords fixture ++
      (p.shownWords length).filter fun x => addressOf x.1 ≠ ['N']) := by
  have hall := flatMap_filter_perm (by decide) (h.address_fixture hp)
  have hall' := flatMap_filter_perm (by decide) (h.address_length hp)
  rw [List.flatMap_map] at hall hall'
  have hrest : ['Z', 'H'].flatMap (p.lettered length) = ['Z', 'H'].flatMap fun c =>
      ((p.shownWords length).filter fun x => addressOf x.1 ≠ ['N']).filter
        fun x => addressOf x.1 = [c] :=
    List.flatMap_congr fun c hc => lettered_eq_filter length (by rintro rfl; simp at hc)
  rw [← hrest] at hall'
  have hswap : (p.offsetWords fixture length).Perm
      (['N', 'G', 'E', 'X', 'Y', 'F'].flatMap (p.lettered fixture) ++
        ['Z', 'H'].flatMap (p.lettered length)) := by
    rw [offsetWords, List.append_assoc,
      show ['N', 'G', 'E', 'X', 'Y', 'F'] = ['N', 'G', 'E', 'X', 'Y'] ++ ['F'] from rfl,
      List.flatMap_append, List.append_assoc, List.flatMap_singleton]
    exact List.perm_append_comm.append_left _
  exact hswap.trans (hall.append hall')

end

theorem replacePair_succeeds {text : Text} {i : Nat} (hp : p.Settled) (hi : i < p.length)
    (hlength : p.order[i + 1]? = some length) (hr : PartProgram.isReadable text = true) :
    ∃ combined p₁ p₂ k p₃, (addBlock text none).Yields p combined p₁ ∧
      (replaceBlock i combined).Yields p₁ () p₂ ∧ p₂.order.idxOf? length = some k ∧
      (removeBlock k).Yields p₂ () p₃ := by
  obtain ⟨combined, p₁, hadd⟩ := addBlock_succeeds hr p none
  obtain ⟨hadds, hreads⟩ := addBlock_yields hp.reads hadd
  have hsub : p.order.set i combined ⊆ combined :: p.order := fun id hid =>
    List.mem_cons.mpr (List.mem_or_eq_of_mem_set hid).symm
  obtain ⟨p₂, hread⟩ := hreads.reorder_succeeds hsub
  have hi₁ : i < p₁.length := by rwa [Program.length, hadds.order]
  have hrun : (replaceBlock i combined).run p₁ = _ := replaceBlock_run combined (by omega)
  rw [Int.toNat_natCast, hadds.order] at hrun
  have hreplace : (replaceBlock i combined).Yields p₁ () p₂ := by
    rw [Action.Yields, hrun]
    exact hread
  obtain ⟨horder, -, -, -, hp₂⟩ := replaceAdded_yields hp hadd hreplace
  -- The second block is not the one replaced, so it still has a place to be removed from.
  have hmem : length ∈ p₂.order := by
    refine List.mem_of_getElem? (i := i + 1) ?_
    rw [horder, List.getElem?_set_ne (by omega), hlength]
  obtain ⟨k, hk⟩ := Option.isSome_iff_exists.mp (List.isSome_idxOf?.mpr hmem)
  have hk' := lt_of_idxOf? hk
  obtain ⟨p₃, hread'⟩ := hp₂.reads.reorder_succeeds (List.eraseIdx_sublist p₂.order k).subset
  refine ⟨combined, p₁, p₂, k, p₃, hadd, hreplace, hk, ?_⟩
  have hrun' : (removeBlock k).run p₂ = _ := removeBlock_run (by omega)
  rw [Action.Yields, hrun', Int.toNat_natCast]
  exact hread'

theorem combineOffsets_succeeds (hp : p.Settled) (h : OffsetsFit p fixture length) :
    ∃ combined p', combineOffsets.Yields p combined p' := by
  obtain ⟨pre, post, horder⟩ := h.next
  have hi : p.order.idxOf? fixture = some pre.length := idxOf?_split horder hp.nodup
  have hj : p.order.idxOf? length = some (pre.length + 1) := by
    have hsplit : p.order = (pre ++ [fixture]) ++ length :: post := by simpa using horder
    rw [idxOf?_split hsplit hp.nodup, List.length_append, List.length_singleton]
  have hget : p.order[pre.length + 1]? = some length := by
    obtain ⟨hlt, hget, -⟩ := List.idxOf?_eq_some_iff.mp hj
    rw [List.getElem?_eq_getElem hlt, hget]
  have hmotion := (isSome_firstText?_motion (h.reading hp).1).mpr h.motion
  obtain ⟨hcheck, hcheck'⟩ := h.checked (p.rebuilt fixture) (p.rebuilt length)
  obtain ⟨combined, p₁, p₂, k, p₃, hadd, hreplace, hk, hremove⟩ :=
    replacePair_succeeds hp (lt_of_idxOf? hi) hget (h.isReadable hp)
  exact ⟨combined, p₃, yields_combineOffsets.mpr ⟨fixture, length, pre.length, p₁, p₂, k,
    ⟨h.fixture_found, h.length_found, hi, hj⟩, ⟨hcheck, hcheck', hmotion⟩, hadd, hreplace, hk,
    hremove⟩⟩

theorem findOffsets_run (hfixture : p.body.find? (p.hasLetter ['E']) = some fixture)
    (hlength : p.body.find? (p.hasLetter ['H']) = some length) :
    findOffsets.run p = ⟨.ok (fixture, length), p, []⟩ := by
  rw [findOffsets, Action.run_bind_ok _ (Action.run_get p), hfixture, hlength]
  rfl

theorem findOffsets_refuses (h : ¬ ∃ fixture length,
    p.body.find? (p.hasLetter ['E']) = some fixture ∧
      p.body.find? (p.hasLetter ['H']) = some length) : findOffsets.Refuses p := by
  refine Action.Refuses.after_get ?_
  split
  · rename_i fixture length hfixture hlength
    exact absurd ⟨fixture, length, hfixture, hlength⟩ h
  · exact refuses_refuse _ p

theorem checkOffset_run {role : OffsetRole}
    (h : role.check (p.rebuilt id) [] (p.wordsOf id) = .ok ()) :
    (checkOffset role id).run p = ⟨.ok (), p, []⟩ := by
  rw [checkOffset, Action.run_bind_ok _ (Action.run_get p), h]
  rfl

theorem checkOffset_refuses {role : OffsetRole}
    (h : role.check (p.rebuilt id) [] (p.wordsOf id) ≠ .ok ()) :
    (checkOffset role id).Refuses p := by
  refine Action.Refuses.after_get ?_
  split
  · rename_i hcheck
    exact absurd hcheck h
  · exact refuses_refuse _ p

theorem exists_idxOf?_of_found (hp : p.Settled) {letter : Text}
    (h : p.body.find? (p.hasLetter letter) = some id) : ∃ i, p.order.idxOf? id = some i :=
  Option.isSome_iff_exists.mp
    (List.isSome_idxOf?.mpr (body_subset hp (List.mem_of_find?_eq_some h)))

/-- Every refusal comes before the first edit. -/
theorem combineOffsets_refuses (hp : p.Settled) (h : ¬ ∃ fixture length, OffsetsFit p fixture length) :
    combineOffsets.Refuses p := by
  by_cases hfound : ∃ fixture length, p.body.find? (p.hasLetter ['E']) = some fixture ∧
      p.body.find? (p.hasLetter ['H']) = some length
  · obtain ⟨fixture, length, hfixture, hlength⟩ := hfound
    obtain ⟨i, hi⟩ := exists_idxOf?_of_found hp hfixture
    obtain ⟨j, hj⟩ := exists_idxOf?_of_found hp hlength
    refine .after (findOffsets_run hfixture hlength) (.after (indexOf_run hi)
      (.after (indexOf_run hj) ?_))
    split
    · exact (refuses_refuse _ p).bind _
    rename_i hnext
    obtain rfl := not_ne_iff.mp hnext
    by_cases hcheck : OffsetRole.check .fixture (p.rebuilt fixture) [] (p.wordsOf fixture) = .ok ()
    · refine .after (checkOffset_run hcheck) ?_
      by_cases hcheck' : OffsetRole.check .length (p.rebuilt length) [] (p.wordsOf length) = .ok ()
      · refine .after (checkOffset_run hcheck') (.after_get ?_)
        split
        · exact (refuses_refuse _ p).bind _
        · rename_i hmotion
          have hread := hp.reads.reading _ (body_subset hp (List.mem_of_find?_eq_some hfixture))
          obtain ⟨pre, post, horder, -⟩ := split_of_neighbours hi hj
          obtain ⟨hwords, hletters⟩ := check_fixture_iff.mp hcheck
          obtain ⟨hwords', hletters'⟩ := check_length_iff.mp hcheck'
          refine absurd ⟨fixture, length, hfixture, hlength, ⟨pre, post, horder⟩, hwords, hletters,
            (isSome_firstText?_motion hread).mp ?_, hwords', hletters'⟩ h
          simpa [Option.isSome_iff_ne_none] using hmotion
      · exact (checkOffset_refuses hcheck').bind _
    · exact (checkOffset_refuses hcheck).bind _
  · exact (findOffsets_refuses hfound).bind _

theorem Combines.offsetsFit {pre post : List BlockId} (hp : p.Settled)
    (h : Combines p pre post fixture length combined p') : OffsetsFit p fixture length := by
  obtain ⟨hwords, hletters⟩ := check_fixture_iff.mp h.fixture_checked
  obtain ⟨hwords', hletters'⟩ := check_length_iff.mp h.length_checked
  exact ⟨h.fixture_found, h.length_found, ⟨pre, post, h.order⟩, hwords, hletters,
    (isSome_firstText?_motion (hp.reads.reading _ (h.mem (.inl rfl)))).mp h.motion, hwords',
    hletters'⟩

section
variable {pre post : List BlockId}

theorem Combines.cuts_eq_one (hp : p.Settled) (h : Combines p pre post fixture length combined p') :
    p.cuts fixture = 1 ∧ p.cuts length = 1 ∧ p'.cuts combined = 1 := by
  have hbody : ∀ letter id, p.body.find? (p.hasLetter letter) = some id → p.cuts id = 1 := by
    intro letter id hfound
    have hmem := List.mem_of_find?_eq_some hfound
    have hid := body_subset hp hmem
    cases hs : p.sections with
    | none => simp [body, hs] at hmem
    | some s =>
      rw [body, hs] at hmem
      exact (hp.mem_sections hs hid).2.1.mp hmem
  have hfixture := hbody _ _ h.fixture_found
  refine ⟨hfixture, hbody _ _ h.length_found, ?_⟩
  have hn := hp.nodup
  have hn' := h.settled.nodup
  rw [h.order] at hn
  rw [h.order_eq] at hn'
  have hnot : fixture ∉ pre := notMem_of_nodup_append hn List.mem_cons_self
  have hnot' : combined ∉ pre := notMem_of_nodup_append hn' List.mem_cons_self
  rw [Program.cuts, h.order, cutsBefore_append_cons hnot] at hfixture
  rw [Program.cuts, h.order_eq, cutsBefore_append_cons hnot', ← hfixture]
  refine List.countP_congr fun id hid => ?_
  have hmem := h.mem (.inr (.inr (.inl hid)))
  rw [isEmptyBlock_congr hp.reads h.settled.reads hmem (h.mem_after (.inr (.inl hid)))
    (h.text id hmem)]

theorem Combines.filter_cuts (hp : p.Settled) (h : Combines p pre post fixture length combined p')
    {q : Nat → Bool} (hq : q 1 = false) :
    p'.order.filter (fun id => q (p'.cuts id)) = p.order.filter fun id => q (p.cuts id) := by
  obtain ⟨hfixture, hlength, hcombined⟩ := h.cuts_eq_one hp
  have hpart : ∀ part : List BlockId, part ⊆ pre ++ post →
      part.filter (fun id => q (p'.cuts id)) = part.filter fun id => q (p.cuts id) :=
    fun part hpart => List.filter_congr fun id hid => by rw [h.cuts_beside hp (hpart hid)]
  rw [h.order_eq, h.order, List.filter_append, List.filter_append,
    hpart pre (List.subset_append_left _ _), List.filter_cons_of_neg (by simp [hcombined, hq]),
    hpart post (List.subset_append_right _ _), List.filter_cons_of_neg (by simp [hfixture, hq]),
    List.filter_cons_of_neg (by simp [hlength, hq])]

theorem Combines.exists_sections (h : Combines p pre post fixture length combined p') :
    ∃ s s', p.sections = some s ∧ p'.sections = some s' := by
  have hmem := List.mem_of_find?_eq_some h.fixture_found
  have hmark := h.mark
  cases hs : p.sections with
  | none => simp [body, hs] at hmem
  | some s =>
    rw [hs, Option.map_some] at hmark
    obtain ⟨s', hs', -⟩ := Option.map_eq_some_iff.mp hmark
    exact ⟨s, s', rfl, hs'⟩

theorem Combines.body_eq (hp : p.Settled) (h : Combines p pre post fixture length combined p') :
    p.body = pre.filter (p.cuts · = 1) ++ fixture :: length :: post.filter (p.cuts · = 1) ∧
      p'.body = pre.filter (p.cuts · = 1) ++ combined :: post.filter (p.cuts · = 1) := by
  obtain ⟨s, s', hs, hs'⟩ := h.exists_sections
  obtain ⟨hfixture, hlength, hcombined⟩ := h.cuts_eq_one hp
  have hpart : ∀ part : List BlockId, part ⊆ pre ++ post →
      part.filter (p'.cuts · = 1) = part.filter (p.cuts · = 1) :=
    fun part hpart => List.filter_congr fun id hid => by rw [h.cuts_beside hp (hpart hid)]
  have hbody : p.body = p.order.filter (p.cuts · = 1) := by
    rw [body, hs]
    exact (hp.sections_eq_filter hs).2.1
  have hbody' : p'.body = p'.order.filter (p'.cuts · = 1) := by
    rw [body, hs']
    exact (h.settled.sections_eq_filter hs').2.1
  constructor
  · rw [hbody, h.order, List.filter_append, List.filter_cons_of_pos (by simpa using hfixture),
      List.filter_cons_of_pos (by simpa using hlength)]
  · rw [hbody', h.order_eq, List.filter_append,
      List.filter_cons_of_pos (by simpa using hcombined),
      hpart pre (List.subset_append_left _ _), hpart post (List.subset_append_right _ _)]

theorem Combines.ends_eq (hp : p.Settled) (h : Combines p pre post fixture length combined p') :
    p'.sections.map Sections.header = p.sections.map Sections.header ∧
      p'.sections.map Sections.footer = p.sections.map Sections.footer := by
  obtain ⟨s, s', hs, hs'⟩ := h.exists_sections
  obtain ⟨hheader, -, hfooter⟩ := hp.sections_eq_filter hs
  obtain ⟨hheader', -, hfooter'⟩ := h.settled.sections_eq_filter hs'
  rw [hs, hs', Option.map_some, Option.map_some, Option.map_some, Option.map_some, hheader,
    hheader', hfooter, hfooter']
  exact ⟨congrArg some (h.filter_cuts (q := fun n => decide (n = 0)) hp rfl),
    congrArg some (h.filter_cuts (q := fun n => decide (2 ≤ n)) hp rfl)⟩

end

section
variable {α : Type} {f g : α → Bool} {A B C : List α} {a b : α}

theorem eq_false_of_find? (ha : a ∉ A) (h : (A ++ B).find? f = some a) : ∀ x ∈ A, f x = false := by
  cases hA : A.find? f with
  | none => simpa using List.find?_eq_none.mp hA
  | some x =>
    rw [List.find?_append, hA, Option.some_or] at h
    exact absurd (Option.some.inj h ▸ List.mem_of_find?_eq_some hA) ha

theorem find?_eq_of_eq_false (hA : ∀ x ∈ A, g x = false) (hb : g b = true) :
    (A ++ b :: C).find? g = some b := by
  rw [List.find?_append, List.find?_eq_none.mpr (by simpa using hA), Option.none_or,
    List.find?_cons_of_pos hb]

end

/-- The one block is the first of the body with a letter that one of the two was the first with. -/
theorem Combines.found {pre post : List BlockId} {letter : Text} (hp : p.Settled)
    (h : Combines p pre post fixture length combined p')
    (hfound : p.body.find? (p.hasLetter letter) = some id) (hid : id = fixture ∨ id = length)
    (hcombined : p'.hasLetter letter combined = true) :
    p'.body.find? (p'.hasLetter letter) = some combined := by
  obtain ⟨hbody, hbody'⟩ := h.body_eq hp
  have hn := hp.nodup
  rw [h.order] at hn
  have hnot : id ∉ pre.filter (p.cuts · = 1) := by
    intro hmem
    refine notMem_of_nodup_append hn (x := id) ?_ (List.mem_of_mem_filter hmem)
    rcases hid with rfl | rfl <;> simp
  rw [hbody] at hfound
  rw [hbody']
  refine find?_eq_of_eq_false (fun i hi => ?_) hcombined
  have hmem : i ∈ pre := List.mem_of_mem_filter hi
  have hmem' := h.mem (.inr (.inr (.inl hmem)))
  rw [hasLetter_congr (hp.reads.reading i hmem')
    (h.settled.reads.reading i (h.mem_after (.inr (.inl hmem)))) (h.text i hmem')]
  exact eq_false_of_find? hnot hfound i hi

/-- One block has taken the place of the two with the offsets, with the words of both, and all
other blocks stay in their sections. -/
structure OffsetsCombined (p : Program) (fixture length combined : BlockId) (p' : Program) :
    Prop where
  order : ∃ pre post, p.order = pre ++ fixture :: length :: post ∧
    p'.order = pre ++ combined :: post
  fresh : combined ∉ p.order
  text : ∀ id ∈ p.order, (p'.block id).text = (p.block id).text
  words : p'.shownWords combined = p.offsetWords fixture length
  perm : (p'.shownWords combined).Perm (p.shownWords fixture ++
    (p.shownWords length).filter fun x => addressOf x.1 ≠ ['N'])
  comments : (p'.block combined).comments = []
  header : p'.sections.map Sections.header = p.sections.map Sections.header
  footer : p'.sections.map Sections.footer = p.sections.map Sections.footer
  fixture_found : p'.body.find? (p'.hasLetter ['E']) = some combined
  length_found : p'.body.find? (p'.hasLetter ['H']) = some combined

theorem combineOffsets_combined (hp : p.Settled) (h : combineOffsets.Yields p combined p') :
    ∃ fixture length, OffsetsFit p fixture length ∧
      OffsetsCombined p fixture length combined p' := by
  obtain ⟨pre, post, fixture, length, hc⟩ := combineOffsets_yields hp h
  have hfit := hc.offsetsFit hp
  have hread := hc.settled.reads.reading combined (hc.mem_after (.inl rfl))
  obtain ⟨htokens, hcomments⟩ := hfit.ofText hp
  rw [← hc.text_eq] at htokens hcomments
  have hwords : p'.shownWords combined = p.offsetWords fixture length :=
    (shownWords_eq hread).trans htokens
  obtain ⟨hheader, hfooter⟩ := hc.ends_eq hp
  obtain ⟨hfixture, hlength⟩ := hfit.reading hp
  -- The letters that the two blocks were found by are on the one block too.
  have hletters : p'.hasLetter ['E'] combined = true ∧ p'.hasLetter ['H'] combined = true := by
    have hE := List.find?_some hc.fixture_found
    have hH := List.find?_some hc.length_found
    rw [hasLetter_eq hfixture, List.any_eq_true] at hE
    rw [hasLetter_eq hlength, List.any_eq_true] at hH
    obtain ⟨x, hx, hxE⟩ := hE
    obtain ⟨y, hy, hyH⟩ := hH
    rw [hasLetter_eq hread, hasLetter_eq hread, hwords, List.any_eq_true, List.any_eq_true]
    refine ⟨⟨x, ?_, hxE⟩, ⟨y, ?_, hyH⟩⟩
    · simp only [offsetWords, List.mem_append, List.mem_flatMap, mem_lettered]
      exact .inl (.inl ⟨'E', by simp, hx, of_decide_eq_true hxE⟩)
    · simp only [offsetWords, List.mem_append, List.mem_flatMap, mem_lettered]
      exact .inl (.inr ⟨'H', by simp, hy, of_decide_eq_true hyH⟩)
  exact ⟨fixture, length, hfit, ⟨pre, post, hc.order, hc.order_eq⟩, combineOffsets_fresh hp h,
    hc.text, hwords, hwords ▸ hfit.perm hp, hread.comments.trans hcomments, hheader, hfooter,
    hc.found hp hc.fixture_found (.inl rfl) hletters.1,
    hc.found hp hc.length_found (.inr rfl) hletters.2⟩

/-- The offsets of a fragment are made one block exactly if the first block with a fixture offset
stands right before the first with a tool length and both have none but the allowed words. Then the
one block stands in the place of the two, with their words, the header and the footer are what they
were, and it is the first block with either offset. Else the fragment is refused and stays. -/
theorem offsets_combined_iff (hp : IsFragment p) :
    ((∃ combined p', combineOffsets.Yields p combined p') ↔
        ∃ fixture length, OffsetsFit p fixture length) ∧
      (∀ combined p', combineOffsets.Yields p combined p' →
        ∃ fixture length, OffsetsFit p fixture length ∧
          OffsetsCombined p fixture length combined p') ∧
      ((¬ ∃ fixture length, OffsetsFit p fixture length) → combineOffsets.Refuses p) := by
  refine ⟨⟨?_, ?_⟩, fun combined p' h => combineOffsets_combined hp.settled h,
    combineOffsets_refuses hp.settled⟩
  · rintro ⟨combined, p', h⟩
    obtain ⟨fixture, length, hfit, -⟩ := combineOffsets_combined hp.settled h
    exact ⟨fixture, length, hfit⟩
  · rintro ⟨fixture, length, hfit⟩
    exact combineOffsets_succeeds hp.settled hfit

theorem offsets_combined_sample :
    IsFragment sampleFragment ∧ (combineOffsets.run sampleFragment).result = .ok 7 ∧
      ((∃ combined p', combineOffsets.Yields sampleFragment combined p') ↔
        ∃ fixture length, OffsetsFit sampleFragment fixture length) ∧
      (∀ combined p', combineOffsets.Yields sampleFragment combined p' →
        ∃ fixture length, OffsetsFit sampleFragment fixture length ∧
          OffsetsCombined sampleFragment fixture length combined p') ∧
      ((¬ ∃ fixture length, OffsetsFit sampleFragment fixture length) →
        combineOffsets.Refuses sampleFragment) :=
  ⟨isFragment_sample, sampleFragment_runs.2.2.1, offsets_combined_iff isFragment_sample⟩

end Program

end PartProgram
