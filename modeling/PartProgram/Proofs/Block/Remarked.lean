import PartProgram.Proofs.Block.NormalForm
import PartProgram.Proofs.Program.Read
import PartProgram.Proofs.Word.Phrase

/-! # Blocks with one more comment

A block that gets a comment behind it keeps its words and its comments: the new one
stands behind them, or is taken up by the last one if nothing closed that. Read again,
the block is the same with this comment.
-/
namespace PartProgram

theorem Text.trim_append_blanks {pad : Text} (h : isBlankText pad = true) (s : Text) :
    Text.trim (s ++ pad) = Text.trim s := by
  induction pad using List.reverseRecOn with
  | nil => rw [List.append_nil]
  | append_singleton pad c ih =>
    obtain ⟨hpad, hc⟩ := Bool.and_eq_true_iff.mp (isBlankText_append pad [c] ▸ h)
    rw [← List.append_assoc, trim_concat_of_blank (by simpa using hc), ih hpad]

/-- What of a comment is read outside comments: what stands behind the parenthesis that ends it too
early. -/
def CommentStyle.spill (style : CommentStyle) (d : Text) : Text := (Comment.split (style.format d)).1

namespace Comment

variable {c o s m pad : Text} {cs ds : List Text} {style : CommentStyle}

theorem runsOn_cons_iff {a : Char} : RunsOn (a :: m) ↔ a = ';' ∨ a ≠ ')' ∧ RunsOn m := by
  unfold RunsOn
  rw [List.takeWhile_cons]
  by_cases ha : a = ';'
  · simp [ha]
  · simp [ha, eq_comm]

theorem RunsOn.append {n : Text} (hm : RunsOn m) (hn : RunsOn n) : RunsOn (m ++ n) := by
  induction m with
  | nil => exact hn
  | cons a m ih =>
    rw [List.cons_append]
    exact runsOn_cons_iff.mpr ((runsOn_cons_iff.mp hm).imp_right fun h => ⟨h.1, ih h.2⟩)

theorem RunsOn.append_of_mem (hm : RunsOn m) (hs : ';' ∈ m) (n : Text) : RunsOn (m ++ n) := by
  induction m with
  | nil => cases hs
  | cons a m ih =>
    rw [List.cons_append, runsOn_cons_iff]
    rcases runsOn_cons_iff.mp hm with ha | ⟨ha, hm⟩
    · exact .inl ha
    · rcases List.mem_cons.mp hs with hs | hs
      · exact .inl hs.symm
      · exact .inr ⟨ha, ih hm hs⟩

theorem RunsOn.not_mem (hm : RunsOn m) (hs : ';' ∉ m) : ')' ∉ m := by
  induction m with
  | nil => simp
  | cons a m ih =>
    simp only [List.mem_cons, not_or] at hs ⊢
    rcases runsOn_cons_iff.mp hm with ha | ⟨ha, hm⟩
    · exact absurd ha.symm hs.1
    · exact ⟨ha.symm, ih hm hs.2⟩

theorem runsOn_of_not_mem (h : ')' ∉ m) : RunsOn m :=
  fun hc => h (List.takeWhile_subset _ hc)

theorem IsClosed.not_isOpen (h : IsClosed c) : ¬ IsOpen c := by
  obtain ⟨m, rfl, -, hs⟩ := h
  rintro (⟨n, hn⟩ | ⟨n, hn, hruns⟩)
  · cases hn
  · obtain rfl : m ++ [')'] = n := (List.cons.inj hn).2
    exact hruns.not_mem (by simp [hs]) (by simp)

theorem isSegments_parentheses (h : RunsOn m) : IsSegments ['(' :: m ++ [')']] := by
  by_cases hs : ';' ∈ m
  · exact .last (.inr ⟨m ++ [')'], rfl, h.append_of_mem hs _⟩)
  · exact .cons ⟨m, rfl, h.not_mem hs, hs⟩ .nil

theorem isSegments_format (style : CommentStyle) {d : Text} (hd : ')' ∉ d) :
    IsSegments [style.format d] := by
  cases style with
  | parentheses => exact isSegments_parentheses (runsOn_of_not_mem hd)
  | semicolon => exact .last (.inl ⟨' ' :: d, rfl⟩)

/-- A comment that nothing closed takes up the one behind it. -/
theorem IsOpen.absorb {d : Text} (ho : IsOpen o) (hpad : ')' ∉ pad) (hd : ')' ∉ d) :
    IsSegments [o ++ pad ++ style.format d] := by
  rcases ho with ⟨m, rfl⟩ | ⟨m, rfl, hm⟩
  · exact .last (.inl ⟨m ++ pad ++ style.format d, rfl⟩)
  · have hfront : RunsOn (m ++ pad) := hm.append (runsOn_of_not_mem hpad)
    cases style with
    | parentheses =>
      have hinner : RunsOn ('(' :: d) := runsOn_of_not_mem (by simp [hd])
      have hwhole := isSegments_parentheses (hfront.append hinner)
      simpa [CommentStyle.format] using hwhole
    | semicolon =>
      have hinner : RunsOn (';' :: ' ' :: d) := runsOn_cons_iff.mpr (.inl rfl)
      exact .last (.inr ⟨_, rfl, hfront.append hinner⟩)

theorem IsSegments.cases_last (h : IsSegments cs) :
    (∀ c ∈ cs, IsClosed c) ∨ ∃ init o, cs = init ++ [o] ∧ (∀ c ∈ init, IsClosed c) ∧ IsOpen o := by
  induction h with
  | nil => exact .inl (by simp)
  | last ho => exact .inr ⟨[], _, rfl, by simp, ho⟩
  | @cons c rest hc _ ih =>
    rcases ih with hall | ⟨init, o, rfl, hinit, ho⟩
    · exact .inl (List.forall_mem_cons.mpr ⟨hc, hall⟩)
    · exact .inr ⟨c :: init, o, rfl, List.forall_mem_cons.mpr ⟨hc, hinit⟩, ho⟩

theorem scan_closed (hcs : ∀ c ∈ cs, IsClosed c) (rest : Text) :
    scan .outside (cs.flatten ++ rest) =
      ((scan .outside rest).1, cs ++ (scan .outside rest).2) := by
  induction cs with
  | nil => rfl
  | cons c cs ih =>
    obtain ⟨hc, hrest⟩ := List.forall_mem_cons.mp hcs
    obtain ⟨m, rfl, hclosing, hs⟩ := hc
    have hflat : (('(' :: m ++ [')']) :: cs).flatten ++ rest =
        '(' :: (m ++ ')' :: (cs.flatten ++ rest)) := by simp
    rw [hflat, scan, if_neg (by decide)]
    simp only [if_true, scan_inside_append hclosing hs, ih hrest]
    rfl

/-- The comments `ds` are the comments `cs` with the comment `f` behind them: apart from the last, or
taken up by it, with the blanks between, if nothing closed that. -/
inductive Joins (pad f : Text) : List Text → List Text → Prop where
  | apart {cs : List Text} : (∀ c, cs.getLast? = some c → ¬ IsOpen c) → Joins pad f cs (cs ++ [f])
  | absorbed {cs : List Text} {o : Text} : IsOpen o →
    Joins pad f (cs ++ [o]) (cs ++ [o.trimRight ++ pad ++ f])

theorem Joins.exists_last {f : Text} (h : Joins pad f cs ds) (hf : f.trimRight = f) (hne : f ≠ []) :
    ∃ c, ds.getLast? = some c ∧ f <:+ c.trimRight := by
  cases h with
  | apart _ => exact ⟨f, by simp, by rw [hf]⟩
  | @absorbed cs o _ =>
    refine ⟨_, List.getLast?_concat, ?_⟩
    rw [Text.trimRight_append_of_eq hf hne]
    exact List.suffix_append _ _

theorem trimLast_concat (cs : List Text) (o : Text) :
    trimLast (cs ++ [o]) = cs ++ [o.trimRight] := by
  induction cs with
  | nil => rfl
  | cons c cs ih =>
    cases cs with
    | nil => rfl
    | cons d cs => exact congrArg (c :: ·) ih

theorem trimLast_closed (h : ∀ c ∈ cs, IsClosed c) : trimLast cs = cs := by
  rcases List.eq_nil_or_concat cs with rfl | ⟨init, c, rfl⟩
  · rfl
  · rw [List.concat_eq_append] at h ⊢
    rw [trimLast_concat, (h c (by simp)).trimRight]

theorem scan_inside_format (style : CommentStyle) (d : Text) :
    scan .inside (style.format d) = scan .outside (style.format d) := by
  cases style <;> rfl

theorem spill_of_not_mem (style : CommentStyle) {d : Text} (hd : ')' ∉ d) : style.spill d = [] := by
  have hscan := scan_flatten (isSegments_format style hd)
  rw [List.flatten_singleton] at hscan
  rw [CommentStyle.spill, split, hscan]

theorem scan_inside_append_fst (hc : ')' ∉ m) (hs : ';' ∉ m) (rest : Text) :
    (scan .inside (m ++ rest)).1 = (scan .inside rest).1 := by
  induction m with
  | nil => rfl
  | cons a m ih =>
    simp only [List.mem_cons, not_or] at hc hs
    rw [List.cons_append, scan, if_neg (Ne.symm hs.1)]
    simp only [if_neg (Ne.symm hc.1), grow_fst, ih hc.2 hs.2]

/-- Behind a comment that nothing closed a comment spills what it spills alone, but nothing behind a
semicolon. -/
theorem IsOpen.scan_format_fst (ho : IsOpen o) (hpad : ∀ c ∈ pad, c = ' ') (style : CommentStyle)
    (d : Text) : (scan .outside (o ++ pad ++ style.format d)).1 =
      if ';' ∈ o then [] else style.spill d := by
  have hclosing : ')' ∉ pad := fun hc => absurd (hpad _ hc) (by decide)
  have hsemicolon : ';' ∉ pad := fun hc => absurd (hpad _ hc) (by decide)
  rcases ho with ⟨m, rfl⟩ | ⟨m, rfl, hm⟩
  · simp [scan]
  · have hopen : ∀ s, (scan .outside ('(' :: s)).1 = (scan .inside s).1 := fun s => by
      simp [scan, grow_fst]
    rw [List.append_assoc, List.cons_append, hopen]
    by_cases hs : ';' ∈ m
    · rw [if_pos (List.mem_cons_of_mem _ hs), scan_inside_of_runsOn (hm.append_of_mem hs _)]
    · rw [if_neg (by simp [hs]), scan_inside_append_fst (hm.not_mem hs) hs,
        scan_inside_append_fst hclosing hsemicolon, scan_inside_format]
      rfl

theorem not_mem_flatten_closed (h : ∀ c ∈ cs, IsClosed c) : ';' ∉ cs.flatten := by
  intro hs
  obtain ⟨c, hc, hs⟩ := List.mem_flatten.mp hs
  obtain ⟨m, rfl, -, hm⟩ := h c hc
  simp [hm] at hs

/-- Behind rebuilt text a comment adds blanks to the instruction text, and what it spills. -/
theorem split_remarked_fst (style : CommentStyle) {body d : Text} (hbody : IsPlain body)
    (hcs : IsSegments cs) (hpad : ∀ c ∈ pad, c = ' ') : ∃ gap, Text.isBlankText gap = true ∧
      (split ((body ++ cs.flatten).trim ++ pad ++ style.format d)).1 =
        trimPlain body cs ++ (gap ++ if ';' ∈ cs.flatten then [] else style.spill d) := by
  have hplain : IsPlain (trimPlain body cs) := hbody.of_isInfix (trimPlain_isInfix body cs)
  rw [trim_append_flatten hcs, List.append_assoc, List.append_assoc, split, scan_plain hplain]
  -- Behind closed comments the padding is instruction text; an open one takes it up.
  rcases hcs.cases_last with hall | ⟨init, o, rfl, hinit, ho⟩
  · have hpadPlain : IsPlain pad :=
      ⟨fun hc => absurd (hpad _ hc) (by decide), fun hc => absurd (hpad _ hc) (by decide)⟩
    refine ⟨pad, List.all_eq_true.mpr fun c hc => by rw [hpad c hc]; rfl, ?_⟩
    rw [trimLast_closed hall, scan_closed hall, scan_plain hpadPlain,
      if_neg (not_mem_flatten_closed hall)]
    rfl
  · have hmem : ';' ∈ (init ++ [o]).flatten ↔ ';' ∈ o.trimRight := by
      have hsolid : ∀ s : Text, ';' ∈ s.withoutBlanks ↔ ';' ∈ s := fun s => by
        simp [Text.withoutBlanks, isBlank_semicolon]
      rw [← hsolid o.trimRight, Text.withoutBlanks_trimRight, hsolid]
      simp [not_mem_flatten_closed hinit]
    refine ⟨[], rfl, ?_⟩
    rw [trimLast_concat, List.flatten_append, List.append_assoc, scan_closed hinit,
      List.flatten_singleton, ← List.append_assoc o.trimRight, ho.trimRight.scan_format_fst hpad]
    simp only [hmem, List.nil_append]

theorem joins_split_remarked (style : CommentStyle) {body d : Text} (hbody : IsPlain body)
    (hcs : IsSegments cs) (hpad : ∀ c ∈ pad, c = ' ') (hd : ')' ∉ d) :
    Joins pad (style.format d) cs
      (split ((body ++ cs.flatten).trim ++ pad ++ style.format d)).2 := by
  have hplain : IsPlain (trimPlain body cs) := hbody.of_isInfix (trimPlain_isInfix body cs)
  rw [trim_append_flatten hcs, List.append_assoc, List.append_assoc, split, scan_plain hplain]
  rcases hcs.cases_last with hall | ⟨init, o, rfl, hinit, ho⟩
  · have hpadPlain : IsPlain pad :=
      ⟨fun hc => absurd (hpad _ hc) (by decide), fun hc => absurd (hpad _ hc) (by decide)⟩
    have hf : scan .outside (style.format d) = ([], [style.format d]) := by
      simpa using scan_flatten (isSegments_format style hd)
    rw [trimLast_closed hall, scan_closed hall, scan_plain hpadPlain, hf]
    exact .apart fun c hc => (hall c (List.mem_of_getLast? hc)).not_isOpen
  · have hclosing : ')' ∉ pad := fun hc => absurd (hpad _ hc) (by decide)
    have habsorbed : IsSegments [o.trimRight ++ pad ++ style.format d] :=
      ho.trimRight.absorb hclosing hd
    have hscan := scan_flatten habsorbed
    rw [List.flatten_singleton, List.append_assoc] at hscan
    rw [trimLast_concat, List.flatten_append, List.append_assoc, scan_closed hinit,
      List.flatten_singleton, hscan, ← List.append_assoc]
    exact .absorbed ho

end Comment

section
variable {g : WordGraph} {b : Block} {style : CommentStyle} {column : Nat} {d : Text}

theorem WordGraph.flatMap_textOf {ids : List WordId} {xs : List (Text × Bool)}
    (h : List.Forall₂ g.Shows ids xs) :
    ids.flatMap (fun w => g.textOf w ++ [' ']) = Token.spaced (xs.map Prod.fst) := by
  induction h with
  | nil => rfl
  | cons hx _ ih => rw [List.flatMap_cons, ih, hx.textOf, List.map_cons, Token.spaced, Token.spaced,
      List.flatMap_cons]

theorem Block.IsReading.instructions (h : b.IsReading g) :
    Comment.IsPlain (b.instructions g) ∧
      Reading.cut (b.instructions g) = (Reading.ofText b.text).tokens := by
  have hplain := Comment.isPlain_split b.text
  have htokens := Reading.tokens_ofText b.text
  rw [← Reading.instruction_ofText] at hplain
  have hcut : Reading.IsCut (Reading.ofText b.text).tokens := htokens ▸ Reading.isCut_cut hplain
  have hempty : b.words = [] ↔ (Reading.ofText b.text).tokens = [] := by
    rw [← List.length_eq_zero_iff, h.words.length_eq, List.length_eq_zero_iff]
  rw [Block.instructions]
  split
  · rw [h.instruction, htokens]
    exact ⟨hplain, rfl⟩
  · rename_i hne
    rw [List.isEmpty_iff, hempty] at hne
    rw [WordGraph.flatMap_textOf h.words, hcut.cut_spaced hne]
    exact ⟨hcut.isPlain, rfl⟩

theorem Block.IsReading.segments (h : b.IsReading g) : Comment.IsSegments b.comments := by
  rw [h.comments, Reading.comments_ofText]
  exact Comment.isSegments_split _

def Block.padding (g : WordGraph) (b : Block) (column : Nat) : Text :=
  List.replicate (column - (b.rebuilt g).length) ' ' ++ [' ']

theorem Block.mem_padding (g : WordGraph) (b : Block) (column : Nat) :
    ∀ c ∈ b.padding g column, c = ' ' := by
  intro c hc
  rcases List.mem_append.mp hc with hc | hc
  · exact List.eq_of_mem_replicate hc
  · exact List.mem_singleton.mp hc

theorem Block.remarked_eq : b.remarked g style column d =
    (b.instructions g ++ b.comments.flatten).trim ++ b.padding g column ++ style.format d := by
  rw [Block.remarked, Text.padRight, Block.padding, Block.rebuilt]
  simp

/-- What a comment behind the block adds to the instruction text: nothing if a semicolon keeps the
last comment of the block open. -/
def Block.spill (b : Block) (style : CommentStyle) (d : Text) : Text :=
  if ';' ∈ b.comments.flatten then [] else style.spill d

theorem Block.IsReading.instruction_append (h : b.IsReading g) (style : CommentStyle) (column : Nat)
    (d : Text) : ∃ gap, Text.isBlankText gap = true ∧
      (b.append g style column d).instruction =
        Comment.trimPlain (b.instructions g) b.comments ++ (gap ++ b.spill style d) := by
  have hsplit := Comment.split_remarked_fst (d := d) style h.instructions.1 h.segments
    (mem_padding g b column)
  rwa [← remarked_eq] at hsplit

/-- With one more comment that stays one the block is what its new text is read as, with the words it
had. -/
theorem Block.IsReading.append_of_spill (h : b.IsReading g) (style : CommentStyle) (column : Nat)
    (hd : Text.isBlankText (b.spill style d) = true) :
    (b.append g style column d).IsReading g ∧
      (Reading.ofText (b.append g style column d).text).tokens = (Reading.ofText b.text).tokens := by
  obtain ⟨-, hcut⟩ := h.instructions
  obtain ⟨gap, hgap, hinstruction⟩ := h.instruction_append style column d
  have hblank : Text.isBlankText (gap ++ b.spill style d) = true := by simp [hgap, hd]
  have hread : (b.append g style column d).instruction =
      (Reading.ofText (b.append g style column d).text).instruction :=
    (Reading.instruction_ofText _).symm
  have hsame : (Reading.ofText (b.append g style column d).text).tokens =
      (Reading.ofText b.text).tokens := by
    rw [Reading.tokens_ofText, ← hread, hinstruction, ← hcut]
    refine Reading.cut_congr ?_ ?_
    · rw [Text.trim_append_blanks hblank, Comment.trim_trimPlain]
    · rw [Token.tokens_append_blanks hblank, Comment.tokens_trimPlain]
  refine ⟨⟨hread, (Reading.comments_ofText _).symm, ?_, h.number⟩, hsame⟩
  rw [hsame]
  exact h.words

/-- A comment without a closing parenthesis stays one and stands behind the others. -/
theorem Block.IsReading.append (h : b.IsReading g) (style : CommentStyle) (column : Nat)
    (hd : ')' ∉ d) :
    (b.append g style column d).IsReading g ∧
      (Reading.ofText (b.append g style column d).text).tokens = (Reading.ofText b.text).tokens ∧
      Comment.Joins (b.padding g column) (style.format d) b.comments
        (b.append g style column d).comments := by
  have hspill : b.spill style d = [] := by
    rw [Block.spill, Comment.spill_of_not_mem style hd, ite_self]
  have hjoins := Comment.joins_split_remarked style h.instructions.1 h.segments
    (mem_padding g b column) hd
  rw [← remarked_eq] at hjoins
  obtain ⟨hread, hsame⟩ := h.append_of_spill style column (by rw [hspill]; rfl)
  exact ⟨hread, hsame, hjoins⟩

theorem CommentStyle.trimRight_format (hd : IsPhrase d) (hne : d ≠ []) :
    (style.format d).trimRight = style.format d := by
  cases style with
  | parentheses => exact Text.trimRight_concat Comment.isBlank_closing _
  | semicolon => exact Text.trimRight_append_of_eq hd.trimRight hne [';', ' ']

theorem Block.endsWith_iff {f : Text} :
    b.endsWith f = true ↔ ∃ c, b.comments.getLast? = some c ∧ f <:+ c.trimRight := by
  rw [Block.endsWith, Option.any_eq_true]
  simp only [Text.endsWith, List.isSuffixOf_iff_suffix]

theorem Block.IsReading.endsWith_append (h : b.IsReading g) (hd : IsPhrase d) (hne : d ≠ []) :
    (b.append g style column d).endsWith (style.format d) = true :=
  endsWith_iff.mpr ((h.append style column hd.closing).2.2.exists_last
    (CommentStyle.trimRight_format hd hne) (CommentStyle.format_ne_nil style d))

theorem Comment.grow_subset {c : Char} {s : Text} {found : Text × List Text}
    (h : found.1 ⊆ s ∧ found.2.flatten ⊆ s) :
    (grow c found).1 ⊆ c :: s ∧ (grow c found).2.flatten ⊆ c :: s := by
  obtain ⟨plain, comments⟩ := found
  have hplain : plain ⊆ c :: s := List.subset_cons_of_subset c h.1
  cases comments with
  | nil => exact ⟨hplain, by simp [grow]⟩
  | cons d rest => exact ⟨hplain, List.cons_subset_cons c h.2⟩

theorem Comment.scan_subset (s : Text) (place : Place) :
    (scan place s).1 ⊆ s ∧ (scan place s).2.flatten ⊆ s := by
  induction s generalizing place with
  | nil => cases place <;> simp [scan]
  | cons c s ih =>
    by_cases hc : c = ';'
    · cases place <;> simp [scan, hc]
    · obtain ⟨hplain, hcomments⟩ := ih .outside
      have hcomments' := List.subset_cons_of_subset c hcomments
      cases place with
      | outside =>
        simp only [scan, if_neg hc]
        split
        · exact grow_subset (ih .inside)
        · exact ⟨List.cons_subset_cons c hplain, hcomments'⟩
      | inside =>
        simp only [scan, if_neg hc]
        split
        · exact ⟨List.subset_cons_of_subset c hplain, List.cons_subset_cons c hcomments⟩
        · exact grow_subset (ih .inside)

theorem Reading.subset_of_mem_cut {s : Text} {x : Text × Bool} (hx : x ∈ Reading.cut s) : x.1 ⊆ s := by
  unfold Reading.cut at hx
  split at hx
  · cases hx
  · split at hx
    · obtain rfl := List.mem_singleton.mp hx
      exact (Text.trim_isInfix s).subset
    · obtain ⟨t, ht, rfl⟩ := List.mem_map.mp hx
      exact (Token.tokens_isInfix ht).subset

theorem Block.IsReading.unbroken_rebuilt (h : b.IsReading g) (ht : Text.IsUnbroken b.text) :
    Text.IsUnbroken (b.rebuilt g) := by
  have hinstruction : Text.IsUnbroken b.instruction := by
    rw [h.instruction, Reading.instruction_ofText]
    exact ht.of_subset (Comment.scan_subset _ _).1
  have hcomments : Text.IsUnbroken b.comments.flatten := by
    rw [h.comments, Reading.comments_ofText]
    exact ht.of_subset (Comment.scan_subset _ _).2
  have hinstructions : Text.IsUnbroken (b.instructions g) := by
    rw [Block.instructions]
    split
    · exact hinstruction
    · rw [WordGraph.flatMap_textOf h.words, Reading.tokens_ofText, ← h.instruction]
      intro c hc
      obtain ⟨t, htoken, hc⟩ := List.mem_flatMap.mp hc
      obtain ⟨x, hx, rfl⟩ := List.mem_map.mp htoken
      rcases List.mem_append.mp hc with hc | hc
      · exact hinstruction c (Reading.subset_of_mem_cut hx hc)
      · obtain rfl := List.mem_singleton.mp hc
        decide
  exact (Text.isUnbroken_append.mpr ⟨hinstructions, hcomments⟩).of_subset (Text.trim_isInfix _).subset

theorem Block.IsReading.unbroken_append (h : b.IsReading g) (ht : Text.IsUnbroken b.text)
    (hd : IsInner d) : Text.IsUnbroken (b.append g style column d).text := by
  have hpad : Text.IsUnbroken (b.padding g column) := by
    intro c hc
    rw [mem_padding g b column c hc]
    decide
  have hformat : Text.IsUnbroken (style.format d) := by
    cases style with
    | parentheses =>
      exact Text.isUnbroken_append.mpr
        ⟨Text.isUnbroken_cons.mpr ⟨by decide, hd.unbroken⟩, by decide⟩
    | semicolon =>
      exact Text.isUnbroken_cons.mpr
        ⟨by decide, Text.isUnbroken_cons.mpr ⟨by decide, hd.unbroken⟩⟩
  change Text.IsUnbroken (b.remarked g style column d)
  rw [remarked_eq]
  exact Text.isUnbroken_append.mpr
    ⟨Text.isUnbroken_append.mpr ⟨h.unbroken_rebuilt ht, hpad⟩, hformat⟩

end

end PartProgram
