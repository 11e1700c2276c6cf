import PartProgram.Text.Basic
import Mathlib.Data.List.DropRight

/-! # Trimming

How the blanks at both ends of a text are taken off when the text is put together
from parts.
-/
namespace PartProgram.Text

open Unicode

@[simp] theorem isBlankText_nil : isBlankText [] = true := rfl

@[simp] theorem isBlankText_cons (c : Char) (s : Text) :
    isBlankText (c :: s) = (isBlank c && isBlankText s) := rfl

@[simp] theorem isBlankText_append (s t : Text) :
    isBlankText (s ++ t) = (isBlankText s && isBlankText t) := List.all_append

@[simp] theorem trimLeft_nil : trimLeft [] = [] := rfl

theorem trimLeft_cons_of_blank {c : Char} (h : isBlank c = true) (s : Text) :
    trimLeft (c :: s) = trimLeft s := List.dropWhile_cons_of_pos h

theorem trimLeft_cons {c : Char} (h : isBlank c = false) (s : Text) :
    trimLeft (c :: s) = c :: s := List.dropWhile_cons_of_neg (by simp [h])

theorem trimLeft_append (s t : Text) :
    trimLeft (s ++ t) = if isBlankText s then trimLeft t else trimLeft s ++ t := by
  induction s with
  | nil => rfl
  | cons c s ih =>
    cases hc : isBlank c with
    | true => simpa [trimLeft_cons_of_blank hc, hc] using ih
    | false => simp [trimLeft_cons hc, hc]

theorem trimLeft_eq_nil {s : Text} : trimLeft s = [] ↔ isBlankText s = true := by
  simp [trimLeft, isBlankText]

theorem isBlank_head_trimLeft {s : Text} {c : Char} {rest : Text} (h : trimLeft s = c :: rest) :
    isBlank c = false := by
  have hc := List.head?_dropWhile_not isBlank s
  rw [show s.dropWhile isBlank = c :: rest from h] at hc
  simpa using hc

theorem trimLeft_isSuffix (s : Text) : trimLeft s <:+ s := List.dropWhile_suffix isBlank

theorem trimRight_eq_rdropWhile (s : Text) : trimRight s = s.rdropWhile isBlank := rfl

@[simp] theorem trimRight_nil : trimRight [] = [] := rfl

theorem trimRight_concat_of_blank {c : Char} (h : isBlank c = true) (s : Text) :
    trimRight (s ++ [c]) = trimRight s := by
  rw [trimRight_eq_rdropWhile, List.rdropWhile_concat_pos _ _ _ h, trimRight_eq_rdropWhile]

theorem trimRight_concat {c : Char} (h : isBlank c = false) (s : Text) :
    trimRight (s ++ [c]) = s ++ [c] := by
  rw [trimRight_eq_rdropWhile, List.rdropWhile_concat_neg _ _ _ (by simp [h])]

theorem trimRight_append (s t : Text) :
    trimRight (s ++ t) = if isBlankText t then trimRight s else s ++ trimRight t := by
  induction t using List.reverseRecOn with
  | nil => simp
  | append_singleton t c ih =>
    rw [← List.append_assoc, isBlankText_append]
    cases hc : isBlank c with
    | true => rw [trimRight_concat_of_blank hc, trimRight_concat_of_blank hc, ih]; simp [hc]
    | false => rw [trimRight_concat hc, trimRight_concat hc]; simp [hc]

theorem trimRight_isPrefix (s : Text) : trimRight s <+: s := List.rdropWhile_prefix _ _

theorem trimRight_cons {c : Char} (h : isBlank c = false) (s : Text) :
    trimRight (c :: s) = c :: trimRight s := by
  have hs := trimRight_append [c] s
  rw [show trimRight [c] = [c] from trimRight_concat h []] at hs
  rw [show c :: s = [c] ++ s from rfl, hs]
  split
  · rename_i hb
    rw [trimRight_eq_rdropWhile, List.rdropWhile_eq_nil_iff.mpr (by simpa [isBlankText] using hb)]
  · rfl

theorem trimRight_trimRight (s : Text) : trimRight (trimRight s) = trimRight s :=
  List.rdropWhile_idempotent _ _

theorem trim_append {c : Char} (h : isBlank c = false) (s rest : Text) :
    trim (s ++ c :: rest) = trimLeft s ++ trimRight (c :: rest) := by
  unfold trim
  rw [trimLeft_append, trimLeft_cons h]
  split
  · rename_i hs
    rw [trimLeft_eq_nil.mpr hs, List.nil_append]
  · rw [trimRight_append]
    simp [h]

theorem trim_trimLeft (s : Text) : trim (trimLeft s) = trim s := by
  unfold trim
  rw [show trimLeft (trimLeft s) = trimLeft s from List.dropWhile_idempotent _ _]

theorem head?_trim (s : Text) : (trim s).head? = (trimLeft s).head? := by
  unfold trim
  cases hs : trimLeft s with
  | nil => rfl
  | cons c rest => rw [trimRight_cons (isBlank_head_trimLeft hs)]; rfl

theorem head?_withoutBlanks (s : Text) : s.withoutBlanks.head? = (trim s).head? := by
  rw [head?_trim]
  induction s with
  | nil => rfl
  | cons c s ih =>
    cases hc : isBlank c with
    | true => rw [trimLeft_cons_of_blank hc, ← ih]; simp [withoutBlanks, hc]
    | false => rw [trimLeft_cons hc]; simp [withoutBlanks, hc]

theorem trim_trim (s : Text) : trim (trim s) = trim s := by
  cases hs : trimLeft s with
  | nil => simp [trim, hs]
  | cons c rest =>
    have hc := isBlank_head_trimLeft hs
    rw [show trim s = c :: trimRight rest by rw [trim, hs, trimRight_cons hc], trim, trimLeft_cons hc,
      trimRight_cons hc, trimRight_trimRight]

theorem withoutBlanks_trimLeft (s : Text) : (trimLeft s).withoutBlanks = s.withoutBlanks := by
  induction s with
  | nil => rfl
  | cons c s ih =>
    cases hc : isBlank c with
    | true => rw [trimLeft_cons_of_blank hc, ih]; simp [withoutBlanks, hc]
    | false => rw [trimLeft_cons hc]

theorem withoutBlanks_trimRight (s : Text) : (trimRight s).withoutBlanks = s.withoutBlanks := by
  induction s using List.reverseRecOn with
  | nil => rfl
  | append_singleton s c ih =>
    cases hc : isBlank c with
    | true => rw [trimRight_concat_of_blank hc, ih]; simp [withoutBlanks, hc]
    | false => rw [trimRight_concat hc]

theorem withoutBlanks_trim (s : Text) : (trim s).withoutBlanks = s.withoutBlanks := by
  rw [trim, withoutBlanks_trimRight, withoutBlanks_trimLeft]

theorem withoutBlanks_withoutBlanks (s : Text) : s.withoutBlanks.withoutBlanks = s.withoutBlanks := by
  simp [withoutBlanks, List.filter_filter]

theorem withoutBlanks_eq_nil {s : Text} : s.withoutBlanks = [] ↔ isBlankText s = true := by
  simp [withoutBlanks, isBlankText]

theorem withoutBlanks_flatten (ts : List Text) :
    withoutBlanks ts.flatten = (ts.map withoutBlanks).flatten := List.filter_flatten

theorem trim_eq_self {s : Text} (h : ∀ c ∈ s, isBlank c = false) : trim s = s := by
  have hleft : trimLeft s = s := by
    cases s with
    | nil => rfl
    | cons c s => exact trimLeft_cons (h c List.mem_cons_self) s
  rw [trim, hleft]
  rcases List.eq_nil_or_concat s with rfl | ⟨rest, c, rfl⟩
  · rfl
  · rw [List.concat_eq_append] at h ⊢
    exact trimRight_concat (h c (by simp)) rest

theorem trim_isInfix (s : Text) : trim s <:+: s :=
  (trimRight_isPrefix _).isInfix.trans (trimLeft_isSuffix s).isInfix

end PartProgram.Text
