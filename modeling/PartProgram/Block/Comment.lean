import PartProgram.Text.Basic

/-! # Comments

A parenthesis opens a comment that the next closing one ends; parentheses do not
nest. A semicolon opens a comment that runs to the end, also inside parentheses.
The marks belong to the comment.
-/
namespace PartProgram

namespace Comment

inductive Place where
  | outside | inside
  deriving DecidableEq, Repr

/-- Puts a character in front of the first comment. -/
def grow (c : Char) : Text × List Text → Text × List Text
  | (plain, []) => (plain, [[c]])
  | (plain, comment :: rest) => (plain, (c :: comment) :: rest)

/-- The text outside the comments, and the comments in order. Inside one, the first is the rest of
the comment under way. -/
def scan : Place → Text → Text × List Text
  | .outside, [] => ([], [])
  | .inside, [] => ([], [[]])
  | place, c :: rest =>
    if c = ';' then ([], [c :: rest])
    else match place with
      | .outside =>
        if c = '(' then grow c (scan .inside rest)
        else
          let (plain, comments) := scan .outside rest
          (c :: plain, comments)
      | .inside =>
        if c = ')' then
          let (plain, comments) := scan .outside rest
          (plain, [c] :: comments)
        else grow c (scan .inside rest)

def split (s : Text) : Text × List Text := scan .outside s

theorem scan_inside_ne_nil (s : Text) : (scan .inside s).2 ≠ [] := by
  cases s with
  | nil => simp [scan]
  | cons c s =>
    simp only [scan]
    split
    · simp
    · split
      · simp
      · unfold grow
        split <;> simp

end Comment

inductive CommentStyle where
  | parentheses | semicolon
  deriving DecidableEq, Repr, Inhabited

namespace CommentStyle

def name : CommentStyle → Text
  | parentheses => "paren".toList
  | semicolon => "semicolon".toList

/-- The style a name asks for: without a name the usual one, and parentheses for a name unknown. -/
def named (usual : CommentStyle) : Option Text → CommentStyle
  | none | some [] => usual
  | some s => if s = semicolon.name then semicolon else parentheses

def format (style : CommentStyle) (s : Text) : Text :=
  match style with
  | parentheses => '(' :: s ++ [')']
  | semicolon => ';' :: ' ' :: s

theorem format_ne_nil (style : CommentStyle) (s : Text) : style.format s ≠ [] := by
  cases style <;> simp [format]

end CommentStyle

end PartProgram
