import PartProgram.Fault

/-! # Paths

A path is a list of names below the root or below the current directory. Empty
names and single dots are left out when a path is read; double dots stay, since
only the file system knows what they mean.
-/
namespace PartProgram

structure Path where
  /-- Empty, or one slash, or exactly two. -/
  root : Text := []
  names : List Text := []
  deriving DecidableEq, Repr, Inhabited

namespace Path

def rootOf : Text → Text
  | '/' :: '/' :: '/' :: _ => ['/']
  | '/' :: '/' :: _ => ['/', '/']
  | '/' :: _ => ['/']
  | _ => []

def ofText (s : Text) : Path :=
  ⟨rootOf s, (Text.splitOn '/' s).filter fun name => !name.isEmpty && name ≠ ['.']⟩

def text (p : Path) : Text :=
  if p.root.isEmpty && p.names.isEmpty then ['.'] else p.root ++ ['/'].intercalate p.names

def normal (p : Path) : Path := ofText p.text

def holdsNull (p : Path) : Bool := '\x00' ∈ p.text

def name (p : Path) : Text := p.names.getLast?.getD []

def parent (p : Path) : Path := { p with names := p.names.dropLast }

def child (p : Path) (name : Text) : Path := { p with names := p.names ++ [name] }

/-- A path below this one, unless the text begins at the root. -/
def join (p : Path) (s : Text) : Path :=
  let q := ofText s
  if q.root.isEmpty then { p with names := p.names ++ q.names } else q

/-- A name cut at its last dot, which stands neither first nor last; the dot goes to the suffix. -/
def cutName (name : Text) : Text × Text :=
  let tail := (name.reverse.takeWhile (· ≠ '.')).reverse
  let head := name.take (name.length - tail.length - 1)
  if tail.isEmpty || head.isEmpty then (name, []) else (head, '.' :: tail)

theorem cutName_append (name : Text) : (cutName name).1 ++ (cutName name).2 = name := by
  unfold cutName
  dsimp only
  split
  · simp
  · rename_i h
    simp only [Bool.or_eq_true, List.isEmpty_iff, not_or] at h
    have hr := List.takeWhile_append_dropWhile (p := fun c : Char => decide (c ≠ '.'))
      (l := name.reverse)
    cases hd : name.reverse.dropWhile (fun c : Char => decide (c ≠ '.')) with
    | nil =>
      rw [hd, List.append_nil] at hr
      exact absurd (by rw [hr]; simp) h.2
    | cons c rest =>
      have hc := List.head?_dropWhile_not (fun c : Char => decide (c ≠ '.')) name.reverse
      rw [hd] at hc
      simp only [List.head?_cons, ne_eq, decide_not, Bool.not_eq_eq_eq_not, Bool.not_false,
        decide_eq_true_eq] at hc
      rw [hd, hc] at hr
      have hn := congrArg List.reverse hr
      rw [List.reverse_reverse, List.reverse_append, List.reverse_cons, List.append_assoc] at hn
      have hl : name.length
          - (name.reverse.takeWhile fun c : Char => decide (c ≠ '.')).reverse.length - 1
          = rest.reverse.length := by
        have := congrArg List.length hn
        simp only [List.length_append, List.length_cons, List.length_nil] at this
        omega
      rw [hl]
      conv => lhs; lhs; rw [← hn]
      rw [List.take_left']
      · simpa using hn
      · rfl

def stem (p : Path) : Text := (cutName p.name).1

def suffix (p : Path) : Text := (cutName p.name).2

/-- The path with another last name, which has to be one name. -/
def withName (p : Path) (name : Text) : Except Fault Path :=
  if p.name.isEmpty then .error (.namelessPath p.text)
  else
    let q := ofText name
    if name.getLast? = some '/' || !q.root.isEmpty || q.names.length ≠ 1 then
      .error (.badName name)
    else .ok (p.parent.child name)

/-- Puts text behind the name, before the suffix. -/
def appendToName (p : Path) (s : Text) : Except Fault Path :=
  p.withName (p.stem ++ s ++ p.suffix)

def numbered (p : Path) (i : Nat) : Except Fault Path :=
  p.appendToName (' ' :: Number.digits i)

end Path

end PartProgram
