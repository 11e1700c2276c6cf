import PartProgram.Unicode.Blank

/-! # Text

Text is a list of characters, so that lengths and columns count characters. The
operations here trim blanks, cut text into lines and set it in columns.
-/
namespace PartProgram

abbrev Text := List Char

namespace Text

open Unicode

def trimLeft (s : Text) : Text := s.dropWhile isBlank

def trimRight (s : Text) : Text := (s.reverse.dropWhile isBlank).reverse

def trim (s : Text) : Text := trimRight (trimLeft s)

def withoutBlanks (s : Text) : Text := s.filter (fun c => !isBlank c)

def isBlankText (s : Text) : Bool := s.all isBlank

theorem withoutBlanks_append (s t : Text) :
    withoutBlanks (s ++ t) = withoutBlanks s ++ withoutBlanks t := List.filter_append s t

def isLineBreak (c : Char) : Bool :=
  c ∈ ['\n', '\r', '\x0b', '\x0c', '\x1c', '\x1d', '\x1e', '\u0085', '\u2028', '\u2029']

/-- What a scan from the right has found: the lines, and whether the last character seen is a
line feed, which forms one break with a carriage return before it. -/
abbrev LineScan := List Text × Bool

def scanLine (c : Char) : LineScan → LineScan
  | (lines, feed) =>
    if c = '\r' ∧ feed then (lines, false)
    else if isLineBreak c then ([] :: lines, c = '\n')
    else match lines with
      | [] => ([[c]], false)
      | line :: rest => ((c :: line) :: rest, false)

/-- A break ends a line and belongs to none. Text after the last break is a line unless empty. -/
def lines (s : Text) : List Text := (s.foldr scanLine ([], false)).1

@[simp] theorem lines_nil : lines [] = [] := rfl

def unifyBreak (c : Char) : Text × Bool → Text × Bool
  | (text, feed) =>
    if c = '\r' then (if feed then text else '\n' :: text, false)
    else (c :: text, c = '\n')

/-- Every carriage return, with the line feed after it if there is one, becomes a line feed. -/
def unifyBreaks (s : Text) : Text := (s.foldr unifyBreak ([], false)).1

/-- Each line followed by a line feed; a text of no lines is one empty line. -/
def ofLines (ls : List Text) : Text := ['\n'].intercalate ls ++ ['\n']

def padRight (width : Nat) (s : Text) : Text := s ++ List.replicate (width - s.length) ' '

theorem length_padRight (width : Nat) (s : Text) :
    (padRight width s).length = max width s.length := by
  simp only [padRight, List.length_append, List.length_replicate]
  omega

/-- The order of a dictionary whose alphabet is Unicode. -/
def notAfter : Text → Text → Bool
  | [], _ => true
  | _ :: _, [] => false
  | c :: s, d :: t => if c = d then notAfter s t else c.toNat < d.toNat

def endsWith (s tail : Text) : Bool := tail.isSuffixOf s

def startsWith (s head : Text) : Bool := head.isPrefixOf s

def hasPart : Text → Text → Bool
  | [], part => part.isEmpty
  | c :: rest, part => part.isPrefixOf (c :: rest) || hasPart rest part

/-- The pieces between the separators; always at least one. -/
def splitOn (separator : Char) (s : Text) : List Text :=
  s.foldr (fun c pieces =>
    if c = separator then [] :: pieces
    else match pieces with
      | [] => [[c]]
      | piece :: rest => (c :: piece) :: rest) [[]]

end Text

end PartProgram
