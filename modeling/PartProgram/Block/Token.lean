import PartProgram.Report
import PartProgram.Text.Quoted
import PartProgram.Unicode.Case
import PartProgram.Unicode.Letter

/-! # Tokens

Instruction text is cut at blanks and before every letter. A text with a meta
command, which only the control of the machine can interpret, is not cut at all.
-/
namespace PartProgram

open Unicode

namespace Token

/-- What a scan from the right has found: the token under way and the tokens behind it. -/
structure Scan where
  current : Text
  behind : List Text

namespace Scan

def close (scan : Scan) : List Text :=
  if scan.current.isEmpty then scan.behind else scan.current :: scan.behind

def step (c : Char) (scan : Scan) : Scan :=
  if isBlank c then ⟨[], scan.close⟩
  else if isLetter c then ⟨[], (c :: scan.current) :: scan.behind⟩
  else ⟨c :: scan.current, scan.behind⟩

theorem flatten_close (scan : Scan) : scan.close.flatten = scan.current ++ scan.behind.flatten := by
  unfold close
  split
  · simp_all
  · simp

end Scan

def tokens (s : Text) : List Text := (s.foldr Scan.step ⟨[], []⟩).close

theorem flatten_tokens (s : Text) : (tokens s).flatten = s.withoutBlanks := by
  rw [tokens, Scan.flatten_close]
  induction s with
  | nil => rfl
  | cons c s ih =>
    simp only [List.foldr_cons, Scan.step]
    split <;> rename_i hb
    · simpa [Scan.flatten_close, Text.withoutBlanks, hb] using ih
    · split <;> simpa [Text.withoutBlanks, hb] using ih

end Token

/-- A token of one character, and whether it ends the text. -/
structure Anomaly where
  character : Char
  atEnd : Bool
  deriving DecidableEq, Repr

namespace Anomaly

def message (a : Anomaly) : String :=
  let found := s!"single character word {(Text.quoted [a.character]).shown}"
  if a.atEnd then found ++ " at end of line" else found

def ofToken (atEnd : Bool) : Text → Option Anomaly
  | [c] => some ⟨c, atEnd⟩
  | _ => none

/-- The anomalies of a list of tokens, the last of which may end the text. -/
def ofTokens (atEnd : Bool) : List Text → List Anomaly
  | [] => []
  | [token] => (ofToken atEnd token).toList
  | token :: rest => (ofToken false token).toList ++ ofTokens atEnd rest

def endsInToken (s : Text) : Bool := s.getLast?.any fun c => !isBlank c

def find (s : Text) : List Anomaly := ofTokens (endsInToken s) (Token.tokens s)

theorem length_ofTokens (atEnd : Bool) (ts : List Text) :
    (ofTokens atEnd ts).length = ts.countP (fun t => t.length = 1) := by
  have one (b : Bool) (t : Text) : (ofToken b t).toList.length = if t.length = 1 then 1 else 0 := by
    match t with
    | [] => rfl
    | [c] => rfl
    | c :: d :: rest => simp [ofToken]
  induction ts with
  | nil => rfl
  | cons t rest ih =>
    cases rest with
    | nil => simp [ofTokens, one, List.countP_cons]
    | cons u rest =>
      rw [ofTokens, List.length_append, ih, one, List.countP_cons (a := t), Nat.add_comm]
      simp
      simp

end Anomaly

def metaMarkers : List Text := ["IF", "GOTO", "=", "#", "[", "]"].map String.toList

def hasMeta (s : Text) : Bool := metaMarkers.any (Text.hasPart (upperText s))

end PartProgram
