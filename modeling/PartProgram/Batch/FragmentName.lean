import PartProgram.Fault

/-! # Names of fragments

The file of a fragment is named after its program, with a separator and a number
behind the name. Of several ways to cut a name so, the one with the shortest
program name counts.
-/
namespace PartProgram

/-- The digits that make up the whole rest behind the separator. -/
def digitsAfter? (separator rest : Text) : Option Text :=
  if separator.isPrefixOf rest then
    let ds := rest.drop separator.length
    if !ds.isEmpty && ds.all Number.isDigit then some ds else none
  else none

/-- Looks for the cut at `rest` and behind it; `name` is the text before, in reverse. A name may
not be empty and does not go over a line feed. -/
def cutName? (separator name : Text) : Text → Option (Text × Text)
  | [] => none
  | c :: rest =>
    match (if name.isEmpty then none else digitsAfter? separator (c :: rest)) with
    | some ds => some (name.reverse, ds)
    | none => if c = '\n' then none else cutName? separator (c :: name) rest

def splitFragmentName (separator stem : Text) : Except Fault (Option (Text × Nat)) :=
  match cutName? separator [] stem with
  | none => .ok none
  | some (name, ds) =>
    if Number.digitLimit < ds.length then .error (.longNumeral ds.length)
    else .ok (some (name, Number.ofDigits ds))

end PartProgram
