import PartProgram.Unicode.CaseTables

/-! # Letter case

Full case mapping: one character may become several, and the lower case of a
capital sigma depends on its neighbours.
-/
namespace PartProgram.Unicode

def shiftIn (n : Nat) : List CaseRun → Nat
  | [] => n
  | run :: rest =>
    if n < run.first then n
    else if n ≤ run.last ∧ (n - run.first) % run.stride = 0 then (n + run.shift).toNat
    else shiftIn n rest

def upper (c : Char) : List Char :=
  match upperExpansions.lookup c.toNat with
  | some expansion => expansion.map Char.ofNat
  | none => [Char.ofNat (shiftIn c.toNat upperRuns)]

def upperText (s : List Char) : List Char := s.flatMap upper

theorem upperText_append (s t : List Char) : upperText (s ++ t) = upperText s ++ upperText t := by
  simp [upperText]

def isCased (c : Char) : Bool := casedRanges.covers c.toNat

def isCaseIgnorable (c : Char) : Bool := caseIgnorableRanges.covers c.toNat

/-- The nearest character with a say in the matter has a case. -/
def meetsCased (s : List Char) : Bool :=
  ((s.dropWhile isCaseIgnorable).head?.map isCased).getD false

/-- A sigma ends a word when a cased character stands before it and none after it. -/
def lowerSigma (before after : List Char) : Char :=
  if meetsCased before && !meetsCased after then 'ς' else 'σ'

/-- The lower case of one character between the text before it, last character first, and the
text after it. A capital I with a dot above keeps the dot as a combining mark. -/
def lowerAt (before : List Char) (c : Char) (after : List Char) : List Char :=
  if c = 'Σ' then [lowerSigma before after]
  else if c = 'İ' then ['i', '\u0307']
  else [Char.ofNat (shiftIn c.toNat lowerRuns)]

def lowerFrom (before : List Char) : List Char → List Char
  | [] => []
  | c :: after => lowerAt before c after ++ lowerFrom (c :: before) after

def lowerText (s : List Char) : List Char := lowerFrom [] s

end PartProgram.Unicode
