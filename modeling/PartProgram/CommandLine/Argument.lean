import PartProgram.Text.Basic
import PartProgram.Unicode.Digit

/-! # Arguments

Options among the arguments of a command. A long option may be cut short as long
as no other begins so, and may carry its value behind an equals sign. Options of
one letter may be written together, and a value may follow the last of them
directly. Behind two dashes nothing is an option, and joined to an option they stand
for no value.
-/
namespace PartProgram

/-- Why the arguments are not to be carried out. -/
inductive Stop where
  | misuse | help | version
  deriving DecidableEq, Repr

structure OptionSpec (τ : Type) where
  tag : τ
  names : List Text
  takesValue : Bool := false
  /-- The values allowed; all if there are none here. -/
  choices : List Text := []

namespace OptionSpec

variable {τ : Type}

def named (name : Text) (specs : List (OptionSpec τ)) : Option (OptionSpec τ) :=
  specs.find? fun spec => name ∈ spec.names

def accepts (spec : OptionSpec τ) (value : Text) : Bool :=
  spec.choices.isEmpty || value ∈ spec.choices

end OptionSpec

/-- An option as it stands in an argument, with the text joined to it, if there is any. -/
structure Mention (τ : Type) where
  spec : OptionSpec τ
  isShort : Bool
  joined : Option Text := none

inductive Argument (τ : Type) where
  | plain
  | dashes
  | option (m : Mention τ)
  | unknown

namespace Argument

variable {τ : Type}

def isOption : Argument τ → Bool
  | option _ | unknown => true
  | plain | dashes => false

def isDashes : Argument τ → Bool
  | dashes => true
  | plain | option _ | unknown => false

def cutAtEquals (s : Text) : Text × Option Text :=
  match s.dropWhile (· ≠ '=') with
  | [] => (s, none)
  | _ :: value => (s.takeWhile (· ≠ '='), some value)

def isLong (name : Text) : Bool := Text.startsWith name ['-', '-']

/-- The options that an argument of more than one character may be short for. -/
def candidates (specs : List (OptionSpec τ)) (s : Text) : List (Mention τ) :=
  let names := specs.flatMap fun spec => spec.names.map (·, spec)
  if isLong s then
    let (start, value) := cutAtEquals s
    names.filterMap fun (name, spec) =>
      if start.isPrefixOf name then some ⟨spec, false, value⟩ else none
  else
    names.filterMap fun (name, spec) =>
      if name = s.take 2 then some ⟨spec, true, some (s.drop 2)⟩
      else if s.isPrefixOf name then some ⟨spec, !isLong name, none⟩
      else none

def isDecimalDigit (c : Char) : Bool := (Unicode.digitValue? c).isSome

/-- A minus sign before digits with at most one point, which is followed by digits. -/
def isNegativeNumber (s : Text) : Bool :=
  match s with
  | '-' :: unsigned =>
    let number := if unsigned.getLast? = some '\n' then unsigned.dropLast else unsigned
    match number.dropWhile isDecimalDigit with
    | [] => !number.isEmpty
    | '.' :: fraction => !fraction.isEmpty && fraction.all isDecimalDigit
    | _ => false
  | _ => false

/-- What an argument is; `misuse` if it may be short for several options. -/
def ofText (specs : List (OptionSpec τ)) (s : Text) : Except Stop (Argument τ) :=
  if s.head? ≠ some '-' then .ok plain
  else match OptionSpec.named s specs with
    | some spec => .ok (option ⟨spec, !isLong s, none⟩)
    | none =>
      let (name, value) := cutAtEquals s
      if s.length = 1 then .ok plain
      else match value, OptionSpec.named name specs with
        | some value, some spec => .ok (option ⟨spec, !isLong name, some value⟩)
        | _, _ =>
          match candidates specs s with
          | [m] => .ok (option m)
          | _ :: _ :: _ => .error .misuse
          | [] => .ok (if isNegativeNumber s || ' ' ∈ s then plain else unknown)

/-- All arguments with what they are. -/
def classify (specs : List (OptionSpec τ)) : List Text → Except Stop (List (Text × Argument τ))
  | [] => .ok []
  | s :: rest =>
    if s = ['-', '-'] then .ok ((s, dashes) :: rest.map (·, plain))
    else do
      let a ← ofText specs s
      pure ((s, a) :: (← classify specs rest))

end Argument

/-- What an argument with options comes to: the options in order, each with the text given as its
value, and whether the argument after it was taken for that. -/
structure Expansion (τ : Type) where
  options : List (OptionSpec τ × Option Text)
  takesNext : Bool := false

namespace Expansion

variable {τ : Type}

def alone (spec : OptionSpec τ) (next : Option Text) : Except Stop (Expansion τ) :=
  if spec.takesValue then
    match next with
    | some value => .ok ⟨[(spec, some value)], true⟩
    | none => .error .misuse
  else .ok ⟨[(spec, none)], false⟩

def precede (spec : OptionSpec τ) (e : Expansion τ) : Expansion τ :=
  { e with options := (spec, none) :: e.options }

/-- An option of one letter with text joined to it: its value, or the letters of further options. -/
def letters (specs : List (OptionSpec τ)) (next : Option Text) :
    OptionSpec τ → Text → Except Stop (Expansion τ)
  | spec, joined =>
    if spec.takesValue then .ok ⟨[(spec, some joined)], false⟩
    else match joined with
      | [] => .error .misuse
      | c :: rest =>
        match OptionSpec.named ['-', c] specs with
        | none => .error .misuse
        | some further =>
          match rest with
          | [] => (alone further next).map (precede spec)
          | d :: rest => (letters specs next further (d :: rest)).map (precede spec)

def ofMention (specs : List (OptionSpec τ)) (next : Option Text) (m : Mention τ) :
    Except Stop (Expansion τ) :=
  match m.joined with
  | none => alone m.spec next
  | some joined =>
    if m.isShort then letters specs next m.spec joined
    else if m.spec.takesValue then .ok ⟨[(m.spec, some joined)], false⟩
    else .error .misuse

end Expansion

/-- The value an option goes with. An option that takes none has none, and two dashes leave any
option without one. -/
inductive OptionValue where
  | text (s : Text)
  | void
  deriving DecidableEq, Repr

namespace OptionValue

def text? : OptionValue → Option Text
  | text s => some s
  | void => none

/-- The value that the text given for it makes. -/
def ofGiven : Option Text → OptionValue
  | none | some ['-', '-'] => void
  | some s => text s

end OptionValue

/-- What a command makes of its arguments: its options, the one value it needs, which may be
followed by arguments of its own, and what each of them does to the result. -/
structure ArgumentParser (τ σ : Type) where
  specs : List (OptionSpec τ)
  /-- The value takes all arguments after it. -/
  takesRest : Bool := false
  onOption : σ → τ → OptionValue → Except Stop σ
  onValue : σ → List Text → Except Stop σ

namespace ArgumentParser

variable {τ σ : Type}

/-- The result so far, whether the value was met, and whether some argument means nothing. -/
structure Progress (σ : Type) where
  result : σ
  isFilled : Bool := false
  isStray : Bool := false

/-- Lets an option act, if its value is one of those allowed. -/
def takeOption (parser : ArgumentParser τ σ) (result : σ) (spec : OptionSpec τ)
    (value : OptionValue) : Except Stop σ :=
  match value with
  | .void => parser.onOption result spec.tag value
  | .text s => if spec.accepts s then parser.onOption result spec.tag value else .error .misuse

def takeOptions (parser : ArgumentParser τ σ) (result : σ) (e : Expansion τ) : Except Stop σ :=
  e.options.foldlM (fun result (spec, given) =>
    parser.takeOption result spec (OptionValue.ofGiven given)) result

def finish (parser : ArgumentParser τ σ) (p : Progress σ) (items : List (Text × Argument τ)) :
    Except Stop (Progress σ) :=
  let isDashes : Text × Argument τ → Bool := fun item => item.2.isDashes
  match p.isFilled, items.dropWhile isDashes with
  | true, _ => .ok { p with isStray := p.isStray || !items.isEmpty }
  | false, [] => .error .misuse
  | false, (value, _) :: rest => do
    if parser.takesRest then
      pure { p with result := ← parser.onValue p.result (items.map Prod.fst), isFilled := true }
    else
      let result ← parser.onValue p.result [value]
      pure { result, isFilled := true, isStray := p.isStray || !(rest.dropWhile isDashes).isEmpty }

def consume (parser : ArgumentParser τ σ) (p : Progress σ) :
    List (Text × Argument τ) → Except Stop (Progress σ)
  | [] => parser.finish p []
  | (s, a) :: rest =>
    if !(a.isOption || rest.any fun item => item.2.isOption) then parser.finish p ((s, a) :: rest)
    else match a with
      | .unknown => consume parser { p with isStray := true } rest
      | .option m =>
        match rest with
        | (next, .plain) :: rest' =>
          match Expansion.ofMention parser.specs (some next) m with
          | .error stop => .error stop
          | .ok e =>
            match parser.takeOptions p.result e with
            | .error stop => .error stop
            | .ok result =>
              let p := { p with result }
              if e.takesNext then consume parser p rest'
              else consume parser p ((next, .plain) :: rest')
        | rest =>
          match Expansion.ofMention parser.specs none m with
          | .error stop => .error stop
          | .ok e =>
            match parser.takeOptions p.result e with
            | .error stop => .error stop
            | .ok result => consume parser { p with result } rest
      | _ =>
        if p.isFilled then consume parser { p with isStray := true } rest
        else if parser.takesRest then parser.finish p ((s, a) :: rest)
        else match parser.onValue p.result [s] with
          | .error stop => .error stop
          | .ok result => consume parser { p with result, isFilled := true } rest

def parse (parser : ArgumentParser τ σ) (start : σ) (args : List Text) :
    Except Stop (σ × Bool) := do
  let p ← parser.consume { result := start } (← Argument.classify parser.specs args)
  pure (p.result, p.isStray)

end ArgumentParser

end PartProgram
