import PartProgram.Number.Integer
import PartProgram.Report
import PartProgram.Text.Quoted

/-! # Faults

The causes for which an operation is refused, and the wording of each.
-/
namespace PartProgram

/-- The two blocks that carry the offsets of a fragment. -/
inductive OffsetRole where
  | fixture | length
  deriving DecidableEq, Repr

def OffsetRole.name : OffsetRole → String
  | fixture => "fixture offset"
  | length => "tool length"

/-- Why a fragment does not have the layout that joining relies on. -/
inductive LayoutFault where
  | toolRemarks (count : Nat)
  | noOperationRemark
  | noOffsets
  | apart (length fixture : Nat)
  | strangeWord (word : Text) (role : OffsetRole) (block : Text)
  | repeatedWord (letter word : Text) (role : OffsetRole) (block : Text)
  | noMotion (block : Text)
  deriving DecidableEq, Repr

def LayoutFault.message : LayoutFault → String
  | toolRemarks count => s!"expected exactly one tool description comment, found {count}"
  | noOperationRemark => "no operation comment to place the tool description after"
  | noOffsets => "fragment body must contain a fixture offset (E) word and a tool length (H) word"
  | apart length fixture =>
    s!"tool length line {length} must directly follow fixture offset line {fixture}"
  | strangeWord word role block =>
    s!"unexpected word {word.quoted.shown} on {role.name} line {block.quoted.shown}"
  | repeatedWord letter word role block =>
    s!"repeated {letter.shown} word {word.quoted.shown} on {role.name} line {block.quoted.shown}"
  | noMotion block => s!"fixture offset line {block.quoted.shown} has no G0 or G1 word"

inductive GroupingFault where
  | sameIndex (second first : Text) (index : Nat) (name : Text)
  | overwrites (output name owner : Text)
  deriving DecidableEq, Repr

def GroupingFault.message : GroupingFault → String
  | sameIndex second first index name =>
    s!"{second.shown} and {first.shown} are both fragment {index} of {name.shown}"
  | overwrites output name owner =>
    s!"merged program {output.shown} for {name.shown} would overwrite a fragment of {owner.shown}"

/-- What the file system answers when it refuses. -/
inductive FileFault where
  | missing | taken | notDirectory | isDirectory | nameTooLong | tooManyLinks
  deriving DecidableEq, Repr

namespace FileFault

def number : FileFault → Nat
  | missing => 2
  | taken => 17
  | notDirectory => 20
  | isDirectory => 21
  | nameTooLong => 36
  | tooManyLinks => 40

def name : FileFault → String
  | missing => "No such file or directory"
  | taken => "File exists"
  | notDirectory => "Not a directory"
  | isDirectory => "Is a directory"
  | nameTooLong => "File name too long"
  | tooManyLinks => "Too many levels of symbolic links"

end FileFault

/-- Words of the log that are no level: the layout of an entry, and the table of layouts. -/
inductive LogWord where
  | layout | layouts
  deriving DecidableEq, Repr

namespace LogWord

def name : LogWord → Text
  | layout => "BASIC_FORMAT".toList
  | layouts => "_STYLES".toList

def value : LogWord → String
  | layout => "%(levelname)s:%(name)s:%(message)s"
  | layouts =>
    "\x7b'%': (<class 'logging.PercentStyle'>, '%(levelname)s:%(name)s:%(message)s'), " ++
    "'\x7b': (<class 'logging.StrFormatStyle'>, " ++
    "'\x7blevelname\x7d:\x7bname\x7d:\x7bmessage\x7d'), " ++
    "'$': (<class 'logging.StringTemplateStyle'>, " ++
    "'$\x7blevelname\x7d:$\x7bname\x7d:$\x7bmessage\x7d')\x7d"

def message : LogWord → String
  | layout => s!"Unknown level: '{value layout}'"
  | layouts => s!"Level not an integer or a valid string: {value layouts}"

end LogWord

inductive Fault where
  | emptyWord
  | longNumeral (count : Nat)
  | unwritableNumber
  | notALetter (text : Text)
  | strangeBlock (text : Text)
  | blockIndex (index : Int) (count : Nat)
  | moveTarget (index : Int) (count : Nat)
  | noSuchItem
  | indexTooLarge
  | columnTooLarge
  | layout (source : Text) (cause : LayoutFault)
  | grouping (cause : GroupingFault)
  | noProgramFile (path : Text)
  | noDirectory (path : Text)
  | namelessPath (path : Text)
  | badName (name : Text)
  | linkLoop (path : Text)
  | nullInPath
  | linksTooDeep
  | tooDeep
  | noOutput
  | noExtension
  | notALevel (word : LogWord)
  | file (cause : FileFault) (path : Text)
  deriving DecidableEq, Repr

def blockLabel (text : Text) : String := s!"GcodeLine({text.quoted.shown})"

namespace Fault

def layoutText (source : Option Text) (message : String) : String :=
  match source with
  | none | some [] => s!"Fragment Format Error: {message}"
  | some s => s!"Fragment Format Error ({s.shown}): {message}"

def groupingText (message : String) : String := s!"Fragment Group Error: {message}"

def limitText (found : String) : String :=
  s!"Exceeds the limit ({Number.digitLimit} digits) for integer string conversion{found}; " ++
    "use sys.set_int_max_str_digits() to increase the limit"

def message : Fault → String
  | emptyWord => "G-code word text must not be empty"
  | longNumeral count => limitText s!": value has {count} digits"
  | unwritableNumber => limitText ""
  | notALetter text => s!"letter must be a single letter, got {text.quoted.shown}"
  | strangeBlock text => s!"{blockLabel text} is not part of this document"
  | blockIndex index count => s!"line index {index} out of range for {count} lines"
  | moveTarget index count => s!"to_index {index} out of range for {count} lines"
  | noSuchItem => "list index out of range"
  | indexTooLarge => "cannot fit 'int' into an index-sized integer"
  | columnTooLarge => "Python int too large to convert to C ssize_t"
  | layout source cause => layoutText (some source) cause.message
  | grouping cause => groupingText cause.message
  | noProgramFile path => s!"G-code file not found: {path.shown}"
  | noDirectory path => s!"Fragment directory not found: {path.shown}"
  | namelessPath path => s!"PosixPath({path.quoted.shown}) has an empty name"
  | badName name => s!"Invalid name {name.quoted.shown}"
  | linkLoop path => s!"Symlink loop from {path.quoted.shown}"
  | nullInPath => "embedded null byte"
  | linksTooDeep => "maximum recursion depth exceeded"
  | tooDeep => "maximum recursion depth exceeded while calling a Python object"
  | noOutput => "expected str, bytes or os.PathLike object, not list"
  | noExtension => "'list' object has no attribute 'lower'"
  | notALevel word => word.message
  | file cause path => s!"[Errno {cause.number}] {cause.name}: {path.quoted.shown}"

end Fault

/-- The kinds of fault a user is told apart. -/
inductive FaultKind where
  | notFound | layout | grouping | unexpected
  deriving DecidableEq, Repr

def Fault.kind : Fault → FaultKind
  | noProgramFile _ | noDirectory _ | file .missing _ => .notFound
  | layout _ _ => .layout
  | grouping _ => .grouping
  | _ => .unexpected

structure Notice where
  message : String
  title : String
  severity : String
  deriving DecidableEq, Repr

def FaultKind.title : FaultKind → String
  | notFound => "File Not Found"
  | layout => "Malformed Program Fragment"
  | grouping => "Ambiguous Fragment Files"
  | unexpected => "Unexpected Error"

def FaultKind.notice (k : FaultKind) (message : String) : Notice := ⟨message, k.title, "error"⟩

end PartProgram
