import PartProgram.Text.Basic

/-! # Reports

What the program tells while it works: log entries, each with a level and the
part of the program that wrote it, and the lines it prints as its result.
-/
namespace PartProgram

def Text.shown (s : Text) : String := String.ofList s

inductive Level where
  | trace | debug | info | warning | error | critical
  deriving DecidableEq, Repr

namespace Level

def rank : Level → Nat
  | trace => 5
  | debug => 10
  | info => 20
  | warning => 30
  | error => 40
  | critical => 50

def name : Level → String
  | trace => "TRACE"
  | debug => "DEBUG"
  | info => "INFO"
  | warning => "WARNING"
  | error => "ERROR"
  | critical => "CRITICAL"

def all : List Level := [trace, debug, info, warning, error, critical]

theorem mem_all (l : Level) : l ∈ all := by cases l <;> decide

end Level

/-- The part of the program that writes a log entry. -/
inductive Channel where
  | settings | block | program | sections | merge | grouping | annotated | commandLine
  deriving DecidableEq, Repr

def Channel.name : Channel → String
  | settings => "gcode_processor.config"
  | block => "gcode_processor.gcode.line"
  | program => "gcode_processor.gcode.document"
  | sections => "gcode_processor.gcode.fragment"
  | merge => "gcode_processor.merge"
  | grouping => "gcode_processor.grouping"
  | annotated => "gcode_processor.annotate"
  | commandLine => "gcode_processor.cli.main"

inductive Report where
  | log (level : Level) (channel : Channel) (message : String)
  | output (line : Text)
  deriving DecidableEq, Repr

end PartProgram
