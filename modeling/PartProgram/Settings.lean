import PartProgram.Block.Comment
import PartProgram.Fault
import PartProgram.Unicode.Case
import PartProgram.Unicode.Digit

/-! # Settings

What a user may set once for all runs, through variables of the environment. A
value that cannot be used is reported, and the usual one stands. How deep calls may
stand in calls is set by the runtime; the values here are those of a plain run.
-/
namespace PartProgram

open Unicode

structure Settings where
  /-- The first sequence number of a joined program. -/
  numberStart : Int := 10
  numberStep : Int := 10
  style : CommentStyle := .parentheses
  /-- Stands between the phrases of a block. -/
  delimiter : Text := " | ".toList
  /-- Begins the comment that describes the tool of a fragment. -/
  toolMark : Text := "(T".toList
  extension : Text := ".nc".toList
  /-- Stands between the name of a program and the number of a fragment. -/
  separator : Text := "-".toList
  /-- Ends the name of an annotated copy. -/
  copySuffix : Text := " Commented".toList
  logLevel : Text := "WARNING".toList
  /-- The most directories that are made for one path. -/
  directoryDepth : Nat := 987
  /-- How deep links may stand in links. -/
  linkDepth : Nat := 980
  deriving Repr

namespace Settings

/-- Decimal digits of any script in groups joined by single underscores, at most as many as an
integer may have. -/
def readGroups (s : Text) : Option Nat :=
  let groups := Text.splitOn '_' s
  if groups.any List.isEmpty then none
  else
    (groups.flatten.mapM digitValue?).bind fun digits =>
      if Number.digitLimit < digits.length then none
      else some (digits.foldl (fun n d => 10 * n + d) 0)

def integer? (s : Text) : Option Int :=
  let (negative, unsigned) := Number.splitSign s
  (readGroups unsigned).map (Number.signed negative)

def warn (message : String) : List Report := [.log .warning .settings message]

/-- The integer that a variable is set to. A variable that is blank counts as not set. -/
def integer (name : String) (usual : Int) (raw : Option Text) : Int × List Report :=
  match raw with
  | none => (usual, [])
  | some s =>
    if Text.isBlankText s then (usual, [])
    else match integer? s.trim with
      | some i => (i, [])
      | none => (usual, warn s!"Ignoring non-integer value {s.quoted.shown} for {name}")

/-- The one of several words that a variable is set to, in any case and between blanks. -/
def choice (name : String) (usual : Text) (choices : List Text) (raw : Option Text) :
    Text × List Report :=
  match raw with
  | none => (usual, [])
  | some s =>
    let word := lowerText s.trim
    if choices.contains word then (word, [])
    else
      let expected : Text := ", ".toList.intercalate choices
      (usual, warn s!"Ignoring {name}={s.quoted.shown}; expected one of {expected.shown}")

def styleNames : List Text := [CommentStyle.parentheses.name, CommentStyle.semicolon.name]

def fullName (name : String) : String := "GCODE_PROCESSOR_" ++ name

def fullNames : List String :=
  ["LINE_NUMBER_START", "LINE_NUMBER_STEP", "COMMENT_STYLE", "DESCRIPTION_DELIMITER",
    "TOOL_COMMENT_PREFIX", "FRAGMENT_EXTENSION", "FRAGMENT_SEPARATOR", "COMMENTED_SUFFIX",
    "LOG_LEVEL"].map fullName

/-- The settings that the variables make, and what is to be said about them. -/
def ofEnvironment (value? : String → Option Text) : Settings × List Report :=
  let usual : Settings := {}
  let number (name : String) (i : Int) := integer (fullName name) i (value? (fullName name))
  let text (name : String) (s : Text) := (value? (fullName name)).getD s
  let (numberStart, startReports) := number "LINE_NUMBER_START" usual.numberStart
  let (numberStep, stepReports) := number "LINE_NUMBER_STEP" usual.numberStep
  let (style, styleReports) := choice (fullName "COMMENT_STYLE") usual.style.name styleNames
    (value? (fullName "COMMENT_STYLE"))
  let settings :=
    { numberStart, numberStep
      style := CommentStyle.named usual.style (some style)
      delimiter := text "DESCRIPTION_DELIMITER" usual.delimiter
      toolMark := text "TOOL_COMMENT_PREFIX" usual.toolMark
      extension := text "FRAGMENT_EXTENSION" usual.extension
      separator := text "FRAGMENT_SEPARATOR" usual.separator
      copySuffix := text "COMMENTED_SUFFIX" usual.copySuffix
      logLevel := upperText (text "LOG_LEVEL" usual.logLevel) }
  (settings, startReports ++ stepReports ++ styleReports)

def thresholds : List (Text × Nat) :=
  [("CRITICAL", 50), ("FATAL", 50), ("ERROR", 40), ("WARNING", 30), ("WARN", 30), ("INFO", 20),
    ("DEBUG", 10), ("NOTSET", 0)].map fun (name, rank) => (name.toList, rank)

/-- The least rank that is shown. The words of the log that are no level are refused, and any other
name stands for warnings. -/
def threshold (s : Settings) : Except Fault Nat :=
  match [LogWord.layout, .layouts].find? fun word => word.name = s.logLevel with
  | some word => .error (.notALevel word)
  | none => .ok ((thresholds.lookup s.logLevel).getD Level.warning.rank)

end Settings

end PartProgram
