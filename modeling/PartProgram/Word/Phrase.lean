import PartProgram.Word.Basic

/-! # Phrases

What a word tells the machine to do, in plain words. A few commands take numbers
from the words that depend on them. A code without an entry is named as unknown;
a code with an empty entry is known and goes without a phrase.
-/
namespace PartProgram

def preparatoryPhrases : List (Int × String) :=
  [(0, "RAPID"),
    (1, "MOVE"),
    (2, "CLOCKWISE ARC"),
    (3, "COUNTERCLOCKWISE ARC"),
    (4, "DWELL"),
    (5, "NON MODAL RAPID"),
    (8, "NO ACCELERATION/FEED RAMP FOR SPEED"),
    (9, "ACCELERATION/FEED RAMP FOR ACCURACY"),
    (10, "PROGRAMMABLE DATA INPUT"),
    (15, "YZ CIRCULAR INTERPOLATION WITH A AXIS"),
    (17, "USE XY PLANE FOR ARCS, COMPENSATION AND, COORDINATE ROTATIONS"),
    (18, "USE ZX PLANE FOR ARCS, COMPENSATION AND, COORDINATE ROTATIONS"),
    (19, "USE YZ PLANE FOR ARCS, COMPENSATION AND, COORDINATE ROTATIONS"),
    (20, "VERIFY INCH MODE"),
    (21, "VERIFY METRIC MODE"),
    (28, "RETURN TO COORDINATE SYSTEM ZERO"),
    (29, "RETURN FROM ZERO"),
    (31, "PROBE TOUCH FUNCTION"),
    (40, "CUTTER COMPENSATION CANCEL"),
    (41, "CUTTER COMPENSATION LEFT"),
    (42, "CUTTER COMPENSATION RIGHT"),
    (43, "CUTTER COMPENSATION POSITIVE"),
    (44, "CUTTER COMPENSATION NEGATIVE"),
    (45, "TOOL OFFSET SINGLE EXPANSION"),
    (46, "TOOL OFFSET SINGLE REDUCTION"),
    (47, "TOOL OFFSET DOUBLE EXPANSION"),
    (48, "TOOL OFFSET DOUBLE REDUCTION"),
    (49, "TOOL LENGTH OFFSET CANCEL"),
    (50, "RAMP CONTROL CANCEL"),
    (51, "RAMP CONTROL"),
    (52, "COORDINATE SYSTEM SHIFT"),
    (53, "USE MACHINE TOOL COORDINATE SYSTEM"),
    (54, "USE FIXTURE OFFSET 1"),
    (55, "USE FIXTURE OFFSET 2"),
    (56, "USE FIXTURE OFFSET 3"),
    (57, "USE FIXTURE OFFSET 4"),
    (58, "USE FIXTURE OFFSET 5"),
    (59, "USE FIXTURE OFFSET 6"),
    (66, "MODAL SUBROUTINE"),
    (67, "CANCEL MODAL SUBROUTINE"),
    (68, "COORDINATE SYSTEM ROTATION"),
    (69, "COORDINATE SYSTEM ROTATION CANCEL"),
    (70, "VERIFY INCH MODE"),
    (71, "VERIFY METRIC MODE"),
    (73, "FIXED CYCLE"),
    (74, "FIXED CYCLE"),
    (75, "FIXED CYCLE"),
    (76, "FIXED CYCLE"),
    (80, "FIXED CYCLE CANCEL"),
    (81, "FIXED CYCLE"),
    (82, "FIXED CYCLE"),
    (83, "FIXED CYCLE"),
    (84, "FIXED CYCLE"),
    (85, "FIXED CYCLE"),
    (86, "FIXED CYCLE"),
    (87, "FIXED CYCLE"),
    (88, "FIXED CYCLE"),
    (89, "FIXED CYCLE"),
    (90, "ABSOLUTE POSITIONING"),
    (91, "INCREMENTAL POSITIONING"),
    (92, "SET TEMPORARY COORDINATE SYSTEM"),
    (93, "USE INVERSE TIME FEEDRATE"),
    (94, "USE FEEDRATE PER MINUTE"),
    (99, "RETURN TO INITIAL PLANE")]

def miscellaneousPhrases : List (Int × String) :=
  [(0, "PROGRAM STOP"),
    (1, "OPTIONAL PROGRAM STOP"),
    (2, "END OF PROGRAM"),
    (3, "SPINDLE CLOCKWISE"),
    (4, "SPINDLE COUNTERCLOCKWISE"),
    (5, "SPINDLE STOP"),
    (6, "CHANGE TOOL"),
    (7, "MIST COOLANT ON"),
    (8, "FLOOD COOLANT ON"),
    (9, "COOLANT OFF"),
    (10, "CANCEL RECIPROCATION"),
    (11, "X AXIS RECIPROCATION"),
    (12, "Y AXIS RECIPROCATION"),
    (13, "Z AXIS RECIPROCATION"),
    (14, "B AXIS RECIPROCATION"),
    (15, "A AXIS RECIPROCATION"),
    (16, ""),
    (17, "END OF SUBROUTINE"),
    (18, "AIR RATCHETING INDEXER"),
    (19, "SPINDLE STOP AND ORIENT"),
    (20, "GENERAL PURPOSE INDEXER"),
    (30, "END OF FILE/SUBROUTINE"),
    (31, "EXCHANGE PALLETS"),
    (32, "LOAD AND STORE PALLET A"),
    (33, "LOAD AND STORE PALLET A"),
    (41, "BELT DRIVE RANGE 150-2700 RPM"),
    (42, "BELT DRIVE RANGE 150-5200 RPM"),
    (43, "BELT DRIVE RANGE 300-10000 RPM"),
    (45, "EXECUTE FIXED CYCLE"),
    (46, "POSITIVE APPROACH"),
    (47, "CANCEL POSITIVE APPROACH"),
    (48, "POTENTIOMETER CONTROLS IN"),
    (49, "POTENTIOMETER CONTROLS OUT"),
    (-60, "FIXED CYCLE"),
    (-61, "FIXED CYCLE"),
    (-62, "FIXED CYCLE"),
    (63, ""),
    (64, "ACTIVATE MP8 PROBE"),
    (65, "ACTIVATE TS-20 OR TS-27 TOOL SETTER"),
    (66, "ACTIVATE MP12 OR MP11 PROBE"),
    (67, "ACTIVATE LASER PROBE"),
    (80, "AUTOMATIC DOORS OPEN"),
    (81, "AUTOMATIC DOORS CLOSE"),
    (90, "SET DEFAULT GAIN BASED ON SV COMMAND"),
    (91, "SET NORMAL GAIN FOR < 50 IMP"),
    (92, "SET INTERMEDIATE GAIN FOR CLOSER TRACKING"),
    (93, "SET HIGH GAIN FOR RIGID TAPPING CYCLE"),
    (94, "FEED FORWARD FUNCTION"),
    (95, "FEED FORWARD CANCEL"),
    (96, "INTERSECTIONAL CUTTER COMPENSATION CANCELED"),
    (97, "INTERSECTIONAL CUTTER COMPENSATION"),
    (98, "CALL SUBPROGRAM"),
    (99, "END OF SUBPROGRAM")]

/-- The entry of a code, or its name as an unknown command of the given letter. -/
def phraseIn (table : List (Int × String)) (letter : Char) (code : Int) : Text :=
  match table.lookup code with
  | some phrase => phrase.toList
  | none => "UNKNOWN ".toList ++ letter :: Number.text code ++ " COMMAND".toList

/-- A rapid move may take up a fixture offset. -/
def preparatoryPhrase (code : Int) (fixture? : Option Int) : Text :=
  match code, fixture? with
  | 0, some fixture => "RAPID WITH FIXTURE OFFSET ".toList ++ Number.text fixture
  | _, _ => phraseIn preparatoryPhrases 'G' code

/-- A subprogram call names a program and a count, an end of subprogram a target. -/
def miscellaneousPhrase (code : Int) (program? count? : Option Int) : Text :=
  match code, program?, count? with
  | 98, some program, some count =>
    "CALL SUBPROGRAM ".toList ++ Number.text program ++ ' ' :: Number.text count ++ " TIMES".toList
  | 98, some program, none => "CALL SUBPROGRAM ".toList ++ Number.text program
  | 98, none, some count => "CALL SUBPROGRAM ?? ".toList ++ Number.text count ++ " TIMES".toList
  | 99, some target, _ => "LINE JUMP TO ".toList ++ Number.text target
  | _, _, _ => phraseIn miscellaneousPhrases 'M' code

/-- The phrase for the present texts of a word and its dependents. -/
def WordGraph.phrase (g : WordGraph) (w : Word) : Text :=
  if w.verbatim then []
  else if w.letter = ['T'] then "SET TOOL".toList
  else if w.letter = ['S'] then "SET SPINDLE RPM".toList
  else match w.int? with
    | none => []
    | some code =>
      if w.letter = ['G'] then preparatoryPhrase code (g.dependentInt? w ['E'])
      else if w.letter = ['M'] then
        miscellaneousPhrase code (g.dependentInt? w ['P']) (g.dependentInt? w ['L'])
      else []

end PartProgram
