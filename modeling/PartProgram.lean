import PartProgram.CommandLine.Execution
import PartProgram.Main
import PartProgram.Number.Binary64
import PartProgram.Proofs.CommandLine.FragmentsKept
import PartProgram.Proofs.CommandLine.ProgramsKept
import PartProgram.Proofs.Fragment.InstructionOrder
import PartProgram.Proofs.Fragment.JoinedLines
import PartProgram.Proofs.Word.Tied
import PartProgram.Proofs.Program.Threaded
import PartProgram.Proofs.Program.Governed
import PartProgram.Proofs.Program.Twin
import PartProgram.Proofs.Program.Kept
import PartProgram.Proofs.Program.Described
import PartProgram.Proofs.Program.Beside
import PartProgram.Proofs.Program.Edited
import PartProgram.Proofs.Text.Lines
import PartProgram.Proofs.Word.Phrase
import PartProgram.Proofs.Block.Remarked
import PartProgram.Proofs.Program.Annotated
import PartProgram.Proofs.Program.AnnotatedText
import PartProgram.Proofs.Action.Confined
import PartProgram.Proofs.Block.Rebuilt
import PartProgram.Proofs.Program.Section
import PartProgram.Proofs.Fragment.ToolRemarkKept
import PartProgram.Proofs.Program.Remembered
import PartProgram.Proofs.Program.Halfway
import PartProgram.Proofs.Program.Sound
import PartProgram.Proofs.Program.Sectioned
import PartProgram.Proofs.Fragment.Refused
import PartProgram.Proofs.Batch.Refused
import PartProgram.Proofs.CommandLine.ExitCode
import PartProgram.Proofs.Fragment.ToolRemarkMoved
import PartProgram.Proofs.Fragment.OffsetWords
import PartProgram.Proofs.Fragment.OffsetsCombined
import PartProgram.Proofs.Fragment.JoinRefused
import PartProgram.Proofs.Block.CommentOrder
import PartProgram.Proofs.Program.Reproduced
import PartProgram.Proofs.Block.CommentCut
import PartProgram.Proofs.Program.Appended
import PartProgram.Proofs.Program.Aligned
import PartProgram.Proofs.Program.Reordered
import PartProgram.Proofs.Batch.Search
import PartProgram.Proofs.Batch.Halted
import PartProgram.Proofs.Batch.FreeName
import PartProgram.Proofs.Block.TokenCut
import PartProgram.Proofs.Program.NumberWritten
