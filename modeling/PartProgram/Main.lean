import PartProgram.CommandLine.Execution

/-! # The program

The files of the machine as a disk, and the entry of the program.
-/
namespace PartProgram

/-- Work on the files of the machine, with the least rank of the log entries shown. -/
abbrev Session := ReaderT Nat (ExceptT Fault IO)

namespace Session

def located (p : Path) := (· / String.ofList p.text) <$> IO.currentDir

def causeOf (code : UInt32) : Option FileFault :=
  let causes : List FileFault :=
    [.missing, .taken, .notDirectory, .isDirectory, .nameTooLong, .tooManyLinks]
  causes.find? fun cause => cause.number = code.toNat

def codeOf : IO.Error → Option UInt32
  | .noFileOrDirectory _ code _ | .alreadyExists _ code _ | .inappropriateType _ code _
  | .resourceExhausted _ code _ | .noSuchThing _ code _ | .invalidArgument _ code _ => some code
  | .otherError code _ => some code
  | _ => none

/-- A refusal of the file system becomes a fault; other failures end the program. -/
def attempt {α : Type} (p : Path) (action : IO α) : Session α := fun _ => do
  if p.holdsNull then throw Fault.nullInPath
  match ← action.toBaseIO with
  | .ok a => pure a
  | .error e =>
    match (codeOf e).bind causeOf with
    | some cause => throw (Fault.file cause p.text)
    | none => liftM (throw e : IO α)

def fileType? (p : Path) : Session (Option IO.FS.FileType) := fun _ => do
  if p.holdsNull then pure none
  else match ← (do pure (← (← located p).metadata).type : IO IO.FS.FileType).toBaseIO with
    | .ok type => pure (some type)
    | .error e =>
      if (codeOf e).bind causeOf = some .nameTooLong then throw (Fault.file .nameTooLong p.text)
      else pure none

def placeOf (path : String) : Place := (Path.ofText path.toList).names

/-- The place of a path; what is missing of it is taken as it stands. -/
def resolveWithin : Nat → Path → IO Place
  | 0, p => do pure (placeOf (← located p).toString)
  | depth + 1, p => do
    match ← (do IO.FS.realPath (← located p)).toBaseIO with
    | .ok path => pure (placeOf path.toString)
    | .error _ => do pure (FileTree.goDown (← resolveWithin depth p.parent) [p.name])

def tell (r : Report) : Session Unit := do
  match r with
  | .output line => IO.println (String.ofList line)
  | .log .. =>
    match r.logLine? (← read) with
    | some line => IO.eprintln line
    | none => pure ()

end Session

instance : Disk Session where
  isFile p := do pure ((← Session.fileType? p) matches some .file)
  isDirectory p := do pure ((← Session.fileType? p) matches some .dir)
  exist p := do pure (← Session.fileType? p).isSome
  read p := Session.attempt p do pure (← IO.FS.readBinFile (← Session.located p)).toList
  write p content := Session.attempt p do
    IO.FS.writeBinFile (← Session.located p) ⟨content.toArray⟩
  makeDirectory p := Session.attempt p do IO.FS.createDir (← Session.located p)
  remove p := Session.attempt p do IO.FS.removeFile (← Session.located p)
  children p := Session.attempt p do
    pure ((← (← Session.located p).readDir).toList.map fun entry => entry.fileName.toList)
  resolve _ p := Session.attempt p do
    pure (FileTree.pathTo (← Session.resolveWithin p.names.length p))
  report reports := reports.forM Session.tell

def readSettings : IO (Settings × List Report) := do
  let values ← Settings.fullNames.mapM fun name => do pure (name, ← IO.getEnv name)
  pure (Settings.ofEnvironment fun name => ((values.lookup name).join).map String.toList)

end PartProgram

open PartProgram in
def main (args : List String) : IO UInt32 := do
  let (settings, warnings) ← readSettings
  for r in warnings do
    match r with
    | .log _ _ message => IO.eprintln message
    | .output line => IO.println (String.ofList line)
  match Invocation.ofArguments (args.map String.toList) with
  | .error stop =>
    IO.print stop.output
    if stop = .misuse then IO.eprint Stop.usage
    pure stop.exitCode
  | .ok invocation =>
    let threshold := (invocation.log.threshold settings).toOption.getD Level.warning.rank
    match ← ((invocation.execute settings : Session UInt32).run threshold).run with
    | .ok code => pure code
    | .error fault =>
      IO.eprintln fault.message
      pure 1
