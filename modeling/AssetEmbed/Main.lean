/-
  AssetEmbed.Main — the command line.
-/
import AssetEmbed.FileTree.Query
import AssetEmbed.Run.Program

namespace AssetEmbed

/-- Where a run writes its messages: whether they are coloured, and the state
of the log. -/
structure Console where
  color : Bool
  log : IO.Ref Log.State

/-- A run on the operating system. -/
abbrev Live := ReaderT Console IO

namespace Live

/-- The error of the operating system with a number. -/
def codedError (code : UInt32) (text : String) : FileError :=
  match code.toNat with
  | 2 => .notFound
  | 17 => .alreadyExists
  | 20 => .notADirectory
  | 21 => .isADirectory
  | 36 => .nameTooLong
  | 40 => .tooManyLinks
  | n => .system (text ++ " (os error " ++ toString n ++ ")")

/-- Why an operation on files failed. -/
def fileError : IO.Error → FileError
  | .alreadyExists _ code text => codedError code text
  | .otherError code text => codedError code text
  | .resourceBusy code text => codedError code text
  | .resourceVanished code text => codedError code text
  | .unsupportedOperation code text => codedError code text
  | .hardwareFault code text => codedError code text
  | .unsatisfiedConstraints code text => codedError code text
  | .illegalOperation code text => codedError code text
  | .protocolError code text => codedError code text
  | .timeExpired code text => codedError code text
  | .interrupted _ code text => codedError code text
  | .noFileOrDirectory _ code text => codedError code text
  | .invalidArgument _ code text => codedError code text
  | .permissionDenied _ code text => codedError code text
  | .resourceExhausted _ code text => codedError code text
  | .inappropriateType _ code text => codedError code text
  | .noSuchThing _ code text => codedError code text
  | .unexpectedEof => .system "unexpected end of file"
  | .userError text => .system text

/-- The outcome of an operation on files. -/
def guarded {α : Type} (x : IO α) : IO (Except FileError α) := do
  try return .ok (← x) catch e => return .error (fileError e)

/-- What is at a path, links followed. -/
def kind? (p : Path) : IO (Option IO.FS.FileType) := do
  match ← guarded (do return (← ((← IO.currentDir) / p.display).metadata).type) with
  | .ok kind => return some kind
  | .error _ => return none

/-- The kind of an entry, links not followed; all but files and links and
directories is passed over. -/
def kindOf? : IO.FS.FileType → Option EntryKind
  | .file => some .file
  | .symlink => some .link
  | .dir => some .folder
  | .other => none

/-- What a walk over a directory comes to. -/
partial def entriesBelow (dir : String) : IO (List Found) := do
  let mut found := []
  for entry in ← ((← IO.currentDir) / dir).readDir do
    let name := Utf8.encode entry.fileName
    match kindOf? (← entry.path.symlinkMetadata).type with
    | some kind =>
      let below ← if kind == .folder && !isHiddenName name then entriesBelow entry.path.toString
        else pure []
      found := Found.visit name kind below ++ found
    | none => pure ()
  return found

/-- Makes a directory, unless it is there. -/
def ensureDir (p : Path) : IO (Except FileError Unit) := do
  match ← guarded (IO.FS.createDir p.display) with
  | .ok () => return .ok ()
  | failed => return if (← kind? p) == some .dir then .ok () else failed

/-- Makes a directory and the missing ones above it. -/
partial def makeDirs (p : Path) : IO (Except FileError Unit) := do
  match ← guarded (IO.FS.createDir p.display), p.parent? with
  | .ok (), _ => return .ok ()
  | .error .notFound, some up =>
    match ← makeDirs up with
    | .ok () => ensureDir p
    | failed => return failed
  | _, _ => ensureDir p

instance : Host Live where
  workingDirectory := do return .ofString (← IO.currentDir).toString
  canonical? p := do
    match ← guarded (IO.FS.realPath p.display) with
    | .ok q => return some (.ofString q.toString)
    | .error _ => return none
  isFile p := do return (← kind? p) == some .file
  isDirectory p := do return (← kind? p) == some .dir
  isPresent p := do return (← kind? p).isSome
  readFile p := guarded (do return (← IO.FS.readBinFile p.display).data.toList)
  entriesBelow p := do return sortFound (← entriesBelow p.display)
  makeDirs p := makeDirs p
  writeFile p content := guarded (IO.FS.writeBinFile p.display ⟨content.toArray⟩)
  turns := return []
  tell e := do
    let console ← read
    let (st, text) := e.write console.color (← console.log.get)
    console.log.set st
    (← IO.getStderr).putStr text
  print text := do (← IO.getStdout).putStr text

end Live

/-- What is said of a command line that was not understood. -/
def CommandLine.Stop.message : Stop → String
  | .unknownArgument => "error: unexpected argument found"
  | .invalidValue => "error: invalid value for an option"
  | .valueValidation => "error: invalid value for an option"
  | .invalidSubcommand => "error: unrecognized subcommand"
  | .argumentConflict => "error: an option was given more than once"
  | .tooManyValues => "error: unexpected value for an option"
  | .displayHelp => "Usage: webembed [OPTIONS] [bundle | list [--json] [PATHS]...]"
  | .displayVersion => "webembed 0.1.0"

/-- Whether messages are coloured; left open, it depends on the terminal. -/
def CommandLine.ColorChoice.resolve : ColorChoice → IO Bool
  | .always => return true
  | .never => return false
  | .auto => do (← IO.getStderr).isTty

/-- Runs a command line and gives its exit code. -/
def runCommand (inv : CommandLine.Invocation) : IO UInt32 := do
  let color ← inv.color.resolve
  let console : Console := ⟨color, ← IO.mkRef inv.log⟩
  match ← (runProgram inv : ExceptT Failure Live Outcome).run.run console with
  | .ok _ => return 0
  | .error f =>
    (← IO.getStderr).putStr (f.report color)
    return 1

/-- Reads and runs a command line. -/
def runArguments (args : List String) : IO UInt32 := do
  match CommandLine.Invocation.parse args with
  | .ok inv => runCommand inv
  | .error stop =>
    let out ← if stop.exitCode = 0 then IO.getStdout else IO.getStderr
    out.putStrLn stop.message
    return UInt32.ofNat stop.exitCode

end AssetEmbed

/-- Embeds a directory of assets, or lists it. -/
def main (args : List String) : IO UInt32 := AssetEmbed.runArguments args
