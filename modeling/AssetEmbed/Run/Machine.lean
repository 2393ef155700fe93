/-
  AssetEmbed.Run.Machine — a host in memory.

  A machine is a file tree with a current directory, and an order in which
  threads take turns; it keeps what a run tells and prints.
-/
import AssetEmbed.FileTree.Change
import AssetEmbed.Run.Host
import AssetEmbed.Run.Program

namespace AssetEmbed

/-- A file tree in which a run takes place, the turns that its threads take, and
what the run has said. -/
structure Machine where
  files : FileTree
  current : Location
  turns : List Turn
  events : List Event
  output : String

namespace Machine

/-- A machine on which nothing has run, and on which one thread reads all files. -/
def start (files : FileTree) (current : Location) : Machine := ⟨files, current, [], [], ""⟩

/-- Answers a question about the files, and changes nothing. -/
def ask {α : Type} (question : FileTree → Location → α) : StateM Machine α :=
  fun s => (question s.files s.current, s)

/-- Changes the files, or fails and leaves them. -/
def attempt (change : FileTree → Location → Except FileError FileTree) :
    StateM Machine (Except FileError Unit) := fun s =>
  match change s.files s.current with
  | .ok files => (.ok (), { s with files })
  | .error e => (.error e, s)

instance : Host (StateM Machine) where
  workingDirectory := ask fun _ current => Location.path current
  canonical? p := ask fun files current => files.canonical? current p
  isFile p := ask fun files current => files.isFile current p
  isDirectory p := ask fun files current => files.isDirectory current p
  isPresent p := ask fun files current => files.isPresent current p
  readFile p := ask fun files current => files.readFile current p
  entriesBelow p := ask fun files current => files.entriesBelow current p
  makeDirs p := fun s =>
    let (made, files) := s.files.makeDirs s.current p
    (made, { s with files })
  writeFile p content := attempt fun files current => files.writeFile current p content
  turns := fun s => (s.turns, s)
  tell e := fun s => ((), { s with events := s.events ++ [e] })
  print text := fun s => ((), { s with output := s.output ++ text })

/-- Runs something that asks a host on a machine. -/
def perform {α : Type} (x : ExceptT Failure (StateM Machine) α) (s : Machine) :
    Except Failure α × Machine :=
  x.run s

/-- A whole run. -/
def run (inv : CommandLine.Invocation) (s : Machine) : Except Failure Outcome × Machine :=
  s.perform (runProgram inv)

/-- What a run has written to the terminal. -/
def terminal (s : Machine) (inv : CommandLine.Invocation) : String :=
  Event.writeAll inv.colored inv.log s.events

end Machine

end AssetEmbed
