/-
  AssetEmbed.Run.Host — what a run asks of its surroundings.

  A run is written against these operations alone.  A file tree in memory
  answers them (`AssetEmbed.Run.Machine`), and so does an operating system.
-/
import AssetEmbed.FileTree.Query
import AssetEmbed.Terminal.Log

namespace AssetEmbed

/-- What a run tells while it goes on.  It tells everything; what is shown
depends on the options of the run. -/
inductive Event where
  | log (step : Log.Step)
  /-- A line without the name of a module. -/
  | line (text : String)
  /-- A counter of the progress line goes up, and nothing is drawn yet. -/
  | counted (name : String)
  /-- The progress line is drawn as a thread has seen its counters. -/
  | drawn (counters : List Log.Counter)
deriving DecidableEq, Repr

/-- A move of one of the threads that read files. -/
structure Turn where
  /-- The number of the file that the thread is at. -/
  file : Nat
  /-- Whether the thread notices that another one has failed. -/
  warned : Bool
  /-- Whether the thread finds the display free. -/
  free : Bool
deriving DecidableEq, Repr

/-- The operations on files, the order in which threads move, and the two ways to
say something. -/
class Host (m : Type → Type) where
  /-- The directory that relative paths are seen from. -/
  workingDirectory : m Path
  /-- The path without links, `.` and `..`, if something is there. -/
  canonical? : Path → m (Option Path)
  isFile : Path → m Bool
  isDirectory : Path → m Bool
  isPresent : Path → m Bool
  readFile : Path → m (Except FileError (List UInt8))
  /-- What a walk over a directory comes to. -/
  entriesBelow : Path → m (List Found)
  /-- Makes a directory and the missing ones above it. -/
  makeDirs : Path → m (Except FileError Unit)
  writeFile : Path → List UInt8 → m (Except FileError Unit)
  /-- The turns that the threads take which read files.  What is left to do after
  the last of them is done by one thread. -/
  turns : m (List Turn)
  tell : Event → m Unit
  /-- Writes to the standard output. -/
  print : String → m Unit

/-- What can be asked of a host can be asked of it in a computation that may fail. -/
instance Host.exceptT {m : Type → Type} {ε : Type} [Monad m] [Host m] : Host (ExceptT ε m) where
  workingDirectory := ExceptT.lift Host.workingDirectory
  canonical? p := ExceptT.lift (Host.canonical? p)
  isFile p := ExceptT.lift (Host.isFile p)
  isDirectory p := ExceptT.lift (Host.isDirectory p)
  isPresent p := ExceptT.lift (Host.isPresent p)
  readFile p := ExceptT.lift (Host.readFile p)
  entriesBelow p := ExceptT.lift (Host.entriesBelow p)
  makeDirs p := ExceptT.lift (Host.makeDirs p)
  writeFile p content := ExceptT.lift (Host.writeFile p content)
  turns := ExceptT.lift Host.turns
  tell e := ExceptT.lift (Host.tell e)
  print text := ExceptT.lift (Host.print text)

/-! ## Events as text -/

/-- What an event writes, and the state of the log after it. -/
def Event.write (color : Bool) (st : Log.State) : Event → Log.State × String
  | .log step => st.step color step
  | .line text => (st, text ++ "\n")
  | .counted name => ({ st with live := st.live.map (Log.increment name) }, "")
  | .drawn counters => (st, Log.drawProgress color counters)

/-- What events write in sequence. -/
def Event.writeAll (color : Bool) : Log.State → List Event → String
  | _, [] => ""
  | st, e :: es =>
    let next := e.write color st
    next.2 ++ writeAll color next.1 es

section
variable {m : Type → Type} [Host m]

/-- Tells a message of a module. -/
def logMessage (module message : String) : m Unit :=
  Host.tell (.log (.log module message))

/-- Tells a message of a module that only verbose runs show. -/
def debugMessage (module message : String) : m Unit :=
  Host.tell (.log (.debug module message))

end

end AssetEmbed
