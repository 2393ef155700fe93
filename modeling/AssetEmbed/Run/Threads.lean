/-
  AssetEmbed.Run.Threads — files that are read by several threads.

  A thread reads a file, counts it and, if the display is free, shows how many
  files have been counted by then.  Between two of these moves the threads at
  other files can make theirs, so a line that is drawn may be out of date, and of
  several files that cannot be read the one is reported that is come to first.
  The order of the moves is the host's.
-/
import AssetEmbed.Asset
import AssetEmbed.Run.Failure
import AssetEmbed.Run.Host

namespace AssetEmbed

/-- A file to be embedded, before it is read. -/
structure Source where
  path : Path
  /-- The path under which it is embedded. -/
  stored : String
deriving DecidableEq, Repr

/-- The counter of files on the progress line. -/
def readCounter : String := "read"

/-- How far a thread has come with a file. -/
inductive Stage where
  | waiting
  /-- The file has been read and counted. -/
  | counted (bytes : List UInt8)
  /-- The thread has looked at the counter and is about to draw the line. -/
  | drawing (bytes : List UInt8) (current : Nat)
  | finished (bytes : List UInt8)
  /-- The file cannot be read, or it need not be read any more. -/
  | abandoned
deriving DecidableEq, Repr

/-- What the threads have in common: how many files have been counted, and the
failure that will be reported. -/
structure Tally where
  counted : Nat
  failure? : Option BundleError
deriving DecidableEq, Repr

namespace Tally

def start : Tally := ⟨0, none⟩

/-- Counts one more file. -/
def count (t : Tally) : Tally := { t with counted := t.counted + 1 }

/-- Takes note of a failure, if it is the first. -/
def fail (t : Tally) (e : BundleError) : Tally := { t with failure? := t.failure?.or (some e) }

end Tally

/-- Files that are read together. -/
structure Batch where
  tasks : List (Source × Stage)
  tally : Tally
deriving DecidableEq, Repr

/-- Files of which none has been read yet. -/
def Batch.start (sources : List Source) : Batch := ⟨sources.map (·, .waiting), .start⟩

section
variable {m : Type → Type} [Monad m] [Host m]

/-- The next move of the thread at a file; `shown` says whether there is a
progress line, and `total` how many files there are. -/
def Stage.move (shown : Bool) (total : Nat) (warned free : Bool) (source : Source)
    (tally : Tally) : Stage → m (Stage × Tally)
  | .waiting =>
    if warned && tally.failure?.isSome then return (.abandoned, tally)
    else do
      match ← Host.readFile source.path with
      | .error e => return (.abandoned, tally.fail (.read source.path e))
      | .ok bytes =>
        if shown then
          Host.tell (.counted readCounter)
          return (.counted bytes, tally.count)
        else return (.finished bytes, tally)
  | .counted bytes =>
    return (if free then .drawing bytes tally.counted else .finished bytes, tally)
  | .drawing bytes current => do
    Host.tell (.drawn [⟨readCounter, total, current⟩])
    return (.finished bytes, tally)
  | .finished bytes => return (.finished bytes, tally)
  | .abandoned => return (.abandoned, tally)

/-- The thread whose turn it is makes its next move. -/
def Batch.turn (shown : Bool) (total : Nat) (b : Batch) (turn : Turn) : m Batch :=
  match b.tasks[turn.file]? with
  | none => return b
  | some (source, stage) => do
    let (stage, tally) ← stage.move shown total turn.warned turn.free source b.tally
    return ⟨b.tasks.set turn.file (source, stage), tally⟩

/-- The moves that are left to do for a file, with no other thread in the way. -/
def Stage.finish (shown : Bool) (total : Nat) (source : Source) (tally : Tally)
    (stage : Stage) : m (Stage × Tally) := do
  let (stage, tally) ← stage.move shown total true true source tally
  let (stage, tally) ← stage.move shown total true true source tally
  stage.move shown total true true source tally

/-- What a file is embedded as once it has been read. -/
def Stage.asset? (source : Source) : Stage → Option Asset
  | .finished bytes => some ⟨source.stored, bytes⟩
  | _ => none

/-- Finishes with one file after another. -/
def finishAll (shown : Bool) (total : Nat) : List (Source × Stage) → Tally →
    m (List Asset × Tally)
  | [], tally => return ([], tally)
  | (source, stage) :: rest, tally => do
    let (stage, tally) ← stage.finish shown total source tally
    let (assets, tally) ← finishAll shown total rest tally
    return ((stage.asset? source).toList ++ assets, tally)

/-- Reads files while the threads take the given turns; `shown` says whether there
is a progress line. -/
def readInTurns (turns : List Turn) (shown : Bool) (sources : List Source) :
    ExceptT Failure m (List Asset) := do
  let b ← turns.foldlM (Batch.turn shown sources.length) (Batch.start sources)
  let (assets, tally) ← finishAll shown sources.length b.tasks b.tally
  match tally.failure? with
  | none => return assets
  | some e =>
    if shown then Host.tell (.log .drop)
    throw (.ofCause (.bundle e))

/-- Reads files, and gives them in the order in which they come. -/
def readSources (shown : Bool) (sources : List Source) : ExceptT Failure m (List Asset) := do
  readInTurns (← Host.turns) shown sources

end

end AssetEmbed
