/-
  AssetEmbed.Run.Program — a whole run.
-/
import AssetEmbed.Run.Generate
import AssetEmbed.Run.List

namespace AssetEmbed

/-- What a run that succeeds has done. -/
inductive Outcome where
  | generated (report : Report)
  | listed
deriving DecidableEq, Repr

/-- Does what a command line asks for. -/
def runProgram {m : Type → Type} [Monad m] [Host m] (inv : CommandLine.Invocation) :
    ExceptT Failure m Outcome := do
  let c ← Configuration.load inv
  match inv.command with
  | .bundle => return .generated (← generate c inv.quiet)
  | .list queries json =>
    listAssets c queries json
    return .listed

/-- Whether the messages of a run are coloured. -/
def CommandLine.Invocation.colored (inv : CommandLine.Invocation) : Bool :=
  inv.color == .always

/-- The state in which the log of a run begins. -/
def CommandLine.Invocation.log (inv : CommandLine.Invocation) : Log.State :=
  { Log.State.initial with verbose := inv.verbose }

end AssetEmbed
