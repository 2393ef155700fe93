/-
  AssetEmbed.Terminal.Log — log lines and the progress line.

  A log line is committed with a line feed.  The progress line stays on the
  current line and is drawn over itself; a log line that comes while it is
  live first clears it away.  `State.step` says what each step writes.
-/
import AssetEmbed.MediaType
import AssetEmbed.Terminal.Style

namespace AssetEmbed.Log

/-! ## §1. Lines. -/

/-- Moves to the first column. -/
def toFirstColumn : String := Style.escapeChar ++ "[1G"

/-- Clears the current line. -/
def clearLine : String := Style.escapeChar ++ "[2K"

/-- Makes the current line empty. -/
def wipe : String := toFirstColumn ++ clearLine

/-- The style of a module's name, whatever its case. -/
def moduleStyle (module : String) : Style :=
  match MediaType.asciiLower module with
  | "bundle" => .brightGreenBold
  | "error" => .brightRedBold
  | "list" => .brightBlueBold
  | _ => .brightYellowBold

/-- The name of a module in brackets. -/
def tag (color : Bool) (module : String) : String :=
  (moduleStyle module).apply color ("[" ++ module ++ "]")

/-- A message with the module it comes from. -/
def logLine (color : Bool) (module message : String) : String :=
  tag color module ++ " " ++ message

/-! ## §2. The progress line. -/

/-- A named count on its way to a total. -/
structure Counter where
  name : String
  total : Nat
  current : Nat
deriving DecidableEq, Repr

def Counter.display (c : Counter) : String :=
  c.name ++ "(" ++ toString c.current ++ "/" ++ toString c.total ++ ")"

/-- Counters for the items that have anything to count. -/
def startCounters (items : List (String × Nat)) : List Counter :=
  (items.filter fun item => item.2 > 0).map fun item => ⟨item.1, item.2, 0⟩

/-- Counts one up at the first counter of a name. -/
def increment (name : String) : List Counter → List Counter
  | [] => []
  | c :: rest =>
    if c.name = name then { c with current := c.current + 1 } :: rest
    else c :: increment name rest

/-- The counters side by side. -/
def displayCounters (counters : List Counter) : String :=
  String.intercalate " " (counters.map Counter.display)

/-- The progress line as it is drawn over the current line. -/
def drawProgress (color : Bool) (counters : List Counter) : String :=
  wipe ++ logLine color "bundle" (displayCounters counters)

/-! ## §3. Steps. -/

/-- What can happen to a log. -/
inductive Step where
  | setVerbose (verbose : Bool)
  | log (module message : String)
  /-- A line for verbose runs only. -/
  | debug (module message : String)
  /-- Starts a progress line, after dropping the current one. -/
  | progress (items : List (String × Nat))
  | increment (name : String)
  /-- Commits the progress line. -/
  | finish
  /-- Clears the progress line away. -/
  | drop
deriving DecidableEq, Repr

/-- A log between two steps: whether it is verbose, the live progress line, and
whether log lines have to clear the current line first. -/
structure State where
  verbose : Bool
  live : Option (List Counter)
  active : Bool
deriving DecidableEq, Repr

def State.initial : State := ⟨false, none, false⟩

/-- What a log line writes. -/
def State.writeLine (st : State) (color : Bool) (module message : String) : String :=
  (if st.active then wipe else "") ++ logLine color module message ++ "\n"

/-- One step: the state after it and what it writes. -/
def State.step (color : Bool) (st : State) : Step → State × String
  | .setVerbose verbose => ({ st with verbose }, "")
  | .log module message => (st, st.writeLine color module message)
  | .debug module message =>
    (st, if st.verbose then st.writeLine color module message else "")
  | .progress items =>
    let counters := startCounters items
    ({ st with live := some counters, active := true },
      (if st.live.isSome then wipe else "") ++ drawProgress color counters)
  | .increment name =>
    match st.live with
    | none => (st, "")
    | some counters =>
      if counters.any (·.name == name) then
        let counters := Log.increment name counters
        ({ st with live := some counters }, drawProgress color counters)
      else (st, "")
  | .finish =>
    match st.live with
    | none => (st, "")
    | some counters =>
      ({ st with live := none, active := false }, drawProgress color counters ++ "\n")
  | .drop =>
    match st.live with
    | none => (st, "")
    | some _ => ({ st with live := none, active := false }, wipe)

/-- Steps in sequence: what each of them writes. -/
def transcript (color : Bool) : State → List Step → List String
  | _, [] => []
  | st, step :: steps =>
    let next := st.step color step
    next.2 :: transcript color next.1 steps

end AssetEmbed.Log
