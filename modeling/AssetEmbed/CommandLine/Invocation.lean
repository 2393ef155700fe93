/-
  AssetEmbed.CommandLine.Invocation — reading a command line.

  Arguments are read from left to right.  The value of an option is looked at
  only when the next option, path or the end comes, so that an unknown
  argument is reported before a wrong value in front of it.  After `--` there
  are only paths.
-/
import AssetEmbed.CommandLine.Options

namespace AssetEmbed.CommandLine

/-- What a run does. -/
inductive Command where
  | bundle
  | list (paths : List String) (json : Bool)
deriving DecidableEq, Repr

/-- A command line that was understood. -/
structure Invocation where
  color : ColorChoice
  config : Option Path
  verbose : Bool
  quiet : Bool
  overrides : Overrides
  command : Command
deriving DecidableEq, Repr

/-! ## §1. One place. -/

/-- The reading of the arguments at one place. -/
structure Scan where
  level : Level
  given : Given := {}
  /-- The option whose value comes next, or came last and was not looked at. -/
  pending : Option (Key × Option String) := none
  /-- Whether `--` was seen. -/
  trailing : Bool := false
deriving DecidableEq, Repr

/-- The subcommands, with their short forms. -/
inductive Subcommand where
  | enter (level : Level)
  | help
deriving DecidableEq, Repr

/-- The subcommand that a word names at a place. -/
def subcommand? (level : Level) (word : String) : Option Subcommand :=
  if level ≠ .top then none
  else if word = "bundle" ∨ word = "b" then some (.enter .bundle)
  else if word = "list" ∨ word = "l" then some (.enter .list)
  else if word = "help" then some .help
  else none

namespace Scan

/-- Whether the next argument is the value of an option. -/
def awaitsValue (s : Scan) : Bool :=
  match s.pending with
  | some (_, none) => true
  | _ => false

/-- Looks at the value of the pending option. -/
def settle (s : Scan) : Except Stop Scan :=
  match s.pending with
  | none => .ok s
  | some (_, none) => .error .invalidValue
  | some (key, some text) => do .ok { s with given := ← s.given.record key text, pending := none }

/-- An option with its value attached. -/
def attach (s : Scan) (key : Key) (text : String) : Except Stop Scan := do
  let s ← s.settle
  .ok { s with given := ← s.given.record key text }

/-- An option whose value comes in the next argument. -/
def await (s : Scan) (key : Key) : Except Stop Scan := do
  let s ← s.settle
  .ok { s with pending := some (key, none) }

/-- An option without a value. -/
def flag (s : Scan) (key : Key) : Except Stop Scan := do
  let s ← s.settle
  .ok { s with given := ← s.given.raise key }

/-- An argument `--name` or `--name=value`. -/
def long (s : Scan) (cs : List Char) : Except Stop Scan :=
  let name := String.ofList (cs.takeWhile (· != '='))
  let attached := (cs.dropWhile (· != '=')).tail?.map String.ofList
  match Key.ofLong? s.level name with
  | none => .error .unknownArgument
  | some key =>
    match key.takesValue, attached with
    | true, some text => s.attach key text
    | true, none => s.await key
    | false, some _ => .error .tooManyValues
    | false, none => s.flag key

/-- The letters of an argument `-abc`.  The rest after an option that takes a
value is its value. -/
def short (s : Scan) : List Char → Except Stop Scan
  | [] => .ok s
  | c :: cs =>
    match Key.ofShort? s.level c with
    | none => .error .unknownArgument
    | some key =>
      if key.takesValue then
        match cs with
        | [] => s.await key
        | '=' :: text => s.attach key (String.ofList text)
        | text => s.attach key (String.ofList text)
      else do
        let s ← s.flag key
        s.short cs

/-- An argument that is neither an option nor the value of one. -/
def positional (s : Scan) (word : String) : Except Stop Scan :=
  match s.level with
  | .list => do
    let s ← s.settle
    .ok { s with given.paths := s.given.paths ++ [word] }
  | .top =>
    if s.trailing ∧ (subcommand? .top word).isSome then .error .unknownArgument
    else .error .invalidSubcommand
  | .bundle => .error .unknownArgument

/-- One argument that is not a subcommand. -/
def argument (s : Scan) (word : String) : Except Stop Scan :=
  if s.trailing then s.positional word
  else match word.toList with
    | ['-', '-'] => .ok { s with trailing := true }
    | '-' :: '-' :: cs => s.long cs
    | '-' :: c :: cs => s.short (c :: cs)
    | _ =>
      match s.pending with
      | some (key, none) => .ok { s with pending := some (key, some word) }
      | _ => s.positional word

end Scan

/-! ## §2. Both places. -/

/-- What asking for the help of a subcommand answers. -/
def helpFor : List String → Stop
  | [] => .displayHelp
  | word :: rest =>
    match subcommand? .top word, rest with
    | some _, [] => .displayHelp
    | _, _ => .invalidSubcommand

/-- Reads all arguments, first at one place and then after a subcommand.  The
last value in front of the subcommand is looked at after the rest. -/
def scan : List String → Scan → Except Stop (Scan × Option Scan)
  | [], s => do .ok (← s.settle, none)
  | word :: rest, s =>
    match if s.trailing || s.awaitsValue then none else subcommand? s.level word with
    | some .help => .error (helpFor rest)
    | some (.enter level) => do
      let inner ← scan rest { level }
      .ok (← s.settle, some inner.1)
    | none => do
      let s ← s.argument word
      scan rest s

/-- What is given at the two places together. -/
def Invocation.ofGiven (outer : Given) (inner : Given) (command : Command) : Invocation where
  color := ((inner.color <|> outer.color).getD .auto)
  config := inner.config <|> outer.config
  verbose := inner.verbose || outer.verbose
  quiet := inner.quiet || outer.quiet
  overrides := inner.overrides.merge outer.overrides
  command := command

/-- Reads a command line, without the name of the program. -/
def Invocation.parse (args : List String) : Except Stop Invocation := do
  let (outer, inner) ← scan args { level := .top }
  match inner with
  | none => .ok (.ofGiven outer.given {} .bundle)
  | some s =>
    let command := if s.level = .list then Command.list s.given.paths s.given.json else .bundle
    .ok (.ofGiven outer.given s.given command)

end AssetEmbed.CommandLine
