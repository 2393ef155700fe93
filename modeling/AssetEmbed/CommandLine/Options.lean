/-
  AssetEmbed.CommandLine.Options — the options and their values.

  An option may be given before or after a subcommand.  What is given at one
  of the two places is collected in `Given`; the place after the subcommand
  wins when the two are merged.
-/
import AssetEmbed.Settings.Overrides
import AssetEmbed.Text.Numeral

namespace AssetEmbed.CommandLine

/-- When to use colour. -/
inductive ColorChoice where
  | auto
  | always
  | never
deriving DecidableEq, Repr

/-- The options. -/
inductive Key where
  | color
  | config
  | verbose
  | quiet
  | webDir
  | outputDir
  | scope
  | mode
  | target
  | indexName
  | bytesPerLine
  | json
  | help
  | version
deriving DecidableEq, Repr

/-- The places where an option can be given. -/
inductive Level where
  | top
  | bundle
  | list
deriving DecidableEq, Repr

/-- What ends the reading of a command line early. -/
inductive Stop where
  | unknownArgument
  | invalidValue
  | valueValidation
  | invalidSubcommand
  | argumentConflict
  | tooManyValues
  | displayHelp
  | displayVersion
deriving DecidableEq, Repr

/-- Help and version are answers, all else are errors. -/
def Stop.exitCode : Stop → Nat
  | .displayHelp => 0
  | .displayVersion => 0
  | _ => 2

/-! ## §1. Names of options. -/

namespace Key

def all : List Key :=
  [color, config, verbose, quiet, webDir, outputDir, scope, mode, target, indexName,
   bytesPerLine, json, help, version]

def longName : Key → String
  | color => "color"
  | config => "config"
  | verbose => "verbose"
  | quiet => "quiet"
  | webDir => "web-dir"
  | outputDir => "output-dir"
  | scope => "namespace"
  | mode => "mode"
  | target => "target"
  | indexName => "index-name"
  | bytesPerLine => "bytes-per-line"
  | json => "json"
  | help => "help"
  | version => "version"

def shortName? : Key → Option Char
  | config => some 'C'
  | verbose => some 'v'
  | quiet => some 'q'
  | outputDir => some 'o'
  | scope => some 'n'
  | mode => some 'm'
  | target => some 't'
  | json => some 'j'
  | help => some 'h'
  | version => some 'V'
  | _ => none

/-- Whether a value follows the option. -/
def takesValue : Key → Bool
  | verbose => false
  | quiet => false
  | json => false
  | help => false
  | version => false
  | _ => true

/-- Whether the option can be given at a place. -/
def isAt (level : Level) : Key → Bool
  | json => level == .list
  | version => level == .top
  | _ => true

def ofLong? (level : Level) (name : String) : Option Key :=
  all.find? fun key => key.isAt level && key.longName == name

def ofShort? (level : Level) (c : Char) : Option Key :=
  all.find? fun key => key.isAt level && key.shortName? == some c

end Key

/-! ## §2. Values. -/

/-- A path is any text but the empty one. -/
def readPath (text : String) : Except Stop Path :=
  if text = "" then .error .invalidValue else .ok (.ofString text)

def readColor : String → Except Stop ColorChoice
  | "auto" => .ok .auto
  | "always" => .ok .always
  | "never" => .ok .never
  | _ => .error .invalidValue

def readMode (text : String) : Except Stop EmitMode :=
  (EmitMode.named? text).elim (.error .invalidValue) .ok

def readTarget (text : String) : Except Stop Target :=
  (Target.named? text).elim (.error .invalidValue) .ok

/-- The number that digits spell, if there are digits and nothing else. -/
def digitsValue? (cs : List Char) : Option Nat :=
  if cs ≠ [] ∧ cs.all Char.isDigit then some (Numeral.ofDigits 10 cs) else none

/-- A count: digits after an optional plus sign, of at most 64 bits. -/
def readCount (text : String) : Except Stop Nat :=
  let digits := match text.toList with
    | '+' :: cs => cs
    | cs => cs
  match digitsValue? digits with
  | some n => if n < Numeral.wordSize 64 then .ok n else .error .valueValidation
  | none => .error .valueValidation

/-! ## §3. What is given at one place. -/

/-- The options given at one place, and the paths after `list`. -/
structure Given where
  color : Option ColorChoice := none
  config : Option Path := none
  verbose : Bool := false
  quiet : Bool := false
  overrides : Overrides := {}
  json : Bool := false
  paths : List String := []
deriving DecidableEq, Repr

namespace Given

/-- A value for an option that has none yet. -/
def once {α : Type} (old : Option α) (value : Except Stop α) : Except Stop (Option α) :=
  if old.isSome then .error .argumentConflict else value.map some

/-- Takes the value of an option in. -/
def record (g : Given) (key : Key) (text : String) : Except Stop Given :=
  match key with
  | .color => do .ok { g with color := ← once g.color (readColor text) }
  | .config => do .ok { g with config := ← once g.config (readPath text) }
  | .webDir => do
    .ok { g with overrides.webDir := ← once g.overrides.webDir (readPath text) }
  | .outputDir => do
    .ok { g with overrides.outputDir := ← once g.overrides.outputDir (readPath text) }
  | .scope => do .ok { g with overrides.scope := ← once g.overrides.scope (.ok text) }
  | .mode => do .ok { g with overrides.mode := ← once g.overrides.mode (readMode text) }
  | .target => do .ok { g with overrides.target := ← once g.overrides.target (readTarget text) }
  | .indexName => do
    .ok { g with overrides.indexName := ← once g.overrides.indexName (.ok text) }
  | .bytesPerLine => do
    .ok { g with overrides.bytesPerLine := ← once g.overrides.bytesPerLine (readCount text) }
  | _ => .ok g

/-- Takes an option without a value in. -/
def raise (g : Given) : Key → Except Stop Given
  | .help => .error .displayHelp
  | .version => .error .displayVersion
  | .verbose => if g.verbose then .error .argumentConflict else .ok { g with verbose := true }
  | .quiet => if g.quiet then .error .argumentConflict else .ok { g with quiet := true }
  | .json => if g.json then .error .argumentConflict else .ok { g with json := true }
  | _ => .ok g

end Given

end AssetEmbed.CommandLine
