/-
  AssetEmbed.Configuration.Load — the settings of a run.

  The configuration file is searched from the working directory upwards; its
  directory is the root that relative paths are seen from.  What the command
  line gives comes before what the file gives.  The settings are checked after
  the paths in them have been normalized.
-/
import AssetEmbed.CommandLine.Invocation
import AssetEmbed.Configuration.Document
import AssetEmbed.Run.Failure
import AssetEmbed.Run.Host
import AssetEmbed.Settings.Validation
import AssetEmbed.Toml.Document

namespace AssetEmbed

/-- Everything that a run is told. -/
structure Configuration where
  /-- The configuration file, if there is one. -/
  file : Option Path
  /-- The directory that relative paths in the settings are seen from. -/
  root : Path
  settings : Settings
deriving DecidableEq, Repr

namespace Configuration

/-- The name of the configuration file that is searched for unasked. -/
def defaultName : String := "webembed.toml"

section
variable {m : Type → Type} [Monad m] [Host m]

/-! ## §1. Paths. -/

/-- The canonical path of what is at a path; if nothing is, the path made
absolute and otherwise as it is. -/
def normalize (p : Path) : m Path := do
  match ← Host.canonical? p with
  | some q => return q
  | none => if p.isAbsolute then return p else return (← Host.workingDirectory).join p

/-! ## §2. The configuration file. -/

/-- The paths at which a file of a name may be, nearest first. -/
def candidates (current name : Path) : List Path := current.ancestors.map fun d => d.join name

/-- The configuration file of a name: what is at an absolute path, or else the
nearest file of that name in the working directory and above. -/
def locate (current name : Path) : m (Option Path) :=
  if name.isAbsolute then do
    return if ← Host.isPresent name then some name else none
  else (candidates current name).findM? Host.isFile

/-- Warns of keys that mean nothing. -/
def warnUnknown (path : Path) (unknown : List String) : m Unit := do
  if !unknown.isEmpty then
    logMessage "warning" ("unknown fields in " ++ path.display ++ ", ignoring:")
    unknown.forM fun key => Host.tell (.line ("- " ++ key))

/-- What the bytes of a configuration file say. -/
def decode (path : Path) (bytes : List UInt8) : Except Cause Document :=
  match Utf8.decode? bytes with
  | none => .error (.configUnreadable path .invalidText)
  | some text =>
    match (Toml.parse text).bind Document.ofTable with
    | none => .error .configMalformed
    | some document => .ok document

/-- Reads a configuration file. -/
def readDocument (path : Path) : ExceptT Failure m Document := do
  match ← Host.readFile path with
  | .error e => throw (.ofCause (.configUnreadable path e))
  | .ok bytes =>
    let document ← Failure.ofExcept (decode path bytes)
    warnUnknown path document.unknown
    return document

/-! ## §3. The configuration. -/

/-- Settings with normalized paths, which are seen from a root. -/
def normalizePaths (root : Path) (s : Settings) : m Settings := do
  let webDir ← normalize (root.join s.webDir)
  let outputDir ← normalize (root.join s.outputDir)
  return { s with webDir, outputDir }

/-- The configuration, unless the settings cannot be used. -/
def check (c : Configuration) : Except Cause Configuration :=
  match c.settings.diagnostics with
  | [] => .ok c
  | problems => .error (.configInvalid problems)

/-- What the message about the configuration file says. -/
def fileMessage : Option Path → String
  | some file => "using " ++ file.display
  | none => "no " ++ defaultName ++ " found, using defaults"

/-- Finds out what a run is told, with the directories as they are given. -/
def gather (inv : CommandLine.Invocation) : ExceptT Failure m Configuration := do
  let current ← Host.workingDirectory
  let name := inv.config.getD (.ofString defaultName)
  let found ← locate current name
  if found.isNone ∧ inv.config.isSome then throw (.ofCause (.configNotFound name))
  let document ← found.elim (pure {}) readDocument
  let file ← found.mapM normalize
  debugMessage "config" (fileMessage file)
  let settings := Settings.default.override (inv.overrides.merge document.overrides)
  let root ← normalize ((found.bind Path.parent?).getD current)
  return { file, root, settings }

/-- Finds out what a run is told, and checks it. -/
def load (inv : CommandLine.Invocation) : ExceptT Failure m Configuration := do
  let c ← gather inv
  let settings ← normalizePaths c.root c.settings
  Failure.ofExcept (check { c with settings })

end

end Configuration

end AssetEmbed
