/-
  AssetEmbed.Run.Generate — writing the generated files of a bundle.

  Everything is rendered before the first file is written.
-/
import AssetEmbed.Configuration.Load
import AssetEmbed.Run.Collect
import AssetEmbed.Source.Plan
import AssetEmbed.Text.Plural

namespace AssetEmbed

/-- What a run has generated: the files, the index last, and the number of
assets in them. -/
structure Report where
  files : List Path
  assets : Nat
deriving DecidableEq, Repr

/-- The name of a mode in messages. -/
def EmitMode.title : EmitMode → String
  | .combined => "Combined"
  | .split => "Split"

/-- The name of a target in messages. -/
def Target.title : Target → String
  | .cpp => "Cpp"
  | .rust => "Rust"

/-- A path as it is seen from a directory above it. -/
def Path.displayBelow (p base : Path) : String := ((p.below? base).getD p).display

section
variable {m : Type → Type} [Monad m] [Host m]

/-- Writes generated files into a directory one after another. -/
def writeRendered (dir : Path) : List Rendered → ExceptT Failure m (List Path)
  | [] => return []
  | r :: rest => do
    let path := dir.join (.ofString r.fileName)
    match ← Host.writeFile path (Utf8.encode r.content) with
    | .error e => throw (.ofCause (.bundle (.write path e)))
    | .ok () =>
      debugMessage "emit" ("wrote " ++ r.fileName)
      return path :: (← writeRendered dir rest)

/-- Generates the files of a bundle. -/
def emit (b : Bundle) (s : Settings) : ExceptT Failure m Report := do
  let rendered ← Failure.ofBundle (render b s)
  match ← Host.makeDirs s.outputDir with
  | .error e => throw (.ofCause (.bundle (.createDir s.outputDir e)))
  | .ok () => return ⟨← writeRendered s.outputDir rendered, b.size⟩

/-- Tells what was collected. -/
def tellCollected (b : Bundle) : m Unit :=
  if b.isEmpty then logMessage "warning" ("no files found under " ++ b.root.display)
  else debugMessage "bundle"
    ("collected " ++ pluralCount b.size "file" ++ " (" ++ pluralCount b.totalBytes "byte" ++ ")")

/-- Tells into which file each asset went. -/
def tellUnits (b : Bundle) (r : Report) : m Unit :=
  (b.assets.zip r.files).forM fun (a, file) =>
    debugMessage "bundle" (a.path ++ " -> " ++ file.displayName)

/-- The path of the index file in messages. -/
def Report.indexDisplay (r : Report) (c : Configuration) : String :=
  match r.files.getLast? with
  | some file => file.displayBelow c.root
  | none => c.settings.indexFileName

/-- Embeds the assets of a configuration. -/
def generate (c : Configuration) (quiet : Bool) : ExceptT Failure m Report := do
  let s := c.settings
  debugMessage "bundle"
    (s.webDir.display ++ " -> " ++ s.outputDir.display
      ++ " (" ++ s.mode.title ++ ", " ++ s.target.title ++ ")")
  let b ← collectFor s quiet
  tellCollected b
  let r ← Failure.during ("failed to write bundle to " ++ s.outputDir.display) (emit b s)
  if s.mode = .split then tellUnits b r
  logMessage "bundle"
    ("Generated " ++ r.indexDisplay c ++ " with " ++ pluralCount r.assets "file")
  return r

end

end AssetEmbed
