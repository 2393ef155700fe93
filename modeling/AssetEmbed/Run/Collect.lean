/-
  AssetEmbed.Run.Collect — from a directory to a bundle.
-/
import AssetEmbed.Bundle.Basic
import AssetEmbed.Run.Threads
import AssetEmbed.Settings.Basic

namespace AssetEmbed

/-- The path that names lead to from a directory. -/
def Path.descend (root : Path) (names : List Name) : Path :=
  names.foldl (fun p name => p.join ⟨name⟩) root

/-- Whether a stored path leads through a hidden name. -/
def isHiddenPath (stored : String) : Bool :=
  (Path.splitSlash (Utf8.encode stored)).any isHiddenName

/-- The source that something below the asset root is, if it is a file and not
hidden. -/
def Source.ofFound? (root : Path) (f : Found) : Except BundleError (Option Source) :=
  if f.kind = .file then
    (relativePath root (root.descend f.names)).map fun stored =>
      if isHiddenPath stored then none else some ⟨root.descend f.names, stored⟩
  else .ok none

/-- The sources among what is found below the asset root. -/
def sourcesOf (root : Path) : List Found → Except BundleError (List Source)
  | [] => .ok []
  | f :: rest => do
    let source ← Source.ofFound? root f
    return source.toList ++ (← sourcesOf root rest)

section
variable {m : Type → Type} [Monad m] [Host m]

/-- The visible files below the asset root. -/
def scanSources (root : Path) : ExceptT Failure m (List Source) := do
  if !(← Host.isDirectory root) then throw (.ofCause (.bundle (.missingRoot root)))
  let found ← Host.entriesBelow root
  Failure.ofBundle (sourcesOf root found)

/-- The bundle of the visible files below a directory. -/
def collect (root : Path) (quiet : Bool) : ExceptT Failure m Bundle := do
  let sources ← scanSources root
  debugMessage "scan"
    ("found " ++ toString sources.length ++ " files under " ++ root.display)
  let shown := !quiet && !sources.isEmpty
  if shown then Host.tell (.log (.progress [(readCounter, sources.length)]))
  let assets ← readSources shown sources
  if shown then Host.tell (.log .finish)
  Failure.ofBundle (Bundle.ofAssets root assets)

/-- Collects the assets of a run. -/
def collectFor (s : Settings) (quiet : Bool) : ExceptT Failure m Bundle :=
  Failure.during ("failed to collect assets from " ++ s.webDir.display) (collect s.webDir quiet)

end

end AssetEmbed
