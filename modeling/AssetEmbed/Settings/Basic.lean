/-
  AssetEmbed.Settings.Basic — what a run is told to do.
-/
import AssetEmbed.Path
import AssetEmbed.Source.Target

namespace AssetEmbed

/-- The settings of the bundle. -/
structure Settings where
  /-- The directory that is searched for assets. -/
  webDir : Path
  /-- The directory that receives the generated files. -/
  outputDir : Path
  /-- The enclosing scope; `::` separates nested scopes. -/
  scope : String
  mode : EmitMode
  target : Target
  /-- The stem of the index file. -/
  indexName : String
  /-- How many byte literals stand on one line. -/
  bytesPerLine : Nat
deriving DecidableEq, Repr

/-- The settings of a run that is told nothing. -/
def Settings.default : Settings where
  webDir := .ofString "web"
  outputDir := .ofString "include/webembed/web/bundle"
  scope := "webembed"
  mode := .combined
  target := .cpp
  indexName := "web_bundle"
  bytesPerLine := 12

end AssetEmbed
