/-
  AssetEmbed.Settings.Overrides — settings that are given only in part.

  A configuration file and a command line both give some of the settings.
  What the command line gives comes before what the file gives, and the
  defaults fill the rest.

  Main results:
    * `override_merge` — overriding twice is overriding once by the merge.
-/
import AssetEmbed.Settings.Basic

namespace AssetEmbed

/-- The settings that one source gives. -/
structure Overrides where
  webDir : Option Path := none
  outputDir : Option Path := none
  scope : Option String := none
  mode : Option EmitMode := none
  target : Option Target := none
  indexName : Option String := none
  bytesPerLine : Option Nat := none
deriving DecidableEq, Repr

/-- The settings of two sources, of which the first counts where both give one. -/
def Overrides.merge (first second : Overrides) : Overrides where
  webDir := first.webDir <|> second.webDir
  outputDir := first.outputDir <|> second.outputDir
  scope := first.scope <|> second.scope
  mode := first.mode <|> second.mode
  target := first.target <|> second.target
  indexName := first.indexName <|> second.indexName
  bytesPerLine := first.bytesPerLine <|> second.bytesPerLine

/-- Settings with the given ones in place of their own. -/
def Settings.override (s : Settings) (o : Overrides) : Settings where
  webDir := o.webDir.getD s.webDir
  outputDir := o.outputDir.getD s.outputDir
  scope := o.scope.getD s.scope
  mode := o.mode.getD s.mode
  target := o.target.getD s.target
  indexName := o.indexName.getD s.indexName
  bytesPerLine := o.bytesPerLine.getD s.bytesPerLine

theorem getD_getD {α : Type} (first second : Option α) (fallback : α) :
    first.getD (second.getD fallback) = (first <|> second).getD fallback := by
  cases first <;> rfl

theorem Settings.override_merge (s : Settings) (first second : Overrides) :
    (s.override second).override first = s.override (first.merge second) := by
  simp only [Settings.override, Overrides.merge, getD_getD]

end AssetEmbed
