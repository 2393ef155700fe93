/-
  AssetEmbed.Run.List — showing what a bundle would hold.
-/
import AssetEmbed.Bundle.Listing
import AssetEmbed.Configuration.Load
import AssetEmbed.Run.Collect
import AssetEmbed.Source.Plan
import AssetEmbed.Text.Plural

namespace AssetEmbed

section
variable {m : Type → Type} [Monad m] [Host m]

/-- Tells how much a bundle holds. -/
def tellSummary (b : Bundle) : m Unit :=
  if b.isEmpty then logMessage "list" ("no files under " ++ b.root.display)
  else logMessage "list" (pluralCount b.size "file" ++ ", " ++ pluralCount b.totalBytes "byte")

/-- Shows the assets of a configuration, or those that are asked for.  Names
that could not be generated are an error here too. -/
def listAssets (c : Configuration) (queries : List String) (json : Bool) :
    ExceptT Failure m Unit := do
  let b ← collectFor c.settings true
  let _ ← Failure.ofBundle (plan b c.settings)
  let rows := Row.select b queries
  if json then Host.print (Row.jsonList rows)
  else
    Host.print (Row.table rows)
    if queries.isEmpty then tellSummary b

end

end AssetEmbed
