/-
  AssetEmbed.Source.Plan — from a bundle to generated files.

  A plan is the list of units of a bundle, the index last.  Planning rejects
  names that the target cannot declare and, with one file for each asset, file
  names that are equal when case is ignored.
-/
import AssetEmbed.Bundle.Basic
import AssetEmbed.Order.Keyed
import AssetEmbed.Settings.Basic
import AssetEmbed.Source.RustModule

namespace AssetEmbed

/-- The text of a unit in the notation of a target. -/
def Target.render : Target → SourceUnit → RenderContext → String
  | .cpp => CppHeader.render
  | .rust => RustModule.render

/-! ## §1. Names that cannot be used. -/

/-- The first identifier of an asset that the target reserves. -/
def firstReserved (target : Target) (assets : List Asset) : Option BundleError :=
  assets.findSome? fun a =>
    (a.idents.find? target.isReserved).map fun ident =>
      .reserved ident a.path target.label

/-- The first asset whose unit file takes a name already taken, ignoring case;
`taken` maps names in small letters to what took them. -/
def firstFileClash (target : Target) (taken : Keyed String) : List Asset → Option BundleError
  | [] => none
  | a :: rest =>
    let key := MediaType.asciiLower a.symbol
    match taken.lookup key with
    | some first => some (.collision (target.fileName a.symbol) first a.path)
    | none => firstFileClash target (taken ++ [(key, a.path)]) rest

/-- What makes a bundle impossible to generate, if anything does. -/
def planError? (b : Bundle) (s : Settings) : Option BundleError :=
  match firstReserved s.target b.assets with
  | some e => some e
  | none =>
    match s.mode with
    | .combined => none
    | .split =>
      firstFileClash s.target
        [(MediaType.asciiLower s.indexName, s.target.fileName s.indexName ++ " (index)")]
        b.assets

/-! ## §2. Units. -/

/-- The file of one asset. -/
def assetUnit (a : Asset) : SourceUnit :=
  ⟨a.symbol, .asset a.path, Declaration.ofAsset a⟩

/-- What the index holds before the accessors. -/
def indexContent (b : Bundle) (s : Settings) : List Declaration :=
  match s.mode with
  | .combined => b.assets.flatMap Declaration.ofAsset
  | .split => b.assets.map fun a => .include (s.target.fileName a.symbol)

/-- The index file. -/
def indexUnit (b : Bundle) (s : Settings) : SourceUnit :=
  ⟨s.indexName, .index, indexContent b s ++ [.accessors (b.assets.map Asset.indexEntry)]⟩

/-- All units of a bundle, the index last. -/
def units (b : Bundle) (s : Settings) : List SourceUnit :=
  match s.mode with
  | .combined => [indexUnit b s]
  | .split => b.assets.map assetUnit ++ [indexUnit b s]

/-- The units of a bundle, if all names can be used. -/
def plan (b : Bundle) (s : Settings) : Except BundleError (List SourceUnit) :=
  match planError? b s with
  | some e => .error e
  | none => .ok (units b s)

/-! ## §3. Files. -/

/-- A generated file with its text. -/
structure Rendered where
  fileName : String
  content : String
deriving DecidableEq, Repr

def Settings.renderContext (s : Settings) : RenderContext :=
  .ofScope s.scope s.bytesPerLine

def Settings.indexFileName (s : Settings) : String := s.target.fileName s.indexName

/-- A unit written out. -/
def SourceUnit.rendered (s : Settings) (u : SourceUnit) : Rendered :=
  ⟨s.target.fileName u.stem, s.target.render u s.renderContext⟩

/-- All generated files of a bundle, the index last. -/
def render (b : Bundle) (s : Settings) : Except BundleError (List Rendered) :=
  (plan b s).map fun us => us.map (·.rendered s)

end AssetEmbed
