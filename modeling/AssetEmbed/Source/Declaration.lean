/-
  AssetEmbed.Source.Declaration — what a generated file declares.

  A generated file is first planned as a list of declarations and only then
  written out in the target's notation.  `Declaration.ofAsset` gives the
  declarations of one asset.
-/
import AssetEmbed.Asset

namespace AssetEmbed

/-- One row of the accessors: a stored path and the symbol of its bytes. -/
structure IndexEntry where
  path : String
  symbol : String
deriving DecidableEq, Repr

def Asset.indexEntry (a : Asset) : IndexEntry := ⟨a.path, a.symbol⟩

/-- A generated declaration. -/
inductive Declaration where
  /-- A line comment. -/
  | comment (text : String)
  /-- A byte array. -/
  | bytes (name : String) (content : List UInt8)
  /-- A text constant. -/
  | text (name value : String)
  /-- A reference to another generated file. -/
  | include (file : String)
  /-- The five look-up functions over every entry. -/
  | accessors (entries : List IndexEntry)
deriving DecidableEq, Repr

/-- A heading comment and the three constants of an asset. -/
def Declaration.ofAsset (a : Asset) : List Declaration :=
  [.comment ("Bundled file: " ++ a.path),
   .bytes a.symbol a.bytes,
   .text a.pathIdent a.path,
   .text a.mimeIdent a.mime]

/-- What a generated file holds. -/
inductive UnitKind where
  /-- The declarations of one asset, stored under `source`. -/
  | asset (source : String)
  /-- The accessors, and in a single file also all declarations. -/
  | index
deriving DecidableEq, Repr

/-- A generated file before it is written out. -/
structure SourceUnit where
  stem : String
  kind : UnitKind
  declarations : List Declaration
deriving DecidableEq, Repr

namespace SourceUnit

/-- The files that a unit refers to. -/
def includes (u : SourceUnit) : List String :=
  u.declarations.filterMap fun
    | .include file => some file
    | _ => none

/-- The entries of the first block of accessors, if there is one. -/
def accessors? (u : SourceUnit) : Option (List IndexEntry) :=
  u.declarations.findSome? fun
    | .accessors entries => some entries
    | _ => none

/-- The declarations other than references to files. -/
def body (u : SourceUnit) : List Declaration :=
  u.declarations.filter fun
    | .include _ => false
    | _ => true

end SourceUnit

end AssetEmbed
