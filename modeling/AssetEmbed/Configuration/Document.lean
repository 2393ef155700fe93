/-
  AssetEmbed.Configuration.Document — settings in a configuration file.

  The table `bundle` of a document gives settings; a list may stand for the
  table and then gives them in their order.  Other keys change nothing and are
  remembered, in the order of the document, so that a run can warn of them.
-/
import AssetEmbed.Settings.Overrides
import AssetEmbed.Toml.Value

namespace AssetEmbed.Configuration

/-! ## §1. Values. -/

/-- Whether a value holds nothing. -/
def isVoid : Toml.Value → Bool
  | .table _ entries => entries.isEmpty
  | .array items => items.isEmpty
  | _ => false

/-- A text. -/
def textOf : Toml.Value → Option String
  | .text content => some content
  | _ => none

/-- A path. -/
def pathOf (v : Toml.Value) : Option Path := (textOf v).map Path.ofString

/-- One of some words, or a table with such a word for its only key and nothing
under it. -/
def wordOf {α : Type} (named : String → Option α) : Toml.Value → Option α
  | .text word => named word
  | .table _ [(word, v)] => if isVoid v then named word else none
  | _ => none

/-- A count. -/
def countOf : Toml.Value → Option Nat
  | .integer value => if 0 ≤ value then some value.toNat else none
  | _ => none

/-! ## §2. Fields. -/

/-- The settings that a file can give. -/
inductive Field where
  | webDir
  | outputDir
  | scope
  | mode
  | target
  | indexName
  | bytesPerLine
deriving DecidableEq, Repr

namespace Field

/-- All fields, in the order in which a list gives them. -/
def all : List Field := [webDir, outputDir, scope, mode, target, indexName, bytesPerLine]

/-- The key of a field. -/
def key : Field → String
  | webDir => "web_dir"
  | outputDir => "output_dir"
  | scope => "namespace"
  | mode => "mode"
  | target => "target"
  | indexName => "index_name"
  | bytesPerLine => "bytes_per_line"

/-- The field with a key. -/
def named? (key : String) : Option Field := all.find? (·.key == key)

/-- Takes the value of a field in, if it is of the right kind. -/
def set (o : Overrides) (v : Toml.Value) : Field → Option Overrides
  | webDir => (pathOf v).map fun x => { o with webDir := some x }
  | outputDir => (pathOf v).map fun x => { o with outputDir := some x }
  | scope => (textOf v).map fun x => { o with scope := some x }
  | mode => (wordOf EmitMode.named? v).map fun x => { o with mode := some x }
  | target => (wordOf Target.named? v).map fun x => { o with target := some x }
  | indexName => (textOf v).map fun x => { o with indexName := some x }
  | bytesPerLine => (countOf v).map fun x => { o with bytesPerLine := some x }

end Field

/-! ## §3. Documents. -/

/-- What a document says: settings, and the keys that mean nothing. -/
structure Document where
  overrides : Overrides := {}
  unknown : List String := []
deriving DecidableEq, Repr

namespace Document

/-- The key of the table that gives the settings. -/
def sectionKey : String := "bundle"

/-- A key inside that table, seen from the top. -/
def inSection (key : String) : String := sectionKey ++ "." ++ key

/-- The key under which a date stands when it is read as a table. -/
def dateKey : String := "$__toml_private_datetime"

/-- Takes a key of the table in. -/
def addField (doc : Document) (key : String) (v : Toml.Value) : Option Document :=
  match Field.named? key with
  | some field => (field.set doc.overrides v).map fun o => { doc with overrides := o }
  | none => some { doc with unknown := doc.unknown ++ [inSection key] }

/-- Takes the keys of the table in. -/
def addFields (doc : Document) : Toml.Table → Option Document
  | [] => some doc
  | (key, v) :: rest => (doc.addField key v).bind fun doc => doc.addFields rest

/-- Takes the items of a list in, each for the next field. -/
def addItems (doc : Document) : List (Field × Toml.Value) → Option Document
  | [] => some doc
  | (field, v) :: rest =>
    (field.set doc.overrides v).bind fun o => { doc with overrides := o }.addItems rest

/-- Takes the value of the table in, whatever stands for it. -/
def addSection (doc : Document) : Toml.Value → Option Document
  | .table _ entries => doc.addFields entries
  | .array items => doc.addItems (Field.all.zip items)
  | .dateTime => some { doc with unknown := doc.unknown ++ [inSection dateKey] }
  | _ => none

/-- Takes the keys at the top in. -/
def addEntries (doc : Document) : Toml.Table → Option Document
  | [] => some doc
  | (key, v) :: rest =>
    if key = sectionKey then (doc.addSection v).bind fun doc => doc.addEntries rest
    else { doc with unknown := doc.unknown ++ [key] }.addEntries rest

/-- What the table of a document says, if its settings are of the right kinds. -/
def ofTable (entries : Toml.Table) : Option Document := ({} : Document).addEntries entries

end Document

end AssetEmbed.Configuration
