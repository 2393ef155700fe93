/-
  AssetEmbed.Bundle.Listing — the contents of a bundle as a table or as JSON.

  A listing has a row for each asset, or for each path that is asked for; a
  path that is not bundled has neither a symbol nor a size.
-/
import AssetEmbed.Bundle.Index
import AssetEmbed.Text.Json

namespace AssetEmbed

/-- One row of a listing. -/
structure Row where
  path : String
  symbol : Option String
  mime : String
  size : Option Nat
deriving DecidableEq, Repr

namespace Row

/-! ## §1. Rows. -/

/-- The row of each asset, read back from the three maps of the index. -/
def ofBundle (b : Bundle) : List Row :=
  let index := AssetIndex.ofBundle b
  b.assets.filterMap fun a => do
    let path ← index.paths.lookup a.path
    let mime ← index.mimeTypes.lookup path
    some ⟨path, some a.symbol, mime, (index.files.lookup path).map List.length⟩

/-- The row of each path that is asked for. -/
def ofQueries (b : Bundle) (queries : List String) : List Row :=
  let index := AssetIndex.ofBundle b
  queries.map fun path =>
    ⟨path, (b.assets.find? fun a => a.path == path).map Asset.symbol, index.mimeType path,
     (index.file? path).map List.length⟩

/-- All rows, or those that are asked for if any are. -/
def select (b : Bundle) (queries : List String) : List Row :=
  if queries.isEmpty then ofBundle b else ofQueries b queries

/-! ## §2. Tables. -/

/-- What stands between two columns. -/
def gap : String := "  "

/-- The width of the column of MIME types. -/
def mimeWidth : Nat := 24

/-- A text with blanks after it up to a number of characters. -/
def pad (width : Nat) (text : String) : String :=
  text ++ String.ofList (List.replicate (width - text.length) ' ')

/-- The symbol in a table. -/
def symbolText (r : Row) : String := r.symbol.getD "-"

/-- The size in a table. -/
def sizeText (r : Row) : String :=
  match r.size with
  | some n => toString n
  | none => "not bundled"

/-- The greatest length in bytes, at least `least`. -/
def widest (least : Nat) (texts : List String) : Nat :=
  (texts.map String.utf8ByteSize).foldl max least

/-- One line of a table. -/
def line (pathWidth symbolWidth : Nat) (r : Row) : String :=
  pad pathWidth r.path ++ gap ++ pad symbolWidth r.symbolText ++ gap
    ++ pad mimeWidth r.mime ++ gap ++ r.sizeText ++ "\n"

/-- Rows as a table.  A column is as wide as the bytes of its longest text. -/
def table (rows : List Row) : String :=
  let pathWidth := widest 0 (rows.map (·.path))
  let symbolWidth := widest 1 (rows.filterMap (·.symbol))
  String.join (rows.map (line pathWidth symbolWidth))

/-! ## §3. JSON. -/

/-- One member of a JSON object, on its own line. -/
def jsonMember (key value : String) : String := "    " ++ Json.quote key ++ ": " ++ value

/-- A row as a JSON object; what a row does not have is left out. -/
def json (r : Row) : String :=
  let members :=
    [some (jsonMember "path" (Json.quote r.path)),
     r.symbol.map fun symbol => jsonMember "symbol" (Json.quote symbol),
     some (jsonMember "mime" (Json.quote r.mime)),
     r.size.map fun size => jsonMember "size" (toString size)].filterMap id
  "  \x7b\n" ++ String.intercalate ",\n" members ++ "\n  \x7d"

/-- Rows as a JSON list. -/
def jsonList (rows : List Row) : String :=
  if rows.isEmpty then "[]\n"
  else "[\n" ++ String.intercalate ",\n" (rows.map json) ++ "\n]\n"

end Row

end AssetEmbed
