/-
  AssetEmbed.Source.CppHeader — units as C++ headers.

  A header opens the nested namespaces, holds constants as `inline const`
  variables, and closes the namespaces in reverse.  Other generated files are
  included before the namespaces.
-/
import AssetEmbed.Source.ByteLiteral
import AssetEmbed.Source.Declaration
import AssetEmbed.Source.Layout
import AssetEmbed.Source.OctalLiteral
import AssetEmbed.Source.Scope

namespace AssetEmbed

/-- What a heading comment says first in every generated file. -/
def generatedNotice : String := "// Auto-generated file - DO NOT EDIT"

/-- The second comment line, which says where a file comes from. -/
def UnitKind.provenance : UnitKind → String
  | .asset source => "// Generated from " ++ source
  | .index => "// Index of all bundled web files"

/-- Whether a blank line separates a declaration from the one before it. -/
def Declaration.startsGroup : Declaration → Bool
  | .comment _ => true
  | .accessors _ => true
  | _ => false

namespace CppHeader

open Layout

/-- The indent unit. -/
def indentUnit : String := "    "

def bytesType : String := "std::vector<unsigned char>"

def filesMap : String := "std::unordered_map<std::string, const std::vector<unsigned char>*>"

def textMap : String := "std::unordered_map<std::string, std::string>"

/-! ## §1. Accessors. -/

/-- A function that fills and returns a map, with one insertion per entry. -/
def mapAccessor (heading resultType function mapName : String)
    (entries : List IndexEntry) (value : IndexEntry → String) : List Op :=
  [.line heading,
   .line ("inline " ++ resultType ++ " " ++ function ++ "() \x7b"),
   .nested (.line (resultType ++ " " ++ mapName ++ ";")
     :: entries.map (fun e =>
       .line (mapName ++ "[" ++ OctalLiteral.quote e.path ++ "] = " ++ value e ++ ";"))
     ++ [.line ("return " ++ mapName ++ ";")]),
   .line "\x7d"]

/-- The body of a look-up through one of the maps. -/
def lookupBody (mapName function fallback : String) : Op :=
  .nested
    [.line ("auto " ++ mapName ++ " = " ++ function ++ "();"),
     .line ("auto it = " ++ mapName ++ ".find(path);"),
     .line ("if (it != " ++ mapName ++ ".end()) \x7b"),
     .nested [.line "return it->second;"],
     .line "\x7d",
     .line ("return " ++ fallback ++ ";")]

/-- The five accessors. -/
def accessors (entries : List IndexEntry) : List Op :=
  mapAccessor "// Get all bundled files" filesMap "get_bundled_files" "files" entries
      (fun e => "&" ++ e.symbol)
    ++ [.blank]
    ++ mapAccessor "// Get all bundled file paths" textMap "get_bundled_file_paths" "paths" entries
      (fun e => e.symbol ++ Asset.pathSuffix)
    ++ [.blank]
    ++ mapAccessor "// Get all bundled file MIME types" textMap "get_bundled_file_mime_types"
      "mime_types" entries (fun e => e.symbol ++ Asset.mimeSuffix)
    ++ [.blank,
      .line "// Get a bundled file by path",
      .line ("inline const " ++ bytesType ++ "* get_bundled_file(const std::string& path) \x7b"),
      lookupBody "files" "get_bundled_files" "nullptr",
      .line "\x7d",
      .blank,
      .line "// Get a bundled file MIME type by path",
      .line "inline std::string get_bundled_file_mime_type(const std::string& path) \x7b",
      lookupBody "mime_types" "get_bundled_file_mime_types"
        ("\"" ++ MediaType.octetStream ++ "\""),
      .line "\x7d"]

/-! ## §2. Declarations. -/

/-- The lines of one declaration. -/
def declaration (ctx : RenderContext) : Declaration → List Op
  | .comment text => [.line ("// " ++ text)]
  | .bytes name content =>
    [.line ("inline const " ++ bytesType ++ " " ++ name ++ " = \x7b"),
     .nested ((ByteLiteral.byteLines content ctx.bytesPerLine).map .line),
     .line "\x7d;"]
  | .text name value =>
    [.line ("inline const std::string " ++ name ++ " = " ++ OctalLiteral.quote value ++ ";")]
  | .include _ => []
  | .accessors entries => accessors entries

/-- Declarations with a blank line before each group but the first. -/
def body (ctx : RenderContext) : List Declaration → List Op
  | [] => []
  | first :: others =>
    declaration ctx first
      ++ others.flatMap fun d =>
        (if d.startsGroup then [Op.blank] else []) ++ declaration ctx d

/-! ## §3. Files. -/

/-- The operations that lay a unit out. -/
def layout (u : SourceUnit) (ctx : RenderContext) : List Op :=
  [.line generatedNotice, .line u.kind.provenance, .blank,
   .line "#pragma once", .blank, .line "#include <string>"]
    ++ (if u.accessors?.isSome then [.line "#include <unordered_map>"] else [])
    ++ [.line "#include <vector>"]
    ++ (if u.includes.isEmpty then []
        else .blank :: u.includes.map fun file => .line ("#include " ++ OctalLiteral.quote file))
    ++ [.blank]
    ++ ctx.scope.map (fun name => .line ("namespace " ++ name ++ " \x7b"))
    ++ [.blank]
    ++ body ctx u.body
    ++ [.blank]
    ++ ctx.scope.reverse.map (fun name => .line ("\x7d // namespace " ++ name))

/-- The text of a unit. -/
def render (u : SourceUnit) (ctx : RenderContext) : String :=
  Layout.render indentUnit (layout u ctx)

end CppHeader

end AssetEmbed
