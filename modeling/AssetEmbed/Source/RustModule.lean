/-
  AssetEmbed.Source.RustModule — units as Rust items.

  The index file nests its items in modules.  The file of a single asset holds
  bare items and is included from inside the innermost module, so it has to
  stay next to the index file.
-/
import AssetEmbed.Source.CppHeader
import AssetEmbed.Source.UnicodeLiteral

namespace AssetEmbed.RustModule

open Layout

/-- The indent unit. -/
def indentUnit : String := "    "

def hashMap : String := "::std::collections::HashMap"

/-! ## §1. Accessors. -/

/-- A function that fills and returns a map, with one insertion per entry. -/
def mapAccessor (heading function mapName valueType : String)
    (entries : List IndexEntry) (value : IndexEntry → String) : List Op :=
  [.line heading,
   .line ("pub fn " ++ function ++ "() -> " ++ hashMap ++ "<&'static str, " ++ valueType
     ++ "> \x7b"),
   .nested (.line ("let mut " ++ mapName ++ " = " ++ hashMap ++ "::new();")
     :: entries.map (fun e =>
       .line (mapName ++ ".insert(" ++ UnicodeLiteral.quote e.path ++ ", " ++ value e ++ ");"))
     ++ [.line mapName]),
   .line "\x7d"]

/-- The five accessors. -/
def accessors (entries : List IndexEntry) : List Op :=
  mapAccessor "/// Get all bundled files" "get_bundled_files" "files" "&'static [u8]" entries
      (fun e => "&" ++ e.symbol ++ "[..]")
    ++ [.blank]
    ++ mapAccessor "/// Get all bundled file paths" "get_bundled_file_paths" "paths"
      "&'static str" entries (fun e => e.symbol ++ Asset.pathSuffix)
    ++ [.blank]
    ++ mapAccessor "/// Get all bundled file MIME types" "get_bundled_file_mime_types"
      "mime_types" "&'static str" entries (fun e => e.symbol ++ Asset.mimeSuffix)
    ++ [.blank,
      .line "/// Get a bundled file by path",
      .line "pub fn get_bundled_file(path: &str) -> Option<&'static [u8]> \x7b",
      .nested [.line "get_bundled_files().get(path).copied()"],
      .line "\x7d",
      .blank,
      .line "/// Get a bundled file MIME type by path",
      .line "pub fn get_bundled_file_mime_type(path: &str) -> &'static str \x7b",
      .nested
        [.line "get_bundled_file_mime_types()",
         .nested
           [.line ".get(path)",
            .line ".copied()",
            .line (".unwrap_or(" ++ UnicodeLiteral.quote MediaType.octetStream ++ ")")]],
      .line "\x7d"]

/-! ## §2. Declarations. -/

/-- The lines of one declaration. -/
def declaration (ctx : RenderContext) : Declaration → List Op
  | .comment text => [.line ("// " ++ text)]
  | .bytes name content =>
    [.line ("pub static " ++ name ++ ": [u8; " ++ toString content.length ++ "] = ["),
     .nested ((ByteLiteral.byteLines content ctx.bytesPerLine).map .line),
     .line "];"]
  | .text name value =>
    [.line ("pub static " ++ name ++ ": &str = " ++ UnicodeLiteral.quote value ++ ";")]
  | .include _ => []
  | .accessors entries => accessors entries

/-- References to other files, and then the declarations, with a blank line
before each group and between the two parts. -/
def body (u : SourceUnit) (ctx : RenderContext) : List Op :=
  u.includes.map (fun file => .line ("include!(" ++ UnicodeLiteral.quote file ++ ");"))
    ++ match u.body with
      | [] => []
      | first :: others =>
        (if u.includes.isEmpty then [] else [.blank])
          ++ declaration ctx first
          ++ others.flatMap fun d =>
            (if d.startsGroup then [Op.blank] else []) ++ declaration ctx d

/-! ## §3. Files. -/

/-- Opens a module and goes one level deeper. -/
def openModule (name : String) : List Op := [.line ("pub mod " ++ name ++ " \x7b"), .indent]

/-- Goes one level up and closes a module. -/
def closeModule : List Op := [.dedent, .line "\x7d"]

/-- The operations that lay a unit out. -/
def layout (u : SourceUnit) (ctx : RenderContext) : List Op :=
  [.line generatedNotice, .line u.kind.provenance, .blank]
    ++ match u.kind with
      | .asset _ => body u ctx
      | .index =>
        ctx.scope.flatMap openModule
          ++ [.line "#![allow(dead_code, non_upper_case_globals, unused_mut)]", .blank]
          ++ body u ctx
          ++ ctx.scope.flatMap fun _ => closeModule

/-- The text of a unit. -/
def render (u : SourceUnit) (ctx : RenderContext) : String :=
  Layout.render indentUnit (layout u ctx)

end AssetEmbed.RustModule
