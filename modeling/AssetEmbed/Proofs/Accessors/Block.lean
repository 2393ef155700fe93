/-
  AssetEmbed.Proofs.Accessors.Block — the generated accessors as programs.

  The accessors of an index file are five functions.  Three fill a local map,
  one insertion after another, and return it; two look their parameter up in
  the map that one of the others returns.  Here they are data: each target
  prints them, and running them asks an environment what the names in them
  stand for.

  Main results:
    * `accessors_eq_print` — what a target lays out for entries is this block,
      printed.
    * `fill_eq_some`       — insertions whose names all have values fill the
      map with these values, in order.
-/
import AssetEmbed.Order.Keyed
import AssetEmbed.Source.RustModule

namespace AssetEmbed

open Layout

namespace Accessors

/-! ## §1. The functions. -/

/-- An insertion into a map: the key, and the name whose value it gets. -/
structure Insertion where
  key : String
  ident : String
deriving DecidableEq, Repr

/-- A function that fills a local map and returns it. -/
structure MapFunction where
  name : String
  localName : String
  insertions : List Insertion
deriving DecidableEq, Repr

/-- A function that looks its parameter up in what the function `source`
returns; a path that is not there gets the fallback, if there is one. -/
structure LookupFunction where
  name : String
  localName : String
  source : String
  fallback : Option String
deriving DecidableEq, Repr

/-- The accessors of an index file. -/
structure Block where
  files : MapFunction
  paths : MapFunction
  mimeTypes : MapFunction
  file : LookupFunction
  mimeType : LookupFunction
deriving DecidableEq, Repr

/-- The accessors over entries. -/
def Block.ofEntries (entries : List IndexEntry) : Block where
  files := ⟨"get_bundled_files", "files", entries.map fun e => ⟨e.path, e.symbol⟩⟩
  paths := ⟨"get_bundled_file_paths", "paths",
    entries.map fun e => ⟨e.path, e.symbol ++ Asset.pathSuffix⟩⟩
  mimeTypes := ⟨"get_bundled_file_mime_types", "mime_types",
    entries.map fun e => ⟨e.path, e.symbol ++ Asset.mimeSuffix⟩⟩
  file := ⟨"get_bundled_file", "files", "get_bundled_files", none⟩
  mimeType := ⟨"get_bundled_file_mime_type", "mime_types", "get_bundled_file_mime_types",
    some MediaType.octetStream⟩

/-- The functions that fill a map. -/
def Block.maps (block : Block) : List MapFunction := [block.files, block.paths, block.mimeTypes]

/-! ## §2. Their text. -/

/-- A map function in C++ notation; `reference` is how a name is referred to. -/
def MapFunction.cpp (heading resultType : String) (reference : String → String)
    (f : MapFunction) : List Op :=
  [.line heading,
   .line ("inline " ++ resultType ++ " " ++ f.name ++ "() \x7b"),
   .nested (.line (resultType ++ " " ++ f.localName ++ ";")
     :: f.insertions.map (fun i => .line (f.localName ++ "[" ++ OctalLiteral.quote i.key ++ "] = "
       ++ reference i.ident ++ ";"))
     ++ [.line ("return " ++ f.localName ++ ";")]),
   .line "\x7d"]

/-- A look-up function in C++ notation. -/
def LookupFunction.cpp (heading resultType : String) (f : LookupFunction) : List Op :=
  [.line heading,
   .line ("inline " ++ resultType ++ f.name ++ "(const std::string& path) \x7b"),
   .nested
     [.line ("auto " ++ f.localName ++ " = " ++ f.source ++ "();"),
      .line ("auto it = " ++ f.localName ++ ".find(path);"),
      .line ("if (it != " ++ f.localName ++ ".end()) \x7b"),
      .nested [.line "return it->second;"],
      .line "\x7d",
      .line ("return " ++ (f.fallback.elim "nullptr" fun text => "\"" ++ text ++ "\"") ++ ";")],
   .line "\x7d"]

/-- A map function in Rust notation. -/
def MapFunction.rust (heading valueType : String) (reference : String → String)
    (f : MapFunction) : List Op :=
  [.line heading,
   .line ("pub fn " ++ f.name ++ "() -> ::std::collections::HashMap<&'static str, " ++ valueType
     ++ "> \x7b"),
   .nested (.line ("let mut " ++ f.localName ++ " = ::std::collections::HashMap::new();")
     :: f.insertions.map (fun i => .line (f.localName ++ ".insert(" ++ UnicodeLiteral.quote i.key
       ++ ", " ++ reference i.ident ++ ");"))
     ++ [.line f.localName]),
   .line "\x7d"]

/-- A look-up function in Rust notation. -/
def LookupFunction.rust (heading resultType : String) (f : LookupFunction) : List Op :=
  [.line heading,
   .line ("pub fn " ++ f.name ++ "(path: &str) -> " ++ resultType ++ " \x7b"),
   .nested (match f.fallback with
     | none => [.line (f.source ++ "().get(path).copied()")]
     | some text =>
       [.line (f.source ++ "()"),
        .nested
          [.line ".get(path)", .line ".copied()",
           .line (".unwrap_or(" ++ UnicodeLiteral.quote text ++ ")")]]),
   .line "\x7d"]

/-- The accessors as a target writes them. -/
def Block.print (block : Block) : Target → List Op
  | .cpp =>
    block.files.cpp "// Get all bundled files" CppHeader.filesMap ("&" ++ ·)
      ++ [.blank] ++ block.paths.cpp "// Get all bundled file paths" CppHeader.textMap id
      ++ [.blank] ++ block.mimeTypes.cpp "// Get all bundled file MIME types" CppHeader.textMap id
      ++ [.blank] ++ block.file.cpp "// Get a bundled file by path"
        ("const " ++ CppHeader.bytesType ++ "* ")
      ++ [.blank] ++ block.mimeType.cpp "// Get a bundled file MIME type by path" "std::string "
  | .rust =>
    block.files.rust "/// Get all bundled files" "&'static [u8]" (fun name => "&" ++ name ++ "[..]")
      ++ [.blank] ++ block.paths.rust "/// Get all bundled file paths" "&'static str" id
      ++ [.blank] ++ block.mimeTypes.rust "/// Get all bundled file MIME types" "&'static str" id
      ++ [.blank] ++ block.file.rust "/// Get a bundled file by path" "Option<&'static [u8]>"
      ++ [.blank] ++ block.mimeType.rust "/// Get a bundled file MIME type by path" "&'static str"

end Accessors

/-- The operations that lay the accessors out in a target. -/
def Target.accessors : Target → List IndexEntry → List Op
  | .cpp => CppHeader.accessors
  | .rust => RustModule.accessors

namespace Accessors

/-- A target lays out the accessors over entries as the block of these entries. -/
theorem accessors_eq_print (target : Target) (entries : List IndexEntry) :
    target.accessors entries = (Block.ofEntries entries).print target := by
  cases target with
  | cpp =>
    simp only [Target.accessors, CppHeader.accessors, Block.print, Block.ofEntries,
      MapFunction.cpp, LookupFunction.cpp, CppHeader.mapAccessor, CppHeader.lookupBody,
      List.map_map]
    rfl
  | rust =>
    simp only [Target.accessors, RustModule.accessors, Block.print, Block.ofEntries,
      MapFunction.rust, LookupFunction.rust, RustModule.mapAccessor, List.map_map]
    rfl

/-! ## §3. Names and what they stand for. -/

/-- What a name can stand for inside an accessor. -/
inductive Meaning where
  | bytes (content : List UInt8)
  | text (value : String)
  /-- An accessor. -/
  | function
  /-- A local variable or a parameter. -/
  | variable
deriving DecidableEq, Repr

/-- The bytes of a byte array. -/
def Meaning.bytes? : Meaning → Option (List UInt8)
  | .bytes content => some content
  | _ => none

/-- The value of a text constant. -/
def Meaning.text? : Meaning → Option String
  | .text value => some value
  | _ => none

/-- Names that are declared next to each other. -/
abbrev Scope := List (String × Meaning)

/-- What a name stands for, seen from the innermost of some scopes: the first
scope that declares it at all decides, and there it has to be declared once. -/
def resolve : List Scope → String → Option Meaning
  | [], _ => none
  | scope :: outer, ident =>
    match scope.filter (·.1 == ident) with
    -- a name that is declared twice means nothing, whatever stands further out
    | [] => resolve outer ident
    | [(_, what)] => some what
    | _ => none

/-! ## §4. Running. -/

section
variable {α : Type}

/-- Carries insertions out in order, with `read` for the values of names. -/
def fill (read : String → Option α) : List Insertion → Keyed α → Option (Keyed α)
  | [], entries => some entries
  | i :: rest, entries =>
    (read i.ident).bind fun value => fill read rest (Keyed.put i.key value entries)

/-- The map that a function returns.  Its own local variable hides what is
declared around it. -/
def MapFunction.run (kind : Meaning → Option α) (around : Scope) (f : MapFunction) :
    Option (Keyed α) :=
  fill (fun ident => (resolve [[(f.localName, .variable)], around] ident).bind kind) f.insertions []

/-- The map function of a name. -/
def Block.mapNamed (block : Block) (name : String) : Option MapFunction :=
  block.maps.find? (·.name == name)

/-- What a look-up function returns for a path, before its fallback. -/
def LookupFunction.run (kind : Meaning → Option α) (around : Scope) (block : Block)
    (f : LookupFunction) (path : String) : Option (Option α) :=
  (block.mapNamed f.source).bind fun g => (g.run kind around).map fun entries =>
    entries.lookup path

/-- Insertions whose names all have values put these values in, in order. -/
theorem fill_eq_some {β : Type} {read : String → Option α} (insertion : β → Insertion)
    (value : β → α) {xs : List β} (h : ∀ x ∈ xs, read (insertion x).ident = some (value x))
    (entries : Keyed α) :
    fill read (xs.map insertion) entries
      = some (xs.foldl (fun entries x => Keyed.put (insertion x).key (value x) entries) entries) := by
  induction xs generalizing entries with
  | nil => rfl
  | cons x xs ih =>
    have hx : read (insertion x).ident = some (value x) := h x List.mem_cons_self
    have hxs : ∀ y ∈ xs, read (insertion y).ident = some (value y) :=
      fun y hy => h y (List.mem_cons_of_mem x hy)
    simp only [List.map_cons, fill, hx, Option.bind_some, List.foldl_cons]
    exact ih hxs _

end

end Accessors

end AssetEmbed
