/-
  AssetEmbed.Source.Target — the languages that can be generated.

  A target has a name for messages, an extension for its files, and names that
  a declaration cannot have: the keywords of the language, the names of the
  generated accessors and the names that their bodies use.
-/

namespace AssetEmbed

/-- How declarations are divided among files. -/
inductive EmitMode where
  /-- One file with every asset and the accessors. -/
  | combined
  /-- One file for each asset, and an index file with the accessors. -/
  | split
deriving DecidableEq, Repr

/-- The language of the generated text. -/
inductive Target where
  /-- C++17 headers. -/
  | cpp
  /-- Rust items, to be included in a module. -/
  | rust
deriving DecidableEq, Repr

/-- The mode that a configuration calls by a name. -/
def EmitMode.named? : String → Option EmitMode
  | "combined" => some .combined
  | "split" => some .split
  | _ => none

/-- The target that a configuration calls by a name. -/
def Target.named? : String → Option Target
  | "cpp" => some .cpp
  | "rust" => some .rust
  | _ => none

/-- The innermost scope, which holds all declarations. -/
def bundleModule : String := "web_bundle"

/-! ## §1. Reserved names. -/

/-- The generated accessors. -/
def accessorNames : List String :=
  ["get_bundled_files", "get_bundled_file_paths", "get_bundled_file_mime_types",
   "get_bundled_file", "get_bundled_file_mime_type"]

/-- The variables and parameters inside the accessors. -/
def accessorLocals : List String := ["files", "paths", "mime_types", "path"]

def cppKeywords : List String :=
  ["alignas", "alignof", "and", "and_eq", "asm", "auto", "bitand", "bitor", "bool", "break",
   "case", "catch", "char", "char8_t", "char16_t", "char32_t", "class", "compl", "concept",
   "const", "consteval", "constexpr", "constinit", "const_cast", "continue", "co_await",
   "co_return", "co_yield", "decltype", "default", "delete", "do", "double", "dynamic_cast",
   "else", "enum", "explicit", "export", "extern", "false", "float", "for", "friend", "goto",
   "if", "inline", "int", "long", "mutable", "namespace", "new", "noexcept", "not", "not_eq",
   "nullptr", "operator", "or", "or_eq", "private", "protected", "public", "register",
   "reinterpret_cast", "requires", "return", "short", "signed", "sizeof", "static",
   "static_assert", "static_cast", "struct", "switch", "template", "this", "thread_local",
   "throw", "true", "try", "typedef", "typeid", "typename", "union", "unsigned", "using",
   "virtual", "void", "volatile", "wchar_t", "while", "xor", "xor_eq"]

/-- Names that the standard headers or a compiler in its default mode may
define as macros. -/
def cppMacros : List String :=
  ["NULL", "EOF", "BUFSIZ", "FILENAME_MAX", "FOPEN_MAX", "L_tmpnam", "TMP_MAX", "SEEK_SET",
   "SEEK_CUR", "SEEK_END", "stdin", "stdout", "stderr", "errno", "assert", "offsetof",
   "EXIT_SUCCESS", "EXIT_FAILURE", "RAND_MAX", "MB_CUR_MAX", "MB_LEN_MAX", "CHAR_BIT",
   "CHAR_MIN", "CHAR_MAX", "SCHAR_MIN", "SCHAR_MAX", "UCHAR_MAX", "SHRT_MIN", "SHRT_MAX",
   "USHRT_MAX", "INT_MIN", "INT_MAX", "UINT_MAX", "LONG_MIN", "LONG_MAX", "ULONG_MAX",
   "LLONG_MIN", "LLONG_MAX", "ULLONG_MAX", "SIZE_MAX", "PTRDIFF_MIN", "PTRDIFF_MAX",
   "WCHAR_MIN", "WCHAR_MAX", "WEOF", "EDOM", "ERANGE", "EILSEQ", "setjmp", "va_start",
   "va_arg", "va_end", "va_copy", "linux", "unix", "i386"]

def rustKeywords : List String :=
  ["_", "abstract", "as", "async", "await", "become", "box", "break", "const", "continue",
   "crate", "do", "dyn", "else", "enum", "extern", "false", "final", "fn", "for", "gen", "if",
   "impl", "in", "let", "loop", "macro", "match", "mod", "move", "mut", "override", "priv",
   "pub", "ref", "return", "self", "Self", "static", "struct", "super", "trait", "true", "try",
   "type", "typeof", "unsafe", "unsized", "use", "virtual", "where", "while", "yield"]

/-- Whether two underscores stand next to each other. -/
def hasDoubleUnderscore : List Char → Bool
  | '_' :: '_' :: _ => true
  | _ :: cs => hasDoubleUnderscore cs
  | [] => false

/-- Whether an underscore and a capital of ASCII come first. -/
def startsUnderscoreCapital : List Char → Bool
  | '_' :: c :: _ => c.isUpper
  | _ => false

/-- Names that C++ reserves for its implementation in every scope. -/
def isImplementationName (ident : String) : Bool :=
  hasDoubleUnderscore ident.toList || startsUnderscoreCapital ident.toList

/-- Names that the generated accessors take. -/
def isAccessorName (ident : String) : Bool :=
  accessorNames.contains ident || accessorLocals.contains ident

namespace Target

/-- Whether no declaration may have this name. -/
def isReserved (target : Target) (ident : String) : Bool :=
  match target with
  | cpp =>
    cppKeywords.contains ident || cppMacros.contains ident || isImplementationName ident
      || isAccessorName ident
  | rust => rustKeywords.contains ident || isAccessorName ident

/-! ## §2. Names. -/

/-- The name of the language in messages. -/
def label : Target → String
  | cpp => "C++"
  | rust => "Rust"

/-- The extension of generated files, without the dot. -/
def extension : Target → String
  | cpp => "hpp"
  | rust => "rs"

/-- The name of the generated file with this stem. -/
def fileName (target : Target) (stem : String) : String := stem ++ "." ++ target.extension

end Target

end AssetEmbed
