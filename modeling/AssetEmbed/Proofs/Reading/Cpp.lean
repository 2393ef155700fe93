/-
  AssetEmbed.Proofs.Reading.Cpp — reading generated C++ headers.

  The reader knows the fixed texts of a header and nothing of any bundle.  It
  returns an outline, or nothing at all for a text of another form.

  Main results:
    * `reads_header`   — a legible header reads as the tokens of its outline.
    * `accepts_header` — and these tokens give the outline back.
-/
import AssetEmbed.Proofs.Reading.Accessor

namespace AssetEmbed.Reading.Cpp

open Layout

-- Fixed texts are checked by evaluating them, one step for each character.
set_option maxRecDepth 4000

/-! ## §1. The reader. -/

/-- Reads a byte array. -/
def bytes : Reader Constant := do
  expect "inline const std::vector<unsigned char> "
  let ident ← name
  expect " = \x7b"
  let content ← many byte
  expect "\x7d;"
  return .bytes ident none content

/-- Reads a text constant. -/
def text : Reader Constant := do
  expect "inline const std::string "
  let ident ← name
  expect " = "
  let value ← textOf .cpp
  expect ";"
  return .text ident value

/-- Reads a constant. -/
def constant : Reader Constant := either bytes text

/-- The fixed texts of a map function; `reference` is what stands in front of
a name in a row. -/
def mapShape (resultType function mapName reference : String) : MapShape where
  opening := "inline " ++ resultType ++ " " ++ function ++ "() \x7b"
  first := resultType ++ " " ++ mapName ++ ";"
  front := mapName ++ "["
  middle := "] = " ++ reference
  back := ";"
  last := "return " ++ mapName ++ ";"

/-- The lines of a look-up function. -/
def lookupLines (opening mapName function fallback : String) : List String :=
  [opening, "auto " ++ mapName ++ " = " ++ function ++ "();",
   "auto it = " ++ mapName ++ ".find(path);", "if (it != " ++ mapName ++ ".end()) \x7b",
   "return it->second;", "\x7d", "return " ++ fallback ++ ";", "\x7d"]

/-- The fixed texts of the accessors. -/
def accessors : AccessorShape where
  files := mapShape "std::unordered_map<std::string, const std::vector<unsigned char>*>"
    "get_bundled_files" "files" "&"
  paths := mapShape "std::unordered_map<std::string, std::string>"
    "get_bundled_file_paths" "paths" ""
  mimeTypes := mapShape "std::unordered_map<std::string, std::string>"
    "get_bundled_file_mime_types" "mime_types" ""
  lookups :=
    lookupLines
        "inline const std::vector<unsigned char>* get_bundled_file(const std::string& path) \x7b"
        "files" "get_bundled_files" "nullptr"
      ++ lookupLines "inline std::string get_bundled_file_mime_type(const std::string& path) \x7b"
        "mime_types" "get_bundled_file_mime_types" "\"application/octet-stream\""

/-- Reads the inclusion of a file.  The name of a file is not unescaped. -/
def inclusion : Reader String := do
  expect "#include "
  literalAs (some ∘ String.ofList)

/-- Reads the opening of a namespace. -/
def openScope : Reader String := do
  expect "namespace "
  let ident ← name
  expect " \x7b"
  return ident

/-- Reads the directives that every header begins with. -/
def preamble : Reader Unit := do
  expect "#pragma once"
  expect "#include <string>"
  let _ ← optional (expect "#include <unordered_map>")
  expect "#include <vector>"

/-- Reads what comes after the directives. -/
def contents : Reader Outline := do
  let includes ← many inclusion
  let scope ← many openScope
  let constants ← many constant
  let entries ← optional (accessors.block .cpp)
  times scope.length (expect "\x7d")
  finish
  return ⟨scope, includes, constants, entries⟩

/-- Reads a header. -/
def header : Reader Outline := do
  preamble
  contents

/-! ## §2. Tokens. -/

def constantTokens : Constant → List Token
  | .bytes ident _ content =>
    phrase "inline const std::vector<unsigned char> " ++ ([.word ident.toList]
      ++ (phrase " = \x7b" ++ (content.flatMap byteTokens ++ phrase "\x7d;")))
  | .text ident value =>
    phrase "inline const std::string " ++ ([.word ident.toList]
      ++ (phrase " = " ++ ([quoted .cpp value] ++ phrase ";")))

def inclusionTokens (file : String) : List Token := phrase "#include " ++ [.literal file.toList]

def openTokens (ident : String) : List Token :=
  phrase "namespace " ++ ([.word ident.toList] ++ phrase " \x7b")

/-- The tokens of a declaration inside the namespaces. -/
def declarationTokens : Declaration → List Token
  | .accessors entries => accessors.tokens .cpp entries
  | d => (constant? .cpp d).elim [] constantTokens

def preambleTokens (o : Outline) : List Token :=
  phrase "#pragma once" ++ (phrase "#include <string>"
    ++ ((if o.accessors.isSome then phrase "#include <unordered_map>" else [])
      ++ phrase "#include <vector>"))

def contentTokens (o : Outline) : List Token :=
  o.includes.flatMap inclusionTokens ++ (o.scope.flatMap openTokens
    ++ (o.constants.flatMap constantTokens ++ (o.accessors.elim [] (accessors.tokens .cpp)
      ++ o.scope.reverse.flatMap fun _ => phrase "\x7d")))

/-- The tokens of an outline. -/
def headerTokens (o : Outline) : List Token := preambleTokens o ++ contentTokens o

/-! ## §3. Accessors. -/

/-- Whatever the map is called, the parts of a map function stay apart. -/
theorem sound_mapShape {resultType function mapName reference : String}
    (hr : Piece.isFixed resultType.toList = true) (hf : IsWord function.toList)
    (hm : IsWord mapName.toList) (hne : mapName ≠ "return")
    (hmiddle : Piece.isFixed ("] = " ++ reference).toList = true) :
    (mapShape resultType function mapName reference).Sound .cpp := by
  have hopening : ("inline " ++ resultType ++ " " ++ function ++ "() \x7b").toList
      = Piece.row .cpp [.fixed "inline ", .fixed resultType, .fixed " ", .word function,
        .fixed "() \x7b"] := by
    simp only [String.toList_append, List.append_assoc, Piece.row, List.flatMap_cons,
      List.flatMap_nil, Piece.text, List.append_nil]
  have hfirst : (resultType ++ " " ++ mapName ++ ";").toList
      = Piece.row .cpp [.fixed resultType, .fixed " ", .word mapName, .fixed ";"] := by
    simp only [String.toList_append, List.append_assoc, Piece.row, List.flatMap_cons,
      List.flatMap_nil, Piece.text, List.append_nil]
  have hfront : (mapName ++ "[").toList = Piece.row .cpp [.word mapName, .fixed "["] := by
    simp only [String.toList_append, Piece.row, List.flatMap_cons, List.flatMap_nil, Piece.text,
      List.append_nil]
  have hlast : ("return " ++ mapName ++ ";").toList
      = Piece.row .cpp [.fixed "return ", .word mapName, .fixed ";"] := by
    simp only [String.toList_append, List.append_assoc, Piece.row, List.flatMap_cons,
      List.flatMap_nil, Piece.text, List.append_nil]
  have hsound : Piece.Sound [.fixed "return ", .word mapName, .fixed ";"] :=
    ⟨Piece.isFixed_ofList (by rfl), hm, rfl, Piece.isFixed_ofList (by rfl), trivial⟩
  exact
    { opening := reads_row hopening ⟨Piece.isFixed_ofList (by rfl), hr,
        Piece.isFixed_ofList (by rfl), hf, rfl, Piece.isFixed_ofList (by rfl), trivial⟩
      first := reads_row hfirst ⟨hr, Piece.isFixed_ofList (by rfl), hm, rfl,
        Piece.isFixed_ofList (by rfl), trivial⟩
      front := by
        show Piece.isFixed (mapName ++ "[").toList = true
        rw [String.toList_append]
        exact Piece.isFixed_word hm rfl rfl
      middle := hmiddle
      back := Piece.isFixed_ofList (by rfl)
      ends := (rfl : Piece.endsWord [.fixed ";"] = true)
      last := reads_row hlast hsound
      stops := by
        -- a row begins with the map, and the line after the rows with another word
        have hreturn : phrase "return " = [.word "return".toList] := rfl
        have hapart : Token.word mapName.toList ≠ .word "return".toList := fun h =>
          hne (String.toList_inj.1 (Token.word.inj h))
        show clash (phrase (mapName ++ "["))
          (phrase ("return " ++ mapName ++ ";") ++ phrase "\x7d") = true
        rw [phrase_row hfront ⟨hm, rfl, Piece.isFixed_ofList (by rfl), trivial⟩,
          phrase_row hlast hsound]
        simp only [List.flatMap_cons, Piece.tokens, hreturn, List.cons_append, List.nil_append]
        exact if_neg hapart }

theorem sound_accessors : accessors.Sound .cpp where
  files := sound_mapShape (Piece.isFixed_ofList (by rfl)) ⟨by decide, by decide⟩
    ⟨by decide, by decide⟩ (by decide) (by rfl)
  paths := sound_mapShape (Piece.isFixed_ofList (by rfl)) ⟨by decide, by decide⟩
    ⟨by decide, by decide⟩ (by decide) (by rfl)
  mimeTypes := sound_mapShape (Piece.isFixed_ofList (by rfl)) ⟨by decide, by decide⟩
    ⟨by decide, by decide⟩ (by decide) (by rfl)

/-- A map function reads as the tokens of its shape. -/
theorem reads_mapAccessor {resultType function mapName reference : String}
    (hs : (mapShape resultType function mapName reference).Sound .cpp) {heading : List Char}
    (hh : isComment heading = true) (value ident : IndexEntry → String)
    (hv : ∀ e, value e = reference ++ ident e) {entries : List IndexEntry}
    (hi : ∀ e ∈ entries, IsWord (ident e).toList) :
    Reads .cpp
      (CppHeader.mapAccessor (String.ofList heading) resultType function mapName entries value)
      ((mapShape resultType function mapName reference).tokens .cpp ident entries) := by
  refine reads_mapFunction hs hh (fun e => ?_) hi
  simp only [hv, String.toList_append, List.append_assoc, Piece.row, MapShape.pieces, mapShape,
    List.flatMap_cons, List.flatMap_nil, Piece.text, List.append_nil]
  rfl

/-- The first two lines of a look-up function read as what they say. -/
theorem reads_find {mapName function : String} (hm : IsWord mapName.toList)
    (hf : IsWord function.toList) :
    Reads .cpp
      [.line ("auto " ++ mapName ++ " = " ++ function ++ "();"),
       .line ("auto it = " ++ mapName ++ ".find(path);")]
      (phrase ("auto " ++ mapName ++ " = " ++ function ++ "();")
        ++ phrase ("auto it = " ++ mapName ++ ".find(path);")) := by
  have hmap : ("auto " ++ mapName ++ " = " ++ function ++ "();").toList
      = Piece.row .cpp [.fixed "auto ", .word mapName, .fixed " = ", .word function,
        .fixed "();"] := by
    simp only [String.toList_append, List.append_assoc, Piece.row, List.flatMap_cons,
      List.flatMap_nil, Piece.text, List.append_nil]
  have hfind : ("auto it = " ++ mapName ++ ".find(path);").toList
      = Piece.row .cpp [.fixed "auto it = ", .word mapName, .fixed ".find(path);"] := by
    simp only [String.toList_append, List.append_assoc, Piece.row, List.flatMap_cons,
      List.flatMap_nil, Piece.text, List.append_nil]
  have hfirst : Reads .cpp [.line ("auto " ++ mapName ++ " = " ++ function ++ "();")] _ :=
    reads_row hmap ⟨Piece.isFixed_ofList (by rfl), hm, rfl, Piece.isFixed_ofList (by rfl), hf, rfl,
      Piece.isFixed_ofList (by rfl), trivial⟩
  have hsecond : Reads .cpp [.line ("auto it = " ++ mapName ++ ".find(path);")] _ :=
    reads_row hfind ⟨Piece.isFixed_ofList (by rfl), hm, rfl, Piece.isFixed_ofList (by rfl), trivial⟩
  exact hfirst.append hsecond

/-- A look-up function reads as its lines. -/
theorem reads_lookup {heading opening last : List Char} {mapName function fallback : String}
    (hh : isComment heading = true) (ho : isLine opening = true) (hm : IsWord mapName.toList)
    (hf : IsWord function.toList) (hl : isLine last = true)
    (hlast : "return " ++ fallback ++ ";" = String.ofList last) :
    Reads .cpp
      [.line (String.ofList heading), .line (String.ofList opening),
       CppHeader.lookupBody mapName function fallback, .line "\x7d"]
      ((lookupLines (String.ofList opening) mapName function fallback).flatMap phrase) := by
  have hif : ("if (it != " ++ mapName ++ ".end()) \x7b").toList
      = Piece.row .cpp [.fixed "if (it != ", .word mapName, .fixed ".end()) \x7b"] := by
    simp only [String.toList_append, List.append_assoc, Piece.row, List.flatMap_cons,
      List.flatMap_nil, Piece.text, List.append_nil]
  have htest : Reads .cpp [.line ("if (it != " ++ mapName ++ ".end()) \x7b")] _ :=
    reads_row hif ⟨Piece.isFixed_ofList (by rfl), hm, rfl, Piece.isFixed_ofList (by rfl), trivial⟩
  have hfound : Reads .cpp [.line "return it->second;"] (phrase "return it->second;") :=
    reads_fixed (by rfl)
  have hbrace : Reads .cpp [.line "\x7d"] (phrase "\x7d") := reads_fixed (by rfl)
  have hreturn : Reads .cpp [.line ("return " ++ fallback ++ ";")] _ :=
    hlast ▸ reads_fixed hl
  -- the `if` nests one line deeper than the rest of the body
  have hbody : Reads .cpp [CppHeader.lookupBody mapName function fallback] _ :=
    .nested <| (reads_find hm hf).append <| htest.cons <| hfound.nested.cons <|
      hbrace.cons hreturn
  have hall := (reads_comment hh).skip <| (reads_fixed ho).cons <| hbody.cons hbrace
  simpa only [lookupLines, List.flatMap_cons, List.flatMap_nil, List.append_assoc,
    List.append_nil] using hall

/-- The look-up of the bytes of a file. -/
theorem reads_fileLookup :
    Reads .cpp
      [.line "// Get a bundled file by path",
       .line "inline const std::vector<unsigned char>* get_bundled_file(const std::string& path) \x7b",
       CppHeader.lookupBody "files" "get_bundled_files" "nullptr", .line "\x7d"]
      ((lookupLines
        "inline const std::vector<unsigned char>* get_bundled_file(const std::string& path) \x7b"
        "files" "get_bundled_files" "nullptr").flatMap phrase) := by
  have hlast : "return " ++ "nullptr" ++ ";" = "return nullptr;" := by rfl
  exact reads_lookup (by rfl) (by rfl) ⟨by decide, by decide⟩ ⟨by decide, by decide⟩ (by rfl) hlast

/-- The look-up of the MIME type of a file. -/
theorem reads_mimeTypeLookup :
    Reads .cpp
      [.line "// Get a bundled file MIME type by path",
       .line "inline std::string get_bundled_file_mime_type(const std::string& path) \x7b",
       CppHeader.lookupBody "mime_types" "get_bundled_file_mime_types"
         "\"application/octet-stream\"", .line "\x7d"]
      ((lookupLines "inline std::string get_bundled_file_mime_type(const std::string& path) \x7b"
        "mime_types" "get_bundled_file_mime_types" "\"application/octet-stream\"").flatMap
          phrase) := by
  have hlast : "return " ++ "\"application/octet-stream\"" ++ ";"
      = "return \"application/octet-stream\";" := by rfl
  exact reads_lookup (by rfl) (by rfl) ⟨by decide, by decide⟩ ⟨by decide, by decide⟩ (by rfl) hlast

/-- The two look-ups read as their lines. -/
theorem reads_lookups :
    Reads .cpp
      [.line "// Get a bundled file by path",
       .line ("inline const " ++ CppHeader.bytesType
         ++ "* get_bundled_file(const std::string& path) \x7b"),
       CppHeader.lookupBody "files" "get_bundled_files" "nullptr", .line "\x7d", .blank,
       .line "// Get a bundled file MIME type by path",
       .line "inline std::string get_bundled_file_mime_type(const std::string& path) \x7b",
       CppHeader.lookupBody "mime_types" "get_bundled_file_mime_types"
         ("\"" ++ MediaType.octetStream ++ "\""),
       .line "\x7d"]
      (accessors.lookups.flatMap phrase) := by
  have hopening : "inline const " ++ CppHeader.bytesType
      ++ "* get_bundled_file(const std::string& path) \x7b"
      = "inline const std::vector<unsigned char>* get_bundled_file(const std::string& path) \x7b" := by
    rfl
  have hfallback : "\"" ++ MediaType.octetStream ++ "\"" = "\"application/octet-stream\"" := by
    rfl
  have hall := reads_fileLookup.append (Reads.blank.skip reads_mimeTypeLookup)
  rw [← List.flatMap_append] at hall
  rw [hopening, hfallback]
  exact hall

/-- The accessors read as the tokens of their shape. -/
theorem reads_accessors {entries : List IndexEntry} (h : ∀ e ∈ entries, IsWord e.symbol.toList) :
    Reads .cpp (CppHeader.accessors entries) (accessors.tokens .cpp entries) := by
  have hfiles : Reads .cpp (CppHeader.mapAccessor "// Get all bundled files" CppHeader.filesMap
      "get_bundled_files" "files" entries fun e => "&" ++ e.symbol) _ :=
    reads_mapAccessor sound_accessors.files (by rfl) _ IndexEntry.symbol (fun _ => rfl) h
  have hpaths : Reads .cpp (CppHeader.mapAccessor "// Get all bundled file paths"
      CppHeader.textMap "get_bundled_file_paths" "paths" entries
      fun e => e.symbol ++ Asset.pathSuffix) _ :=
    reads_mapAccessor sound_accessors.paths (by rfl) _ (fun e => e.symbol ++ Asset.pathSuffix)
      (fun _ => String.empty_append.symm) fun e he => isWord_pathIdent (h e he)
  have hmimeTypes : Reads .cpp (CppHeader.mapAccessor "// Get all bundled file MIME types"
      CppHeader.textMap "get_bundled_file_mime_types" "mime_types" entries
      fun e => e.symbol ++ Asset.mimeSuffix) _ :=
    reads_mapAccessor sound_accessors.mimeTypes (by rfl) _ (fun e => e.symbol ++ Asset.mimeSuffix)
      (fun _ => String.empty_append.symm) fun e he => isWord_mimeIdent (h e he)
  -- one after the other, with blank lines between them
  have hall := hfiles.append <| Reads.blank.skip <| hpaths.append <| Reads.blank.skip <|
    hmimeTypes.append <| Reads.blank.skip reads_lookups
  unfold AccessorShape.tokens CppHeader.accessors
  simp only [List.append_assoc]
  exact hall

/-! ## §4. Declarations. -/

theorem reads_bytes (ctx : RenderContext) {name : String} (h : IsWord name.toList)
    (content : List UInt8) :
    Reads .cpp (CppHeader.declaration ctx (.bytes name content))
      (declarationTokens (.bytes name content)) := by
  have hopen := @reads_named .cpp name "inline const std::vector<unsigned char> " " = \x7b"
    (Piece.isFixed_ofList (by rfl)) h (Piece.isFixed_ofList (by rfl)) rfl
  have hclose : Reads .cpp [.line "\x7d;"] (phrase "\x7d;") := reads_fixed (by rfl)
  have hall := hopen.cons <| (reads_byteLines .cpp content ctx.bytesPerLine).nested.cons hclose
  simp only [List.append_assoc] at hall
  exact hall

theorem reads_text (ctx : RenderContext) {name : String} (h : IsWord name.toList)
    (value : String) :
    Reads .cpp (CppHeader.declaration ctx (.text name value))
      (declarationTokens (.text name value)) := by
  have htext : ("inline const std::string " ++ name ++ " = " ++ OctalLiteral.quote value
      ++ ";").toList
      = Piece.row .cpp [.fixed "inline const std::string ", .word name, .fixed " = ",
        .literal value, .fixed ";"] := by
    simp only [String.toList_append, List.append_assoc, Piece.row, List.flatMap_cons,
      List.flatMap_nil, Piece.text, List.append_nil]
    rfl
  exact reads_pieces htext
    ⟨Piece.isFixed_ofList (by rfl), h, rfl, Piece.isFixed_ofList (by rfl),
      Piece.isFixed_ofList (by rfl), trivial⟩

theorem reads_declaration (ctx : RenderContext) {d : Declaration}
    (h : LegibleDeclaration .cpp d) :
    Reads .cpp (CppHeader.declaration ctx d) (declarationTokens d) := by
  cases d with
  | comment text => exact reads_heading h
  | bytes name content => exact reads_bytes ctx h content
  | text name value => exact reads_text ctx h value
  | «include» file => exact .nil
  | accessors entries => exact reads_accessors h

theorem reads_body (ctx : RenderContext) {ds : List Declaration}
    (h : ∀ d ∈ ds, LegibleDeclaration .cpp d) :
    Reads .cpp (CppHeader.body ctx ds) (ds.flatMap declarationTokens) := by
  cases ds with
  | nil => exact .nil
  | cons first others =>
    obtain ⟨hfirst, hothers⟩ := List.forall_mem_cons.1 h
    exact (reads_declaration ctx hfirst).append
      (reads_groups fun d hd => reads_declaration ctx (hothers d hd))

/-! ## §5. Files. -/

theorem isControl_of_isPart {c : Char} (h : Identifier.isPart c = true) :
    OctalLiteral.isControl c = false := by
  -- control characters are ASCII, and there none is part of a word
  have hnone : ∀ n < 128, OctalLiteral.isControl (Char.ofNat n) = true →
      Identifier.isPart (Char.ofNat n) = false := by decide
  cases hc : OctalLiteral.isControl c with
  | false => rfl
  | true =>
    have hpart := hnone c.toNat (isControl_lt hc)
    rw [Char.ofNat_toNat, h] at hpart
    exact absurd (hpart hc) (by decide)

/-- A part of a word stands for itself inside a literal. -/
theorem escapeChar_of_isPart {c : Char} (h : Identifier.isPart c = true) :
    escapeChar .cpp c = [c] := by
  -- what the writer escapes is no part of a word
  have hapart : ∀ d, Identifier.isPart d = false → c ≠ d := by
    intro d hd heq
    rw [heq, hd] at h
    cases h
  show OctalLiteral.escapeChar c = [c]
  unfold OctalLiteral.escapeChar
  rw [if_neg (hapart '\\' (by decide)), if_neg (hapart '"' (by decide)),
    if_neg (hapart '\n' (by decide)), if_neg (hapart '\r' (by decide)),
    if_neg (hapart '\t' (by decide)), if_neg (hapart '?' (by decide)), isControl_of_isPart h]
  rfl

/-- The name of a generated file has no escapes. -/
theorem escape_fileName {target : Target} {stem : String} (h : IsWord stem.toList) :
    (target.fileName stem).toList.flatMap (escapeChar .cpp)
      = (target.fileName stem).toList := by
  -- the stem is a word; the extension is fixed
  have hstem : ∀ cs : List Char, cs.all Identifier.isPart = true →
      cs.flatMap (escapeChar .cpp) = cs := by
    intro cs hcs
    induction cs with
    | nil => rfl
    | cons c rest ih =>
      simp only [List.all_cons, Bool.and_eq_true] at hcs
      rw [List.flatMap_cons, escapeChar_of_isPart hcs.1, ih hcs.2]
      rfl
  unfold Target.fileName
  rw [String.toList_append, String.toList_append, List.flatMap_append, List.flatMap_append,
    hstem stem.toList h.2]
  cases target <;> rfl

theorem reads_inclusion {stem : String} (h : IsWord stem.toList) :
    Reads .cpp [.line ("#include " ++ OctalLiteral.quote (Target.cpp.fileName stem))]
      (inclusionTokens (Target.cpp.fileName stem)) := by
  have htext : ("#include " ++ OctalLiteral.quote (Target.cpp.fileName stem)).toList
      = Piece.row .cpp [.fixed "#include ", .literal (Target.cpp.fileName stem)] := by
    simp only [String.toList_append, Piece.row, List.flatMap_cons, List.flatMap_nil, Piece.text,
      List.append_nil]
    rfl
  have hall := reads_pieces htext ⟨Piece.isFixed_ofList (by rfl), trivial⟩
  simp only [List.flatMap_cons, List.flatMap_nil, Piece.tokens, quoted, escape_fileName h,
    List.append_nil] at hall
  exact hall

theorem reads_close {name : String} (h : IsWord name.toList) :
    Reads .cpp [.line ("\x7d // namespace " ++ name)] (phrase "\x7d") := by
  have htext : ("\x7d // namespace " ++ name).toList
      = ['\x7d', ' '] ++ '/' :: '/' :: (" namespace ".toList ++ name.toList) := by
    rw [String.toList_append]
    rfl
  -- the comment ends in a word, so it ends with its line
  have hname : OneLine .cpp name.toList := oneLine_of_notMem h.kept.unbroken fun _ => h.kept.ends
  exact .commentLine htext (.of_plain rfl) rfl
    ((oneLine_append (by decide) (by decide) _).2 hname)

/-- What stands between the second comment and the declarations. -/
def before (u : SourceUnit) (ctx : RenderContext) : List Op :=
  [.blank, .line "#pragma once", .blank, .line "#include <string>"]
    ++ ((if u.accessors?.isSome then [.line "#include <unordered_map>"] else [])
    ++ ([.line "#include <vector>"]
    ++ ((if u.includes.isEmpty then []
        else .blank :: u.includes.map fun file => .line ("#include " ++ OctalLiteral.quote file))
    ++ (.blank :: (ctx.scope.map (fun name => .line ("namespace " ++ name ++ " \x7b"))
    ++ [.blank])))))

/-- What stands after the declarations. -/
def after (ctx : RenderContext) : List Op :=
  .blank :: ctx.scope.reverse.map fun name => .line ("\x7d // namespace " ++ name)

theorem layout_eq (u : SourceUnit) (ctx : RenderContext) :
    CppHeader.layout u ctx
      = .line generatedNotice :: .line u.kind.provenance
        :: (before u ctx ++ (CppHeader.body ctx u.body ++ after ctx)) := by
  unfold CppHeader.layout before after
  simp only [List.append_assoc, List.cons_append, List.nil_append]

theorem reads_before {u : SourceUnit} {ctx : RenderContext} (hl : Legible .cpp u)
    (hs : ∀ name ∈ ctx.scope, IsWord name.toList) :
    Reads .cpp (before u ctx) (preambleTokens (outline .cpp ctx u)
      ++ (u.includes.flatMap inclusionTokens ++ ctx.scope.flatMap openTokens)) := by
  -- the fixed directives, one of them only for accessors
  have hfront : Reads .cpp [.blank, .line "#pragma once", .blank, .line "#include <string>"]
      (phrase "#pragma once" ++ phrase "#include <string>") :=
    Reads.blank.skip <| (reads_fixed (by rfl)).cons <|
      Reads.blank.skip (reads_fixed (by rfl))
  have hmap : Reads .cpp (if u.accessors?.isSome then [.line "#include <unordered_map>"] else [])
      (if u.accessors?.isSome then phrase "#include <unordered_map>" else []) := by
    split
    · exact reads_fixed (by rfl)
    · exact .nil
  have hvector : Reads .cpp [.line "#include <vector>"] (phrase "#include <vector>") :=
    reads_fixed (by rfl)
  -- the headers of the assets, by names made from words
  have hincludes : Reads .cpp
      (if u.includes.isEmpty then []
        else .blank :: u.includes.map fun file => .line ("#include " ++ OctalLiteral.quote file))
      (u.includes.flatMap inclusionTokens) := by
    cases hi : u.includes with
    | nil => exact .nil
    | cons first others =>
      refine Reads.blank.skip (.map fun file hf => ?_)
      obtain ⟨stem, hstem, rfl⟩ := hl.inclusion (hi ▸ hf)
      exact reads_inclusion hstem
  -- the namespaces
  have hopen : Reads .cpp (ctx.scope.map fun name => .line ("namespace " ++ name ++ " \x7b"))
      (ctx.scope.flatMap openTokens) :=
    .map fun name hn =>
      reads_named _ _ (Piece.isFixed_ofList (by rfl)) (hs name hn)
        (Piece.isFixed_ofList (by rfl)) rfl
  have hall := hfront.append <| hmap.append <| hvector.append <| hincludes.append <|
    Reads.blank.skip <| hopen.append Reads.blank
  unfold before preambleTokens
  simp only [List.append_assoc, List.append_nil] at hall ⊢
  exact hall

theorem reads_after {ctx : RenderContext} (hs : ∀ name ∈ ctx.scope, IsWord name.toList) :
    Reads .cpp (after ctx) (ctx.scope.reverse.flatMap fun _ => phrase "\x7d") :=
  Reads.blank.skip <| .map fun name hn => reads_close (hs name (List.mem_reverse.1 hn))

/-- A legible header reads as the tokens of its outline. -/
theorem reads_header {u : SourceUnit} {ctx : RenderContext} (hl : Legible .cpp u)
    (hr : Regular u) (hs : ∀ name ∈ ctx.scope, IsWord name.toList) :
    Reads .cpp (CppHeader.layout u ctx) (headerTokens (outline .cpp ctx u)) := by
  have hlegible : ∀ d ∈ u.body, LegibleDeclaration .cpp d := fun d hd =>
    hl.declarations d (List.mem_filter.1 hd).1
  have hbody := reads_body ctx hlegible
  rw [flatMap_body .cpp hr constantTokens
    fun d hd => by cases d <;> first | rfl | cases hd] at hbody
  have hall := reads_notice.skip <| (reads_provenance hl).skip <|
    (reads_before hl hs).append <| hbody.append (reads_after hs)
  rw [layout_eq]
  unfold headerTokens contentTokens
  simp only [List.append_assoc] at hall ⊢
  exact hall

/-! ## §6. Reading back. -/

theorem refuses_byte : Refuses byte (phrase "\x7d;") := fun _ => rfl

/-- The tokens of a constant give the constant back. -/
theorem accepts_constant {d : Declaration} {c : Constant} (h : constant? .cpp d = some c) :
    Accepts constant (constantTokens c) c := by
  cases d with
  | bytes ident content =>
    cases h
    -- the closing brace ends the bytes, since it is no word
    have hbytes : Accepts bytes
        (phrase "inline const std::vector<unsigned char> " ++ ([.word ident.toList]
          ++ (phrase " = \x7b" ++ (content.flatMap byteTokens ++ phrase "\x7d;"))))
        (.bytes ident none content) :=
      .bind (.expect _) <| .bind (accepts_name ident) <| .bind (.expect _) <|
        .many_self (fun b _ => accepts_byte b) (fun b _ => List.cons_ne_nil _ _) refuses_byte <|
        .returning (.expect _) _
    exact .either_left hbytes text
  | text ident value =>
    cases h
    -- a text constant is not taken for bytes: the types differ
    have hclash : clash (phrase "inline const std::vector<unsigned char> ")
        (phrase "inline const std::string ") = true := clash_literals (by rfl)
    exact .either_right (((Refuses.expect hclash).bind _).append _) <|
      .bind (.expect _) <| .bind (accepts_name ident) <| .bind (.expect _) <|
      .bind (accepts_textOf .cpp value) <| .returning (.expect _) _
  | comment _ | «include» _ | accessors _ => cases h

theorem constantTokens_ne_nil (c : Constant) : constantTokens c ≠ [] := by
  cases c <;> simp [constantTokens]

theorem accepts_inclusion (file : String) : Accepts inclusion (inclusionTokens file) file :=
  .bind (.expect _) (.literal (by simp [String.ofList_toList]))

theorem accepts_openScope (ident : String) : Accepts openScope (openTokens ident) ident :=
  .bind (.expect _) <| .bind (accepts_name ident) <| .returning (.expect _) _

/-- What refuses both kinds of constants refuses all of them. -/
theorem refuses_constants {α : Type} {r : Reader α}
    (hb : Refuses r (phrase "inline const std::vector<unsigned char> "))
    (ht : Refuses r (phrase "inline const std::string ")) (constants : List Constant)
    {us : List Token} (hu : Refuses r us) : Refuses r (constants.flatMap constantTokens ++ us) := by
  refine .flatMap_append (fun c _ => ?_) hu
  cases c with
  | bytes ident length content => exact hb.append _
  | text ident value => exact ht.append _

theorem refuses_constant {ts : List Token}
    (hb : clash (phrase "inline const std::vector<unsigned char> ") ts = true)
    (ht : clash (phrase "inline const std::string ") ts = true) : Refuses constant ts :=
  ((Refuses.expect hb).bind _).either ((Refuses.expect ht).bind _)

theorem refuses_openScope {ts : List Token} (h : clash (phrase "namespace ") ts = true) :
    Refuses openScope ts :=
  (Refuses.expect h).bind _

theorem refuses_inclusion {ts : List Token} (h : clash (phrase "#include ") ts = true) :
    Refuses inclusion ts :=
  (Refuses.expect h).bind _

/-- How the first accessor begins. -/
theorem begins_opening : Begins accessors.files.opening (phrase "inline std") := by
  have htext : accessors.files.opening.toList = Piece.row .cpp [.fixed "inline ",
      .fixed "std::unordered_map<std::string, const std::vector<unsigned char>*>", .fixed " ",
      .word "get_bundled_files", .fixed "() \x7b"] := by
    simp only [accessors, mapShape, String.toList_append, List.append_assoc, Piece.row,
      List.flatMap_cons, List.flatMap_nil, Piece.text, List.append_nil]
  unfold Begins
  rw [phrase_row htext ⟨Piece.isFixed_ofList (by rfl), Piece.isFixed_ofList (by rfl),
    Piece.isFixed_ofList (by rfl), ⟨by decide, by decide⟩, rfl, Piece.isFixed_ofList (by rfl),
    trivial⟩]
  exact ⟨_, rfl⟩

theorem accepts_preamble (o : Outline) : Accepts preamble (preambleTokens o) () := by
  refine .bind (.expect _) <| .bind (.expect _) ?_
  cases o.accessors.isSome with
  | true => exact .bind (.optional_some (.expect _)) (.expect _)
  | false => exact .optional_none (.expect (clash_literals (by rfl))) (.expect _)

/-- After the constants comes no other. -/
theorem refuses_constant_rest (entries : Option (List IndexEntry)) (scope : List String) :
    Refuses constant (entries.elim [] (accessors.tokens .cpp)
      ++ ((scope.flatMap fun _ => phrase "\x7d") ++ [.finish])) :=
  .rest .cpp accessors
    (refuses_constant (begins_opening.clash_right (clash_literal (by rfl)))
      (begins_opening.clash_right (clash_literal (by rfl))))
    (refuses_constant (clash_literals (by rfl)) (clash_literals (by rfl)))
    (refuses_constant (clash_literal (by rfl)) (clash_literal (by rfl))) entries scope

/-- From the constants on no namespace is opened. -/
theorem refuses_openScope_rest (constants : List Constant) (entries : Option (List IndexEntry))
    (scope : List String) :
    Refuses openScope (constants.flatMap constantTokens
      ++ (entries.elim [] (accessors.tokens .cpp)
        ++ ((scope.flatMap fun _ => phrase "\x7d") ++ [.finish]))) :=
  refuses_constants (refuses_openScope (clash_literals (by rfl)))
    (refuses_openScope (clash_literals (by rfl))) constants <|
  .rest .cpp accessors
    (refuses_openScope (begins_opening.clash_right (clash_literal (by rfl))))
    (refuses_openScope (clash_literals (by rfl))) (refuses_openScope (clash_literal (by rfl)))
    entries scope

/-- From the namespaces on no file is included. -/
theorem refuses_inclusion_rest (opened : List String) (constants : List Constant)
    (entries : Option (List IndexEntry)) (scope : List String) :
    Refuses inclusion (opened.flatMap openTokens ++ (constants.flatMap constantTokens
        ++ (entries.elim [] (accessors.tokens .cpp)
          ++ ((scope.flatMap fun _ => phrase "\x7d") ++ [.finish])))) :=
  .flatMap_append (fun _ _ => (refuses_inclusion (clash_literals (by rfl))).append _) <|
  refuses_constants (refuses_inclusion (clash_literals (by rfl)))
    (refuses_inclusion (clash_literals (by rfl))) constants <|
  .rest .cpp accessors
    (refuses_inclusion (begins_opening.clash_right (clash_literal (by rfl))))
    (refuses_inclusion (clash_literals (by rfl))) (refuses_inclusion (clash_literal (by rfl)))
    entries scope

/-- The tokens after the directives give the outline back. -/
theorem accepts_contents (u : SourceUnit) (ctx : RenderContext) :
    Accepts contents (contentTokens (outline .cpp ctx u) ++ [.finish]) (outline .cpp ctx u) := by
  -- without accessors, the closing braces come next
  have hopening : Refuses (expect accessors.files.opening)
      ((ctx.scope.reverse.flatMap fun _ => phrase "\x7d") ++ [.finish]) :=
    .flatMap_append (fun _ _ => .expect (begins_opening.clash_left (by rfl)))
      (.expect (begins_opening.clash_left (by rfl)))
  have hconstants : ∀ c ∈ u.declarations.filterMap (constant? .cpp),
      Accepts constant (constantTokens c) c := by
    intro c hc
    obtain ⟨d, -, hd⟩ := List.mem_filterMap.1 hc
    exact accepts_constant hd
  -- as many braces as were opened, and then the end
  have hclose : Accepts (do
      times ctx.scope.length (expect "\x7d")
      finish
      return outline .cpp ctx u)
      ((ctx.scope.reverse.flatMap fun _ => phrase "\x7d") ++ [.finish]) (outline .cpp ctx u) := by
    have hall := accepts_close ctx.scope.reverse (outline .cpp ctx u)
    rwa [List.length_reverse] at hall
  unfold contentTokens
  simp only [List.append_assoc]
  -- each repeated reader stops at whatever can come after it
  exact .many_self (fun file _ => accepts_inclusion file) (fun file _ => by simp [inclusionTokens])
      (refuses_inclusion_rest _ _ _ _) <|
    .many_self (fun ident _ => accepts_openScope ident) (fun ident _ => by simp [openTokens])
      (refuses_openScope_rest _ _ _) <|
    .many_self hconstants (fun c _ => constantTokens_ne_nil c) (refuses_constant_rest _ _) <|
    accepts_optional_accessors sound_accessors hopening _ hclose

/-- The tokens of an outline give it back. -/
theorem accepts_header (u : SourceUnit) (ctx : RenderContext) :
    Accepts header (headerTokens (outline .cpp ctx u) ++ [.finish]) (outline .cpp ctx u) := by
  unfold headerTokens
  rw [List.append_assoc]
  exact (accepts_preamble _).bind (accepts_contents u ctx)

end AssetEmbed.Reading.Cpp
