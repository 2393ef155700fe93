/-
  AssetEmbed.Proofs.Reading.Rust — reading generated Rust files.

  The reader knows the fixed texts of a file and nothing of any bundle.  It
  returns an outline, or nothing at all for a text of another form.  The file
  of a single asset opens no module, and then no attribute stands in it.

  Main results:
    * `reads_module`   — a legible file reads as the tokens of its outline.
    * `accepts_module` — and these tokens give the outline back.
-/
import AssetEmbed.Proofs.Reading.Accessor
import AssetEmbed.Source.RustModule

namespace AssetEmbed.Reading.Rust

open Layout

-- Fixed texts are checked by evaluating them, one step for each character.
set_option maxRecDepth 4000

/-! ## §1. The reader. -/

/-- Reads a byte array after its name. -/
def bytesOf (ident : String) : Reader Constant := do
  expect ": [u8; "
  let length ← wordAs decimal?
  expect "] = ["
  let content ← many byte
  expect "];"
  return .bytes ident (some length) content

/-- Reads a text constant after its name. -/
def textNamed (ident : String) : Reader Constant := do
  expect ": &str = "
  let value ← textOf .rust
  expect ";"
  return .text ident value

/-- Reads a constant. -/
def constant : Reader Constant := do
  expect "pub static "
  let ident ← name
  either (bytesOf ident) (textNamed ident)

/-- The fixed texts of a map function; `reference` and `view` are what stands
in front of a name in a row, and after it. -/
def mapShape (function mapName valueType reference view : String) : MapShape where
  opening := "pub fn " ++ function ++ "() -> " ++ "::std::collections::HashMap" ++ "<&'static str, "
    ++ valueType ++ "> \x7b"
  first := "let mut " ++ mapName ++ " = " ++ "::std::collections::HashMap" ++ "::new();"
  front := mapName ++ ".insert("
  middle := ", " ++ reference
  back := view ++ ");"
  last := mapName

/-- The fixed texts of the accessors. -/
def accessors : AccessorShape where
  files := mapShape "get_bundled_files" "files" "&'static [u8]" "&" "[..]"
  paths := mapShape "get_bundled_file_paths" "paths" "&'static str" "" ""
  mimeTypes := mapShape "get_bundled_file_mime_types" "mime_types" "&'static str" "" ""
  lookups :=
    ["pub fn get_bundled_file(path: &str) -> Option<&'static [u8]> \x7b",
     "get_bundled_files().get(path).copied()", "\x7d",
     "pub fn get_bundled_file_mime_type(path: &str) -> &'static str \x7b",
     "get_bundled_file_mime_types()", ".get(path)", ".copied()",
     ".unwrap_or(\"application/octet-stream\")", "\x7d"]

/-- Reads the inclusion of a file. -/
def inclusion : Reader String := do
  expect "include!("
  let file ← textOf .rust
  expect ");"
  return file

/-- Reads the opening of a module. -/
def openScope : Reader String := do
  expect "pub mod "
  let ident ← name
  expect " \x7b"
  return ident

/-- The attribute inside the innermost module. -/
def innerAttribute : String := "#![allow(dead_code, non_upper_case_globals, unused_mut)]"

/-- Reads the attribute, if a module is open. -/
def attributeIn (scope : List String) : Reader Unit :=
  if scope.isEmpty then pure () else expect innerAttribute

/-- Reads a file. -/
def file : Reader Outline := do
  let scope ← many openScope
  attributeIn scope
  let includes ← many inclusion
  let constants ← many constant
  let entries ← optional (accessors.block .rust)
  times scope.length (expect "\x7d")
  finish
  return ⟨scope, includes, constants, entries⟩

/-! ## §2. Tokens. -/

def constantTokens : Constant → List Token
  | .bytes ident _ content =>
    phrase "pub static " ++ ([.word ident.toList] ++ (phrase ": [u8; "
      ++ ([.word (toString content.length).toList] ++ (phrase "] = ["
      ++ (content.flatMap byteTokens ++ phrase "];")))))
  | .text ident value =>
    phrase "pub static " ++ ([.word ident.toList] ++ (phrase ": &str = "
      ++ ([quoted .rust value] ++ phrase ";")))

def inclusionTokens (file : String) : List Token :=
  phrase "include!(" ++ ([quoted .rust file] ++ phrase ");")

def openTokens (ident : String) : List Token :=
  phrase "pub mod " ++ ([.word ident.toList] ++ phrase " \x7b")

/-- The tokens of a declaration inside the modules. -/
def declarationTokens : Declaration → List Token
  | .accessors entries => accessors.tokens .rust entries
  | d => (constant? .rust d).elim [] constantTokens

/-- The tokens of an outline between the modules' opening and closing. -/
def bodyTokens (o : Outline) : List Token :=
  o.includes.flatMap inclusionTokens ++ (o.constants.flatMap constantTokens
    ++ o.accessors.elim [] (accessors.tokens .rust))

/-- The tokens of an outline. -/
def fileTokens (o : Outline) : List Token :=
  o.scope.flatMap openTokens ++ ((if o.scope.isEmpty then [] else phrase innerAttribute)
    ++ (bodyTokens o ++ o.scope.flatMap fun _ => phrase "\x7d"))

/-! ## §3. Accessors. -/

/-- Whatever the map is called, the parts of a map function stay apart. -/
theorem sound_mapShape {function mapName valueType reference view : String}
    (hf : IsWord function.toList) (hm : IsWord mapName.toList)
    (hv : Piece.isFixed (valueType ++ "> \x7b").toList = true)
    (hmiddle : Piece.isFixed (", " ++ reference).toList = true)
    (hback : Piece.isFixed (view ++ ");").toList = true)
    (hends : Piece.endsWord [.fixed (view ++ ");")] = true) :
    (mapShape function mapName valueType reference view).Sound .rust := by
  have hopening : ("pub fn " ++ function ++ "() -> " ++ "::std::collections::HashMap"
      ++ "<&'static str, " ++ valueType ++ "> \x7b").toList
      = Piece.row .rust [.fixed "pub fn ", .word function, .fixed "() -> ",
        .fixed ("::std::collections::HashMap" ++ "<&'static str, "),
        .fixed (valueType ++ "> \x7b")] := by
    simp only [String.toList_append, List.append_assoc, Piece.row, List.flatMap_cons,
      List.flatMap_nil, Piece.text, List.append_nil]
  have hfirst : ("let mut " ++ mapName ++ " = " ++ "::std::collections::HashMap"
      ++ "::new();").toList
      = Piece.row .rust [.fixed "let mut ", .word mapName, .fixed " = ",
        .fixed ("::std::collections::HashMap" ++ "::new();")] := by
    simp only [String.toList_append, List.append_assoc, Piece.row, List.flatMap_cons,
      List.flatMap_nil, Piece.text, List.append_nil]
  have hfront : (mapName ++ ".insert(").toList
      = Piece.row .rust [.word mapName, .fixed ".insert("] := by
    simp only [String.toList_append, Piece.row, List.flatMap_cons, List.flatMap_nil, Piece.text,
      List.append_nil]
  have hlast : mapName.toList = Piece.row .rust [.word mapName] := by
    simp only [Piece.row, List.flatMap_cons, List.flatMap_nil, Piece.text, List.append_nil]
  have hname : Piece.Sound [.word mapName] := ⟨hm, rfl, trivial⟩
  exact
    { opening := reads_row hopening ⟨Piece.isFixed_ofList (by rfl), hf, rfl,
        Piece.isFixed_ofList (by rfl), by rfl, hv, trivial⟩
      first := reads_row hfirst ⟨Piece.isFixed_ofList (by rfl), hm, rfl,
        Piece.isFixed_ofList (by rfl), by rfl, trivial⟩
      front := by
        show Piece.isFixed (mapName ++ ".insert(").toList = true
        rw [String.toList_append]
        exact Piece.isFixed_word hm rfl rfl
      middle := hmiddle
      back := hback
      ends := hends
      last := reads_row hlast hname
      stops := by
        -- both begin with the map, but only a row goes on with a call
        have hcall : clash (phrase ".insert(") (phrase "\x7d") = true := clash_literals (by rfl)
        show clash (phrase (mapName ++ ".insert(")) (phrase mapName ++ phrase "\x7d") = true
        rw [phrase_row hfront ⟨hm, rfl, Piece.isFixed_ofList (by rfl), trivial⟩,
          phrase_row hlast hname]
        simp only [List.flatMap_cons, List.flatMap_nil, Piece.tokens, List.append_nil]
        exact (if_pos rfl).trans hcall }

theorem sound_accessors : accessors.Sound .rust where
  files := sound_mapShape ⟨by decide, by decide⟩ ⟨by decide, by decide⟩ (by rfl) (by rfl) (by rfl)
    (by rfl)
  paths := sound_mapShape ⟨by decide, by decide⟩ ⟨by decide, by decide⟩ (by rfl) (by rfl) (by rfl)
    (by rfl)
  mimeTypes := sound_mapShape ⟨by decide, by decide⟩ ⟨by decide, by decide⟩ (by rfl) (by rfl)
    (by rfl) (by rfl)

/-- A map function reads as the tokens of its shape. -/
theorem reads_mapAccessor {function mapName valueType reference view : String}
    (hs : (mapShape function mapName valueType reference view).Sound .rust) {heading : List Char}
    (hh : isComment heading = true) (value ident : IndexEntry → String)
    (hv : ∀ e, value e = reference ++ ident e ++ view) {entries : List IndexEntry}
    (hi : ∀ e ∈ entries, IsWord (ident e).toList) :
    Reads .rust
      (RustModule.mapAccessor (String.ofList heading) function mapName valueType entries value)
      ((mapShape function mapName valueType reference view).tokens .rust ident entries) := by
  refine reads_mapFunction hs hh (fun e => ?_) hi
  simp only [hv, String.toList_append, List.append_assoc, Piece.row, MapShape.pieces, mapShape,
    List.flatMap_cons, List.flatMap_nil, Piece.text, List.append_nil]
  rfl

/-- The look-up of the bytes of a file. -/
theorem reads_fileLookup :
    Reads .rust
      [.line "/// Get a bundled file by path",
       .line "pub fn get_bundled_file(path: &str) -> Option<&'static [u8]> \x7b",
       .nested [.line "get_bundled_files().get(path).copied()"], .line "\x7d"]
      (phrase "pub fn get_bundled_file(path: &str) -> Option<&'static [u8]> \x7b"
        ++ (phrase "get_bundled_files().get(path).copied()" ++ phrase "\x7d")) := by
  have hbody : Reads .rust [.line "get_bundled_files().get(path).copied()"] _ :=
    reads_fixed (by rfl)
  exact (reads_comment (by rfl)).skip <| (reads_fixed (by rfl)).cons <|
    hbody.nested.cons (reads_fixed (by rfl))

/-- The look-up of the MIME type of a file. -/
theorem reads_mimeTypeLookup :
    Reads .rust
      [.line "/// Get a bundled file MIME type by path",
       .line "pub fn get_bundled_file_mime_type(path: &str) -> &'static str \x7b",
       .nested
        [.line "get_bundled_file_mime_types()",
         .nested [.line ".get(path)", .line ".copied()",
          .line ".unwrap_or(\"application/octet-stream\")"]],
       .line "\x7d"]
      (phrase "pub fn get_bundled_file_mime_type(path: &str) -> &'static str \x7b"
        ++ ((phrase "get_bundled_file_mime_types()" ++ (phrase ".get(path)"
        ++ (phrase ".copied()" ++ phrase ".unwrap_or(\"application/octet-stream\")")))
        ++ phrase "\x7d")) := by
  -- the calls stand on lines of their own, one level deeper
  have hchain : Reads .rust
      [.line ".get(path)", .line ".copied()",
       .line ".unwrap_or(\"application/octet-stream\")"] _ :=
    (reads_fixed (by rfl)).cons <| (reads_fixed (by rfl)).cons <| reads_fixed (by rfl)
  have hbody : Reads .rust [.line "get_bundled_file_mime_types()"] _ := reads_fixed (by rfl)
  exact (reads_comment (by rfl)).skip <| (reads_fixed (by rfl)).cons <|
    (Reads.nested (hbody.cons hchain.nested)).cons (reads_fixed (by rfl))

/-- The two look-ups read as their lines. -/
theorem reads_lookups :
    Reads .rust
      [.line "/// Get a bundled file by path",
       .line "pub fn get_bundled_file(path: &str) -> Option<&'static [u8]> \x7b",
       .nested [.line "get_bundled_files().get(path).copied()"], .line "\x7d", .blank,
       .line "/// Get a bundled file MIME type by path",
       .line "pub fn get_bundled_file_mime_type(path: &str) -> &'static str \x7b",
       .nested
        [.line "get_bundled_file_mime_types()",
         .nested
          [.line ".get(path)", .line ".copied()",
           .line (".unwrap_or(" ++ UnicodeLiteral.quote MediaType.octetStream ++ ")")]],
       .line "\x7d"]
      (accessors.lookups.flatMap phrase) := by
  -- the fallback needs no escapes
  have hunwrap : ".unwrap_or(" ++ UnicodeLiteral.quote MediaType.octetStream ++ ")"
      = ".unwrap_or(\"application/octet-stream\")" := by rfl
  have hall := reads_fileLookup.append (Reads.blank.skip reads_mimeTypeLookup)
  rw [hunwrap]
  simpa only [accessors, List.flatMap_cons, List.flatMap_nil, List.append_assoc, List.cons_append,
    List.nil_append, List.append_nil] using hall

/-- The accessors read as the tokens of their shape. -/
theorem reads_accessors {entries : List IndexEntry} (h : ∀ e ∈ entries, IsWord e.symbol.toList) :
    Reads .rust (RustModule.accessors entries) (accessors.tokens .rust entries) := by
  have hplain : ∀ text : String, text = "" ++ text ++ "" := fun text => by
    rw [String.empty_append, String.append_empty]
  have hfiles : Reads .rust (RustModule.mapAccessor "/// Get all bundled files"
      "get_bundled_files" "files" "&'static [u8]" entries fun e => "&" ++ e.symbol ++ "[..]") _ :=
    reads_mapAccessor sound_accessors.files (by rfl) _ IndexEntry.symbol (fun _ => rfl) h
  have hpaths : Reads .rust (RustModule.mapAccessor "/// Get all bundled file paths"
      "get_bundled_file_paths" "paths" "&'static str" entries
      fun e => e.symbol ++ Asset.pathSuffix) _ :=
    reads_mapAccessor sound_accessors.paths (by rfl) _ (fun e => e.symbol ++ Asset.pathSuffix)
      (fun _ => hplain _) fun e he => isWord_pathIdent (h e he)
  have hmimeTypes : Reads .rust (RustModule.mapAccessor "/// Get all bundled file MIME types"
      "get_bundled_file_mime_types" "mime_types" "&'static str" entries
      fun e => e.symbol ++ Asset.mimeSuffix) _ :=
    reads_mapAccessor sound_accessors.mimeTypes (by rfl) _ (fun e => e.symbol ++ Asset.mimeSuffix)
      (fun _ => hplain _) fun e he => isWord_mimeIdent (h e he)
  -- one after the other, with blank lines between them
  have hall := hfiles.append <| Reads.blank.skip <| hpaths.append <| Reads.blank.skip <|
    hmimeTypes.append <| Reads.blank.skip reads_lookups
  unfold AccessorShape.tokens RustModule.accessors
  simp only [List.append_assoc]
  exact hall

/-! ## §4. Declarations. -/

theorem reads_bytes (ctx : RenderContext) {name : String} (h : IsWord name.toList)
    (content : List UInt8) :
    Reads .rust (RustModule.declaration ctx (.bytes name content))
      (declarationTokens (.bytes name content)) := by
  have htext : ("pub static " ++ name ++ ": [u8; " ++ toString content.length ++ "] = [").toList
      = Piece.row .rust [.fixed "pub static ", .word name, .fixed ": [u8; ",
        .word (toString content.length), .fixed "] = ["] := by
    simp only [String.toList_append, List.append_assoc, Piece.row, List.flatMap_cons,
      List.flatMap_nil, Piece.text, List.append_nil]
  have hopen := reads_pieces htext ⟨Piece.isFixed_ofList (by rfl), h, rfl, Piece.isFixed_ofList (by rfl),
    isWord_toString content.length, rfl, Piece.isFixed_ofList (by rfl), trivial⟩
  have hclose : Reads .rust [.line "];"] (phrase "];") := reads_fixed (by rfl)
  have hall := hopen.cons <| (reads_byteLines .rust content ctx.bytesPerLine).nested.cons hclose
  simp only [List.flatMap_cons, List.flatMap_nil, Piece.tokens, List.append_nil,
    List.append_assoc] at hall
  exact hall

theorem reads_text (ctx : RenderContext) {name : String} (h : IsWord name.toList)
    (value : String) :
    Reads .rust (RustModule.declaration ctx (.text name value))
      (declarationTokens (.text name value)) := by
  have htext : ("pub static " ++ name ++ ": &str = " ++ UnicodeLiteral.quote value ++ ";").toList
      = Piece.row .rust [.fixed "pub static ", .word name, .fixed ": &str = ", .literal value,
        .fixed ";"] := by
    simp only [String.toList_append, List.append_assoc, Piece.row, List.flatMap_cons,
      List.flatMap_nil, Piece.text, List.append_nil]
    rfl
  exact reads_pieces htext
    ⟨Piece.isFixed_ofList (by rfl), h, rfl, Piece.isFixed_ofList (by rfl),
      Piece.isFixed_ofList (by rfl), trivial⟩

theorem reads_declaration (ctx : RenderContext) {d : Declaration}
    (h : LegibleDeclaration .rust d) :
    Reads .rust (RustModule.declaration ctx d) (declarationTokens d) := by
  cases d with
  | comment text => exact reads_heading h
  | bytes name content => exact reads_bytes ctx h content
  | text name value => exact reads_text ctx h value
  | «include» file => exact .nil
  | accessors entries => exact reads_accessors h

/-! ## §5. Files. -/

theorem reads_inclusion (file : String) :
    Reads .rust [.line ("include!(" ++ UnicodeLiteral.quote file ++ ");")]
      (inclusionTokens file) := by
  have htext : ("include!(" ++ UnicodeLiteral.quote file ++ ");").toList
      = Piece.row .rust [.fixed "include!(", .literal file, .fixed ");"] := by
    simp only [String.toList_append, List.append_assoc, Piece.row, List.flatMap_cons,
      List.flatMap_nil, Piece.text, List.append_nil]
    rfl
  exact reads_pieces htext
    ⟨Piece.isFixed_ofList (by rfl), Piece.isFixed_ofList (by rfl), trivial⟩

/-- What stands between the modules' opening and closing. -/
theorem reads_body {u : SourceUnit} {ctx : RenderContext} (hl : Legible .rust u)
    (hr : Regular u) :
    Reads .rust (RustModule.body u ctx) (bodyTokens (outline .rust ctx u)) := by
  have hincludes : Reads .rust
      (u.includes.map fun file => .line ("include!(" ++ UnicodeLiteral.quote file ++ ");"))
      (u.includes.flatMap inclusionTokens) := .map fun file _ => reads_inclusion file
  have hdeclarations : ∀ d ∈ u.body, Reads .rust (RustModule.declaration ctx d)
      (declarationTokens d) :=
    fun d hd => reads_declaration ctx (hl.declarations d (List.mem_filter.1 hd).1)
  have hbody : Reads .rust (RustModule.body u ctx)
      (u.includes.flatMap inclusionTokens ++ u.body.flatMap declarationTokens) := by
    unfold RustModule.body
    refine hincludes.append ?_
    cases hb : u.body with
    | nil => exact .nil
    | cons first others =>
      rw [hb] at hdeclarations
      obtain ⟨hfirst, hothers⟩ := List.forall_mem_cons.1 hdeclarations
      have hgroups := hfirst.append (reads_groups hothers)
      simp only [List.append_assoc]
      -- a blank line after the inclusions does not matter
      split
      · exact hgroups
      · exact Reads.blank.skip hgroups
  rw [flatMap_body .rust hr constantTokens
    fun d hd => by cases d <;> first | rfl | cases hd] at hbody
  exact hbody

theorem reads_open {scope : List String} (hs : ∀ name ∈ scope, IsWord name.toList) :
    Reads .rust (scope.flatMap RustModule.openModule) (scope.flatMap openTokens) := by
  refine .flatMap fun name hn => ?_
  have hline : Reads .rust [.line ("pub mod " ++ name ++ " \x7b")] (openTokens name) :=
    reads_named _ _ (Piece.isFixed_ofList (by rfl)) (hs name hn)
      (Piece.isFixed_ofList (by rfl)) rfl
  have hall := hline.cons .indent
  rwa [List.append_nil] at hall

theorem reads_close (scope : List String) :
    Reads .rust (scope.flatMap fun _ => RustModule.closeModule)
      (scope.flatMap fun _ => phrase "\x7d") :=
  .flatMap fun _ _ => Reads.dedent.skip (reads_fixed (by rfl))

/-- What stands between the second comment and the declarations. -/
def before (ctx : RenderContext) : UnitKind → List Op
  | .asset _ => [.blank]
  | .index =>
    .blank :: (ctx.scope.flatMap RustModule.openModule ++ [.line innerAttribute, .blank])

/-- What stands after the declarations. -/
def after (ctx : RenderContext) : UnitKind → List Op
  | .asset _ => []
  | .index => ctx.scope.flatMap fun _ => RustModule.closeModule

theorem layout_eq (u : SourceUnit) (ctx : RenderContext) :
    RustModule.layout u ctx
      = .line generatedNotice :: .line u.kind.provenance
        :: (before ctx u.kind ++ (RustModule.body u ctx ++ after ctx u.kind)) := by
  unfold RustModule.layout before after
  cases u.kind with
  | asset source => simp only [List.append_nil, List.cons_append, List.nil_append]
  | index =>
    simp only [List.append_assoc, List.cons_append, List.nil_append]
    rfl

theorem reads_before (u : SourceUnit) {ctx : RenderContext}
    (hs : ∀ name ∈ ctx.scope, IsWord name.toList) :
    Reads .rust (before ctx u.kind) ((scopeIn .rust ctx u).flatMap openTokens
      ++ if (scopeIn .rust ctx u).isEmpty then [] else phrase innerAttribute) := by
  unfold scopeIn before
  cases u.kind with
  | asset source => exact Reads.blank
  | index =>
    -- the innermost module is always there, and with it the attribute
    have hne : ctx.scope.isEmpty = false := by simp [RenderContext.scope]
    have hattribute : Reads .rust [.line innerAttribute, .blank] (phrase innerAttribute ++ []) :=
      (reads_fixed (by rfl)).cons Reads.blank
    rw [List.append_nil] at hattribute
    simp only [hne]
    exact Reads.blank.skip ((reads_open hs).append hattribute)

theorem reads_after (u : SourceUnit) (ctx : RenderContext) :
    Reads .rust (after ctx u.kind)
      ((scopeIn .rust ctx u).flatMap fun _ => phrase "\x7d") := by
  unfold scopeIn after
  cases u.kind with
  | asset source => exact .nil
  | index => exact reads_close ctx.scope

/-- A legible file reads as the tokens of its outline. -/
theorem reads_module {u : SourceUnit} {ctx : RenderContext} (hl : Legible .rust u)
    (hr : Regular u) (hs : ∀ name ∈ ctx.scope, IsWord name.toList) :
    Reads .rust (RustModule.layout u ctx) (fileTokens (outline .rust ctx u)) := by
  have hbody : Reads .rust (RustModule.body u ctx) (bodyTokens (outline .rust ctx u)) :=
    reads_body hl hr
  have hall := reads_notice.skip <| (reads_provenance hl).skip <|
    (reads_before u hs).append <| hbody.append (reads_after u ctx)
  rw [layout_eq]
  unfold fileTokens
  rw [List.append_assoc] at hall
  exact hall

/-! ## §6. Reading back. -/

theorem refuses_byte : Refuses byte (phrase "];") := fun _ => rfl

/-- The tokens of a constant give the constant back. -/
theorem accepts_constant {d : Declaration} {c : Constant} (h : constant? .rust d = some c) :
    Accepts constant (constantTokens c) c := by
  cases d with
  | bytes ident content =>
    cases h
    have hrest : Accepts (bytesOf ident)
        (phrase ": [u8; " ++ ([.word (toString content.length).toList] ++ (phrase "] = ["
          ++ (content.flatMap byteTokens ++ phrase "];"))))
        (.bytes ident (some content.length) content) :=
      .bind (.expect _) <| .bind (.word (decimal?_toString content.length)) <|
        .bind (.expect _) <|
        .many_self (fun b _ => accepts_byte b) (fun b _ => List.cons_ne_nil _ _) refuses_byte <|
        .returning (.expect _) _
    exact .bind (.expect _) <| .bind (accepts_name ident) <| .either_left hrest _
  | text ident value =>
    cases h
    -- after the name the types tell the two kinds apart
    have hclash : clash (phrase ": [u8; ") (phrase ": &str = ") = true := clash_literals (by rfl)
    have hrest : Accepts (textNamed ident)
        (phrase ": &str = " ++ ([quoted .rust value] ++ phrase ";")) (.text ident value) :=
      .bind (.expect _) <| .bind (accepts_textOf .rust value) <| .returning (.expect _) _
    exact .bind (.expect _) <| .bind (accepts_name ident) <|
      .either_right (((Refuses.expect hclash).bind _).append _) hrest
  | comment _ | «include» _ | accessors _ => cases h

theorem constantTokens_ne_nil (c : Constant) : constantTokens c ≠ [] := by
  cases c <;> simp [constantTokens]

theorem accepts_inclusion (file : String) : Accepts inclusion (inclusionTokens file) file :=
  .bind (.expect _) <| .bind (accepts_textOf .rust file) <| .returning (.expect _) _

theorem accepts_openScope (ident : String) : Accepts openScope (openTokens ident) ident :=
  .bind (.expect _) <| .bind (accepts_name ident) <| .returning (.expect _) _

/-- What refuses one constant refuses all of them. -/
theorem refuses_constants {α : Type} {r : Reader α} (h : Refuses r (phrase "pub static "))
    (constants : List Constant) {us : List Token} (hu : Refuses r us) :
    Refuses r (constants.flatMap constantTokens ++ us) := by
  refine .flatMap_append (fun c _ => ?_) hu
  cases c with
  | bytes ident length content => exact h.append _
  | text ident value => exact h.append _

theorem refuses_constant {ts : List Token} (h : clash (phrase "pub static ") ts = true) :
    Refuses constant ts :=
  (Refuses.expect h).bind _

theorem refuses_openScope {ts : List Token} (h : clash (phrase "pub mod ") ts = true) :
    Refuses openScope ts :=
  (Refuses.expect h).bind _

theorem refuses_inclusion {ts : List Token} (h : clash (phrase "include!(") ts = true) :
    Refuses inclusion ts :=
  (Refuses.expect h).bind _

/-- How the first accessor begins. -/
theorem begins_opening : Begins accessors.files.opening (phrase "pub fn ") := by
  have htext : accessors.files.opening.toList = Piece.row .rust [.fixed "pub fn ",
      .word "get_bundled_files", .fixed "() -> ",
      .fixed ("::std::collections::HashMap" ++ "<&'static str, "),
      .fixed ("&'static [u8]" ++ "> \x7b")] := by
    simp only [accessors, mapShape, String.toList_append, List.append_assoc, Piece.row,
      List.flatMap_cons, List.flatMap_nil, Piece.text, List.append_nil]
  unfold Begins
  rw [phrase_row htext ⟨Piece.isFixed_ofList (by rfl), ⟨by decide, by decide⟩, rfl,
    Piece.isFixed_ofList (by rfl), by rfl, by rfl, trivial⟩]
  exact ⟨_, rfl⟩

theorem accepts_attributeIn (scope : List String) :
    Accepts (attributeIn scope) (if scope.isEmpty then [] else phrase innerAttribute) () := by
  unfold attributeIn
  split
  · exact .pure ()
  · exact .expect _

/-- After the constants comes no other. -/
theorem refuses_constant_rest (entries : Option (List IndexEntry)) (scope : List String) :
    Refuses constant (entries.elim [] (accessors.tokens .rust)
      ++ ((scope.flatMap fun _ => phrase "\x7d") ++ [.finish])) :=
  .rest .rust accessors
    (refuses_constant (begins_opening.clash_right (clash_literal (by rfl))))
    (refuses_constant (clash_literals (by rfl))) (refuses_constant (clash_literal (by rfl)))
    entries scope

/-- From the constants on no file is included. -/
theorem refuses_inclusion_rest (constants : List Constant) (entries : Option (List IndexEntry))
    (scope : List String) :
    Refuses inclusion (constants.flatMap constantTokens
      ++ (entries.elim [] (accessors.tokens .rust)
        ++ ((scope.flatMap fun _ => phrase "\x7d") ++ [.finish]))) :=
  refuses_constants (refuses_inclusion (clash_literals (by rfl))) constants <|
  .rest .rust accessors
    (refuses_inclusion (begins_opening.clash_right (clash_literal (by rfl))))
    (refuses_inclusion (clash_literals (by rfl))) (refuses_inclusion (clash_literal (by rfl)))
    entries scope

/-- After the modules, from their attribute on if there is one, none is opened. -/
theorem refuses_openScope_rest (opened includes : List String) (constants : List Constant)
    (entries : Option (List IndexEntry)) (scope : List String) :
    Refuses openScope ((if opened.isEmpty then [] else phrase innerAttribute)
      ++ (includes.flatMap inclusionTokens ++ (constants.flatMap constantTokens
          ++ (entries.elim [] (accessors.tokens .rust)
            ++ ((scope.flatMap fun _ => phrase "\x7d") ++ [.finish]))))) := by
  have hbody : Refuses openScope (includes.flatMap inclusionTokens ++ _) :=
    .flatMap_append (fun _ _ => (refuses_openScope (clash_literals (by rfl))).append _) <|
    refuses_constants (refuses_openScope (clash_literals (by rfl))) constants <|
    Refuses.rest .rust accessors
      (refuses_openScope (begins_opening.clash_right (clash_literal (by rfl))))
      (refuses_openScope (clash_literals (by rfl))) (refuses_openScope (clash_literal (by rfl)))
      entries scope
  split
  · exact hbody
  · exact (refuses_openScope (clash_literals (by rfl))).append _

/-- The tokens of an outline give it back. -/
theorem accepts_module (u : SourceUnit) (ctx : RenderContext) :
    Accepts file (fileTokens (outline .rust ctx u) ++ [.finish]) (outline .rust ctx u) := by
  let scope := scopeIn .rust ctx u
  -- without accessors, the closing braces come next
  have hopening : Refuses (expect accessors.files.opening)
      ((scope.flatMap fun _ => phrase "\x7d") ++ [.finish]) :=
    .flatMap_append (fun _ _ => .expect (begins_opening.clash_left (by rfl)))
      (.expect (begins_opening.clash_left (by rfl)))
  have hconstants : ∀ c ∈ u.declarations.filterMap (constant? .rust),
      Accepts constant (constantTokens c) c := by
    intro c hc
    obtain ⟨d, -, hd⟩ := List.mem_filterMap.1 hc
    exact accepts_constant hd
  unfold fileTokens bodyTokens
  simp only [List.append_assoc]
  -- each repeated reader stops at whatever can come after it
  exact .many_self (fun ident _ => accepts_openScope ident) (fun ident _ => by simp [openTokens])
      (refuses_openScope_rest _ _ _ _ _) <|
    .bind (accepts_attributeIn scope) <|
    .many_self (fun file _ => accepts_inclusion file) (fun file _ => by simp [inclusionTokens])
      (refuses_inclusion_rest _ _ _) <|
    .many_self hconstants (fun c _ => constantTokens_ne_nil c) (refuses_constant_rest _ _) <|
    accepts_optional_accessors sound_accessors hopening _ <|
    accepts_close scope (outline .rust ctx u)

end AssetEmbed.Reading.Rust
