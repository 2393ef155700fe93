/-
  AssetEmbed.Toml.Document — reading a whole document.

  A document is a sequence of lines: pairs of a key and a value, headers,
  comments and empty lines.  Its table follows from the pairs and headers
  alone.
-/
import AssetEmbed.Toml.Quoted
import AssetEmbed.Toml.Scalar
import AssetEmbed.Toml.Table

namespace AssetEmbed.Toml

/-! ## §1. Keys. -/

/-- A character of a key without quotes. -/
def isBareKeyChar (c : Char) : Bool := c.isAlphanum || c == '_' || c == '-'

/-- One part of a key. -/
def keyPart : Reader String
  | '"' :: rest => lineText '"' rest
  | '\'' :: rest => lineText '\'' rest
  | cs =>
    match cs.takeWhile isBareKeyChar with
    | [] => none
    | bare => some (String.ofList bare, cs.dropWhile isBareKeyChar)

/-- One round of a key: a part with blanks around it, and perhaps a dot. -/
def keyRound (cs : List Char) : Round String :=
  match keyPart (skipBlanks cs) with
  | none => .refuse
  | some (part, rest) =>
    match skipBlanks rest with
    | '.' :: rest => .more [part] rest
    | rest => .last [part] rest

/-- How many parts of a key, or lists and tables around a value, are too many. -/
def depthLimit : Nat := 80

/-- A key of parts with dots between them. -/
def dottedKey : Reader (List String) := fun cs => do
  let (parts, rest) ← repeated keyRound cs
  if parts.length < depthLimit then some (parts, rest) else none

/-! ## §2. Values. -/

/-- A key, an equals sign and a value. -/
def pair (value : Reader Value) : Reader (List String × Value) := fun cs => do
  let (keys, cs) ← dottedKey cs
  let cs ← take '=' cs
  let (v, cs) ← value (skipBlanks cs)
  some ((keys, v), cs)

/-- One round of a list: its end, or a value with a comma or the end behind it. -/
def arrayRound (value : Reader Value) (cs : List Char) : Round Value :=
  match skipLines cs with
  | ']' :: rest => .last [] rest
  | cs =>
    match value cs with
    | none => .refuse
    | some (v, rest) =>
      match skipLines rest with
      | ',' :: rest => .more [v] rest
      | ']' :: rest => .last [v] rest
      | _ => .refuse

/-- One round of a table between braces: a pair with a comma or the end behind it. -/
def braceRound (value : Reader Value) (cs : List Char) : Round (List String × Value) :=
  match pair value cs with
  | none => .refuse
  | some (p, rest) =>
    match skipBlanks rest with
    | ',' :: rest => .more [p] rest
    | '}' :: rest => .last [p] rest
    | _ => .refuse

/-- The pairs of a table between braces, read behind the opening one. -/
def bracePairs (value : Reader Value) : Reader (List (List String × Value)) := fun cs =>
  match skipBlanks cs with
  | '}' :: rest => some ([], rest)
  | _ => repeated (braceRound value) cs

/-- A value; `depth` bounds the lists and tables inside each other. -/
def value : Nat → Reader Value
  | _, '"' :: rest => (quotedText '"' rest).map fun (s, rest) => (.text s, rest)
  | _, '\'' :: rest => (quotedText '\'' rest).map fun (s, rest) => (.text s, rest)
  | _, 't' :: 'r' :: 'u' :: 'e' :: rest => some (.boolean, rest)
  | _, 'f' :: 'a' :: 'l' :: 's' :: 'e' :: rest => some (.boolean, rest)
  | depth + 1, '[' :: rest =>
    (repeated (arrayRound (value depth)) rest).map fun (items, rest) => (.array items, rest)
  | depth + 1, '{' :: rest => do
    let (pairs, rest) ← bracePairs (value depth) rest
    let entries ← Table.ofPairs pairs []
    some (.table .inline entries, rest)
  | _, cs => scalar cs

/-! ## §3. Lines. -/

/-- A header, read behind its opening brackets. -/
def header (close : List Char) : Reader (List String) := fun cs => do
  let (keys, cs) ← dottedKey cs
  if close.isPrefixOf cs then some (keys, cs.drop close.length) else none

/-- A statement, up to the end of its line. -/
def statement : Reader Table.Statement
  | '[' :: '[' :: rest => do
    let (keys, rest) ← header [']', ']'] rest
    some (.sharedHeader keys, ← endLine rest)
  | '[' :: rest => do
    let (keys, rest) ← header [']'] rest
    some (.header keys, ← endLine rest)
  | cs => do
    let ((keys, v), rest) ← pair (value (depthLimit - 1)) cs
    some (.pair keys v, ← endLine rest)

/-- One round of a document: an empty line or a comment, a statement, or the end. -/
def documentRound (cs : List Char) : Round Table.Statement :=
  match skipBlanks cs with
  | [] => .last [] []
  | rest =>
    match endLine rest with
    | some rest => .more [] rest
    | none =>
      match statement rest with
      | some (s, rest) => .more [s] rest
      | none => .refuse

/-- The text without a byte order mark in front. -/
def withoutMark : List Char → List Char
  | '\uFEFF' :: rest => rest
  | cs => cs

/-- The table of a document, or `none` if the text is none. -/
def parse (text : String) : Option Table := do
  let (statements, _) ← repeated documentRound (withoutMark text.toList)
  Table.ofStatements [] statements []

end AssetEmbed.Toml
