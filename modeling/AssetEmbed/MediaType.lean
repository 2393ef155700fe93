/-
  AssetEmbed.MediaType — the MIME type of a file, told from its name.

  Only the text after the last dot of the last component counts, and its ASCII
  case does not; the content of a file is never looked at.
-/
import AssetEmbed.Path

namespace AssetEmbed.MediaType

/-- The type of content about which nothing is known. -/
def octetStream : String := "application/octet-stream"

/-- The type of files with a lowercase extension. -/
def ofExtension : Option String → String
  | some "html" => "text/html"
  | some "css" => "text/css"
  | some "js" => "application/javascript"
  | some "json" => "application/json"
  | some "png" => "image/png"
  | some "jpg" => "image/jpeg"
  | some "jpeg" => "image/jpeg"
  | some "gif" => "image/gif"
  | some "svg" => "image/svg+xml"
  | some "ico" => "image/x-icon"
  | _ => octetStream

/-- ASCII capitals become small letters, all other characters stay. -/
def asciiLower (s : String) : String := String.ofList (s.toList.map Char.toLower)

/-- The text after the last dot, if there is a dot that is not the first
character. -/
def extension? (name : Name) : Option Name :=
  let afterDot := (name.reverse.takeWhile (· != 0x2E)).reverse
  let stem := name.take (name.length - afterDot.length - 1)
  if afterDot.length < name.length ∧ stem ≠ [] then some afterDot else none

/-- The type of a file, from the last component of its path. -/
def ofPath (p : Path) : String :=
  ofExtension (((p.fileName?.bind extension?).bind Utf8.decode?).map asciiLower)

end AssetEmbed.MediaType
