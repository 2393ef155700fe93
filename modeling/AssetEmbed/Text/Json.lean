/-
  AssetEmbed.Text.Json — texts in JSON.

  Quotes, backslashes and control characters are escaped, in short where JSON
  has a short form; every other character stands for itself.
-/
import AssetEmbed.Text.Numeral

namespace AssetEmbed.Json

/-- A character inside a JSON text. -/
def escapeChar (c : Char) : String :=
  match c with
  | '"' => "\\\""
  | '\\' => "\\\\"
  | '\n' => "\\n"
  | '\r' => "\\r"
  | '\t' => "\\t"
  | '\x08' => "\\b"
  | '\x0c' => "\\f"
  | c =>
    if c.toNat < 0x20 then
      "\\u00" ++ String.ofList (Numeral.hexPair (UInt8.ofNat c.toNat))
    else c.toString

/-- A JSON text. -/
def quote (text : String) : String :=
  "\"" ++ String.join (text.toList.map escapeChar) ++ "\""

end AssetEmbed.Json
