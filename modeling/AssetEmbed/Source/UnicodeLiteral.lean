/-
  AssetEmbed.Source.UnicodeLiteral — string literals with Unicode escapes.

  The notation of a Rust string literal.  Quotes and backslashes are escaped,
  four characters have short forms, and every other character that cannot be
  shown as itself is written as its code point in hexadecimal digits.
-/
import AssetEmbed.Text.Numeral
import AssetEmbed.Text.Visibility

namespace AssetEmbed.UnicodeLiteral

/-- The hexadecimal digits of a number, without leading zeros; `fuel` bounds
their number. -/
def hexDigits : Nat → Nat → List Char
  | 0, n => [Numeral.hexDigit (n % 16)]
  | fuel + 1, n =>
    if n < 16 then [Numeral.hexDigit n]
    else hexDigits fuel (n / 16) ++ [Numeral.hexDigit (n % 16)]

/-- The escape that names a code point. -/
def codePoint (c : Char) : List Char :=
  ['\\', 'u', '\x7b'] ++ hexDigits 6 c.toNat ++ ['\x7d']

/-- How one character is written inside a literal. -/
def escapeChar (c : Char) : List Char :=
  if c = '"' then ['\\', '"']
  else if c = '\\' then ['\\', '\\']
  else if c = '\x00' then ['\\', '0']
  else if c = '\t' then ['\\', 't']
  else if c = '\n' then ['\\', 'n']
  else if c = '\r' then ['\\', 'r']
  else if Visibility.isVisible c then [c]
  else codePoint c

/-- A text as it stands between the quotes. -/
def escape (text : String) : String := String.ofList (text.toList.flatMap escapeChar)

/-- A text as a literal, quotes included. -/
def quote (text : String) : String := "\"" ++ escape text ++ "\""

end AssetEmbed.UnicodeLiteral
