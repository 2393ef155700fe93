/-
  AssetEmbed.Source.OctalLiteral — string literals with octal escapes.

  The notation of a C++ string literal.  Control characters are written with
  three octal digits, which never absorb the character after them, and a
  question mark is escaped so that no trigraph arises.
-/

namespace AssetEmbed.OctalLiteral

/-- A control character of ASCII. -/
def isControl (c : Char) : Bool := c.toNat < 0x20 || c.toNat == 0x7F

/-- The octal digit of a number below eight. -/
def octalDigit (n : Nat) : Char := Char.ofNat (0x30 + n)

/-- Three octal digits. -/
def octalTriple (n : Nat) : List Char :=
  [octalDigit (n / 64 % 8), octalDigit (n / 8 % 8), octalDigit (n % 8)]

/-- How one character is written inside a literal. -/
def escapeChar (c : Char) : List Char :=
  if c = '\\' then ['\\', '\\']
  else if c = '"' then ['\\', '"']
  else if c = '\n' then ['\\', 'n']
  else if c = '\r' then ['\\', 'r']
  else if c = '\t' then ['\\', 't']
  else if c = '?' then ['\\', '?']
  else if isControl c then '\\' :: octalTriple c.toNat
  else [c]

/-- A text as it stands between the quotes. -/
def escape (text : String) : String := String.ofList (text.toList.flatMap escapeChar)

/-- A text as a literal, quotes included. -/
def quote (text : String) : String := "\"" ++ escape text ++ "\""

end AssetEmbed.OctalLiteral
