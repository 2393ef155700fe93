/-
  AssetEmbed.Source.ByteLiteral — bytes as lines of hexadecimal literals.

  Every value is written `0x` and two small hexadecimal digits, and is
  followed by a comma.  Line `i` holds the values from `i * perLine` on.
-/
import AssetEmbed.Text.Numeral

namespace AssetEmbed.ByteLiteral

/-- One value with the comma after it. -/
def literal (b : UInt8) : String := String.ofList ('0' :: 'x' :: Numeral.hexPair b ++ [','])

/-- How many lines hold `count` values. -/
def lineCount (count perLine : Nat) : Nat := (count + perLine - 1) / perLine

/-- The values of each line. -/
def chunks (bytes : List UInt8) (perLine : Nat) : List (List UInt8) :=
  let values := bytes.toArray
  (List.range (lineCount bytes.length perLine)).map fun i =>
    (values.extract (i * perLine) (i * perLine + perLine)).toList

/-- The lines of `bytes`, at least one value to a line; no bytes need no line. -/
def byteLines (bytes : List UInt8) (perLine : Nat) : List String :=
  (chunks bytes (max perLine 1)).map fun chunk => String.intercalate " " (chunk.map literal)

end AssetEmbed.ByteLiteral
