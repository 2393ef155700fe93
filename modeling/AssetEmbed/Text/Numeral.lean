/-
  AssetEmbed.Text.Numeral — digits and their values.

  Main results:
    * `digitValue_hexDigit` — a written digit has the value it was written for.
-/

namespace AssetEmbed.Numeral

/-- The value of a digit, up to hexadecimal. -/
def digitValue (c : Char) : Nat :=
  if c.isDigit then c.toNat - '0'.toNat
  else if 'a' ≤ c ∧ c ≤ 'f' then c.toNat - 'a'.toNat + 10
  else c.toNat - 'A'.toNat + 10

/-- Whether a character is a digit up to hexadecimal. -/
def isHexDigit (c : Char) : Bool :=
  c.isDigit || decide ('a' ≤ c ∧ c ≤ 'f') || decide ('A' ≤ c ∧ c ≤ 'F')

/-- The number that digits spell in a base, the most significant first. -/
def ofDigits (base : Nat) (digits : List Char) : Nat :=
  digits.foldl (fun n c => n * base + digitValue c) 0

/-- How many numbers a word of `bits` bits can hold. -/
def wordSize (bits : Nat) : Nat := Nat.pow 2 bits

/-- The small hexadecimal digit of a number below sixteen. -/
def hexDigit (n : Nat) : Char :=
  if n < 10 then Char.ofNat (0x30 + n) else Char.ofNat (0x61 + (n - 10))

/-- Two hexadecimal digits. -/
def hexPair (b : UInt8) : List Char := [hexDigit (b.toNat / 16), hexDigit (b.toNat % 16)]

theorem digitValue_hexDigit : ∀ n < 16, digitValue (hexDigit n) = n := by decide

end AssetEmbed.Numeral
