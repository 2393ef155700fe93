/-
  AssetEmbed.Toml.Scalar — numbers, dates and times.

  Single underscores may stand between the digits of a number.  A decimal
  number has no leading zeros; with a fraction or an exponent it is a float.
  A whole number has 64 bits with its sign.
-/
import AssetEmbed.Text.Numeral
import AssetEmbed.Toml.Reader
import AssetEmbed.Toml.Value

namespace AssetEmbed.Toml

/-! ## §1. Digits. -/

/-- The digits that go on a row of digits. -/
def moreDigits (isDigit : Char → Bool) : Reader (List Char)
  | [] => some ([], [])
  | ['_'] => none
  | '_' :: c :: rest =>
    if isDigit c then (moreDigits isDigit rest).map fun (ds, rest) => (c :: ds, rest) else none
  | c :: rest =>
    if isDigit c then (moreDigits isDigit rest).map fun (ds, rest) => (c :: ds, rest)
    else some ([], c :: rest)

/-- One digit or more, with underscores between them. -/
def digits (isDigit : Char → Bool) : Reader (List Char)
  | [] => none
  | c :: rest =>
    if isDigit c then (moreDigits isDigit rest).map fun (ds, rest) => (c :: ds, rest) else none

/-- The digits of a whole decimal number: a single zero, or no zero in front. -/
def wholeDigits : Reader (List Char)
  | '0' :: rest => some (['0'], rest)
  | cs => digits Char.isDigit cs

/-! ## §2. Numbers. -/

/-- A sign, and whether it is a minus. -/
def sign : List Char → Bool × List Char
  | '+' :: rest => (false, rest)
  | '-' :: rest => (true, rest)
  | cs => (false, cs)

/-- A number with its sign. -/
def signed (negative : Bool) (magnitude : Nat) : Int :=
  if negative then -(magnitude : Int) else magnitude

/-- A whole number, if it fits into 64 bits. -/
def integer? (value : Int) : Option Value :=
  let bound : Int := Numeral.wordSize 63
  if -bound ≤ value ∧ value < bound then some (.integer value) else none

/-- The least number that rounds to infinity as a double. -/
def infiniteFrom : Nat := Nat.pow 2 1024 - Nat.pow 2 970

/-- Whether `mantissa · 10 ^ exponent` rounds to infinity as a double.  The
number of digits decides it but for numbers of 309 digits. -/
def isInfinite (mantissa : Nat) (exponent : Int) : Bool :=
  let size := (toString mantissa).length + exponent
  if mantissa = 0 ∨ size < 309 then false
  else if size > 309 then true
  else if exponent ≥ 0 then decide (mantissa * Nat.pow 10 exponent.toNat ≥ infiniteFrom)
  else decide (mantissa ≥ infiniteFrom * Nat.pow 10 (-exponent).toNat)

/-- The exponent of a float, zero if there is none. -/
def exponentPart : Reader Int
  | c :: rest =>
    if c = 'e' ∨ c = 'E' then
      let (negative, rest) := sign rest
      (digits Char.isDigit rest).map fun (ds, rest) =>
        (signed negative (Numeral.ofDigits 10 ds), rest)
    else some (0, c :: rest)
  | [] => some (0, [])

/-- The digits behind the point of a float, none if there is no point. -/
def fractionPart : Reader (List Char)
  | '.' :: rest => digits Char.isDigit rest
  | cs => some ([], cs)

/-- Whether a fraction or an exponent comes next. -/
def isFloatNext : List Char → Bool
  | c :: _ => c == '.' || c == 'e' || c == 'E'
  | [] => false

/-- A decimal number behind its sign. -/
def decimal (negative : Bool) : Reader Value := fun cs => do
  let (whole, rest) ← wholeDigits cs
  if isFloatNext rest then
    let (fraction, rest) ← fractionPart rest
    let (exponent, rest) ← exponentPart rest
    let mantissa := Numeral.ofDigits 10 (whole ++ fraction)
    if !negative && isInfinite mantissa (exponent - fraction.length) then none
    else some (.float, rest)
  else
    let value ← integer? (signed negative (Numeral.ofDigits 10 whole))
    some (value, rest)

/-- A whole number in a base that is a power of two, behind its mark. -/
def based (base : Nat) (isDigit : Char → Bool) : Reader Value := fun cs => do
  let (ds, rest) ← digits isDigit cs
  let value ← integer? (Numeral.ofDigits base ds)
  some (value, rest)

/-- A number. -/
def number : Reader Value
  | '0' :: 'x' :: rest => based 16 Numeral.isHexDigit rest
  | '0' :: 'o' :: rest => based 8 (fun c => decide ('0' ≤ c ∧ c ≤ '7')) rest
  | '0' :: 'b' :: rest => based 2 (fun c => c == '0' || c == '1') rest
  | cs =>
    match sign cs with
    | (_, 'i' :: 'n' :: 'f' :: rest) => some (.float, rest)
    | (_, 'n' :: 'a' :: 'n' :: rest) => some (.float, rest)
    | (negative, rest) => decimal negative rest

/-! ## §3. Dates and times. -/

/-- A number of exactly `count` digits between two bounds. -/
def bounded (count low high : Nat) : Reader Nat := fun cs =>
  let ds := cs.take count
  let value := Numeral.ofDigits 10 ds
  if ds.length = count ∧ ds.all Char.isDigit ∧ low ≤ value ∧ value ≤ high then
    some (value, cs.drop count)
  else none

/-- Takes one given character. -/
def take (c : Char) : List Char → Option (List Char)
  | d :: rest => if d = c then some rest else none
  | [] => none

def isLeapYear (year : Nat) : Bool :=
  year % 4 == 0 && (year % 100 != 0 || year % 400 == 0)

def daysIn (year month : Nat) : Nat :=
  if month = 2 then if isLeapYear year then 29 else 28
  else if month ∈ [4, 6, 9, 11] then 30
  else 31

/-- What follows a date. -/
def date (cs : List Char) : Option (List Char) := do
  let (year, cs) ← bounded 4 0 9999 cs
  let cs ← take '-' cs
  let (month, cs) ← bounded 2 1 12 cs
  let cs ← take '-' cs
  let (_, cs) ← bounded 2 1 (daysIn year month) cs
  some cs

/-- What follows hours and minutes. -/
def hoursAndMinutes (cs : List Char) : Option (List Char) := do
  let (_, cs) ← bounded 2 0 23 cs
  let cs ← take ':' cs
  let (_, cs) ← bounded 2 0 59 cs
  some cs

/-- What follows the fraction of a second, if there is one. -/
def skipFraction : List Char → List Char
  | '.' :: c :: rest => if c.isDigit then rest.dropWhile Char.isDigit else '.' :: c :: rest
  | cs => cs

/-- What follows a time. -/
def time (cs : List Char) : Option (List Char) := do
  let cs ← hoursAndMinutes cs
  let cs ← take ':' cs
  let (_, cs) ← bounded 2 0 60 cs
  some (skipFraction cs)

/-- What follows the distance from universal time, if one is given. -/
def offset : List Char → Option (List Char)
  | 'Z' :: rest => some rest
  | 'z' :: rest => some rest
  | '+' :: rest => hoursAndMinutes rest
  | '-' :: rest => hoursAndMinutes rest
  | cs => some cs

/-- Whether hours and a colon come next. -/
def isTimeNext : List Char → Bool
  | a :: b :: ':' :: _ => a.isDigit && b.isDigit
  | _ => false

/-- Whether a year and a hyphen come next. -/
def isDateNext : List Char → Bool
  | a :: b :: c :: d :: '-' :: _ => [a, b, c, d].all Char.isDigit
  | _ => false

/-- What follows the time behind a date, if there is one. -/
def timeOfDay : List Char → Option (List Char)
  | c :: rest =>
    if (c = 'T' ∨ c = 't' ∨ c = ' ') ∧ isTimeNext rest then
      (time rest).bind offset
    else some (c :: rest)
  | [] => some []

/-- A number, a date or a time. -/
def scalar : Reader Value := fun cs =>
  if isDateNext cs then ((date cs).bind timeOfDay).map fun rest => (.dateTime, rest)
  else if isTimeNext cs then (time cs).map fun rest => (.dateTime, rest)
  else number cs

end AssetEmbed.Toml
