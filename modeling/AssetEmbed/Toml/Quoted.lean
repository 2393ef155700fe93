/-
  AssetEmbed.Toml.Quoted — quoted texts.

  A text stands between double quotes, where `\` starts an escape, or between
  single quotes, where every character is itself.  Three quotes of a kind
  enclose a text of several lines: a line end right after the opening quotes
  does not count, the others become line feeds, and one or two quotes of the
  kind may stand inside, also right before the closing ones.
-/
import AssetEmbed.Text.Numeral
import AssetEmbed.Toml.Reader

namespace AssetEmbed.Toml

/-! ## §1. Escapes. -/

/-- The character with a code point given in exactly `count` hexadecimal digits. -/
def codePoint (count : Nat) : Reader Char := fun cs =>
  let digits := cs.take count
  let value := Numeral.ofDigits 16 digits
  if digits.length = count ∧ digits.all Numeral.isHexDigit ∧ value.isValidChar then
    some (Char.ofNat value, cs.drop count)
  else none

/-- The character that an escape stands for, read behind the backslash. -/
def escape : Reader Char
  | 'b' :: rest => some ('\x08', rest)
  | 't' :: rest => some ('\t', rest)
  | 'n' :: rest => some ('\n', rest)
  | 'f' :: rest => some ('\x0c', rest)
  | 'r' :: rest => some ('\r', rest)
  | '"' :: rest => some ('"', rest)
  | '\\' :: rest => some ('\\', rest)
  | 'u' :: rest => codePoint 4 rest
  | 'U' :: rest => codePoint 8 rest
  | _ => none

/-- What follows a backslash at the end of a line: the blanks and line ends
after it do not count. -/
def afterLineEscape? (cs : List Char) : Option (List Char) :=
  (afterNewline? (skipBlanks cs)).map fun rest => skipGaps rest.length rest
where
  /-- Skips blanks and line ends; the number bounds the line ends. -/
  skipGaps : Nat → List Char → List Char
    | 0, cs => skipBlanks cs
    | fuel + 1, cs =>
      match afterNewline? (skipBlanks cs) with
      | some rest => skipGaps fuel rest
      | none => skipBlanks cs

/-! ## §2. Texts on one line. -/

/-- One round inside a text between quotes on one line. -/
def lineRound (quote : Char) (escapes : Bool) : List Char → Round Char
  | [] => .refuse
  | c :: rest =>
    if c = quote then .last [] rest
    else if escapes ∧ c = '\\' then
      match escape rest with
      | some (c, rest) => .more [c] rest
      | none => .refuse
    else if isLineChar c then .more [c] rest
    else .refuse

/-! ## §3. Texts on several lines. -/

/-- One round inside a text between three quotes.  A run of three or more
quotes ends the text, and up to two more of them still belong to it. -/
def blockRound (quote : Char) (escapes : Bool) (cs : List Char) : Round Char :=
  let run := (cs.takeWhile (· == quote)).length
  if run ≥ 3 then
    .last (List.replicate (min run 5 - 3) quote) (cs.drop (min run 5))
  else match cs with
    | [] => .refuse
    | c :: rest =>
      if escapes ∧ c = '\\' then
        match afterLineEscape? rest with
        | some rest => .more [] rest
        | none =>
          match escape rest with
          | some (c, rest) => .more [c] rest
          | none => .refuse
      else match afterNewline? cs with
        | some rest => .more ['\n'] rest
        | none => if isLineChar c then .more [c] rest else .refuse

/-! ## §4. All forms. -/

/-- Whether backslashes are escapes between quotes of a kind. -/
def hasEscapes (quote : Char) : Bool := quote == '"'

/-- A text on one line, read behind its opening quote. -/
def lineText (quote : Char) : Reader String := fun cs =>
  (repeated (lineRound quote (hasEscapes quote)) cs).map fun (text, rest) =>
    (String.ofList text, rest)

/-- A text on several lines, read behind its opening quotes. -/
def blockText (quote : Char) : Reader String := fun cs =>
  let body := (afterNewline? cs).getD cs
  (repeated (blockRound quote (hasEscapes quote)) body).map fun (text, rest) =>
    (String.ofList text, rest)

/-- A text on one or several lines, read behind the first of its quotes. -/
def quotedText (quote : Char) : Reader String
  | c :: d :: rest =>
    if c = quote ∧ d = quote then blockText quote rest else lineText quote (c :: d :: rest)
  | cs => lineText quote cs

end AssetEmbed.Toml
