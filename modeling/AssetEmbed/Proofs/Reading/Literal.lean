/-
  AssetEmbed.Proofs.Reading.Literal — what literals stand for.

  The spelling of a string literal is read by a machine, one machine for each
  target.  An escape that names no character makes the literal unreadable.

  Main results:
    * `unescape_escape` — both targets read a quoted text back.
    * `quotable_escape` — a quoted text does not end its literal early.
    * `byte?_byteWord`  — a byte literal has the value that it was written for.
-/
import AssetEmbed.Proofs.Reading.Token
import AssetEmbed.Source.OctalLiteral
import AssetEmbed.Source.UnicodeLiteral
import Mathlib.Tactic.SplitIfs

namespace AssetEmbed.Reading

/-! ## §1. Escapes of C++. -/

/-- Where a character stands inside a C++ literal. -/
inductive OctalPlace where
  | text
  | escape
  /-- After octal digits. -/
  | octal (value digits : Nat)
deriving DecidableEq, Repr

def isOctalDigit (c : Char) : Bool := decide ('0' ≤ c ∧ c ≤ '7')

/-- What a backslash makes of the character after it. -/
def simpleEscape? : Char → Option Char
  | '\\' => some '\\'
  | '"' => some '"'
  | '\'' => some '\''
  | '?' => some '?'
  | 'n' => some '\n'
  | 'r' => some '\r'
  | 't' => some '\t'
  | 'a' => some '\x07'
  | 'b' => some '\x08'
  | 'f' => some '\x0c'
  | 'v' => some '\x0b'
  | _ => none

/-- A character of ASCII; other values are bytes without a meaning of their own. -/
def ascii? (value : Nat) : Option Char := if value < 128 then some (Char.ofNat value) else none

/-- What a character stands for outside of an escape. -/
def octalText (c : Char) : OctalPlace × List (Option Char) :=
  if c = '\\' then (.escape, []) else (.text, [some c])

/-- Reads escapes of one character, and of at most three octal digits. -/
def octalStep : OctalPlace → Char → OctalPlace × List (Option Char)
  | .text, c => octalText c
  | .escape, c =>
    if isOctalDigit c then (.octal (Numeral.digitValue c) 1, []) else (.text, [simpleEscape? c])
  | .octal value digits, c =>
    if isOctalDigit c then
      -- a third digit ends the escape
      if digits < 2 then (.octal (value * 8 + Numeral.digitValue c) (digits + 1), [])
      else (.text, [ascii? (value * 8 + Numeral.digitValue c)])
    else ((octalText c).1, ascii? value :: (octalText c).2)

/-- What is left at the end of a literal. -/
def OctalPlace.rest : OctalPlace → List (Option Char)
  | .text => []
  | .escape => [none]
  | .octal value _ => [ascii? value]

/-! ## §2. Escapes of Rust. -/

/-- Where a character stands inside a Rust literal. -/
inductive UnicodePlace where
  | text
  | escape
  /-- Before the brace of a code point. -/
  | brace
  /-- Inside the braces of a code point. -/
  | code (value : Nat)
deriving DecidableEq, Repr

/-- What a backslash makes of the character after it. -/
def shortEscape? : Char → Option Char
  | '\\' => some '\\'
  | '"' => some '"'
  | '\'' => some '\''
  | '0' => some '\x00'
  | 'n' => some '\n'
  | 'r' => some '\r'
  | 't' => some '\t'
  | _ => none

/-- The character with a code point, if there is one. -/
def codePoint? (value : Nat) : Option Char :=
  if value.isValidChar then some (Char.ofNat value) else none

/-- Reads escapes of one character, and code points in braces. -/
def unicodeStep : UnicodePlace → Char → UnicodePlace × List (Option Char)
  | .text, c => if c = '\\' then (.escape, []) else (.text, [some c])
  | .escape, c => if c = 'u' then (.brace, []) else (.text, [shortEscape? c])
  | .brace, c => if c = '\x7b' then (.code 0, []) else (.text, [none])
  | .code value, c =>
    if c = '\x7d' then (.text, [codePoint? value])
    else if Numeral.isHexDigit c then (.code (value * 16 + Numeral.digitValue c), [])
    else (.text, [none])

/-- What is left at the end of a literal. -/
def UnicodePlace.rest : UnicodePlace → List (Option Char)
  | .text => []
  | _ => [none]

/-! ## §3. Reading texts back. -/

/-- What the spelling of a literal stands for. -/
def unescape : Target → List Char → Option (List Char)
  | .cpp, spelling =>
    let read := transduce octalStep .text spelling
    (read.2 ++ read.1.rest).mapM id
  | .rust, spelling =>
    let read := transduce unicodeStep .text spelling
    (read.2 ++ read.1.rest).mapM id

/-- A text as a literal of a target. -/
def quote : Target → String → String
  | .cpp => OctalLiteral.quote
  | .rust => UnicodeLiteral.quote

/-- How a target writes one character inside a literal. -/
def escapeChar : Target → Char → List Char
  | .cpp => OctalLiteral.escapeChar
  | .rust => UnicodeLiteral.escapeChar

theorem toList_quote (target : Target) (text : String) :
    (quote target text).toList = '"' :: text.toList.flatMap (escapeChar target) ++ ['"'] := by
  cases target <;>
  · simp only [quote, OctalLiteral.quote, UnicodeLiteral.quote, OctalLiteral.escape,
      UnicodeLiteral.escape, String.toList_append, String.toList_ofList]
    rfl

theorem mapM_map_some (cs : List Char) : (cs.map some).mapM id = some cs := by
  induction cs with
  | nil => rfl
  | cons c rest ih => simp [ih]

/-- A machine that reads every character back reads every text back. -/
theorem transduce_flatMap {σ : Type} {step : σ → Char → σ × List (Option Char)} {k : σ}
    {spell : Char → List Char} (h : ∀ c, transduce step k (spell c) = (k, [some c]))
    (cs : List Char) : transduce step k (cs.flatMap spell) = (k, cs.map some) := by
  induction cs with
  | nil => rfl
  | cons c rest ih => exact transduce_append_of_eq (h c) ih

/-- Three octal digits in a row are one character. -/
theorem transduce_octalTriple : ∀ n < 128,
    transduce octalStep .text ('\\' :: OctalLiteral.octalTriple n) = (.text, [some (Char.ofNat n)]) := by
  decide

theorem isControl_lt {c : Char} (h : OctalLiteral.isControl c = true) : c.toNat < 128 := by
  simp only [OctalLiteral.isControl, Bool.or_eq_true, decide_eq_true_eq, beq_iff_eq] at h
  omega

theorem transduce_octalChar (c : Char) :
    transduce octalStep .text (OctalLiteral.escapeChar c) = (.text, [some c]) := by
  unfold OctalLiteral.escapeChar
  -- the cases are those of the writer, in its order
  split_ifs with hb hq hn hr ht hm hc
  · rw [hb]; rfl
  · rw [hq]; rfl
  · rw [hn]; rfl
  · rw [hr]; rfl
  · rw [ht]; rfl
  · rw [hm]; rfl
  -- three digits always, so that no digit of the text can join them
  · rw [transduce_octalTriple _ (isControl_lt hc), Char.ofNat_toNat]
  · simp [transduce, octalStep, octalText, hb]

theorem isHexDigit_hexDigit : ∀ n < 16, Numeral.isHexDigit (Numeral.hexDigit n) = true := by decide

theorem hexDigit_ne_brace : ∀ n < 16, Numeral.hexDigit n ≠ '\x7d' := by decide

theorem unicodeStep_hexDigit (value : Nat) {n : Nat} (h : n < 16) :
    transduce unicodeStep (.code value) [Numeral.hexDigit n] = (.code (value * 16 + n), []) := by
  simp only [transduce, unicodeStep, if_neg (hexDigit_ne_brace n h),
    if_pos (isHexDigit_hexDigit n h), Numeral.digitValue_hexDigit n h]
  rfl

/-- Hexadecimal digits are read as the number that they were written for. -/
theorem transduce_hexDigits (fuel : Nat) {n : Nat} (h : n < Nat.pow 16 (fuel + 1)) :
    transduce unicodeStep (.code 0) (UnicodeLiteral.hexDigits fuel n) = (.code n, []) := by
  induction fuel generalizing n with
  | zero =>
    have hlt : n < 16 := h
    have hn : n % 16 = n := Nat.mod_eq_of_lt hlt
    rw [UnicodeLiteral.hexDigits, unicodeStep_hexDigit 0 (Nat.mod_lt n (by omega)), hn]
    simp
  | succ fuel ih =>
    unfold UnicodeLiteral.hexDigits
    split
    · next hn => rw [unicodeStep_hexDigit 0 hn]; simp
    -- the higher digits come first, then the last one
    · have hlt : n < Nat.pow 16 (fuel + 1) * 16 := h
      have hhigh : n / 16 < Nat.pow 16 (fuel + 1) := Nat.div_lt_of_lt_mul (by omega)
      have hlow := unicodeStep_hexDigit (n / 16) (Nat.mod_lt n (by omega : 0 < 16))
      have hsum : n / 16 * 16 + n % 16 = n := by omega
      rw [hsum] at hlow
      exact transduce_append_of_eq (ih hhigh) hlow

theorem transduce_codePoint (c : Char) :
    transduce unicodeStep .text (UnicodeLiteral.codePoint c) = (.text, [some c]) := by
  -- a code point has at most six hexadecimal digits
  have hlt : c.toNat < Nat.pow 16 (6 + 1) := by
    have hvalid : c.toNat.isValidChar := c.valid
    have hbound : Nat.pow 16 (6 + 1) = 268435456 := rfl
    unfold Nat.isValidChar at hvalid
    omega
  have hopen : transduce unicodeStep .text ['\\', 'u', '\x7b'] = (.code 0, []) := rfl
  have hclose : transduce unicodeStep (.code c.toNat) ['\x7d'] = (.text, [some c]) := by
    have hvalid : c.toNat.isValidChar := c.valid
    simp [transduce, unicodeStep, codePoint?, hvalid, Char.ofNat_toNat]
  exact transduce_append_of_eq (transduce_append_of_eq hopen (transduce_hexDigits 6 hlt)) hclose

theorem transduce_unicodeChar (c : Char) :
    transduce unicodeStep .text (UnicodeLiteral.escapeChar c) = (.text, [some c]) := by
  unfold UnicodeLiteral.escapeChar
  split_ifs with hq hb hz ht hn hr hv
  · rw [hq]; rfl
  · rw [hb]; rfl
  · rw [hz]; rfl
  · rw [ht]; rfl
  · rw [hn]; rfl
  · rw [hr]; rfl
  · simp [transduce, unicodeStep, hb]
  · exact transduce_codePoint c

/-- A quoted text is read back. -/
theorem unescape_escape (target : Target) (cs : List Char) :
    unescape target (cs.flatMap (escapeChar target)) = some cs := by
  cases target with
  | cpp =>
    have hread : transduce octalStep .text (cs.flatMap (escapeChar .cpp)) = (.text, cs.map some) :=
      transduce_flatMap transduce_octalChar cs
    unfold unescape
    simp only [hread, OctalPlace.rest, List.append_nil, mapM_map_some]
  | rust =>
    have hread : transduce unicodeStep .text (cs.flatMap (escapeChar .rust)) = (.text, cs.map some) :=
      transduce_flatMap transduce_unicodeChar cs
    unfold unescape
    simp only [hread, UnicodePlace.rest, List.append_nil, mapM_map_some]

/-! ## §4. Quoted texts as literals. -/

/-- A character that stands for itself inside a literal. -/
def isInert (c : Char) : Bool := c != '\n' && c != '"' && c != '\\'

theorem Quotable.of_inert {cs : List Char} (h : cs.all isInert = true) : Quotable cs := by
  induction cs with
  | nil => exact .nil
  | cons c rest ih =>
    simp only [List.all_cons, Bool.and_eq_true, isInert, bne_iff_ne, ne_eq] at h
    obtain ⟨⟨⟨hn, hq⟩, hb⟩, hrest⟩ := h
    exact (Quotable.single hn hq hb).append (ih (by simpa [isInert] using hrest))

theorem octalTriple_inert : ∀ n < 128, (OctalLiteral.octalTriple n).all isInert = true := by decide

theorem octalDigit_ne : ∀ n < 8, OctalLiteral.octalDigit n ≠ '\n' := by decide

theorem quotable_octalChar (c : Char) : Quotable (OctalLiteral.escapeChar c) := by
  unfold OctalLiteral.escapeChar
  split_ifs with hb hq hn hr ht hm hc
  · exact .escaped (by decide)
  · exact .escaped (by decide)
  · exact .escaped (by decide)
  · exact .escaped (by decide)
  · exact .escaped (by decide)
  · exact .escaped (by decide)
  -- the first digit belongs to the backslash, the others stand for themselves
  · have hfirst := octalDigit_ne (c.toNat / 64 % 8) (Nat.mod_lt _ (by omega))
    have hinert := octalTriple_inert c.toNat (isControl_lt hc)
    simp only [OctalLiteral.octalTriple, List.all_cons, Bool.and_eq_true] at hinert
    exact (Quotable.escaped hfirst).append
      (.of_inert (by simp only [List.all_cons, Bool.and_eq_true]; exact hinert.2))
  · exact .single hn hq hb

theorem hexDigit_inert : ∀ n < 16, isInert (Numeral.hexDigit n) = true := by decide

theorem hexDigits_inert (fuel n : Nat) :
    (UnicodeLiteral.hexDigits fuel n).all isInert = true := by
  induction fuel generalizing n with
  | zero => simp [UnicodeLiteral.hexDigits, hexDigit_inert _ (Nat.mod_lt n (by omega : 0 < 16))]
  | succ fuel ih =>
    unfold UnicodeLiteral.hexDigits
    -- the digits are written from the last one on, each of them inert
    split
    · next h => simp [hexDigit_inert n h]
    · simp [ih, hexDigit_inert _ (Nat.mod_lt n (by omega : 0 < 16))]

theorem quotable_unicodeChar (c : Char) : Quotable (UnicodeLiteral.escapeChar c) := by
  unfold UnicodeLiteral.escapeChar
  split_ifs with hq hb hz ht hn hr hv
  · exact .escaped (by decide)
  · exact .escaped (by decide)
  · exact .escaped (by decide)
  · exact .escaped (by decide)
  · exact .escaped (by decide)
  · exact .escaped (by decide)
  · exact .single hn hq hb
  -- the braces are not escaped; the digits between them are inert
  · have hopen : Quotable (['\\', 'u'] ++ ['\x7b']) :=
      (Quotable.escaped (by decide)).append (.of_inert (by decide))
    have hclose : Quotable ['\x7d'] := .of_inert (by decide)
    exact (hopen.append (.of_inert (hexDigits_inert 6 c.toNat))).append hclose

theorem quotable_escape (target : Target) (cs : List Char) :
    Quotable (cs.flatMap (escapeChar target)) := by
  cases target with
  | cpp => exact .flatMap quotable_octalChar cs
  | rust => exact .flatMap quotable_unicodeChar cs

/-- A literal as a token. -/
def quoted (target : Target) (text : String) : Token :=
  .literal (text.toList.flatMap (escapeChar target))

theorem kept_quote (target : Target) (text : String) : Kept (quote target text).toList := by
  rw [toList_quote]
  exact (quotable_escape target text.toList).literal_kept

theorem spells_quote (target : Target) (text : String) :
    Spells (quote target text).toList [quoted target text] := by
  rw [toList_quote]
  exact .literal (quotable_escape target text.toList)

/-! ## §5. Numbers. -/

/-- The value of a byte literal. -/
def byte? : List Char → Option UInt8
  | '0' :: 'x' :: digits =>
    if digits ≠ [] ∧ digits.all Numeral.isHexDigit ∧ Numeral.ofDigits 16 digits < 256 then
      some (UInt8.ofNat (Numeral.ofDigits 16 digits))
    else none
  | _ => none

/-- The value of a decimal number. -/
def decimal? (digits : List Char) : Option Nat :=
  if digits ≠ [] ∧ digits.all Char.isDigit then some (Nat.ofDigitChars 10 digits 0) else none

theorem ofDigits_hexPair (b : UInt8) : Numeral.ofDigits 16 (Numeral.hexPair b) = b.toNat := by
  have hb := b.toNat_lt
  simp only [Numeral.ofDigits, Numeral.hexPair, List.foldl_cons, List.foldl_nil,
    Numeral.digitValue_hexDigit (b.toNat / 16) (by omega),
    Numeral.digitValue_hexDigit (b.toNat % 16) (by omega)]
  omega

/-- The word that a byte is written as. -/
def byteWord (b : UInt8) : List Char := '0' :: 'x' :: Numeral.hexPair b

theorem byte?_byteWord (b : UInt8) : byte? (byteWord b) = some b := by
  have hb := b.toNat_lt
  have hdigits : (Numeral.hexPair b).all Numeral.isHexDigit = true := by
    simp [Numeral.hexPair, isHexDigit_hexDigit (b.toNat / 16) (by omega),
      isHexDigit_hexDigit (b.toNat % 16) (by omega)]
  have hne : Numeral.hexPair b ≠ [] := List.cons_ne_nil _ _
  unfold byte? byteWord
  simp only [ofDigits_hexPair, hdigits, UInt8.ofNat_toNat]
  rw [if_pos ⟨hne, trivial, hb⟩]

theorem hexDigit_isPart : ∀ n < 16, Identifier.isPart (Numeral.hexDigit n) = true := by decide

theorem isWord_byteWord (b : UInt8) : IsWord (byteWord b) := by
  have hb := b.toNat_lt
  refine ⟨List.cons_ne_nil _ _, ?_⟩
  simp only [byteWord, Numeral.hexPair, List.all_cons, List.all_nil,
    hexDigit_isPart (b.toNat / 16) (by omega), hexDigit_isPart (b.toNat % 16) (by omega)]
  decide

theorem toList_toString (n : Nat) : (toString n).toList = Nat.toDigits 10 n := Nat.toList_repr

theorem isWord_toString (n : Nat) : IsWord (toString n).toList := by
  rw [toList_toString]
  refine ⟨Nat.toDigits_ne_nil, List.all_eq_true.2 fun c hc => ?_⟩
  -- the standard digits are letters of a word
  have hdigit : c.isDigit = true := Nat.isDigit_of_mem_toDigits (by omega) (by omega) hc
  simp [Identifier.isPart, Char.isAlphanum, hdigit]

theorem decimal?_toString (n : Nat) : decimal? (toString n).toList = some n := by
  rw [toList_toString]
  have hdigits : (Nat.toDigits 10 n).all Char.isDigit = true :=
    List.all_eq_true.2 fun c hc => Nat.isDigit_of_mem_toDigits (by omega) (by omega) hc
  unfold decimal?
  rw [if_pos ⟨Nat.toDigits_ne_nil, hdigits⟩, Nat.ofDigitChars_ten_toDigits]

end AssetEmbed.Reading
