/-
  AssetEmbed.Toml.Reader — taking things from the front of a text.

  A reader returns what it read together with the characters that follow, or
  refuses the text.  No reader goes back behind characters that it took.

  Main results:
    * `repeatWithin_append` — a repetition that ends does not depend on the
      bound of its rounds.
-/

namespace AssetEmbed.Toml

/-- Takes an `α` from the front of the characters. -/
abbrev Reader (α : Type) := List Char → Option (α × List Char)

/-! ## §1. Repetition. -/

/-- What one round of a repetition does: it reads some items and goes on, reads
the last items and ends, or refuses the text. -/
inductive Round (α : Type) where
  | more (items : List α) (rest : List Char)
  | last (items : List α) (rest : List Char)
  | refuse

/-- Rounds, one for each character of `bound` at most; `done` holds the items
so far, the last one first. -/
def repeatWithin {α : Type} (round : List Char → Round α) :
    List Char → List α → Reader (List α)
  | [], _, _ => none
  | _ :: bound, done, cs =>
    match round cs with
    | .more items rest => repeatWithin round bound (items.reverse ++ done) rest
    | .last items rest => some (done.reverse ++ items, rest)
    | .refuse => none

/-- Repeats rounds each of which takes at least one character. -/
def repeated {α : Type} (round : List Char → Round α) : Reader (List α) :=
  fun cs => repeatWithin round (' ' :: cs) [] cs

theorem repeatWithin_append {α : Type} {round : List Char → Round α} {bound : List Char}
    (more : List Char) {done : List α} {cs : List Char} {result : List α × List Char}
    (h : repeatWithin round bound done cs = some result) :
    repeatWithin round (bound ++ more) done cs = some result := by
  induction bound generalizing done cs with
  | nil => simp [repeatWithin] at h
  | cons c bound ih =>
    rw [List.cons_append]
    rw [repeatWithin] at h ⊢
    split
    · next items rest hr => rw [hr] at h; exact ih h
    · next items rest hr => rw [hr] at h; exact h
    · next hr => rw [hr] at h; exact h

/-! ## §2. Characters. -/

def isBlank (c : Char) : Bool := c == ' ' || c == '\t'

/-- A character that a line may hold. -/
def isLineChar (c : Char) : Bool := c == '\t' || (decide (' ' ≤ c) && c != '\x7f')

/-! ## §3. Blanks, line ends and comments. -/

def skipBlanks (cs : List Char) : List Char := cs.dropWhile isBlank

/-- What follows a line end. -/
def afterNewline? : List Char → Option (List Char)
  | '\n' :: rest => some rest
  | '\r' :: '\n' :: rest => some rest
  | _ => none

/-- What follows a comment, if there is one. -/
def skipComment : List Char → List Char
  | '#' :: rest => rest.dropWhile isLineChar
  | cs => cs

/-- Takes the end of a line: blanks, perhaps a comment, and a line end or the
end of the text. -/
def endLine (cs : List Char) : Option (List Char) :=
  match skipComment (skipBlanks cs) with
  | [] => some []
  | rest => afterNewline? rest

/-- What follows blanks, line ends and comments in any number; `inComment` says
whether a comment has begun on this line. -/
def skipLinesFrom (inComment : Bool) : List Char → List Char
  | [] => []
  | '\n' :: rest => skipLinesFrom false rest
  | '\r' :: '\n' :: rest => skipLinesFrom false rest
  | c :: rest =>
    if inComment then if isLineChar c then skipLinesFrom true rest else c :: rest
    else if c = '#' then skipLinesFrom true rest
    else if isBlank c then skipLinesFrom false rest
    else c :: rest

/-- What follows blanks, line ends and comments in any number. -/
def skipLines (cs : List Char) : List Char := skipLinesFrom false cs

end AssetEmbed.Toml
