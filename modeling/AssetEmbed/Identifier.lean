/-
  AssetEmbed.Identifier — names that a program text can declare.

  An identifier is a letter or underscore followed by letters, digits and
  underscores, all ASCII.  `symbolicName` makes one from any text: it replaces
  what an identifier cannot hold and guards a leading digit.

  Main results:
    * `isIdentifier_sanitize` — the outcome is always an identifier.
-/

namespace AssetEmbed

namespace Identifier

/-- Letters and digits of ASCII. -/
def isAlphanumeric (c : Char) : Bool := c.isAlphanum

/-- A character that an identifier may start with. -/
def isStart (c : Char) : Bool := c.isAlpha || c == '_'

/-- A character that an identifier may hold. -/
def isPart (c : Char) : Bool := c.isAlphanum || c == '_'

/-- The grammar of identifiers. -/
def isIdentifier : List Char → Bool
  | [] => false
  | c :: cs => isStart c && cs.all isPart

/-- Every character but letters and digits becomes an underscore. -/
def replaceOther (cs : List Char) : List Char :=
  cs.map fun c => if isAlphanumeric c then c else '_'

/-- Puts an underscore in front of nothing and of a digit. -/
def guardStart : List Char → List Char
  | [] => ['_']
  | c :: cs => if c.isDigit then '_' :: c :: cs else c :: cs

/-- The identifier that stands for a text. -/
def sanitize (cs : List Char) : List Char := guardStart (replaceOther cs)

theorem isPart_replaced (c : Char) :
    isPart (if isAlphanumeric c then c else '_') = true := by
  by_cases h : isAlphanumeric c = true
  · simp only [h, if_true]
    simp only [isAlphanumeric] at h
    simp [isPart, h]
  · simp [h, isPart]

theorem all_isPart_replaceOther (cs : List Char) : (replaceOther cs).all isPart = true := by
  simp only [replaceOther, List.all_map, List.all_eq_true, Function.comp]
  exact fun c _ => isPart_replaced c

theorem isIdentifier_sanitize (cs : List Char) : isIdentifier (sanitize cs) = true := by
  have h := all_isPart_replaceOther cs
  unfold sanitize
  cases hr : replaceOther cs with
  | nil => simp [guardStart, isIdentifier, isStart]
  | cons c rest =>
    rw [hr] at h
    simp only [List.all_cons, Bool.and_eq_true] at h
    unfold guardStart
    by_cases hd : c.isDigit = true
    · simp only [hd, if_true, isIdentifier, isStart, List.all_cons, Bool.and_eq_true, h]
      simp
    · have hs : isStart c = true := by
        have := h.1
        simp only [isPart, Char.isAlphanum, Bool.or_eq_true] at this
        simp only [isStart, Bool.or_eq_true]
        grind
      simp [hd, isIdentifier, hs]
      simpa using h.2

end Identifier

/-- The identifier that stands for a stored path. -/
def symbolicName (path : String) : String :=
  String.ofList (Identifier.sanitize path.toList)

end AssetEmbed
