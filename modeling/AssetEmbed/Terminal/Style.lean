/-
  AssetEmbed.Terminal.Style — colours and other attributes of text.

  A styled text is the text between two SGR sequences: one that sets the
  attributes and one that takes them back.  Without colour it is the text.
-/

namespace AssetEmbed

/-- The parameters that set the attributes of a text and take them back. -/
structure Style where
  start : String
  finish : String
deriving DecidableEq, Repr

namespace Style

/-- The character that starts a terminal sequence. -/
def escapeChar : String := "\x1b"

/-- An SGR sequence. -/
def sgr (parameters : String) : String := escapeChar ++ "[" ++ parameters ++ "m"

/-- A text in a style, if colour is on. -/
def apply (style : Style) (color : Bool) (text : String) : String :=
  if color then sgr style.start ++ text ++ sgr style.finish else text

/-! ## The styles in use -/

def brightGreenBold : Style := ⟨"92;1", "0"⟩
def brightRedBold : Style := ⟨"91;1", "0"⟩
def brightBlueBold : Style := ⟨"94;1", "0"⟩
def brightYellowBold : Style := ⟨"93;1", "0"⟩
def redBold : Style := ⟨"31;1", "0"⟩
def dimmed : Style := ⟨"2", "0"⟩
def cyan : Style := ⟨"36", "39"⟩
def red : Style := ⟨"31", "39"⟩
def yellow : Style := ⟨"33", "39"⟩
def brightBlue : Style := ⟨"94", "39"⟩

end Style

end AssetEmbed
