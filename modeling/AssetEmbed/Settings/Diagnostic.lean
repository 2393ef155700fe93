/-
  AssetEmbed.Settings.Diagnostic — problems of a configuration, and their display.

  All problems are reported together.  A message is a list of phrases, so that
  the name of a field can be coloured inside it.
-/
import AssetEmbed.Terminal.Style

namespace AssetEmbed

/-- A part of a message. -/
inductive Phrase where
  | plain (text : String)
  /-- The name of a field. -/
  | field (name : String)
deriving DecidableEq, Repr

/-- A field's name as it stands in a sentence. -/
def displayField (color : Bool) (name : String) : String :=
  Style.brightBlue.apply color ("`" ++ name ++ "`")

def Phrase.display (color : Bool) : Phrase → String
  | .plain text => text
  | .field name => displayField color name

/-- One problem: the field that has it, what it is, and perhaps what to do. -/
structure Diagnostic where
  field : String
  message : List Phrase
  hint : Option String
deriving DecidableEq, Repr

namespace Diagnostic

/-- A problem as two or three lines. -/
def display (color : Bool) (d : Diagnostic) : String :=
  Style.dimmed.apply color "[" ++ Style.cyan.apply color d.field ++ Style.dimmed.apply color "]"
    ++ "\n" ++ Style.red.apply color "→" ++ " " ++ String.join (d.message.map (·.display color))
    ++ match d.hint with
      | none => ""
      | some hint => "\n  " ++ Style.yellow.apply color "hint:" ++ " " ++ hint

/-- Problems under a heading, and their number if there are several. -/
def displayAll (color : Bool) (ds : List Diagnostic) : String :=
  Style.redBold.apply color "config validation failed:" ++ "\n\n"
    ++ String.intercalate "\n\n" (ds.map (·.display color))
    ++ if ds.length > 1 then
        "\n\n" ++ Style.dimmed.apply color "found" ++ " "
          ++ Style.redBold.apply color (toString ds.length) ++ " "
          ++ Style.dimmed.apply color "errors"
      else ""

end Diagnostic

end AssetEmbed
