/-
  AssetEmbed.Toml.Value — what a configuration document holds.

  A document is a table: values under keys, in the order in which the keys
  first come.  What reads a document asks only for texts, whole numbers, lists
  and tables, so that of a float, a truth value or a date the kind is kept and
  nothing else.
-/
import AssetEmbed.Order.Keyed

namespace AssetEmbed.Toml

/-- How a table came about.  It decides what may be added to the table later. -/
inductive TableKind where
  /-- Written between braces, and complete. -/
  | inline
  /-- Opened by a header of its own. -/
  | header
  /-- Passed through by the header of a table below it. -/
  | implied
  /-- Passed through by a dotted key. -/
  | dotted
deriving DecidableEq, Repr

/-- A value of a document. -/
inductive Value where
  | text (content : String)
  | integer (value : Int)
  | float
  | boolean
  | dateTime
  | array (items : List Value)
  | table (kind : TableKind) (entries : List (String × Value))
  /-- The tables that share one header in double brackets. -/
  | tables (items : List (List (String × Value)))

/-- Values under keys. -/
abbrev Table := Keyed Value

end AssetEmbed.Toml
