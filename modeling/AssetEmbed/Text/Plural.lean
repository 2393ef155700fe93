/-
  AssetEmbed.Text.Plural — counts in messages.
-/

namespace AssetEmbed

/-- A count with its noun, which takes an "s" unless the count is one. -/
def pluralCount (count : Nat) (noun : String) : String :=
  toString count ++ " " ++ noun ++ (if count = 1 then "" else "s")

end AssetEmbed
