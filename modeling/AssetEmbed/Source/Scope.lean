/-
  AssetEmbed.Source.Scope — nested scopes written with `::`.

  Main results:
    * `splitScope_ne_nil` — there is always at least one piece.
-/
import AssetEmbed.Source.Target

namespace AssetEmbed

/-- Splits at every `::`, from the left. -/
def splitScope : List Char → List (List Char)
  | [] => [[]]
  | ':' :: ':' :: rest => [] :: splitScope rest
  | c :: rest =>
    match splitScope rest with
    | piece :: pieces => (c :: piece) :: pieces
    | [] => [[c]]

theorem splitScope_ne_nil (cs : List Char) : splitScope cs ≠ [] := by
  fun_cases splitScope cs <;> simp_all

/-- The pieces of a scope. -/
def scopePieces (scope : String) : List String :=
  (splitScope scope.toList).map String.ofList

/-- What all files of one run share. -/
structure RenderContext where
  /-- The enclosing scopes, outermost first. -/
  enclosing : List String
  bytesPerLine : Nat
deriving DecidableEq, Repr

namespace RenderContext

/-- The context of a scope; empty pieces do not count. -/
def ofScope (scope : String) (bytesPerLine : Nat) : RenderContext :=
  ⟨(scopePieces scope).filter (· != ""), bytesPerLine⟩

/-- All scopes around the declarations, outermost first. -/
def scope (ctx : RenderContext) : List String := ctx.enclosing ++ [bundleModule]

end RenderContext

end AssetEmbed
