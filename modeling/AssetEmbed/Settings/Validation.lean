/-
  AssetEmbed.Settings.Validation — which settings can be used.

  The scope has to consist of identifiers that the target does not reserve, the
  stem of the index file has to be a plain file stem, a line has to hold at
  least one value, and the output must not lie inside the asset root.  Every
  violation is reported, in this order.
-/
import AssetEmbed.Identifier
import AssetEmbed.Settings.Basic
import AssetEmbed.Settings.Diagnostic
import AssetEmbed.Source.Scope

namespace AssetEmbed.Settings

/-! ## §1. The checks. -/

/-- Whether a scope consists of identifiers. -/
def isScope (scope : String) : Bool := (splitScope scope.toList).all Identifier.isIdentifier

/-- A character that a file stem may hold. -/
def isStemPart (c : Char) : Bool := Identifier.isPart c || c == '.' || c == '-'

/-- Whether a text is a file stem. -/
def isStem : List Char → Bool
  | [] => false
  | c :: cs => Identifier.isPart c && cs.all isStemPart

/-! ## §2. The problems. -/

def scopeProblems (s : Settings) : List Diagnostic :=
  if isScope s.scope then
    ((scopePieces s.scope).filter s.target.isReserved).map fun piece =>
      ⟨"bundle.namespace",
       [.plain ("`" ++ piece ++ "` is reserved in " ++ s.target.label ++ " output")], none⟩
  else
    [⟨"bundle.namespace", [.plain ("`" ++ s.scope ++ "` is not a valid namespace")],
      some "use identifiers separated by `::`, e.g. `app::web`"⟩]

def indexNameProblems (s : Settings) : List Diagnostic :=
  if isStem s.indexName.toList then []
  else
    [⟨"bundle.index_name", [.plain ("`" ++ s.indexName ++ "` is not a valid file stem")],
      some "use letters, digits, `_`, `-` or `.`, without path separators"⟩]

def bytesPerLineProblems (s : Settings) : List Diagnostic :=
  if s.bytesPerLine = 0 then
    [⟨"bundle.bytes_per_line", [.plain "must be at least 1"], none⟩]
  else []

def outputDirProblems (s : Settings) : List Diagnostic :=
  if s.outputDir.startsWith s.webDir then
    [⟨"bundle.output_dir",
      [.plain ("`" ++ s.outputDir.display ++ "` is inside "), .field "bundle.web_dir",
       .plain (" `" ++ s.webDir.display ++ "`")],
      some "generated files would be embedded on the next run"⟩]
  else []

/-- All problems of settings whose paths are normalized. -/
def diagnostics (s : Settings) : List Diagnostic :=
  s.scopeProblems ++ s.indexNameProblems ++ s.bytesPerLineProblems ++ s.outputDirProblems

end AssetEmbed.Settings
