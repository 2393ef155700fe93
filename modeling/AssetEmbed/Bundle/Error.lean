/-
  AssetEmbed.Bundle.Error — why assets cannot be bundled.
-/
import AssetEmbed.Path
import AssetEmbed.FileTree.Error

namespace AssetEmbed

/-- The causes that abort the making of a bundle. -/
inductive BundleError where
  | missingRoot (root : Path)
  | read (path : Path) (cause : FileError)
  | nonUtf8Path (path : Path)
  | outsideRoot (path root : Path)
  | collision (ident first second : String)
  | reserved (ident path target : String)
  | createDir (path : Path) (cause : FileError)
  | write (path : Path) (cause : FileError)
deriving DecidableEq, Repr

namespace BundleError

/-- The message of an error. -/
def message : BundleError → String
  | missingRoot root =>
    "asset root `" ++ root.display ++ "` does not exist or is not a directory"
  | read path _ => "failed to read `" ++ path.display ++ "`"
  | nonUtf8Path path => "path `" ++ path.display ++ "` is not valid UTF-8"
  | outsideRoot path root =>
    "path `" ++ path.display ++ "` is not inside asset root `" ++ root.display ++ "`"
  | collision ident first second =>
    "identifier `" ++ ident ++ "` is derived from both `" ++ first ++ "` and `" ++ second ++ "`"
  | reserved ident path target =>
    "`" ++ path ++ "` maps to `" ++ ident ++ "`, which is reserved in " ++ target ++ " output"
  | createDir path _ => "failed to create output directory `" ++ path.display ++ "`"
  | write path _ => "failed to write `" ++ path.display ++ "`"

/-- The error of the file system behind an error, if there is one. -/
def cause? : BundleError → Option FileError
  | read _ cause => some cause
  | createDir _ cause => some cause
  | write _ cause => some cause
  | _ => none

/-- The messages of an error and of what lies behind it, outermost first. -/
def chain (e : BundleError) : List String :=
  e.message :: (e.cause?.map FileError.message).toList

end BundleError

end AssetEmbed
