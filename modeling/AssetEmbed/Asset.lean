/-
  AssetEmbed.Asset — one file to be embedded.

  An asset is a stored path with the bytes of its file.  Its symbol and its
  MIME type follow from the path, and it declares three identifiers: the
  symbol itself and the names of its path and type constants.
-/
import AssetEmbed.Identifier
import AssetEmbed.MediaType
import AssetEmbed.Bundle.Error

namespace AssetEmbed

/-- One static file: its stored path, relative to the asset root and with `/`
between names, and its bytes. -/
structure Asset where
  path : String
  bytes : List UInt8
deriving DecidableEq, Repr

namespace Asset

/-- What is appended to a symbol for the constant that holds the path. -/
def pathSuffix : String := "_path"

/-- What is appended to a symbol for the constant that holds the MIME type. -/
def mimeSuffix : String := "_mime"

/-- The identifier of the bytes. -/
def symbol (a : Asset) : String := symbolicName a.path

def mime (a : Asset) : String := MediaType.ofPath (Path.ofString a.path)

def pathIdent (a : Asset) : String := a.symbol ++ pathSuffix

def mimeIdent (a : Asset) : String := a.symbol ++ mimeSuffix

/-- Every identifier that an asset declares. -/
def idents (a : Asset) : List String := [a.symbol, a.pathIdent, a.mimeIdent]

end Asset

/-! ## Stored paths -/

/-- Whether the name of a file or directory is hidden. -/
def isHidden (name : String) : Bool := name.toList.head? == some '.'

/-- The text of every name, or `none` if one is not text. -/
def namesOf (components : List Path.Component) : Option (List String) :=
  (components.filterMap fun
    | .normal name => some name
    | _ => none).mapM Utf8.decode?

/-- The stored path of a file below the asset root. -/
def relativePath (root path : Path) : Except BundleError String :=
  match path.componentsBelow? root with
  | none => .error (.outsideRoot path root)
  | some components =>
    match namesOf components with
    | none => .error (.nonUtf8Path path)
    | some names => .ok (String.intercalate "/" names)

end AssetEmbed
