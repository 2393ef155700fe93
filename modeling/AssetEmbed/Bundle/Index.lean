/-
  AssetEmbed.Bundle.Index — looking assets up by their stored path.

  The index offers what the generated accessors offer: three maps from stored
  paths, and two point look-ups with a fallback for paths not bundled.
-/
import AssetEmbed.Bundle.Basic
import AssetEmbed.Order.Keyed

namespace AssetEmbed

/-- The assets of a bundle under their stored paths. -/
structure AssetIndex where
  byPath : Keyed Asset

namespace AssetIndex

def ofBundle (b : Bundle) : AssetIndex :=
  ⟨b.assets.foldl (fun entries a => Keyed.put a.path a entries) []⟩

/-- Stored path to bytes. -/
def files (index : AssetIndex) : Keyed (List UInt8) :=
  index.byPath.map fun (path, a) => (path, a.bytes)

/-- Stored path to stored path. -/
def paths (index : AssetIndex) : Keyed String :=
  index.byPath.map fun (path, a) => (path, a.path)

/-- Stored path to MIME type. -/
def mimeTypes (index : AssetIndex) : Keyed String :=
  index.byPath.map fun (path, a) => (path, a.mime)

/-- The bytes stored under a path. -/
def file? (index : AssetIndex) (path : String) : Option (List UInt8) :=
  (index.byPath.lookup path).map Asset.bytes

/-- The MIME type stored under a path, and the unknown type for any other. -/
def mimeType (index : AssetIndex) (path : String) : String :=
  ((index.byPath.lookup path).map Asset.mime).getD MediaType.octetStream

def size (index : AssetIndex) : Nat := index.byPath.length

def isEmpty (index : AssetIndex) : Bool := index.byPath.isEmpty

end AssetIndex

end AssetEmbed
