/-
  AssetEmbed.FileTree.Basic — all directories, files and links, from the top.
-/
import AssetEmbed.FileTree.Directory

namespace AssetEmbed

/-- The path of a place, from the top. -/
def Location.path (place : Location) : Path :=
  ⟨Path.slash :: Path.joinSlash (place.map EntryName.bytes)⟩

/-- A file tree: the directory at the top, in which no directory holds a name
twice. -/
structure FileTree where
  top : Directory
  distinct : top.Distinct

namespace FileTree

/-- The tree that holds nothing. -/
def empty : FileTree := ⟨.empty, trivial⟩

/-- The entry at a place. -/
def entryAt (t : FileTree) (place : Location) : Option Entry := t.top.entryAt place

/-- The bytes of the regular file at a place. -/
def contentAt (t : FileTree) (place : Location) : Option (List UInt8) :=
  match t.entryAt place with
  | some (.file content) => some content
  | _ => none

/-- Puts an entry into the directory at a place. -/
def put (t : FileTree) (place : Location) (name : EntryName) (entry : Entry)
    (h : entry.Distinct) : FileTree :=
  ⟨t.top.update (·.put name entry) place,
   Directory.distinct_update (fun _ hd => Directory.distinct_put hd h) t.distinct⟩

/-- Takes an entry out of the directory at a place. -/
def erase (t : FileTree) (place : Location) (name : EntryName) : FileTree :=
  ⟨t.top.update (·.erase name) place,
   Directory.distinct_update (fun _ hd => Directory.distinct_erase hd) t.distinct⟩

/-- The tree with a regular file of given bytes. -/
def putFile (t : FileTree) (place : Location) (name : EntryName) (content : List UInt8) :
    FileTree :=
  t.put place name (.file content) trivial

/-- The tree with an empty directory. -/
def putFolder (t : FileTree) (place : Location) (name : EntryName) : FileTree :=
  t.put place name (.folder .empty) trivial

/-- The tree with a symbolic link. -/
def putLink (t : FileTree) (place : Location) (name : EntryName) (target : Path) : FileTree :=
  t.put place name (.link target) trivial

end FileTree

end AssetEmbed
