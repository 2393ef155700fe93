/-
  AssetEmbed.FileTree.Query — what a path names.

  Links at the end of the path are followed.  All questions but that for the
  canonical path refuse a path that is too long.  A walk over a directory comes
  to everything below it under visible names, and follows no link.
-/
import AssetEmbed.Asset
import AssetEmbed.FileTree.Resolve
import AssetEmbed.Order.Insertion

namespace AssetEmbed

/-! ## §1. Single places. -/

namespace FileTree

variable (t : FileTree) (current : Location) (p : Path)

/-- The entry at a place, if the path to the place is short enough to be used. -/
def nearEntryAt (place : Location) : Option Entry :=
  if (Location.path place).bytes.length < pathLimit then t.entryAt place else none

/-- The absolute path without links, `.` and `..` of what exists at a path.  It
is built up name by name, and so it is the places on the way whose paths have
to be short enough, and not the path itself. -/
def canonical? : Option Path :=
  if p.bytes = [] then none
  else match walk t.nearEntryAt .target linkLimit (p.start current) p.steps with
    | .ok (.folder place) => some (Location.path place)
    | .ok (.file parent name _) => some (Location.path (parent ++ [name]))
    | _ => none

/-- Whether there is a regular file. -/
def isFile : Bool :=
  match t.resolve .target current p with
  | .ok (.file ..) => true
  | _ => false

/-- Whether there is a directory. -/
def isDirectory : Bool :=
  match t.resolve .target current p with
  | .ok (.folder _) => true
  | _ => false

/-- Whether there is anything. -/
def isPresent : Bool := t.isFile current p || t.isDirectory current p

/-- The bytes of the regular file. -/
def readFile : Except FileError (List UInt8) :=
  match t.resolve .target current p with
  | .ok (.file _ _ content) => .ok content
  | .ok (.folder _) => .error .isADirectory
  | .ok _ => .error .notFound
  | .error e => .error e

end FileTree

/-! ## §2. All files. -/

/-- The regular files below a directory with the names that lead to them. -/
def Directory.files : Directory → List (Location × List UInt8)
  | .empty => []
  | .file name content rest => ([name], content) :: rest.files
  | .link _ _ rest => rest.files
  | .folder name inner rest =>
    (inner.files.map fun (place, content) => (name :: place, content)) ++ rest.files

/-- The regular files of a tree. -/
def FileTree.files (t : FileTree) : List (Location × List UInt8) := t.top.files

/-! ## §3. Walks over a directory. -/

/-- Whether a name is hidden; a name that is not text never is. -/
def isHiddenName (name : Name) : Bool :=
  match Utf8.decode? name with
  | some text => isHidden text
  | none => false

/-- What kind of thing is under a name. -/
inductive EntryKind where
  | file
  | link
  | folder
deriving DecidableEq, Repr

/-- What a walk over a directory comes to: the names that lead there, and what
is there. -/
structure Found where
  names : List Name
  kind : EntryKind
deriving DecidableEq, Repr

/-- Something found in a directory, seen from the directory around it. -/
def Found.under (name : Name) (f : Found) : Found := { f with names := name :: f.names }

/-- Something that a walk comes to, and what comes below it; hidden names are
passed over, with all that is below them. -/
def Found.visit (name : Name) (kind : EntryKind) (below : List Found) : List Found :=
  if isHiddenName name then [] else ⟨[name], kind⟩ :: below.map (.under name)

/-- What a walk over a directory comes to.  It does not follow links. -/
def Directory.found : Directory → List Found
  | .empty => []
  | .file name _ rest => Found.visit name.bytes .file [] ++ rest.found
  | .link name _ rest => Found.visit name.bytes .link [] ++ rest.found
  | .folder name inner rest => Found.visit name.bytes .folder inner.found ++ rest.found

/-- Found things in the order of a sorted walk. -/
def sortFound (found : List Found) : List Found :=
  Order.sortBy (fun a b => decide (a.names ≤ b.names)) found

/-- What a sorted walk over the directory at a path comes to. -/
def FileTree.entriesBelow (t : FileTree) (current : Location) (p : Path) : List Found :=
  match t.resolve .target current p with
  | .ok (.folder place) =>
    match t.entryAt place with
    | some (.folder d) => sortFound d.found
    | _ => []
  | _ => []

end AssetEmbed
