/-
  AssetEmbed.FileTree.Change — making directories and writing files.

  A run makes directories and writes files, and nothing else.  Making links and
  removing things is there for setting a tree up between runs.
-/
import AssetEmbed.FileTree.Query

namespace AssetEmbed

/-- A path without the separators at its end. -/
def Path.withoutTrailingSlashes (p : Path) : Path :=
  match p.bytes.reverse.dropWhile (· == Path.slash) with
  | [] => p
  | kept => ⟨kept.reverse⟩

namespace FileTree

/-- Makes one directory where nothing is yet.  Separators at the end count for
the length of the path and for nothing else. -/
def makeDir (t : FileTree) (current : Location) (p : Path) : Except FileError FileTree :=
  match p.fault?, t.resolve .entry current p.withoutTrailingSlashes with
  | some e, _ => .error e
  | none, .ok (.vacant parent name) => .ok (t.putFolder parent name)
  | none, .ok _ => .error .alreadyExists
  | none, .error e => .error e

/-- Makes a directory, unless it is there. -/
def ensureDir (t : FileTree) (current : Location) (p : Path) : Except FileError FileTree :=
  match t.makeDir current p with
  | .ok t => .ok t
  | .error e => if t.isDirectory current p then .ok t else .error e

/-- Makes a directory and those above it that are missing.  What was made
before a failure stays.  `fuel` bounds the directories above. -/
def makeDirsUpTo (current : Location) :
    Nat → Path → FileTree → Except FileError Unit × FileTree
  | 0, _, t => (.error .notFound, t)
  | fuel + 1, p, t =>
    if p.bytes = [] then (.ok (), t)
    else match t.makeDir current p, p.parent? with
      | .error .notFound, some up =>
        match makeDirsUpTo current fuel up t with
        | (.error e, t) => (.error e, t)
        | (.ok (), t) =>
          match t.ensureDir current p with
          | .ok t => (.ok (), t)
          | .error e => (.error e, t)
      | _, _ =>
        match t.ensureDir current p with
        | .ok t => (.ok (), t)
        | .error e => (.error e, t)

/-- Makes a directory and those above it that are missing. -/
def makeDirs (t : FileTree) (current : Location) (p : Path) : Except FileError Unit × FileTree :=
  makeDirsUpTo current (p.bytes.length + 1) p t

/-- Gives a regular file new bytes, or makes it. -/
def writeFile (t : FileTree) (current : Location) (p : Path) (content : List UInt8) :
    Except FileError FileTree :=
  match t.resolve .writing current p with
  | .ok (.file parent name _) => .ok (t.putFile parent name content)
  | .ok (.vacant parent name) => .ok (t.putFile parent name content)
  | .ok (.folder _) => .error .isADirectory
  | .ok (.link ..) => .error .notFound
  | .error e => .error e

/-- Makes a symbolic link where nothing is yet.  No run does this. -/
def makeLink (t : FileTree) (current : Location) (p target : Path) : Except FileError FileTree :=
  match t.resolve .entry current p with
  | .ok (.vacant parent name) => .ok (t.putLink parent name target)
  | .ok _ => .error .alreadyExists
  | .error e => .error e

/-- Removes what is at a path, a directory with all that it holds, a link as
such.  No run does this. -/
def remove (t : FileTree) (current : Location) (p : Path) : Except FileError FileTree :=
  match t.resolve .entry current p with
  | .ok (.folder place) =>
    match place.getLast? with
    | some name => .ok (t.erase place.dropLast name)
    | none => .error .alreadyExists
  | .ok (.file parent name _) => .ok (t.erase parent name)
  | .ok (.link parent name _) => .ok (t.erase parent name)
  | .ok (.vacant ..) => .error .notFound
  | .error e => .error e

end FileTree

end AssetEmbed
