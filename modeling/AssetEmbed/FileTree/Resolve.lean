/-
  AssetEmbed.FileTree.Resolve — from a path to a place.

  A path is walked step by step from the top or from a current directory.  A
  symbolic link on the way is replaced by the steps of its target; what becomes
  of one at the very end of the path depends on the purpose of the walk.  The
  number of replacements is bounded, and the walk recurses on what is left of
  it and on the steps.

  Main results:
    * `walk_more_links` — a walk that ends does not depend on the bound.
-/
import AssetEmbed.FileTree.Basic
import AssetEmbed.FileTree.Error

namespace AssetEmbed

/-! ## §1. Steps. -/

/-- A step of a path. -/
inductive Step where
  /-- Stays where it is; only a directory can be stayed in. -/
  | here
  /-- Nothing between two separators or behind the last.  It stays as `here`
  does, and a name with only this after it is written as a directory's. -/
  | blank
  | up
  | down (name : EntryName)
  /-- A name that no entry can have. -/
  | overlong
deriving DecidableEq, Repr

/-- The step that a piece between separators stands for. -/
def Step.ofPiece (piece : Name) : Step :=
  if piece = [] then .blank
  else if piece = Path.dot then .here
  else if piece = Path.dotDot then .up
  else if h : piece.isUsable = true then .down ⟨piece, h⟩
  else .overlong

/-- The steps of a path.  A separator at its end is a step too. -/
def Path.steps (p : Path) : List Step := (Path.splitSlash p.bytes).map Step.ofPiece

/-- Where the walk of a path begins. -/
def Path.start (p : Path) (current : Location) : Location :=
  if p.isAbsolute then [] else current

/-! ## §2. Walks. -/

/-- Where a walk ends. -/
inductive Place where
  | folder (place : Location)
  | file (parent : Location) (name : EntryName) (content : List UInt8)
  | link (parent : Location) (name : EntryName) (target : Path)
  /-- Nothing is there yet, but the directory for it exists. -/
  | vacant (parent : Location) (name : EntryName)
deriving DecidableEq, Repr

/-- What a walk is for. -/
inductive Purpose where
  /-- The entry of the last name, be it a link. -/
  | entry
  /-- What is there when a link at the end is followed. -/
  | target
  /-- The regular file to write: as for `target`, but the last name must not be
  written as a directory's. -/
  | writing
deriving DecidableEq, Repr

/-- Whether a name with these steps after it is refused before it is looked up. -/
def Purpose.refuses (purpose : Purpose) (rest : List Step) : Bool :=
  purpose = .writing && rest != [] && rest.all (· = .blank)

/-- Walks steps up to the first link that is replaced, and goes on from there
with `jump`. -/
def walkSteps (look : Location → Option Entry) (purpose : Purpose)
    (jump : Location → List Step → Except FileError Place) :
    Location → List Step → Except FileError Place
  | place, [] => .ok (.folder place)
  | place, .here :: rest => walkSteps look purpose jump place rest
  | place, .blank :: rest => walkSteps look purpose jump place rest
  | place, .up :: rest => walkSteps look purpose jump place.dropLast rest
  | _, .overlong :: rest =>
    if purpose.refuses rest then .error .isADirectory else .error .nameTooLong
  | place, .down name :: rest =>
    if purpose.refuses rest then .error .isADirectory
    else match look (place ++ [name]) with
      | none => if rest = [] then .ok (.vacant place name) else .error .notFound
      | some (.folder _) => walkSteps look purpose jump (place ++ [name]) rest
      | some (.file content) =>
        if rest = [] then .ok (.file place name content) else .error .notADirectory
      | some (.link target) =>
        if rest = [] ∧ purpose = .entry then .ok (.link place name target)
        else jump (target.start place) (target.steps ++ rest)

/-- Walks steps with a bound on the links that are replaced. -/
def walk (look : Location → Option Entry) (purpose : Purpose) :
    Nat → Location → List Step → Except FileError Place
  | 0 => walkSteps look purpose fun _ _ => .error .tooManyLinks
  | links + 1 => walkSteps look purpose (walk look purpose links)

theorem walkSteps_mono {look : Location → Option Entry} {purpose : Purpose}
    {jump jump' : Location → List Step → Except FileError Place}
    (hj : ∀ place steps r, jump place steps = .ok r → jump' place steps = .ok r)
    {steps : List Step} {place : Location} {r : Place}
    (h : walkSteps look purpose jump place steps = .ok r) :
    walkSteps look purpose jump' place steps = .ok r := by
  induction steps generalizing place with
  | nil => exact h
  | cons step rest ih =>
    cases step with
    | here => exact ih h
    | blank => exact ih h
    | up => exact ih h
    | overlong => exact h
    | down name =>
      simp only [walkSteps] at h ⊢
      split at h
      · cases h
      · next hr =>
        rw [if_neg hr]
        split at h
        · exact h
        · exact ih h
        · exact h
        · split at h
          · next hc => rw [if_pos hc]; exact h
          · next hc => rw [if_neg hc]; exact hj _ _ _ h

theorem walk_more_links {look : Location → Option Entry} {purpose : Purpose} {links : Nat}
    {place : Location} {steps : List Step} {r : Place}
    (h : walk look purpose links place steps = .ok r) :
    walk look purpose (links + 1) place steps = .ok r := by
  induction links generalizing place steps r with
  | zero => exact walkSteps_mono (fun _ _ _ hj => by cases hj) h
  | succ links ih => exact walkSteps_mono (fun _ _ _ hj => ih hj) h

/-! ## §3. Paths. -/

/-- How many bytes a path may have, less one. -/
def pathLimit : Nat := 4096

/-- How many links may be replaced on the way. -/
def linkLimit : Nat := 40

/-- Why a path names nothing at all, whatever there is. -/
def Path.fault? (p : Path) : Option FileError :=
  if p.bytes.contains 0 then some .zeroByte
  else if p.bytes = [] then some .notFound
  else if p.bytes.length ≥ pathLimit then some .nameTooLong
  else none

/-- The place that a path names, seen from a current directory. -/
def FileTree.resolve (t : FileTree) (purpose : Purpose) (current : Location) (p : Path) :
    Except FileError Place :=
  match p.fault? with
  | some e => .error e
  | none => walk t.entryAt purpose linkLimit (p.start current) p.steps

end AssetEmbed
