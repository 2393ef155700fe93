/-
  AssetEmbed.Path — file paths as bytes, read component by component.

  A path is the byte string it is spelled with.  Comparisons look through the
  spelling at its components: repeated separators and inner `.` components do
  not count, `..` does.  Joining and taking the parent work on the spelling.

  Main results:
    * `splitSlash_ne_nil` — a spelling has at least one piece.
    * `joinSlash_splitSlash` — joining its pieces gives the spelling back.
    * `slash_notMem_of_mem_splitSlash` — no piece holds a separator.
-/
import AssetEmbed.Text.Utf8

namespace AssetEmbed

/-- A file name: bytes without a separator. -/
abbrev Name := List UInt8

/-- A path as it is spelled. -/
structure Path where
  bytes : List UInt8
deriving DecidableEq, Repr, Inhabited

namespace Path

/-! ## §1. Spelling. -/

/-- The separator `/`. -/
def slash : UInt8 := 0x2F

/-- The name `.`. -/
def dot : Name := [0x2E]

/-- The name `..`. -/
def dotDot : Name := [0x2E, 0x2E]

def ofString (s : String) : Path := ⟨Utf8.encode s⟩

/-- The text that shows a path in a message. -/
def display (p : Path) : String := Utf8.decodeLossy p.bytes

/-- Splits at every separator; there is always at least one piece. -/
def splitSlash : List UInt8 → List Name
  | [] => [[]]
  | b :: bs =>
    if b = slash then [] :: splitSlash bs
    else match splitSlash bs with
      | piece :: pieces => (b :: piece) :: pieces
      | [] => [[b]]

/-- Puts a separator between pieces. -/
def joinSlash : List Name → List UInt8
  | [] => []
  | [piece] => piece
  | piece :: pieces => piece ++ slash :: joinSlash pieces

theorem splitSlash_ne_nil (bytes : List UInt8) : splitSlash bytes ≠ [] := by
  cases bytes with
  | nil => simp [splitSlash]
  | cons b bs =>
    simp only [splitSlash]
    split
    · simp
    · split <;> simp

theorem joinSlash_splitSlash (bytes : List UInt8) : joinSlash (splitSlash bytes) = bytes := by
  induction bytes with
  | nil => rfl
  | cons b bs ih =>
    simp only [splitSlash]
    split
    · next hb =>
      have hne := splitSlash_ne_nil bs
      cases hp : splitSlash bs with
      | nil => exact absurd hp hne
      | cons piece pieces => rw [hp] at ih; simp [joinSlash, ih, hb]
    · split
      · next piece pieces hp =>
        rw [hp] at ih
        cases pieces with
        | nil => simpa [joinSlash] using ih
        | cons next others => simpa [joinSlash] using ih
      · next hp => exact absurd hp (splitSlash_ne_nil bs)

theorem slash_notMem_of_mem_splitSlash {bytes : List UInt8} {piece : Name}
    (h : piece ∈ splitSlash bytes) : slash ∉ piece := by
  induction bytes generalizing piece with
  | nil =>
    rw [List.mem_singleton.1 h]
    exact List.not_mem_nil
  | cons b bs ih =>
    simp only [splitSlash] at h
    split at h
    · rcases List.mem_cons.1 h with rfl | h
      · exact List.not_mem_nil
      · exact ih h
    · next hb =>
      split at h
      · next first others hp =>
        rcases List.mem_cons.1 h with rfl | h
        · intro hm
          rcases List.mem_cons.1 hm with hm | hm
          · exact hb hm.symm
          · exact ih (hp ▸ List.mem_cons_self) hm
        · exact ih (hp ▸ List.mem_cons_of_mem _ h)
      · next hp => exact absurd hp (splitSlash_ne_nil bs)

theorem splitSlash_append_slash {piece : Name} (rest : List UInt8) (h : slash ∉ piece) :
    splitSlash (piece ++ slash :: rest) = piece :: splitSlash rest := by
  induction piece with
  | nil => simp [splitSlash]
  | cons b bs ih =>
    have hb : ¬ b = slash := fun hb => h (hb ▸ List.mem_cons_self)
    have hbs : slash ∉ bs := fun hm => h (List.mem_cons_of_mem _ hm)
    rw [List.cons_append, splitSlash, if_neg hb, ih hbs]

def isAbsolute (p : Path) : Bool := p.bytes.head? == some slash

/-- `q` seen from `p`: `q` itself if it is absolute, and otherwise `p` and `q`
with one separator between them, unless `p` is empty or ends with one. -/
def join (p q : Path) : Path :=
  if q.isAbsolute then q
  else if p.bytes = [] ∨ p.bytes.getLast? = some slash then ⟨p.bytes ++ q.bytes⟩
  else ⟨p.bytes ++ slash :: q.bytes⟩

/-! ## §2. Components. -/

/-- What a path is made of. -/
inductive Component where
  | root
  | current
  | parent
  | normal (name : Name)
deriving DecidableEq, Repr

/-- The component that a piece inside a path stands for, if any. -/
def Component.ofPiece (piece : Name) : Option Component :=
  if piece = [] ∨ piece = dot then none
  else if piece = dotDot then some .parent
  else some (.normal piece)

/-- The components of a path.  `.` counts only as the first piece of a
relative path. -/
def components (p : Path) : List Component :=
  if p.isAbsolute then .root :: (splitSlash p.bytes).filterMap Component.ofPiece
  else match splitSlash p.bytes with
    | [] => []
    | piece :: pieces =>
      (if piece = dot then [.current] else (Component.ofPiece piece).toList)
        ++ pieces.filterMap Component.ofPiece

/-- Whether `base` is `p` or lies above it, component by component. -/
def startsWith (p base : Path) : Bool := base.components.isPrefixOf p.components

/-- The components of `p` below `base`, if `base` is above it. -/
def componentsBelow? (p base : Path) : Option (List Component) :=
  if p.startsWith base then some (p.components.drop base.components.length) else none

/-- The last component, if it is a name. -/
def fileName? (p : Path) : Option Name :=
  match p.components.getLast? with
  | some (.normal name) => some name
  | _ => none

/-! ## §3. Cutting the spelling at a component. -/

/-- A piece that stands for no component inside a path. -/
def isIdle (piece : Name) : Bool := piece == [] || piece == dot

/-- Drops idle pieces from the end. -/
def trimEnd (pieces : List Name) : List Name :=
  (pieces.reverse.dropWhile isIdle).reverse

/-- Drops the pieces up to and with the first `n` that count, and the idle ones after. -/
def dropPieces (n : Nat) : List Name → List Name
  | [] => []
  | piece :: pieces =>
    if isIdle piece then dropPieces n pieces
    else match n with
      | 0 => piece :: pieces
      | k + 1 => dropPieces k pieces

/-- The spelling of `p` below `base`, if `base` is an absolute path above it. -/
def below? (p base : Path) : Option Path :=
  if p.startsWith base then
    some ⟨joinSlash (trimEnd (dropPieces (base.components.length - 1) (splitSlash p.bytes)))⟩
  else none

/-- The path without its last component, if that is not the root. -/
def parent? (p : Path) : Option Path :=
  match splitSlash p.bytes with
  | [] => none
  | [] :: pieces =>
    match trimEnd pieces with
    | [] => none
    | kept => some ⟨slash :: joinSlash (trimEnd kept.dropLast)⟩
  | piece :: pieces =>
    match trimEnd pieces with
    | [] => some ⟨[]⟩
    | kept => some ⟨joinSlash (piece :: trimEnd kept.dropLast)⟩

/-- `p`, its parent, the parent's parent and so on; `fuel` bounds their number. -/
def ancestorsUpTo : Nat → Path → List Path
  | 0, p => [p]
  | fuel + 1, p =>
    match p.parent? with
    | none => [p]
    | some up => p :: ancestorsUpTo fuel up

/-- `p` and all directories above it, nearest first. -/
def ancestors (p : Path) : List Path := ancestorsUpTo p.bytes.length p

/-- The last component as text, or the whole path if it has no name. -/
def displayName (p : Path) : String :=
  match p.fileName? with
  | some name => Utf8.decodeLossy name
  | none => p.display

end Path

end AssetEmbed
