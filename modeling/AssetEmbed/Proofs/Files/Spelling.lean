/-
  AssetEmbed.Proofs.Files.Spelling — the path of a place.

  A place is written name by name after a separator.  Read again, its path has
  the root and the names as components.

  Main results:
    * `components_path` — the components of the path of a place.
    * `startsWith_path` — one path is above another just if its place is.
-/
import AssetEmbed.FileTree.Resolve
import Mathlib.Tactic.ByContra

namespace AssetEmbed

/-! ## §1. Pieces. -/

theorem isAbsolute_join {p q : Path} (h : p.isAbsolute = true) : (p.join q).isAbsolute = true := by
  have hhead : p.bytes.head? = some Path.slash := beq_iff_eq.1 h
  unfold Path.join
  split
  · assumption
  · cases hb : p.bytes with
    | nil =>
      rw [hb] at hhead
      cases hhead
    | cons b bs =>
      rw [hb] at hhead
      split <;> exact beq_iff_eq.2 hhead

namespace Path

theorem splitSlash_of_notMem {piece : Name} (h : slash ∉ piece) : splitSlash piece = [piece] := by
  induction piece with
  | nil => rfl
  | cons b bs ih =>
    have hb : ¬ b = slash := fun hb => h (hb ▸ List.mem_cons_self)
    rw [splitSlash, if_neg hb, ih fun hm => h (List.mem_cons_of_mem b hm)]

/-- A separator divides the pieces. -/
theorem splitSlash_append (bytes rest : List UInt8) :
    splitSlash (bytes ++ slash :: rest) = splitSlash bytes ++ splitSlash rest := by
  induction bytes with
  | nil => simp [splitSlash]
  | cons b bs ih =>
    rw [List.cons_append, splitSlash, splitSlash, ih]
    split
    · rfl
    · cases hpieces : splitSlash bs with
      | nil => exact absurd hpieces (splitSlash_ne_nil bs)
      | cons piece pieces => rfl

/-- Separators at the end make empty pieces. -/
theorem splitSlash_append_slashes {slashes : List UInt8} (h : ∀ b ∈ slashes, b = slash)
    (bytes : List UInt8) :
    splitSlash (bytes ++ slashes) = splitSlash bytes ++ slashes.map fun _ => [] := by
  induction slashes generalizing bytes with
  | nil => simp
  | cons b rest ih =>
    obtain ⟨rfl, hrest⟩ := List.forall_mem_cons.1 h
    rw [splitSlash_append, ← List.nil_append rest, ih hrest]
    rfl

/-- Splitting undoes joining if no piece holds a separator. -/
theorem splitSlash_joinSlash {pieces : List Name} (hne : pieces ≠ [])
    (h : ∀ piece ∈ pieces, slash ∉ piece) : splitSlash (joinSlash pieces) = pieces := by
  induction pieces with
  | nil => exact absurd rfl hne
  | cons piece rest ih =>
    obtain ⟨hpiece, hrest⟩ := List.forall_mem_cons.1 h
    cases rest with
    | nil => exact splitSlash_of_notMem hpiece
    | cons next others =>
      rw [joinSlash, splitSlash_append_slash _ hpiece, ih (List.cons_ne_nil _ _) hrest]
      exact List.cons_ne_nil _ _

theorem Component.ofPiece_ne_root (piece : Name) : ofPiece piece ≠ some .root := by
  unfold ofPiece
  split
  · simp
  · split <;> simp

/-- A path that begins with the root is absolute. -/
theorem isAbsolute_of_components {p : Path} {cs : List Component}
    (h : p.components = .root :: cs) : p.isAbsolute = true := by
  by_contra hrel
  rw [components, if_neg hrel] at h
  cases hs : splitSlash p.bytes with
  | nil =>
    rw [hs] at h
    cases h
  | cons piece pieces =>
    -- a relative path has only the components of its pieces
    have hcomponents : (if piece = dot then [.current] else (Component.ofPiece piece).toList)
        ++ pieces.filterMap Component.ofPiece = .root :: cs := by
      rw [hs] at h
      exact h
    -- and no piece stands for the root
    have hroot : Component.root ∈ (if piece = dot then [.current]
        else (Component.ofPiece piece).toList) ++ pieces.filterMap Component.ofPiece := by
      rw [hcomponents]
      exact List.mem_cons_self
    rcases List.mem_append.1 hroot with hm | hm
    · split at hm
      · cases List.mem_singleton.1 hm
      · exact Component.ofPiece_ne_root piece (Option.mem_toList.1 hm)
    · obtain ⟨other, -, hother⟩ := List.mem_filterMap.1 hm
      exact Component.ofPiece_ne_root other hother

end Path

/-! ## §2. Names. -/

namespace EntryName

variable (name : EntryName)

/-- What a name is not, and what it does not hold. -/
theorem usable_spec : name.bytes ≠ [] ∧ name.bytes ≠ Path.dot ∧ name.bytes ≠ Path.dotDot
    ∧ Path.slash ∉ name.bytes ∧ 0 ∉ name.bytes ∧ name.bytes.length ≤ nameLimit := by
  simpa only [Name.isUsable, Bool.and_eq_true, bne_iff_ne, Bool.not_eq_true', List.contains_eq_mem,
    decide_eq_false_iff_not, decide_eq_true_eq, and_assoc] using name.usable

theorem ne_nil : name.bytes ≠ [] := name.usable_spec.1

theorem ne_dot : name.bytes ≠ Path.dot := name.usable_spec.2.1

theorem ne_dotDot : name.bytes ≠ Path.dotDot := name.usable_spec.2.2.1

theorem slash_notMem : Path.slash ∉ name.bytes := name.usable_spec.2.2.2.1

theorem ofPiece_eq_down : Step.ofPiece name.bytes = .down name := by
  rw [Step.ofPiece, if_neg name.ne_nil, if_neg name.ne_dot, if_neg name.ne_dotDot,
    dif_pos name.usable]

theorem ofPiece_eq_normal : Path.Component.ofPiece name.bytes = some (.normal name.bytes) := by
  rw [Path.Component.ofPiece, if_neg (not_or.2 ⟨name.ne_nil, name.ne_dot⟩), if_neg name.ne_dotDot]

end EntryName

theorem EntryName.bytes_injective : Function.Injective EntryName.bytes := by
  intro a b h
  cases a
  cases b
  cases h
  rfl

/-! ## §3. Places. -/

namespace Location

/-- The names of a place as components. -/
def components (place : Location) : List Path.Component := place.map fun name => .normal name.bytes

theorem isAbsolute_path (place : Location) : (path place).isAbsolute = true := rfl

/-- The pieces of the path of a place. -/
theorem splitSlash_path (place : Location) :
    Path.splitSlash (path place).bytes
      = [] :: (if place = [] then [[]] else place.map EntryName.bytes) := by
  show Path.splitSlash ([] ++ Path.slash :: Path.joinSlash (place.map EntryName.bytes)) = _
  rw [Path.splitSlash_append_slash _ List.not_mem_nil]
  -- the path of the top is a separator alone
  cases place with
  | nil => rfl
  | cons name rest =>
    have hpieces : ∀ piece ∈ (name :: rest).map EntryName.bytes, Path.slash ∉ piece := by
      intro piece hp
      obtain ⟨n, -, rfl⟩ := List.mem_map.1 hp
      exact n.slash_notMem
    rw [Path.splitSlash_joinSlash (by simp) hpieces, if_neg (List.cons_ne_nil _ _)]

/-- A path from the top has the root and the names of its place as components. -/
theorem components_path (place : Location) :
    (path place).components = .root :: place.components := by
  have hnames : (place.map EntryName.bytes).filterMap Path.Component.ofPiece
      = place.components := by
    have hname : Path.Component.ofPiece ∘ EntryName.bytes
        = some ∘ fun name : EntryName => Path.Component.normal name.bytes :=
      funext fun name => name.ofPiece_eq_normal
    rw [List.filterMap_map, hname, List.filterMap_eq_map]
    rfl
  rw [Path.components, if_pos (isAbsolute_path place), splitSlash_path]
  cases place with
  | nil => rfl
  | cons name rest => rw [if_neg (List.cons_ne_nil _ _)]; exact congrArg _ hnames

theorem normal_injective :
    Function.Injective fun name : EntryName => Path.Component.normal name.bytes :=
  fun _ _ h => EntryName.bytes_injective (Path.Component.normal.inj h)

theorem components_isPrefix {place other : Location} :
    place.components <+: other.components ↔ place <+: other :=
  List.prefix_map_iff_of_injective normal_injective

/-- One path from the top is above another just if its place is. -/
theorem startsWith_path (place other : Location) :
    (path other).startsWith (path place) = true ↔ place <+: other := by
  rw [Path.startsWith, components_path, components_path, List.isPrefixOf_iff_prefix,
    List.cons_prefix_cons, components_isPrefix]
  exact and_iff_right rfl

end Location

end AssetEmbed
