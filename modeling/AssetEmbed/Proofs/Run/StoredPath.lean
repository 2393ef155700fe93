/-
  AssetEmbed.Proofs.Run.StoredPath — the path under which a file is embedded.

  A file below the asset root is embedded under the names that lead to it from
  there, with separators between them.  From this path the names can be told
  again, and it leads through a hidden name just if one of them is hidden.

  Main results:
    * `eq_of_storedPath_eq`       — a stored path tells the names.
    * `isHiddenPath_storedPath`   — visible names are visible in it.
    * `Path.components_descend`   — the components of a path below the root.
    * `relativePath_descend`      — under which path a file is embedded.
-/
import AssetEmbed.Proofs.Files.Visible
import AssetEmbed.Proofs.Files.Writing
import AssetEmbed.Run.Collect

namespace AssetEmbed

/-! ## §1. Stored paths. -/

/-- The text of names with `/` between them. -/
def storedPath (names : List Name) : String := String.intercalate "/" (names.map Utf8.decodeLossy)

/-- Whether names are text. -/
def AreText (names : Location) : Prop := ∀ name ∈ names, (Utf8.decode? name.bytes).isSome = true

/-- The names of a place as they are spelled. -/
def Location.names (place : Location) : List Name := place.map EntryName.bytes

namespace Utf8

theorem encode_append (a b : String) : encode (a ++ b) = encode a ++ encode b := by
  rw [encode_eq_flatMap, encode_eq_flatMap, encode_eq_flatMap, String.toList_append,
    List.flatMap_append]

theorem encode_decodeLossy {bytes : List UInt8} (h : (decode? bytes).isSome = true) :
    encode (decodeLossy bytes) = bytes := by
  obtain ⟨text, htext⟩ := Option.isSome_iff_exists.1 h
  unfold decodeLossy
  rw [htext]
  exact encode_of_decode? htext

end Utf8

theorem encode_intercalate (texts : List String) :
    Utf8.encode (String.intercalate "/" texts) = Path.joinSlash (texts.map Utf8.encode) := by
  induction texts with
  | nil => rfl
  | cons text rest ih =>
    cases rest with
    | nil => rw [String.intercalate_singleton]; rfl
    | cons next others =>
      rw [String.intercalate_cons_cons, Utf8.encode_append, Utf8.encode_append, ih,
        List.append_assoc]
      rfl

theorem encode_storedPath {names : Location} (h : AreText names) :
    Utf8.encode (storedPath names.names) = Path.joinSlash names.names := by
  have htexts : ∀ name ∈ names, (Utf8.encode ∘ Utf8.decodeLossy) name.bytes = name.bytes :=
    fun name hm => Utf8.encode_decodeLossy (h name hm)
  unfold storedPath Location.names
  rw [encode_intercalate, List.map_map, List.map_map]
  exact congrArg _ (List.map_congr_left htexts)

theorem slash_notMem_names {names : Location} {piece : Name} (h : piece ∈ names.names) :
    Path.slash ∉ piece := by
  obtain ⟨name, -, rfl⟩ := List.mem_map.1 h
  exact name.slash_notMem

/-- The stored path of a file tells its names. -/
theorem eq_of_storedPath_eq {names names' : Location} (hne : names ≠ []) (hne' : names' ≠ [])
    (h : AreText names) (h' : AreText names') (heq : storedPath names.names = storedPath names'.names) :
    names = names' := by
  have hpieces := congrArg (Path.splitSlash ∘ Utf8.encode) heq
  simp only [Function.comp_apply, encode_storedPath h, encode_storedPath h'] at hpieces
  rw [Path.splitSlash_joinSlash (by simpa [Location.names] using hne) fun _ => slash_notMem_names,
    Path.splitSlash_joinSlash (by simpa [Location.names] using hne') fun _ => slash_notMem_names]
    at hpieces
  exact List.map_injective_iff.2 EntryName.bytes_injective hpieces

theorem isHiddenPath_storedPath {names : Location} (hne : names ≠ []) (h : AreText names)
    (hplain : Directory.Plain names) : isHiddenPath (storedPath names.names) = false := by
  unfold isHiddenPath
  rw [encode_storedPath h,
    Path.splitSlash_joinSlash (by simpa [Location.names] using hne) fun _ => slash_notMem_names]
  rw [List.any_eq_false]
  intro piece hm
  obtain ⟨name, hname, rfl⟩ := List.mem_map.1 hm
  rw [hplain name hname]
  exact Bool.false_ne_true

/-! ## §2. Paths below the asset root. -/

namespace Path

variable {root : Path}

theorem prefix_join (root : Path) (name : EntryName) :
    root.bytes <+: (root.join ⟨name.bytes⟩).bytes := by
  unfold join
  rw [if_neg (Bool.eq_false_iff.1 (isAbsolute_of_plain name.plain))]
  split <;> exact List.prefix_append _ _

theorem join_ne_nil (h : root.bytes ≠ []) (name : EntryName) :
    (root.join ⟨name.bytes⟩).bytes ≠ [] := by
  intro hnil
  have hprefix := root.prefix_join name
  rw [hnil] at hprefix
  exact h (List.prefix_nil.1 hprefix)

theorem prefix_descend (root : Path) (names : Location) :
    root.bytes <+: (root.descend names.names).bytes := by
  induction names generalizing root with
  | nil => exact List.prefix_rfl
  | cons name rest ih => exact (root.prefix_join name).trans (ih _)

theorem components_descend (h : root.bytes ≠ []) (names : Location) :
    (root.descend names.names).components = root.components ++ names.components := by
  induction names generalizing root with
  | nil => exact (List.append_nil _).symm
  | cons name rest ih =>
    refine (ih (join_ne_nil h name)).trans ?_
    rw [components_join h name.plain, List.append_assoc]
    rfl

end Path

/-- Names that are text are read as that text. -/
theorem mapM_decode? {names : Location} (h : AreText names) :
    names.names.mapM Utf8.decode? = some (names.names.map Utf8.decodeLossy) := by
  induction names with
  | nil => rfl
  | cons name rest ih =>
    obtain ⟨hname, hrest⟩ := List.forall_mem_cons.1 h
    obtain ⟨text, htext⟩ := Option.isSome_iff_exists.1 hname
    have hlossy : Utf8.decodeLossy name.bytes = text := by
      unfold Utf8.decodeLossy
      rw [htext]
    have hcons : Location.names (name :: rest) = name.bytes :: Location.names rest := rfl
    rw [hcons, List.mapM_cons, htext, ih hrest, List.map_cons, hlossy]
    rfl

theorem namesOf_components {names : Location} (h : AreText names) :
    namesOf names.components = some (names.names.map Utf8.decodeLossy) := by
  refine (congrArg (List.mapM Utf8.decode?) ?_).trans (mapM_decode? h)
  clear h
  induction names with
  | nil => rfl
  | cons name rest ih => exact congrArg _ ih

/-- A file is embedded under its names below the asset root. -/
theorem relativePath_descend {root : Path} (h : root.bytes ≠ []) {names : Location}
    (htext : AreText names) :
    relativePath root (root.descend names.names) = .ok (storedPath names.names) := by
  have hbelow : (root.descend names.names).componentsBelow? root = some names.components := by
    unfold Path.componentsBelow? Path.startsWith
    rw [Path.components_descend h, if_pos (List.isPrefixOf_iff_prefix.2 (List.prefix_append _ _)),
      List.drop_left]
  unfold relativePath
  rw [hbelow]
  dsimp only
  rw [namesOf_components htext]
  rfl

end AssetEmbed
