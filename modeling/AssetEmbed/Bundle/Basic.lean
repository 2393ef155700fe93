/-
  AssetEmbed.Bundle.Basic — the assets of one run.

  A bundle holds assets in strictly ascending byte order of their paths, and
  no two of the identifiers that they declare are equal.  Both facts are part
  of the type; `Bundle.ofAssets` establishes them or names the first clash.

  Main results:
    * `nodup_of_firstClash_eq_none` — without a clash all identifiers differ.
    * `Bundle.ofAssets`             — the only way in.
-/
import AssetEmbed.Asset
import AssetEmbed.Order.Insertion

namespace AssetEmbed

/-! ## §1. Order by path. -/

/-- The byte order of stored paths. -/
def Asset.precedes (a b : Asset) : Bool :=
  decide (Utf8.encode a.path ≤ Utf8.encode b.path)

/-- The assets in byte order of their paths. -/
def sortAssets (assets : List Asset) : List Asset := Order.sortBy Asset.precedes assets

theorem Asset.precedes_total (a b : Asset) : a.precedes b = true ∨ b.precedes a = true := by
  simp only [Asset.precedes, decide_eq_true_eq]
  exact List.le_total _ _

theorem Asset.precedes_trans (a b c : Asset) (hab : a.precedes b = true)
    (hbc : b.precedes c = true) : a.precedes c = true := by
  simp only [Asset.precedes, decide_eq_true_eq] at hab hbc ⊢
  exact List.le_trans hab hbc

/-! ## §2. Clashes of identifiers. -/

/-- Two paths from which one identifier is derived. -/
structure Clash where
  ident : String
  first : String
  second : String
deriving DecidableEq, Repr

/-- Each identifier of each asset with the path that it comes from. -/
def declarations (assets : List Asset) : List (String × String) :=
  assets.flatMap fun a => a.idents.map fun ident => (ident, a.path)

/-- The first entry whose identifier occurs before it, with the path of the
earlier occurrence; `seen` are the entries already passed. -/
def firstClash (seen : List (String × String)) : List (String × String) → Option Clash
  | [] => none
  | (ident, path) :: rest =>
    match seen.lookup ident with
    | some first => some ⟨ident, first, path⟩
    | none => firstClash (seen ++ [(ident, path)]) rest

theorem lookup_eq_none_of_firstClash {seen rest : List (String × String)}
    (h : firstClash seen rest = none) {ident : String}
    (hi : ident ∈ rest.map Prod.fst) : seen.lookup ident = none := by
  induction rest generalizing seen with
  | nil => simp at hi
  | cons entry rest ih =>
    obtain ⟨name, path⟩ := entry
    simp only [firstClash] at h
    split at h
    · cases h
    · next hn =>
      rcases List.mem_cons.1 hi with rfl | hi
      · exact hn
      · have := ih h hi
        rw [List.lookup_append] at this
        simp only [Option.or_eq_none_iff] at this
        exact this.1

theorem nodup_of_firstClash_eq_none {seen rest : List (String × String)}
    (h : firstClash seen rest = none) : (rest.map Prod.fst).Nodup := by
  induction rest generalizing seen with
  | nil => simp
  | cons entry rest ih =>
    obtain ⟨name, path⟩ := entry
    simp only [firstClash] at h
    split at h
    · cases h
    · refine List.nodup_cons.2 ⟨?_, ih h⟩
      intro hm
      have := lookup_eq_none_of_firstClash h hm
      rw [List.lookup_append] at this
      simp at this

theorem map_fst_declarations (assets : List Asset) :
    (declarations assets).map Prod.fst = assets.flatMap Asset.idents := by
  simp [declarations, List.map_flatMap, List.map_map, Function.comp_def]

/-! ## §3. Bundles. -/

/-- Assets with one order and without ambiguous names. -/
structure Bundle where
  root : Path
  assets : List Asset
  sorted : assets.Pairwise fun a b => Utf8.encode a.path < Utf8.encode b.path
  idents_nodup : (assets.flatMap Asset.idents).Nodup

theorem path_ne_of_nodup {a : Asset} {rest : List Asset}
    (h : ((a :: rest).flatMap Asset.idents).Nodup) {b : Asset} (hb : b ∈ rest) :
    a.path ≠ b.path := by
  intro hp
  rw [List.flatMap_cons, List.nodup_append] at h
  refine h.2.2 a.symbol (by simp [Asset.idents]) a.symbol ?_ rfl
  exact List.mem_flatMap.2 ⟨b, hb, by simp [Asset.idents, Asset.symbol, hp]⟩

theorem strict_of_nodup {assets : List Asset}
    (ordered : assets.Pairwise fun a b => a.precedes b = true)
    (nodup : (assets.flatMap Asset.idents).Nodup) :
    assets.Pairwise fun a b => Utf8.encode a.path < Utf8.encode b.path := by
  induction assets with
  | nil => exact .nil
  | cons a rest ih =>
    obtain ⟨ha, hrest⟩ := List.pairwise_cons.1 ordered
    have hn : (rest.flatMap Asset.idents).Nodup := by
      rw [List.flatMap_cons, List.nodup_append] at nodup
      exact nodup.2.1
    refine List.pairwise_cons.2 ⟨fun b hb => ?_, ih hrest hn⟩
    have hle := ha b hb
    simp only [Asset.precedes, decide_eq_true_eq] at hle
    rcases List.le_iff_lt_or_eq.1 hle with h | h
    · exact h
    · exact absurd (Utf8.encode_injective h) (path_ne_of_nodup nodup hb)

namespace Bundle

/-- Sorts the assets and rejects the first ambiguous identifier. -/
def ofAssets (root : Path) (assets : List Asset) : Except BundleError Bundle :=
  match h : firstClash [] (declarations (sortAssets assets)) with
  | some clash => .error (.collision clash.ident clash.first clash.second)
  | none =>
    have nodup := map_fst_declarations (sortAssets assets) ▸ nodup_of_firstClash_eq_none h
    .ok {
      root
      assets := sortAssets assets
      sorted := strict_of_nodup
        (Order.pairwise_sortBy Asset.precedes_total Asset.precedes_trans assets) nodup
      idents_nodup := nodup }

def size (b : Bundle) : Nat := b.assets.length

def isEmpty (b : Bundle) : Bool := b.assets.isEmpty

/-- How many bytes are embedded in all. -/
def totalBytes (b : Bundle) : Nat := b.assets.foldl (fun total a => total + a.bytes.length) 0

end Bundle

end AssetEmbed
